import SpotWire.Numeric.Binary

/-!
Reading a decimal text as the nearest number of the binary format. Words for infinity and for "not
a number" are read too, in any letter case.
-/

namespace SpotWire.Numeric.Binary

/-- A number of the binary format or one of the values beyond its numbers. -/
inductive Extended where
  | finite (x : Binary)
  | infinite (negative : Bool)
  | notANumber
deriving DecidableEq, Repr

namespace Extended

def isPositive : Extended → Bool
  | .finite x => x.isPositive
  | .infinite negative => !negative
  | .notANumber => false

end Extended

/-- The number nearest to `digits * 10 ^ scale`. The size of a number far outside the format is
decided from the count of its digits. -/
def nearest (negative : Bool) (digits : Nat) (scale : Int) : Extended :=
  let top := scale + ((Nat.toDigits 10 digits).length : Int)
  if digits = 0 ∨ top < -400 then .finite (zero negative)
  else if 400 < top then .infinite negative
  else
    match ofDecimal? negative digits scale with
    | some x => .finite x
    | none => .infinite negative

def exponent? : List Char → Option Int
  | [] => some 0
  | mark :: rest =>
      if mark != 'e' && mark != 'E' then none
      else
        let (negative, digits) :=
          match rest with
          | '-' :: digits => (true, digits)
          | '+' :: digits => (false, digits)
          | digits => (false, digits)
        if digits.isEmpty || !digits.all Char.isDigit then none
        else
          let size : Int := Nat.ofDigitChars 10 digits 0
          some (if negative then -size else size)

def unsigned? (negative : Bool) (text : List Char) : Option Extended :=
  let word := text.map Char.toLower
  if word = "inf".toList ∨ word = "infinity".toList then some (.infinite negative)
  else if word = "nan".toList then some .notANumber
  else
    let whole := text.takeWhile Char.isDigit
    let afterWhole := text.dropWhile Char.isDigit
    let (fraction, rest) :=
      match afterWhole with
      | '.' :: more => (more.takeWhile Char.isDigit, more.dropWhile Char.isDigit)
      | more => ([], more)
    if whole.isEmpty && fraction.isEmpty then none
    else
      (exponent? rest).map fun exponent =>
        nearest negative (Nat.ofDigitChars 10 (whole ++ fraction) 0)
          (exponent - (fraction.length : Int))

def ofText? : List Char → Option Extended
  | '-' :: rest => unsigned? true rest
  | '+' :: rest => unsigned? false rest
  | text => unsigned? false text

end SpotWire.Numeric.Binary
