import SpotWire.Numeric.Binary

/-!
The shortest decimal that reads back as a given binary number: the coarsest decimal grid that has
a point in the interval of values which round to that number, and of the points there the nearest.
-/

namespace SpotWire.Numeric

-- Powers are the ones of the numbers themselves, whatever else is known of powers.
attribute [local instance (high)] instPowNat

/-- `digits * 10 ^ exponent`. -/
structure Digits where
  digits : Nat
  exponent : Int
deriving DecidableEq, Repr

namespace Binary

/-- The interval of sizes that round to a number, in quarters of its last binary place: its lower
end, the number itself, its upper end. Below a power of two the numbers stand twice as close. -/
def interval (x : Binary) : Nat × Nat × Nat :=
  let lower :=
    if x.significand = 2 ^ (precision - 1) ∧ minExponent < x.exponent then 1 else 2
  (4 * x.significand - lower, 4 * x.significand, 4 * x.significand + 2)

/-- The ends belong to the interval when a tie would go to this number. -/
def endsIncluded (x : Binary) : Bool :=
  x.significand % 2 == 0

/-- The point of the grid `10 ^ exponent` that is nearest to the number, if one of the number's
two neighbours on that grid lies in its interval. -/
def gridPoint? (x : Binary) (exponent : Int) : Option Nat :=
  let (low, mid, high) := x.interval
  let (unit, den) := scaled 1 1 (x.exponent - 2)
  let (num, step) :=
    match exponent with
    | .ofNat e => (unit, den * 10 ^ e)
    | .negSucc e => (unit * 10 ^ (e + 1), den)
  let inside (point : Nat) : Bool :=
    if x.endsIncluded then low * num ≤ point * step && point * step ≤ high * num
    else low * num < point * step && point * step < high * num
  let below := mid * num / step
  let above := below + 1
  match inside below && below != 0, inside above with
  | true, true =>
      if mid * num - below * step ≤ above * step - mid * num then some below else some above
  | true, false => some below
  | false, true => some above
  | false, false => none

/-- Tries grids from coarse to fine. -/
def shortestFrom (x : Binary) : Nat → Int → Digits
  | 0, exponent => ⟨(x.gridPoint? exponent).getD 0, exponent⟩
  | tries + 1, exponent =>
      match x.gridPoint? exponent with
      | some point => ⟨point, exponent⟩
      | none => shortestFrom x tries (exponent - 1)

/-- An exponent of ten above the size of the number by at most two places. -/
def decimalTop (x : Binary) : Int :=
  let bits : Int := (x.significand.log2 : Int) + x.exponent
  (bits * 30103) / 100000 + 1

/-- The shortest decimal that reads back as the size of a number other than zero. -/
def shortest (x : Binary) : Digits :=
  x.shortestFrom 20 x.decimalTop

/-- Digits with an exponent written without one, and without a point where no digit follows it. -/
def positional (found : Digits) : List Char :=
  let digits := Nat.toDigits 10 found.digits
  match found.exponent with
  | .ofNat zeros => digits ++ List.replicate zeros '0'
  | .negSucc places =>
      let padded := List.replicate (places + 2 - digits.length) '0' ++ digits
      let whole := padded.length - (places + 1)
      padded.take whole ++ '.' :: padded.drop whole

/-- The shortest text without an exponent that reads back as the number. -/
def plainText (x : Binary) : List Char :=
  (if x.negative then ['-'] else []) ++ if x.isZero then ['0'] else positional x.shortest

end Binary

end SpotWire.Numeric
