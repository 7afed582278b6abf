import SpotWire.Numeric.Decimal
import SpotWire.Numeric.Width

/-!
Reading decimal numbers, plain or with an exponent of ten.

A plain number is a sign, digits and at most one point; underscores may stand after the first
digit. Of a fraction with more places than fit, the first digit left over decides the rounding and
all that follows is not looked at. A number with an exponent is a plain number, the letter `e` and
a whole number.
-/

namespace SpotWire.Numeric.Decimal

-- Powers are the ones of the numbers themselves, whatever else is known of powers.
attribute [local instance (high)] instPowNat

structure Progress where
  mantissa : Nat
  scale : Nat
  afterPoint : Bool
  anyDigit : Bool

def digitValue (c : Char) : Nat :=
  c.toNat - '0'.toNat

/-- The number with the digit that follows it rounded off. A mantissa that outgrows its bits gives
up one place. -/
def roundUp? (negative : Bool) (mantissa scale digit : Nat) : Option Decimal :=
  if digit < 5 then some (unsignedZero negative mantissa scale)
  else if mantissa + 1 < mantissaBound then some (unsignedZero negative (mantissa + 1) scale)
  else
    match scale with
    | 0 => none
    | scale + 1 => some (unsignedZero negative ((mantissa + 5) / 10) scale)

/-- The number when no further digit fits: the next character decides. -/
def roundOff? (negative : Bool) (mantissa scale : Nat) : List Char → Option Decimal
  | [] => some (unsignedZero negative mantissa scale)
  | c :: rest =>
      if c.isDigit then roundUp? negative mantissa scale (digitValue c)
      else if c = '_' then roundOff? negative mantissa scale rest
      else if c = '.' then some (unsignedZero negative mantissa scale)
      else none

def plainFrom? (negative : Bool) (read : Progress) : List Char → Option Decimal
  | [] => if read.anyDigit then some (unsignedZero negative read.mantissa read.scale) else none
  | c :: rest =>
      if c.isDigit then
        let mantissa := read.mantissa * 10 + digitValue c
        let scale := if read.afterPoint then read.scale + 1 else read.scale
        if mantissaBound ≤ mantissa then
          if read.afterPoint then
            roundUp? negative read.mantissa read.scale (digitValue c)
          else none
        else if read.afterPoint && maxScale ≤ scale then
          roundOff? negative mantissa scale rest
        else plainFrom? negative { read with mantissa, scale, anyDigit := true } rest
      else if c = '.' && !read.afterPoint then
        plainFrom? negative { read with afterPoint := true } rest
      else if c = '_' && read.anyDigit then plainFrom? negative read rest
      else none

def plain? : List Char → Option Decimal
  | '-' :: rest => plainFrom? true ⟨0, 0, false, false⟩ rest
  | '+' :: rest => plainFrom? false ⟨0, 0, false, false⟩ rest
  | text => plainFrom? false ⟨0, 0, false, false⟩ text

def digits? (text : List Char) : Option Nat :=
  if text.isEmpty || !text.all Char.isDigit then none else some (Nat.ofDigitChars 10 text 0)

/-- The size of an exponent: digits, perhaps after a plus sign, for a number of 32 bits. -/
def exponentSize? (text : List Char) : Option Nat :=
  let digits :=
    match text with
    | '+' :: rest => rest
    | _ => text
  (digits? digits).filter (· ≤ word32Max)

/-- Lowers a number by a power of ten. The places that are then more than there can be are
rounded off. -/
def lower? (x : Decimal) (exponent : Nat) : Option Decimal :=
  if maxScale < exponent then none
  else if x.scale + exponent ≤ maxScale then some { x with scale := x.scale + exponent }
  else some { x.roundTo (maxScale - exponent) with scale := maxScale }

def raise? (x : Decimal) (exponent : Nat) : Option Decimal :=
  if exponent ≤ x.scale then some { x with scale := x.scale - exponent }
  else if maxScale < exponent then none
  else
    let mantissa := x.mantissa * 10 ^ (exponent - x.scale)
    if mantissa < mantissaBound then some (unsignedZero x.negative mantissa 0) else none

def isExponentMark (c : Char) : Bool :=
  c == 'e' || c == 'E'

def scientific? (text : List Char) : Option Decimal := do
  let base := text.takeWhile fun c => !isExponentMark c
  match text.dropWhile fun c => !isExponentMark c with
  | [] => none
  | _ :: exponent =>
      let x ← plain? base
      match exponent with
      | '-' :: size => x.lower? (← exponentSize? size)
      | size => x.raise? (← exponentSize? size)

def ofText? (text : List Char) : Option Decimal :=
  plain? text <|> scientific? text

end SpotWire.Numeric.Decimal
