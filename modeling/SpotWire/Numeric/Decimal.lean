/-!
Decimal numbers with a mantissa of 96 bits and up to 28 places: rounding, the form without
trailing zeros, order and text.
-/

namespace SpotWire.Numeric

-- Powers are the ones of the numbers themselves, whatever else is known of powers.
attribute [local instance (high)] instPowNat

/-- The number `± mantissa * 10 ^ -scale`. -/
structure Decimal where
  negative : Bool
  mantissa : Nat
  scale : Nat
deriving DecidableEq, Repr

namespace Decimal

def mantissaBound : Nat := 1 <<< 96

def maxScale : Nat := 28

def Representable (x : Decimal) : Prop :=
  x.mantissa < mantissaBound ∧ x.scale ≤ maxScale

/-- A number whose zero carries no sign. -/
def unsignedZero (negative : Bool) (mantissa scale : Nat) : Decimal :=
  ⟨negative && mantissa != 0, mantissa, scale⟩

def isZero (x : Decimal) : Bool :=
  x.mantissa == 0

def isPositive (x : Decimal) : Bool :=
  !x.negative && !x.isZero

def isOneOrMore (x : Decimal) : Bool :=
  !x.negative && 10 ^ x.scale ≤ x.mantissa

/-- The number with at most `places` places, a half going away from zero. -/
def roundTo (places : Nat) (x : Decimal) : Decimal :=
  if x.scale ≤ places then x
  else
    let unit := 10 ^ (x.scale - places)
    ⟨x.negative, (x.mantissa + unit / 2) / unit, places⟩

/-- Takes trailing zeros off a fraction of the given number of places. -/
def stripZeros (negative : Bool) (mantissa : Nat) : Nat → Decimal
  | 0 => ⟨negative, mantissa, 0⟩
  | scale + 1 =>
      if mantissa % 10 = 0 then stripZeros negative (mantissa / 10) scale
      else ⟨negative, mantissa, scale + 1⟩

/-- The same number with the fewest places; a zero loses its sign. -/
def normalize (x : Decimal) : Decimal :=
  if x.isZero then ⟨false, 0, 0⟩ else stripZeros x.negative x.mantissa x.scale

/-- The text with all places written, and a digit before the point. -/
def text (x : Decimal) : List Char :=
  let digits := Nat.toDigits 10 x.mantissa
  let padded := List.replicate (x.scale + 1 - digits.length) '0' ++ digits
  let whole := padded.take (padded.length - x.scale)
  let fraction := padded.drop (padded.length - x.scale)
  (if x.negative then ['-'] else []) ++ whole ++ (if x.scale = 0 then [] else '.' :: fraction)

end Decimal

end SpotWire.Numeric
