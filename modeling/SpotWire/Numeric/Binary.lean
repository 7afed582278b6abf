/-!
Numbers in the binary format of 64 bits: the finite ones, as a sign, a significand below `2 ^ 53`
and an exponent of two. Quotients are rounded to the nearest such number, a tie going to the even
significand, and products and quotients of these numbers are rounded the same way.
-/

namespace SpotWire.Numeric

-- Powers are the ones of the numbers themselves, whatever else is known of powers.
attribute [local instance (high)] instPowNat

/-- The rounding of `num / den` to a whole number, a half going to the even neighbour. -/
def roundHalfEven (num den : Nat) : Nat :=
  let whole := num / den
  let rest := num % den
  if 2 * rest < den then whole
  else if den < 2 * rest then whole + 1
  else whole + whole % 2

/-- The finite number `± significand * 2 ^ exponent`. -/
structure Binary where
  negative : Bool
  significand : Nat
  exponent : Int
deriving DecidableEq, Repr

namespace Binary

def minExponent : Int := -1074

def maxExponent : Int := 971

def precision : Nat := 53

/-- The form in which each number has one representation: the significand fills its 53 bits, or
the exponent is the least one. -/
def Canonical (x : Binary) : Prop :=
  x.significand < 2 ^ precision ∧ minExponent ≤ x.exponent ∧ x.exponent ≤ maxExponent ∧
    (2 ^ (precision - 1) ≤ x.significand ∨ x.exponent = minExponent)

instance (x : Binary) : Decidable x.Canonical := by
  unfold Canonical; infer_instance

def zero (negative : Bool) : Binary :=
  ⟨negative, 0, minExponent⟩

def isZero (x : Binary) : Bool :=
  x.significand == 0

/-- `num / den * 2 ^ shift` as a fraction. -/
def scaled (num den : Nat) (shift : Int) : Nat × Nat :=
  match shift with
  | .ofNat s => (num * 2 ^ s, den)
  | .negSucc s => (num, den * 2 ^ (s + 1))

/-- The exponent at which `num / den`, not zero, has a significand of 53 bits, or the least
exponent where that is larger. -/
def exponentFor (num den : Nat) : Int :=
  let guess : Int := (num.log2 : Int) - (den.log2 : Int) - precision
  let (n, d) := scaled num den (-guess)
  let fitted := if n / d < 2 ^ precision then guess else guess + 1
  max minExponent fitted

/-- The number nearest to `num / den`; `none` when it lies beyond the largest number. -/
def ofRatio? (negative : Bool) (num den : Nat) : Option Binary :=
  if num = 0 then some (zero negative)
  else
    let exponent := exponentFor num den
    let (n, d) := scaled num den (-exponent)
    let significand := roundHalfEven n d
    let x : Binary :=
      if significand < 2 ^ precision then ⟨negative, significand, exponent⟩
      else ⟨negative, 2 ^ (precision - 1), exponent + 1⟩
    if x.exponent ≤ maxExponent then some x else none

def ratio (x : Binary) : Nat × Nat :=
  scaled x.significand 1 x.exponent

def mul? (x y : Binary) : Option Binary :=
  let (xn, xd) := x.ratio
  let (yn, yd) := y.ratio
  ofRatio? (x.negative != y.negative) (xn * yn) (xd * yd)

def div? (x y : Binary) : Option Binary :=
  let (xn, xd) := x.ratio
  let (yn, yd) := y.ratio
  ofRatio? (x.negative != y.negative) (xn * yd) (xd * yn)

/-- The number nearest to `digits * 10 ^ scale`. -/
def ofDecimal? (negative : Bool) (digits : Nat) (scale : Int) : Option Binary :=
  match scale with
  | .ofNat s => ofRatio? negative (digits * 10 ^ s) 1
  | .negSucc s => ofRatio? negative digits (10 ^ (s + 1))

def isPositive (x : Binary) : Bool :=
  !x.negative && !x.isZero

def isOneOrMore (x : Binary) : Bool :=
  let (num, den) := x.ratio
  !x.negative && den ≤ num

/-- The size of the number in units of `10 ^ -places`, to the nearest unit, a half going to the
even neighbour. -/
def inUnits (places : Nat) (x : Binary) : Nat :=
  let (num, den) := x.ratio
  roundHalfEven (num * 10 ^ places) den

end Binary

end SpotWire.Numeric
