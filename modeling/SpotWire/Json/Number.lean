import SpotWire.Numeric.Shortest
import SpotWire.Numeric.Width

/-!
Numbers of JSON: a whole number that fits 64 bits, signed or unsigned, is kept as it is; every
other number is a finite number of the binary format.
-/

namespace SpotWire.Json

open Numeric (Binary)

inductive Number where
  | integer (value : Int)
  | real (value : Binary)
deriving DecidableEq, Repr

namespace Number

/-- The whole numbers that are kept as they are. -/
def Whole (value : Int) : Prop :=
  Numeric.int64Min ≤ value ∧ value ≤ Numeric.word64Max

instance (value : Int) : Decidable (Whole value) := by
  unfold Whole; infer_instance

def integerText (value : Int) : List Char :=
  (if value < 0 then ['-'] else []) ++ Nat.toDigits 10 value.natAbs

structure RealFormat where
  /-- The least and the greatest place of the first digit that are written without exponent; the
  place before the point is 1. -/
  leastPlace : Int
  greatestPlace : Int
  exponentMark : Char
  /-- Stands before an exponent that is not negative. -/
  exponentSign : List Char

/-- From 0.00001 up to, not including, 10 ^ 16 without exponent, else with a signed exponent. -/
def format : RealFormat :=
  ⟨-4, 16, 'e', ['+']⟩

/-- A size written without exponent has a digit before the point and one after it. -/
def positionalText (digits : List Char) (place : Int) : List Char :=
  match place with
  | .ofNat 0 => ['0', '.'] ++ digits
  | .negSucc zeros => ['0', '.'] ++ List.replicate (zeros + 1) '0' ++ digits
  | .ofNat (whole + 1) =>
      if digits.length ≤ whole + 1 then
        digits ++ List.replicate (whole + 1 - digits.length) '0' ++ ['.', '0']
      else digits.take (whole + 1) ++ ['.'] ++ digits.drop (whole + 1)

def scientificText (form : RealFormat) (digits : List Char) (exponent : Int) : List Char :=
  let point : List Char := if digits.length ≤ 1 then [] else ['.']
  digits.take 1 ++ point ++ digits.drop 1 ++ [form.exponentMark] ++
    (if exponent < 0 then ['-'] else form.exponentSign) ++ Nat.toDigits 10 exponent.natAbs

def sizeText (form : RealFormat) (x : Binary) : List Char :=
  if x.isZero then ['0', '.', '0']
  else
    let shortest := x.shortest
    let digits := Nat.toDigits 10 shortest.digits
    let place := (digits.length : Int) + shortest.exponent
    if form.leastPlace ≤ place ∧ place ≤ form.greatestPlace then positionalText digits place
    else scientificText form digits (place - 1)

def realText (x : Binary) : List Char :=
  (if x.negative then ['-'] else []) ++ sizeText format x

def text : Number → List Char
  | .integer value => integerText value
  | .real value => realText value

end Number

end SpotWire.Json
