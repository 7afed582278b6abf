import SpotWire.Json.Node

/-!
The numerals of JSON text and the numbers that they denote.

A numeral without fraction and exponent that fits 64 bits is a whole number, except for a negative
zero. For every other numeral the digits are gathered into a significand of 64 bits for as long as
it has room; the significand, rounded to a binary number, is then multiplied or divided by a power
of ten that is itself rounded. The result may differ from the nearest binary number in its last
place.
-/

namespace SpotWire.Json

open Numeric

structure Numeral where
  negative : Bool
  whole : List Char
  /-- The digits after the point, at least one. -/
  fraction : Option (List Char)
  /-- Whether the exponent is negative, and its digits, at least one. -/
  exponent : Option (Bool × List Char)
deriving DecidableEq, Repr

namespace Numeral

/-- Gathers the digits before the point; when one has no room, it and all that follow only count
as places. -/
def gatherWhole (significand : Nat) : List Char → Nat × Nat
  | [] => (significand, 0)
  | c :: rest =>
      let next := significand * 10 + (c.toNat - '0'.toNat)
      if next ≤ word64Max then gatherWhole next rest else (significand, rest.length + 1)

/-- Gathers the digits after the point, each one a place; when one has no room, it and all that
follow are left out. -/
def gatherFraction (significand places : Nat) : List Char → Nat × Nat
  | [] => (significand, places)
  | c :: rest =>
      let next := significand * 10 + (c.toNat - '0'.toNat)
      if next ≤ word64Max then gatherFraction next (places + 1) rest
      else (significand, places)

/-- The nearest number of 32 bits. -/
def clamp (n : Int) : Int :=
  max int32Min (min n int32Max)

/-- The power of ten nearest to `10 ^ exponent`, up to `10 ^ 308`. -/
def power? (exponent : Nat) : Option Binary :=
  if exponent ≤ 308 then Binary.ofDecimal? false 1 exponent else none

/-- Divides by `10 ^ 308` while the exponent is below what one power of ten can make up for. -/
def lower (size : Binary) : Nat → Nat → Option Binary
  | 0, _ => some size
  | tries + 1, exponent =>
      match power? exponent with
      | some power => size.div? power
      | none =>
          if size.isZero then some size
          else do
            let power ← power? 308
            let size ← size.div? power
            lower size tries (exponent - 308)

/-- `significand * 10 ^ exponent`; `none` when that is beyond the largest number. -/
def scale? (negative : Bool) (significand : Nat) (exponent : Int) : Option Binary := do
  let size ← Binary.ofRatio? false significand 1
  let size ←
    match exponent with
    | .ofNat up =>
        match power? up with
        | some power => size.mul? power
        | none => if size.isZero then some size else none
    | .negSucc down => lower size 4 (down + 1)
  some { size with negative }

def number (numeral : Numeral) : Except Fault Number :=
  let (significand, dropped) := gatherWhole 0 numeral.whole
  match numeral.fraction, numeral.exponent with
  | none, none =>
      if dropped = 0 ∧ !numeral.negative then .ok (.integer significand)
      else if dropped = 0 ∧ 0 < significand ∧ int64Min ≤ -(significand : Int) then
        .ok (.integer (-(significand : Int)))
      else real numeral.negative significand dropped
  | fraction, exponent =>
      let (significand, places) := gatherFraction significand 0 (fraction.getD [])
      let start : Int := (dropped : Int) - (places : Int)
      match exponent with
      | none => real numeral.negative significand start
      | some (lowered, digits) =>
          let size := Nat.ofDigitChars 10 digits 0
          if int32Max < size then
            if significand ≠ 0 ∧ !lowered then .error .numberOutOfRange
            else .ok (.real (Binary.zero numeral.negative))
          else
            real numeral.negative significand
              (clamp (if lowered then start - size else start + size))
where
  real (negative : Bool) (significand : Nat) (exponent : Int) : Except Fault Number :=
    match scale? negative significand exponent with
    | some x => .ok (.real x)
    | none => .error .numberOutOfRange

end Numeral

end SpotWire.Json
