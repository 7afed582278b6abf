import SpotWire.Proofs.Market.Places

/-!
# The values of increments

The places of an increment in the binary format are the fewest in which its value can be written
once it is rounded (`isLeast_approximatePlaces`), and no increment has more than ten
(`places_le_ten`). What the program takes for positive is what is above zero, infinity included
(`isPositive_iff`).
-/

namespace SpotWire.Increment

open Numeric

variable {x : Binary} {units places : ℕ}

/-! ### Places in the binary format -/

theorem significantPlaces_le (units places : ℕ) : significantPlaces units places ≤ places := by
  induction places generalizing units with
  | zero => exact le_rfl
  | succ places ih =>
      rw [significantPlaces]
      split
      · exact Nat.le_succ_of_le (ih _)
      · exact le_rfl

theorem significantPlaces_eq (negative : Bool) (units places : ℕ) :
    significantPlaces units places = (Decimal.stripZeros negative units places).scale := by
  induction places generalizing units with
  | zero => rfl
  | succ places ih =>
      rw [significantPlaces, Decimal.stripZeros]
      split
      · exact ih _
      · rfl

/-- The value of a number of the binary format, rounded to ten places. -/
def tenth (x : Binary) : ℤ :=
  Decimal.sign x.negative * x.inUnits maxPlaces

theorem isNearest_tenth (x : Binary) : IsNearest (x.value * 10 ^ 10) (tenth x) := by
  have hnearest := isNearest_nearestEven (x.size * 10 ^ 10)
  rw [show (10 : ℕ) = maxPlaces from rfl, ← Binary.inUnits_eq] at hnearest
  rw [tenth]
  cases hnegative : x.negative with
  | false =>
      rw [Binary.value_of_nonneg hnegative, Decimal.sign, if_neg Bool.false_ne_true, one_mul]
      exact hnearest
  | true =>
      rw [Binary.value_of_negative hnegative, Decimal.sign, if_pos rfl, neg_one_mul, neg_mul]
      exact hnearest.neg

theorem approximatePlaces_of_one_le (h : 1 ≤ x.value) : approximatePlaces (.finite x) = 0 := by
  rw [approximatePlaces, if_pos (Binary.isOneOrMore_iff.mpr h)]

theorem isLeast_approximatePlaces (h : x.value < 1) :
    IsLeast {places | HasPlaces (tenth x / 10 ^ 10) places} (approximatePlaces (.finite x)) := by
  have hbelow : ¬x.isOneOrMore = true := by
    rw [Binary.isOneOrMore_iff]
    exact not_le.mpr h
  have hleast := Decimal.isLeast_scale_of_reduced
    (Decimal.reduced_stripZeros x.negative (x.inUnits maxPlaces) maxPlaces)
  have hvalue : (⟨x.negative, x.inUnits maxPlaces, maxPlaces⟩ : Decimal).value =
      tenth x / 10 ^ 10 := by
    rw [Decimal.value, tenth]
    push_cast
    rw [mul_div_assoc]
    rfl
  rw [Decimal.value_stripZeros, hvalue, ← significantPlaces_eq] at hleast
  rwa [approximatePlaces, if_neg hbelow]

theorem places_le_ten (increment : Increment) : increment.places ≤ 10 := by
  cases increment with
  | exact value => exact (isPlacesOf_exactPlaces value).le_ten
  | approximate value =>
      cases value with
      | finite x =>
          rw [places, approximatePlaces]
          split
          · exact Nat.zero_le _
          · exact significantPlaces_le _ _
      | infinite | notANumber => exact Nat.zero_le _

/-! ### Increments above zero -/

/-- An increment is above zero: as a number, or as infinity. -/
def IsAboveZero : Increment → Prop
  | .exact value => 0 < value.value
  | .approximate (.finite value) => 0 < value.value
  | .approximate (.infinite negative) => negative = false
  | .approximate .notANumber => False

theorem isPositive_iff {increment : Increment} :
    increment.isPositive = true ↔ increment.IsAboveZero := by
  cases increment with
  | exact value => exact Decimal.isPositive_eq_true_iff
  | approximate value =>
      cases value with
      | finite value => exact Binary.isPositive_iff
      | infinite negative =>
          cases negative <;> simp [isPositive, Binary.Extended.isPositive, IsAboveZero]
      | notANumber => simp [isPositive, Binary.Extended.isPositive, IsAboveZero]

/-- The text that precision is derived from is one of an increment above zero. -/
theorem positive?_eq_some_iff {size : Option String} {text : String} :
    positive? size = some text ↔
      size = some text ∧ ∃ increment, ofText? text = some increment ∧ increment.IsAboveZero := by
  rw [positive?, Option.filter_eq_some_iff, Option.any_eq_true]
  simp only [isPositive_iff]

theorem positive?_eq_none_iff {size : Option String} :
    positive? size = none ↔
      ∀ text increment, size = some text → ofText? text = some increment →
        ¬increment.IsAboveZero := by
  rw [Option.eq_none_iff_forall_ne_some]
  simp only [ne_eq, positive?_eq_some_iff]
  constructor
  · intro h text increment hsize htext habove
    exact h text ⟨hsize, increment, htext, habove⟩
  · rintro h text ⟨hsize, increment, htext, habove⟩
    exact h text increment hsize htext habove

end SpotWire.Increment
