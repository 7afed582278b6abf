import Mathlib.Algebra.Order.Floor.Ring
import Mathlib.Data.Rat.Floor
import Mathlib.Order.Bounds.Basic
import Mathlib.Tactic.FieldSimp
import Mathlib.Tactic.Linarith
import Mathlib.Tactic.Positivity
import Mathlib.Tactic.Push
import SpotWire.Numeric.Decimal

/-!
# Decimal numbers as rational numbers

A decimal number is a sign, a mantissa and a number of places, and has a value. Rounding its
mantissa is rounding its value (`value_roundTo`), and its form without trailing zeros has the fewest
places that its value can be written with (`isLeast_scale_normalize`).
-/

namespace SpotWire.Numeric

/-! ### Rounding rational numbers -/

/-- The whole number nearest to a number, a half going away from zero. -/
def nearestWhole (v : ℚ) : ℤ :=
  if 0 ≤ v then ⌊v + 1 / 2⌋ else -⌊-v + 1 / 2⌋

/-- A number rounded to a number of places, a half going away from zero. -/
def rounded (places : ℕ) (v : ℚ) : ℚ :=
  nearestWhole (v * 10 ^ places) / 10 ^ places

/-- A number can be written with so many places. -/
def HasPlaces (v : ℚ) (places : ℕ) : Prop :=
  ∃ n : ℤ, v * 10 ^ places = n

theorem nearestWhole_neg (v : ℚ) : nearestWhole (-v) = -nearestWhole v := by
  unfold nearestWhole
  rcases lt_trichotomy v 0 with hneg | rfl | hpos
  · rw [if_pos (by linarith), if_neg (by linarith), neg_neg]
  · norm_num
  · rw [if_neg (by linarith), if_pos hpos.le, neg_neg]

theorem nearestWhole_natDiv (m : ℕ) {unit : ℕ} (hunit : 0 < unit) (heven : 2 ∣ unit) :
    nearestWhole (m / unit) = ((m + unit / 2) / unit : ℕ) := by
  obtain ⟨half, rfl⟩ := heven
  have hhalf : (half : ℚ) ≠ 0 := by
    have : half ≠ 0 := by omega
    exact_mod_cast this
  have hsum : (m / (2 * half : ℕ) + 1 / 2 : ℚ) = ((m + half : ℕ) : ℚ) / ((2 * half : ℕ) : ℚ) := by
    push_cast
    field_simp
  rw [nearestWhole, if_pos (by positivity), hsum, Nat.mul_div_cancel_left half (by decide)]
  exact Rat.floor_natCast_div_natCast (m + half) (2 * half)

theorem nearestWhole_intCast (n : ℤ) : nearestWhole n = n := by
  have hnat : ∀ m : ℕ, nearestWhole m = m := by
    intro m
    have h := nearestWhole_natDiv (m * 2) Nat.two_pos (dvd_refl 2)
    rw [Nat.cast_mul, mul_div_assoc] at h
    norm_num at h
    rw [h]
    omega
  obtain ⟨m, rfl | rfl⟩ := n.eq_nat_or_neg
  · exact_mod_cast hnat m
  · rw [Int.cast_neg, nearestWhole_neg]
    exact_mod_cast congrArg Neg.neg (hnat m)

theorem hasPlaces_rounded (places : ℕ) (v : ℚ) : HasPlaces (rounded places v) places := by
  refine ⟨nearestWhole (v * 10 ^ places), ?_⟩
  rw [rounded]
  field_simp

theorem HasPlaces.rounded_eq {places : ℕ} {v : ℚ} (h : HasPlaces v places) :
    rounded places v = v := by
  obtain ⟨n, hn⟩ := h
  rw [rounded, hn, nearestWhole_intCast, ← hn]
  field_simp

/-- Rounding a number and lowering it is rounding the lowered one to as many places more. -/
theorem rounded_lowered (places size : ℕ) (v : ℚ) :
    rounded (places + size) (v * 10 ^ (-(size : ℤ))) =
      rounded places v * 10 ^ (-(size : ℤ)) := by
  have hshift : v * 10 ^ (-(size : ℤ)) * 10 ^ (places + size) = v * 10 ^ places := by
    rw [zpow_neg, zpow_natCast, pow_add]
    field_simp
  rw [rounded, rounded, hshift, zpow_neg, zpow_natCast, pow_add]
  field_simp

/-! ### Values -/

namespace Decimal

def sign (negative : Bool) : ℤ :=
  if negative then -1 else 1

def value (x : Decimal) : ℚ :=
  sign x.negative * (x.mantissa / 10 ^ x.scale)

theorem nearestWhole_sign_mul (negative : Bool) (v : ℚ) :
    nearestWhole (sign negative * v) = sign negative * nearestWhole v := by
  cases negative with
  | false => simp [sign]
  | true => simpa [sign] using nearestWhole_neg v

theorem value_unsignedZero (negative : Bool) (mantissa scale : ℕ) :
    (unsignedZero negative mantissa scale).value =
      (⟨negative, mantissa, scale⟩ : Decimal).value := by
  cases hzero : mantissa != 0 with
  | true => rw [unsignedZero, hzero, Bool.and_true]
  | false =>
      obtain rfl : mantissa = 0 := by simpa using hzero
      simp [value, unsignedZero]

theorem value_lowered (negative : Bool) (mantissa scale size : ℕ) :
    (⟨negative, mantissa, scale + size⟩ : Decimal).value =
      (⟨negative, mantissa, scale⟩ : Decimal).value * 10 ^ (-(size : ℤ)) := by
  rw [value, value, pow_add, zpow_neg, zpow_natCast]
  field_simp

theorem isOneOrMore_eq_true_iff {x : Decimal} : x.isOneOrMore = true ↔ 1 ≤ x.value := by
  have hpow : (0 : ℚ) < 10 ^ x.scale := by positivity
  rw [isOneOrMore, value]
  cases x.negative with
  | false =>
      rw [Bool.not_false, Bool.true_and, decide_eq_true_iff]
      simp only [sign, Bool.false_eq_true, if_false, Int.cast_one, one_mul]
      rw [one_le_div hpow]
      exact_mod_cast Iff.rfl
  | true =>
      have hnonneg : (0 : ℚ) ≤ x.mantissa / 10 ^ x.scale := by positivity
      constructor
      · intro h
        cases h
      · intro h
        simp only [sign, if_true, Int.cast_neg, Int.cast_one, neg_mul, one_mul] at h
        linarith

theorem isPositive_eq_true_iff {x : Decimal} : x.isPositive = true ↔ 0 < x.value := by
  have hpow : (0 : ℚ) < 10 ^ x.scale := by positivity
  rw [isPositive, isZero, value]
  cases x.negative with
  | false =>
      simp only [sign, Bool.false_eq_true, if_false, Int.cast_one, one_mul]
      rw [div_pos_iff_of_pos_right hpow]
      simp [Nat.pos_iff_ne_zero]
  | true =>
      have hnonneg : (0 : ℚ) ≤ x.mantissa / 10 ^ x.scale := by positivity
      simpa [sign] using hnonneg

/-! ### Rounding -/

theorem hasPlaces_value {x : Decimal} {places : ℕ} (h : x.scale ≤ places) :
    HasPlaces x.value places := by
  refine ⟨sign x.negative * (x.mantissa * 10 ^ (places - x.scale) : ℕ), ?_⟩
  have hpow : (10 : ℚ) ^ places = 10 ^ x.scale * 10 ^ (places - x.scale) := by
    rw [← pow_add, Nat.add_sub_cancel' h]
  rw [value, hpow]
  push_cast
  field_simp

theorem value_roundTo (x : Decimal) (places : ℕ) :
    (x.roundTo places).value = rounded places x.value := by
  by_cases hscale : x.scale ≤ places
  · rw [roundTo, if_pos hscale]
    exact (hasPlaces_value hscale).rounded_eq.symm
  · obtain ⟨more, hmore⟩ : ∃ more, x.scale = places + (more + 1) :=
      ⟨x.scale - places - 1, by omega⟩
    have heven : 2 ∣ 10 ^ (more + 1) := dvd_pow (by decide) (Nat.succ_ne_zero more)
    have hshift : x.value * 10 ^ places =
        sign x.negative * (x.mantissa / (10 ^ (more + 1) : ℕ)) := by
      rw [value, hmore, pow_add]
      push_cast
      field_simp
    rw [rounded, hshift, nearestWhole_sign_mul, nearestWhole_natDiv _ (by positivity) heven,
      roundTo, if_neg hscale, value]
    have hsub : x.scale - places = more + 1 := by omega
    rw [hsub, Int.cast_mul, Int.cast_natCast, mul_div_assoc]

theorem scale_roundTo {x : Decimal} {places : ℕ} (h : places < x.scale) :
    (x.roundTo places).scale = places := by
  rw [roundTo, if_neg (Nat.not_le_of_lt h)]

/-! ### The fewest places -/

/-- No place is a trailing zero. -/
def Reduced (x : Decimal) : Prop :=
  x.scale = 0 ∨ x.mantissa % 10 ≠ 0

theorem isLeast_scale_of_reduced {x : Decimal} (h : x.Reduced) :
    IsLeast {places | HasPlaces x.value places} x.scale := by
  refine ⟨hasPlaces_value le_rfl, ?_⟩
  rintro places ⟨n, hn⟩
  by_contra hless
  obtain ⟨more, hmore⟩ : ∃ more, x.scale = places + (more + 1) :=
    ⟨x.scale - places - 1, by omega⟩
  rcases h with hscale | hmantissa
  · omega
  · -- with fewer places the mantissa would be a multiple of ten
    have hmultiple : sign x.negative * (x.mantissa : ℤ) = n * 10 ^ (more + 1) := by
      have hvalue : (sign x.negative * x.mantissa : ℚ) = n * 10 ^ (more + 1) := by
        rw [← hn, value, hmore, pow_add]
        field_simp
      exact_mod_cast hvalue
    have hdvd : (10 : ℤ) ∣ x.mantissa := by
      have hten : (10 : ℤ) ∣ n * 10 ^ (more + 1) :=
        Dvd.dvd.mul_left (dvd_pow_self 10 (Nat.succ_ne_zero more)) n
      rw [← hmultiple] at hten
      cases hnegative : x.negative with
      | false => simpa [sign, hnegative] using hten
      | true => simpa [sign, hnegative] using hten
    omega

theorem value_stripZeros (negative : Bool) (mantissa scale : ℕ) :
    (stripZeros negative mantissa scale).value = (⟨negative, mantissa, scale⟩ : Decimal).value := by
  induction scale generalizing mantissa with
  | zero => rfl
  | succ scale ih =>
      rw [stripZeros]
      split
      · rename_i hzero
        obtain ⟨tenth, rfl⟩ := Nat.dvd_of_mod_eq_zero hzero
        rw [ih, Nat.mul_div_cancel_left tenth (by decide), value, value, pow_succ]
        push_cast
        field_simp
      · rfl

theorem reduced_stripZeros (negative : Bool) (mantissa scale : ℕ) :
    (stripZeros negative mantissa scale).Reduced := by
  induction scale generalizing mantissa with
  | zero => exact .inl rfl
  | succ scale ih =>
      rw [stripZeros]
      split
      · exact ih _
      · rename_i hdigit
        exact .inr hdigit

theorem value_normalize (x : Decimal) : x.normalize.value = x.value := by
  unfold normalize
  split
  · rename_i hzero
    have hmantissa : x.mantissa = 0 := by simpa [isZero] using hzero
    simp [value, hmantissa]
  · exact value_stripZeros x.negative x.mantissa x.scale

theorem reduced_normalize (x : Decimal) : x.normalize.Reduced := by
  unfold normalize
  split
  · exact .inl rfl
  · exact reduced_stripZeros x.negative x.mantissa x.scale

theorem isLeast_scale_normalize (x : Decimal) :
    IsLeast {places | HasPlaces x.value places} x.normalize.scale := by
  rw [← value_normalize]
  exact isLeast_scale_of_reduced (reduced_normalize x)

end Decimal

end SpotWire.Numeric
