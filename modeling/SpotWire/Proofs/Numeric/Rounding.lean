import SpotWire.Numeric.Binary
import SpotWire.Proofs.Numeric.Decimal

/-!
# Rounding near a half

Rounding to a whole number goes to one that is no farther than a half away. There is only one such
number for values off the halves, so that the rule for halves plays no part there, and two numbers
closer to each other than to any half are rounded alike (`IsNearest.unique`).
-/

namespace SpotWire.Numeric

variable {v w distance : ℚ} {n m : ℤ}

/-- No whole number is nearer. -/
def IsNearest (v : ℚ) (n : ℤ) : Prop :=
  |v - n| ≤ 1 / 2

/-- A number is farther than a distance from every half. -/
def IsOffHalves (distance v : ℚ) : Prop :=
  ∀ n : ℤ, distance < |v - (n + 1 / 2)|

theorem IsNearest.neg (h : IsNearest v n) : IsNearest (-v) (-n) := by
  have hsame : -v - ((-n : ℤ) : ℚ) = -(v - n) := by
    push_cast
    ring
  rw [IsNearest, hsame, abs_neg]
  exact h

theorem IsOffHalves.distance_lt (h : IsOffHalves distance v) : distance < 1 / 2 := by
  refine lt_of_lt_of_le (h ⌊v⌋) (abs_le.mpr ⟨?_, ?_⟩)
  · linarith [Int.floor_le v]
  · linarith [Int.lt_floor_add_one v]

/-- Between numbers that are closer to each other than to any half there is no half. -/
theorem IsOffHalves.abs_sub_lt (h : IsOffHalves distance v) (hclose : |w - v| ≤ distance)
    (hn : IsNearest w n) : |v - n| < 1 / 2 := by
  obtain ⟨hlow, hhigh⟩ := abs_le.mp hn
  obtain ⟨hleft, hright⟩ := abs_le.mp hclose
  by_contra hfar
  rcases le_abs.mp (not_lt.mp hfar) with habove | hbelow
  · have hhalf : |v - ((n : ℚ) + 1 / 2)| ≤ distance := by
      rw [abs_of_nonneg (by linarith)]
      linarith
    exact absurd (h n) (not_lt.mpr hhalf)
  · have hhalf : |v - (((n - 1 : ℤ) : ℚ) + 1 / 2)| ≤ distance := by
      push_cast
      rw [abs_of_nonpos (by linarith)]
      linarith
    exact absurd (h (n - 1)) (not_lt.mpr hhalf)

theorem eq_of_abs_sub_lt (hn : IsNearest v n) (hm : |v - m| < 1 / 2) : n = m := by
  have hdistance : |(n : ℚ) - m| < 1 := by
    calc
      |(n : ℚ) - m| = |(v - m) - (v - n)| := by ring_nf
      _ ≤ |v - m| + |v - n| := abs_sub _ _
      _ < 1 / 2 + 1 / 2 := add_lt_add_of_lt_of_le hm hn
      _ = 1 := by norm_num
  have hwhole : |n - m| < 1 := by exact_mod_cast hdistance
  exact sub_eq_zero.mp (Int.abs_lt_one_iff.mp hwhole)

/-- Two numbers are rounded alike if they are closer to each other than to any half. -/
theorem IsNearest.unique (hn : IsNearest w n) (hm : IsNearest v m) (h : IsOffHalves distance v)
    (hclose : |w - v| ≤ distance) : n = m := by
  have hpos : 0 ≤ distance := le_trans (abs_nonneg _) hclose
  have hboth := h.abs_sub_lt (w := v) (by rwa [sub_self, abs_zero]) hm
  have hfirst := h.abs_sub_lt hclose hn
  exact eq_of_abs_sub_lt hfirst.le hboth

/-- A whole number that is no larger than a number is no larger than the nearest to it. -/
theorem IsNearest.le (hn : IsNearest v n) (h : (m : ℚ) ≤ v) : m ≤ n := by
  obtain ⟨-, hhigh⟩ := abs_le.mp hn
  have hless : (m : ℚ) < n + 1 := by linarith
  exact Int.lt_add_one_iff.mp (by exact_mod_cast hless)

theorem IsNearest.ge (hn : IsNearest v n) (h : v ≤ m) : n ≤ m := by
  obtain ⟨hlow, -⟩ := abs_le.mp hn
  have hless : (n : ℚ) < m + 1 := by linarith
  exact Int.lt_add_one_iff.mp (by exact_mod_cast hless)

/-! ### Halves away from zero -/

theorem isNearest_nearestWhole (v : ℚ) : IsNearest v (nearestWhole v) := by
  have hnonneg : ∀ v : ℚ, 0 ≤ v → IsNearest v (nearestWhole v) := by
    intro v hv
    rw [nearestWhole, if_pos hv, IsNearest, abs_le]
    have hlow := Int.floor_le (v + 1 / 2)
    have hhigh := Int.lt_floor_add_one (v + 1 / 2)
    constructor <;> linarith
  rcases le_total 0 v with hpos | hneg
  · exact hnonneg v hpos
  · have h := (hnonneg (-v) (neg_nonneg.mpr hneg)).neg
    rwa [neg_neg, nearestWhole_neg, neg_neg] at h

theorem abs_rounded_sub_le (places : ℕ) (v : ℚ) :
    |rounded places v - v| ≤ 1 / (2 * 10 ^ places) := by
  have hpow : (0 : ℚ) < 10 ^ places := by positivity
  have hnear := isNearest_nearestWhole (v * 10 ^ places)
  have hdiff : rounded places v - v =
      -((v * 10 ^ places - nearestWhole (v * 10 ^ places)) / 10 ^ places) := by
    rw [rounded]
    field_simp
    ring
  rw [hdiff, abs_neg, abs_div, abs_of_pos hpow, div_le_div_iff₀ hpow (by positivity)]
  unfold IsNearest at hnear
  nlinarith

/-! ### Halves to the even neighbour -/

/-- The whole number nearest to a number, a half going to the even neighbour. -/
def nearestEven (v : ℚ) : ℤ :=
  if v - ⌊v⌋ < 1 / 2 then ⌊v⌋ else if 1 / 2 < v - ⌊v⌋ then ⌊v⌋ + 1 else ⌊v⌋ + ⌊v⌋ % 2

theorem isNearest_nearestEven (v : ℚ) : IsNearest v (nearestEven v) := by
  have hlow := Int.floor_le v
  have hhigh := Int.lt_floor_add_one v
  rw [IsNearest, abs_le, nearestEven]
  split
  · constructor <;> linarith
  split
  · push_cast
    constructor <;> linarith
  · rcases Int.emod_two_eq_zero_or_one ⌊v⌋ with heven | hodd
    · rw [heven, add_zero]
      constructor <;> linarith
    · rw [hodd]
      push_cast
      constructor <;> linarith

theorem nearestEven_intCast (n : ℤ) : nearestEven n = n := by
  rw [nearestEven, Int.floor_intCast, sub_self, if_pos (by norm_num)]

theorem roundHalfEven_eq_nearestEven (num : ℕ) {den : ℕ} (hden : 0 < den) :
    (roundHalfEven num den : ℤ) = nearestEven (num / den) := by
  have hfloor : ⌊(num / den : ℚ)⌋ = (num / den : ℕ) :=
    Rat.floor_natCast_div_natCast num den
  have hrest : (num / den : ℚ) - ⌊(num / den : ℚ)⌋ = (num % den : ℕ) / den := by
    have hdivision : (num : ℚ) = den * (num / den : ℕ) + (num % den : ℕ) := by
      exact_mod_cast (Nat.div_add_mod num den).symm
    have hne : (den : ℚ) ≠ 0 := by exact_mod_cast hden.ne'
    rw [hfloor, Int.cast_natCast]
    field_simp
    linarith
  have hcast : (0 : ℚ) < den := by exact_mod_cast hden
  have hless : ((num % den : ℕ) / den : ℚ) < 1 / 2 ↔ 2 * (num % den) < den := by
    rw [div_lt_div_iff₀ hcast two_pos, one_mul, mul_comm]
    exact_mod_cast Iff.rfl
  have hmore : (1 / 2 : ℚ) < (num % den : ℕ) / den ↔ den < 2 * (num % den) := by
    rw [div_lt_div_iff₀ two_pos hcast, one_mul, mul_comm]
    exact_mod_cast Iff.rfl
  rw [nearestEven, hrest]
  simp only [hless, hmore, hfloor, roundHalfEven]
  split
  · rfl
  split
  · push_cast
    rfl
  · push_cast
    rfl

end SpotWire.Numeric
