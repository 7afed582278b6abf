import Mathlib.Data.Int.Log
import SpotWire.Numeric.Binary.Reader
import SpotWire.Proofs.Numeric.Rounding

/-!
# The binary number nearest to a value

The number of the binary format that is read depends on the value alone, not on the digits and the
power of ten that give it (`nearest_eq_ofSize`). It differs from the value by no more than half a
unit of its last bit, and it is one or more if the value is (`isNear_or_infinite`).
-/

namespace SpotWire.Numeric.Binary

variable {negative : Bool} {num den : ℕ} {q : ℚ} {x : Binary}

def size (x : Binary) : ℚ :=
  x.significand * 2 ^ x.exponent

def value (x : Binary) : ℚ :=
  Decimal.sign x.negative * x.size

theorem two_zpow_pos (e : ℤ) : (0 : ℚ) < 2 ^ e :=
  zpow_pos two_pos e

theorem size_nonneg (x : Binary) : 0 ≤ x.size :=
  mul_nonneg (Nat.cast_nonneg _) (two_zpow_pos _).le

theorem size_zero (negative : Bool) : (zero negative).size = 0 := by
  rw [size, zero, Nat.cast_zero, zero_mul]

/-! ### Quotients -/

theorem scaled_eq (num : ℕ) (hden : 0 < den) (shift : ℤ) :
    0 < (scaled num den shift).2 ∧
      ((scaled num den shift).1 / (scaled num den shift).2 : ℚ) = num / den * 2 ^ shift := by
  cases shift with
  | ofNat s =>
      refine ⟨hden, ?_⟩
      rw [Int.ofNat_eq_natCast, zpow_natCast]
      unfold scaled
      push_cast
      field_simp
  | negSucc s =>
      refine ⟨Nat.mul_pos hden (by positivity), ?_⟩
      rw [zpow_negSucc]
      unfold scaled
      push_cast
      field_simp

theorem ratio_eq (x : Binary) : 0 < x.ratio.2 ∧ (x.ratio.1 / x.ratio.2 : ℚ) = x.size := by
  obtain ⟨hpos, heq⟩ := scaled_eq x.significand Nat.one_pos x.exponent
  refine ⟨hpos, heq.trans ?_⟩
  rw [Nat.cast_one, div_one, size]

/-- The sizes between two powers of two. -/
theorem log_eq_iff {e : ℤ} (hq : 0 < q) : Int.log 2 q = e ↔ 2 ^ e ≤ q ∧ q < 2 ^ (e + 1) := by
  have hlow := Int.zpow_le_iff_le_log (b := 2) one_lt_two (x := e) hq
  have hhigh := Int.lt_zpow_iff_log_lt (b := 2) one_lt_two (x := e + 1) hq
  rw [Nat.cast_ofNat] at hlow hhigh
  rw [hlow, hhigh]
  omega

theorem log2_bounds {n : ℕ} (hn : n ≠ 0) :
    (2 : ℚ) ^ (n.log2 : ℤ) ≤ n ∧ (n : ℚ) < 2 ^ ((n.log2 : ℤ) + 1) := by
  have hlow : 2 ^ n.log2 ≤ n := Nat.log2_self_le hn
  have hhigh : n < 2 ^ (n.log2 + 1) := Nat.lt_log2_self
  constructor
  · rw [zpow_natCast]
    exact_mod_cast hlow
  · have hsucc : (n.log2 : ℤ) + 1 = (n.log2 + 1 : ℕ) := by push_cast; rfl
    rw [hsucc, zpow_natCast]
    exact_mod_cast hhigh

/-- The exponent of a quotient is the one at which its size has 53 bits in front of the point. -/
theorem exponentFor_eq (hnum : 0 < num) (hden : 0 < den) :
    exponentFor num den = max minExponent (Int.log 2 (num / den : ℚ) - 52) := by
  have hnumQ : (0 : ℚ) < num := by exact_mod_cast hnum
  have hdenQ : (0 : ℚ) < den := by exact_mod_cast hden
  have hq : (0 : ℚ) < num / den := by positivity
  obtain ⟨hnumLow, hnumHigh⟩ := log2_bounds hnum.ne'
  obtain ⟨hdenLow, hdenHigh⟩ := log2_bounds hden.ne'
  obtain ⟨guess, hguess⟩ : ∃ guess : ℤ, guess = (num.log2 : ℤ) - den.log2 - 53 := ⟨_, rfl⟩
  have hlow : (2 : ℚ) ^ (guess + 52) ≤ num / den := by
    rw [le_div_iff₀ hdenQ]
    calc
      (2 : ℚ) ^ (guess + 52) * den ≤ 2 ^ (guess + 52) * 2 ^ ((den.log2 : ℤ) + 1) :=
        mul_le_mul_of_nonneg_left hdenHigh.le (two_zpow_pos _).le
      _ = 2 ^ (num.log2 : ℤ) := by
        rw [← zpow_add₀ two_ne_zero, hguess]
        congr 1
        omega
      _ ≤ num := hnumLow
  have hhigh : (num / den : ℚ) < 2 ^ (guess + 54) := by
    rw [div_lt_iff₀ hdenQ]
    calc
      (num : ℚ) < 2 ^ ((num.log2 : ℤ) + 1) := hnumHigh
      _ = 2 ^ (guess + 54) * 2 ^ (den.log2 : ℤ) := by
        rw [← zpow_add₀ two_ne_zero, hguess]
        congr 1
        omega
      _ ≤ 2 ^ (guess + 54) * den := mul_le_mul_of_nonneg_left hdenLow (two_zpow_pos _).le
  obtain ⟨hpos, hscaled⟩ := scaled_eq num hden (-guess)
  have hposQ : (0 : ℚ) < (scaled num den (-guess)).2 := by exact_mod_cast hpos
  have hfits : (scaled num den (-guess)).1 / (scaled num den (-guess)).2 < 2 ^ precision ↔
      (num / den : ℚ) < 2 ^ (guess + 53) := by
    have hcast : ((scaled num den (-guess)).1 / (scaled num den (-guess)).2 : ℚ) < 2 ^ 53 ↔
        (num / den : ℚ) < 2 ^ (guess + 53) := by
      rw [hscaled, zpow_neg, ← div_eq_mul_inv, div_lt_iff₀ (two_zpow_pos _), add_comm guess,
        zpow_add₀ two_ne_zero]
      norm_cast
    rw [← hcast, div_lt_iff₀ hposQ, Nat.div_lt_iff_lt_mul hpos]
    exact_mod_cast Iff.rfl
  unfold exponentFor
  dsimp only
  rw [show (num.log2 : ℤ) - (den.log2 : ℤ) - (precision : ℤ) = guess from hguess.symm]
  congr 1
  by_cases hless : (num / den : ℚ) < 2 ^ (guess + 53)
  · have hlog : Int.log 2 (num / den : ℚ) = guess + 52 :=
      (log_eq_iff hq).mpr ⟨hlow, by rwa [add_assoc]⟩
    rw [if_pos (hfits.mpr hless), hlog, add_sub_cancel_right]
  · have hlog : Int.log 2 (num / den : ℚ) = guess + 53 :=
      (log_eq_iff hq).mpr ⟨not_lt.mp hless, by rwa [add_assoc]⟩
    rw [if_neg fun h => hless (hfits.mp h), hlog]
    omega

/-! ### The nearest number -/

/-- The exponent of the last bit that a size keeps. -/
def lastBit (q : ℚ) : ℤ :=
  max minExponent (Int.log 2 q - 52)

/-- A size in units of the last bit that it keeps, rounded to a whole number of them. -/
def bits (q : ℚ) : ℕ :=
  (nearestEven (q / 2 ^ lastBit q)).toNat

/-- So many units of a bit. All 53 bits may be carried into the next one. -/
def ofBits (negative : Bool) (count : ℕ) (exponent : ℤ) : Binary :=
  if count < 2 ^ precision then ⟨negative, count, exponent⟩
  else ⟨negative, 2 ^ (precision - 1), exponent + 1⟩

/-- The number of the binary format nearest to a size. -/
def ofSize (negative : Bool) (q : ℚ) : Extended :=
  if q ≤ 0 then .finite (zero negative)
  else if (ofBits negative (bits q) (lastBit q)).exponent ≤ maxExponent then
    .finite (ofBits negative (bits q) (lastBit q))
  else .infinite negative

theorem negative_ofBits (negative : Bool) (count : ℕ) (exponent : ℤ) :
    (ofBits negative count exponent).negative = negative := by
  unfold ofBits
  split <;> rfl

theorem size_ofBits {count : ℕ} (h : count ≤ 2 ^ precision) (exponent : ℤ) :
    (ofBits negative count exponent).size = count * 2 ^ exponent := by
  unfold ofBits
  split
  · rfl
  · rename_i hfull
    have hcount : count = 2 ^ 53 := Nat.le_antisymm h (not_lt.mp hfull)
    rw [size, hcount, zpow_add_one₀ two_ne_zero]
    norm_num [precision]
    ring

theorem exponent_ofBits_le (negative : Bool) (count : ℕ) (exponent : ℤ) :
    (ofBits negative count exponent).exponent ≤ exponent + 1 := by
  unfold ofBits
  split
  · exact (lt_add_one exponent).le
  · exact le_rfl

theorem le_exponent_ofBits (negative : Bool) (count : ℕ) (exponent : ℤ) :
    exponent ≤ (ofBits negative count exponent).exponent := by
  unfold ofBits
  split
  · exact le_rfl
  · exact (lt_add_one exponent).le

theorem isNearest_bits (hq : 0 < q) : IsNearest (q / 2 ^ lastBit q) (bits q) := by
  have hnearest := isNearest_nearestEven (q / 2 ^ lastBit q)
  have hnonneg : 0 ≤ nearestEven (q / 2 ^ lastBit q) := by
    refine hnearest.le ?_
    rw [Int.cast_zero]
    exact div_nonneg hq.le (two_zpow_pos _).le
  rwa [bits, Int.toNat_of_nonneg hnonneg]

theorem bits_le (hq : 0 < q) : bits q ≤ 2 ^ precision := by
  have hless : q / 2 ^ lastBit q ≤ ((2 ^ precision : ℕ) : ℤ) := by
    have hlog := Int.lt_zpow_succ_log_self (b := 2) one_lt_two q
    have hlast : Int.log 2 q + 1 ≤ 53 + lastBit q := by
      have hmax := le_max_right minExponent (Int.log 2 q - 52)
      unfold lastBit
      omega
    rw [Nat.cast_ofNat] at hlog
    rw [div_le_iff₀ (two_zpow_pos _)]
    calc
      q ≤ 2 ^ (Int.log 2 q + 1) := hlog.le
      _ ≤ 2 ^ (53 + lastBit q) := zpow_le_zpow_right₀ one_le_two hlast
      _ = (((2 ^ precision : ℕ) : ℤ) : ℚ) * 2 ^ lastBit q := by
        rw [zpow_add₀ two_ne_zero]
        norm_num [precision]
  exact_mod_cast (isNearest_bits hq).ge hless

/-- A quotient is read as the number nearest to its size. -/
theorem ofSize_div (negative : Bool) (num : ℕ) (hden : 0 < den) :
    (match ofRatio? negative num den with
      | some x => Extended.finite x
      | none => .infinite negative) = ofSize negative (num / den) := by
  have hdenQ : (0 : ℚ) < den := by exact_mod_cast hden
  rcases Nat.eq_zero_or_pos num with rfl | hnum
  · rw [ofRatio?, if_pos rfl, ofSize, if_pos (by rw [Nat.cast_zero, zero_div])]
  · have hq : (0 : ℚ) < num / den := div_pos (by exact_mod_cast hnum) hdenQ
    obtain ⟨hpos, hscaled⟩ := scaled_eq num hden (-lastBit (num / den))
    have hround : roundHalfEven (scaled num den (-lastBit (num / den))).1
        (scaled num den (-lastBit (num / den))).2 = bits (num / den) := by
      have heven := roundHalfEven_eq_nearestEven (scaled num den (-lastBit (num / den))).1 hpos
      rw [hscaled, zpow_neg, ← div_eq_mul_inv] at heven
      rw [bits, ← heven, Int.toNat_natCast]
    have hread : ofRatio? negative num den =
        if (ofBits negative (bits (num / den)) (lastBit (num / den))).exponent ≤ maxExponent then
          some (ofBits negative (bits (num / den)) (lastBit (num / den)))
        else none := by
      rw [ofRatio?, if_neg hnum.ne', exponentFor_eq hnum hden, ← lastBit]
      dsimp only
      rw [hround]
      rfl
    rw [hread, ofSize, if_neg (not_le.mpr hq)]
    by_cases hfits :
        (ofBits negative (bits (num / den)) (lastBit (num / den))).exponent ≤ maxExponent
    · rw [if_pos hfits, if_pos hfits]
    · rw [if_neg hfits, if_neg hfits]

/-! ### How near it is -/

/-- A number that is read from a size has its sign, and a size of its own that differs by no more
than half a unit of the last bit. -/
structure IsNear (x : Binary) (negative : Bool) (q : ℚ) : Prop where
  negative : x.negative = negative
  close : |x.size - q| ≤ max (q / 2 ^ 53) (1 / 2 ^ 1075)
  one_le : 1 ≤ q → 1 ≤ x.size
  zero : q = 0 → x.size = 0

theorem abs_size_ofBits_sub_le (hq : 0 < q) :
    |(ofBits negative (bits q) (lastBit q)).size - q| ≤ max (q / 2 ^ 53) (1 / 2 ^ 1075) := by
  have hpos := two_zpow_pos (lastBit q)
  have hunit : |(ofBits negative (bits q) (lastBit q)).size - q| ≤ 2 ^ lastBit q / 2 := by
    have hnearest := isNearest_bits hq
    have hdiff : (ofBits negative (bits q) (lastBit q)).size - q =
        -((q / 2 ^ lastBit q - ((bits q : ℤ) : ℚ)) * 2 ^ lastBit q) := by
      rw [size_ofBits (bits_le hq), Int.cast_natCast]
      field_simp
      ring
    rw [hdiff, abs_neg, abs_mul, abs_of_pos hpos]
    unfold IsNearest at hnearest
    nlinarith
  refine le_trans hunit ?_
  rcases le_total minExponent (Int.log 2 q - 52) with hwide | hleast
  · refine le_max_of_le_left ?_
    have hlog := Int.zpow_log_le_self (b := 2) one_lt_two hq
    rw [Nat.cast_ofNat] at hlog
    rw [lastBit, max_eq_right hwide, zpow_sub₀ two_ne_zero]
    calc
      (2 : ℚ) ^ Int.log 2 q / 2 ^ (52 : ℤ) / 2 ≤ q / 2 ^ (52 : ℤ) / 2 := by gcongr
      _ = q / 2 ^ 53 := by
        norm_cast
        ring
  · refine le_max_of_le_right (le_of_eq ?_)
    have hleastBit : minExponent = -(1074 : ℕ) := rfl
    rw [lastBit, max_eq_left hleast, hleastBit, zpow_neg, zpow_natCast, pow_succ (2 : ℚ) 1074,
      one_div, mul_inv, div_eq_mul_inv]

theorem lastBit_of_one_le (hone : 1 ≤ q) : lastBit q = Int.log 2 q - 52 := by
  have hlog := Int.log_mono_right (b := 2) one_pos hone
  rw [Int.log_one_right] at hlog
  refine max_eq_right ?_
  unfold minExponent
  omega

/-- One is a whole number of units of the last bit of a larger size. -/
theorem one_le_size_ofBits (hone : 1 ≤ q) :
    1 ≤ (ofBits negative (bits q) (lastBit q)).size := by
  have hpos : 0 < q := lt_of_lt_of_le one_pos hone
  have hlog := Int.zpow_log_le_self (b := 2) one_lt_two hpos
  rw [Nat.cast_ofNat] at hlog
  have hlast := lastBit_of_one_le hone
  have hlogNonneg := Int.log_mono_right (b := 2) one_pos hone
  rw [Int.log_one_right] at hlogNonneg
  have hunits : (((2 ^ 52 : ℕ) : ℤ) : ℚ) ≤ q / 2 ^ lastBit q := by
    rw [le_div_iff₀ (two_zpow_pos _)]
    calc
      (((2 ^ 52 : ℕ) : ℤ) : ℚ) * 2 ^ lastBit q = 2 ^ (52 + lastBit q) := by
        rw [zpow_add₀ two_ne_zero]
        norm_cast
      _ = 2 ^ Int.log 2 q := by
        rw [hlast, add_sub_cancel]
      _ ≤ q := hlog
  have hbits : 2 ^ 52 ≤ bits q := by exact_mod_cast (isNearest_bits hpos).le hunits
  have hcast : ((2 ^ 52 : ℕ) : ℚ) ≤ bits q := by exact_mod_cast hbits
  rw [size_ofBits (bits_le hpos)]
  calc
    (1 : ℚ) ≤ 2 ^ (52 + lastBit q) := one_le_zpow₀ one_le_two (by omega)
    _ = ((2 ^ 52 : ℕ) : ℚ) * 2 ^ lastBit q := by
      rw [zpow_add₀ two_ne_zero]
      norm_cast
    _ ≤ bits q * 2 ^ lastBit q := mul_le_mul_of_nonneg_right hcast (two_zpow_pos _).le

theorem le_of_lastBit (hq : 0 < q) (h : maxExponent ≤ lastBit q) : 2 ^ 1023 ≤ q := by
  have hlog := Int.zpow_log_le_self (b := 2) one_lt_two hq
  rw [Nat.cast_ofNat] at hlog
  refine le_trans ?_ hlog
  rw [← zpow_natCast]
  refine zpow_le_zpow_right₀ one_le_two ?_
  rcases le_max_iff.mp h with hleast | hlarge
  · exact absurd hleast (by decide)
  · unfold maxExponent at hlarge
    push_cast
    omega

/-- Every size is read as a number near to it, or it is beyond all numbers. -/
theorem isNear_or_infinite (negative : Bool) (hq : 0 ≤ q) :
    (∃ x, ofSize negative q = .finite x ∧ IsNear x negative q) ∨
      (ofSize negative q = .infinite negative ∧ 2 ^ 1023 ≤ q) := by
  rcases hq.eq_or_lt with rfl | hpos
  · refine .inl ⟨zero negative, if_pos le_rfl, rfl, ?_, fun h => absurd h (by norm_num),
      fun _ => size_zero negative⟩
    rw [size_zero, sub_zero, abs_zero]
    positivity
  rw [ofSize, if_neg (not_le.mpr hpos)]
  split
  · exact .inl ⟨_, rfl, negative_ofBits _ _ _, abs_size_ofBits_sub_le hpos, one_le_size_ofBits,
      fun h => absurd h hpos.ne'⟩
  · rename_i hlarge
    have hexponent := exponent_ofBits_le negative (bits q) (lastBit q)
    exact .inr ⟨rfl, le_of_lastBit hpos (by omega)⟩

/-! ### Order and places -/

theorem value_of_nonneg (h : x.negative = false) : x.value = x.size := by
  rw [value, h, Decimal.sign, if_neg Bool.false_ne_true, Int.cast_one, one_mul]

theorem value_of_negative (h : x.negative = true) : x.value = -x.size := by
  rw [value, h, Decimal.sign, if_pos rfl, Int.cast_neg, Int.cast_one, neg_one_mul]

theorem isPositive_iff : x.isPositive = true ↔ 0 < x.value := by
  rw [isPositive, isZero]
  cases hnegative : x.negative with
  | true =>
      rw [value_of_negative hnegative]
      simpa using x.size_nonneg
  | false =>
      rw [value_of_nonneg hnegative, size, mul_pos_iff_of_pos_right (two_zpow_pos _)]
      simp [Nat.pos_iff_ne_zero]

theorem isOneOrMore_iff : x.isOneOrMore = true ↔ 1 ≤ x.value := by
  obtain ⟨hden, hratio⟩ := x.ratio_eq
  have hpos : (0 : ℚ) < x.ratio.2 := by exact_mod_cast hden
  rw [isOneOrMore]
  cases hnegative : x.negative with
  | true =>
      have hsize := x.size_nonneg
      rw [value_of_negative hnegative]
      simp only [Bool.not_true, Bool.false_and, Bool.false_eq_true, false_iff, not_le]
      linarith
  | false =>
      rw [value_of_nonneg hnegative, ← hratio, one_le_div hpos]
      simp

theorem inUnits_eq (places : ℕ) (x : Binary) :
    (x.inUnits places : ℤ) = nearestEven (x.size * 10 ^ places) := by
  obtain ⟨hden, hratio⟩ := x.ratio_eq
  have hunits := roundHalfEven_eq_nearestEven (x.ratio.1 * 10 ^ places) hden
  rw [inUnits, ← hratio]
  refine hunits.trans ?_
  push_cast
  rw [div_mul_eq_mul_div]

/-! ### Decimal sizes -/

/-- A size below half a unit of the least bit is read as zero. -/
theorem ofSize_of_small (hq : 0 < q) (h : q < 1 / 2 ^ 1075) :
    ofSize negative q = .finite (zero negative) := by
  have hlast : lastBit q = minExponent := by
    refine max_eq_left ?_
    have hlog : Int.log 2 q < -1075 := by
      rw [← Int.lt_zpow_iff_log_lt one_lt_two hq, Nat.cast_ofNat, zpow_neg, ← one_div]
      exact_mod_cast h
    unfold minExponent
    omega
  have hbits : bits q = 0 := by
    have hhalf : q / 2 ^ minExponent < 1 / 2 := by
      have hleast : minExponent = -(1074 : ℕ) := rfl
      rw [div_lt_iff₀ (two_zpow_pos _), hleast, zpow_neg, zpow_natCast, ← one_div,
        div_mul_div_comm, one_mul, ← pow_succ']
      exact h
    have hwhole : ⌊q / 2 ^ minExponent⌋ = 0 :=
      Int.floor_eq_zero_iff.mpr ⟨(div_pos hq (two_zpow_pos _)).le, hhalf.trans (by norm_num)⟩
    rw [bits, hlast, nearestEven, hwhole, Int.cast_zero, sub_zero, if_pos hhalf, Int.toNat_zero]
  rw [ofSize, if_neg (not_le.mpr hq), hlast, hbits]
  rfl

/-- A size of too many bits is beyond all numbers. -/
theorem ofSize_of_large (h : 2 ^ 1024 ≤ q) : ofSize negative q = .infinite negative := by
  have hq : 0 < q := lt_of_lt_of_le (by positivity) h
  have hlog : 1024 ≤ Int.log 2 q := by
    rw [← Int.zpow_le_iff_le_log one_lt_two hq, Nat.cast_ofNat]
    exact_mod_cast h
  have hlast : maxExponent < lastBit q := by
    refine lt_max_of_lt_right ?_
    unfold maxExponent
    omega
  rw [ofSize, if_neg (not_le.mpr hq), if_neg]
  exact not_le.mpr (hlast.trans_le (le_exponent_ofBits _ _ _))

theorem digits_length_le_iff {digits : ℕ} (hdigits : digits ≠ 0) (scale bound : ℤ) :
    scale + ((Nat.toDigits 10 digits).length : ℤ) ≤ bound ↔
      (digits * 10 ^ scale : ℚ) < 10 ^ bound := by
  have hten : (0 : ℚ) < 10 ^ scale := zpow_pos (by norm_num) scale
  have hdivide : (digits * 10 ^ scale : ℚ) < 10 ^ bound ↔ (digits : ℚ) < 10 ^ (bound - scale) := by
    rw [zpow_sub₀ (by norm_num), lt_div_iff₀ hten]
  rw [hdivide]
  rcases lt_or_ge 0 (bound - scale) with hpos | hneg
  · obtain ⟨room, hroom⟩ := Int.eq_ofNat_of_zero_le hpos.le
    have hlength := Nat.length_toDigits_le_iff (n := digits) (k := room) (by decide : 1 < 10)
      (by omega)
    rw [hroom, zpow_natCast]
    have hcast : (digits : ℚ) < 10 ^ room ↔ digits < 10 ^ room := by exact_mod_cast Iff.rfl
    rw [hcast, ← hlength]
    omega
  · -- there is no room for a digit
    have hlength := Nat.length_toDigits_pos (b := 10) (n := digits)
    have hone : (10 : ℚ) ^ (bound - scale) ≤ 1 := zpow_le_one_of_nonpos₀ (by norm_num) hneg
    have hdigit : (1 : ℚ) ≤ digits := by exact_mod_cast Nat.one_le_iff_ne_zero.mpr hdigits
    exact iff_of_false (by omega) (not_lt.mpr (le_trans hone hdigit))

theorem two_pow_le_ten_pow {bits : ℕ} {digits : ℕ} (h : bits ≤ 3 * digits) :
    (2 : ℚ) ^ bits ≤ 10 ^ digits := by
  calc
    (2 : ℚ) ^ bits ≤ 2 ^ (3 * digits) := pow_le_pow_right₀ one_le_two h
    _ = 8 ^ digits := by rw [pow_mul]; norm_num
    _ ≤ 10 ^ digits := pow_le_pow_left₀ (by norm_num) (by norm_num) digits

theorem nearest_eq_ofSize (negative : Bool) (digits : ℕ) (scale : ℤ) :
    nearest negative digits scale = ofSize negative (digits * 10 ^ scale) := by
  have hten : (0 : ℚ) < 10 ^ scale := zpow_pos (by norm_num) scale
  unfold nearest
  dsimp only
  rcases Nat.eq_zero_or_pos digits with rfl | hdigits
  · rw [if_pos (.inl rfl), ofSize, if_pos (by rw [Nat.cast_zero, zero_mul])]
  have hlength := digits_length_le_iff hdigits.ne' scale
  have hq : (0 : ℚ) < digits * 10 ^ scale := mul_pos (by exact_mod_cast hdigits) hten
  split
  · rename_i hsmall
    have hbelow := (hlength (-(401 : ℕ))).mp (by omega)
    rw [zpow_neg, zpow_natCast, ← one_div] at hbelow
    exact (ofSize_of_small hq (hbelow.trans_le (one_div_le_one_div_of_le (by positivity)
      (two_pow_le_ten_pow (by decide))))).symm
  split
  · rename_i hlarge
    have habove := (hlength (400 : ℕ)).not.mp (by omega)
    rw [zpow_natCast] at habove
    exact (ofSize_of_large (le_trans (two_pow_le_ten_pow (by decide)) (not_lt.mp habove))).symm
  · cases scale with
    | ofNat s =>
        have hsize : ((digits * 10 ^ s : ℕ) / (1 : ℕ) : ℚ) = digits * 10 ^ Int.ofNat s := by
          rw [Int.ofNat_eq_natCast, zpow_natCast]
          push_cast
          rw [div_one]
        rw [← hsize]
        exact ofSize_div negative (digits * 10 ^ s) Nat.one_pos
    | negSucc s =>
        have hsize : (digits / (10 ^ (s + 1) : ℕ) : ℚ) = digits * 10 ^ Int.negSucc s := by
          rw [zpow_negSucc, div_eq_mul_inv]
          push_cast
          rfl
        rw [← hsize]
        exact ofSize_div negative digits (by positivity)
end SpotWire.Numeric.Binary
