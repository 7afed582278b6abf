import SpotWire.Numeric.Decimal.Reader
import SpotWire.Proofs.Numeric.Rounding
import SpotWire.Proofs.Text.Digits

/-!
# What a plain number is read as

A plain number is read to a value that depends on the value of its digits alone: that value rounded
to as many places as fit a decimal number, one less if the carry outgrows the mantissa, and nothing
if its whole part does (`plainFrom?_eq_held?`). A value that some decimal number has is therefore
read as it is, however many zeros follow it.
-/

namespace SpotWire.Numeric

open Nat (ofDigitChars ofDigitChars_cons ofDigitChars_append ofDigitChars_eq_ofDigitChars_zero)
open Text

theorem nearestWhole_eq {v : ℚ} {n : ℕ} (hlow : n ≤ v + 1 / 2) (hhigh : v < n + 1 / 2)
    (hv : 0 ≤ v) : nearestWhole v = n := by
  rw [nearestWhole, if_pos hv, Int.floor_eq_iff, Int.cast_natCast]
  exact ⟨hlow, by linarith⟩

namespace Decimal

theorem abs_sign (negative : Bool) : |(sign negative : ℚ)| = 1 := by
  cases negative <;> simp [sign]

theorem abs_value (x : Decimal) : |x.value| = x.mantissa / 10 ^ x.scale := by
  rw [value, abs_mul, abs_sign, one_mul, abs_of_nonneg (by positivity)]

theorem rounded_sign_mul (places : ℕ) (negative : Bool) (v : ℚ) :
    rounded places (sign negative * v) = sign negative * rounded places v := by
  rw [rounded, rounded, mul_assoc, nearestWhole_sign_mul, Int.cast_mul, mul_div_assoc]

/-! ### The value that is held -/

theorem mantissaBound_eq : mantissaBound = 2 ^ 96 := rfl

/-- The most places with which a size fits a mantissa. -/
def room (size : ℚ) : ℕ :=
  Nat.findGreatest (fun places => size * 10 ^ places < mantissaBound) maxScale

/-- The value that a decimal number holds for a value. A carry that outgrows the mantissa gives up
one place. -/
def held? (v : ℚ) : Option ℚ :=
  if mantissaBound ≤ |v| then none
  else if nearestWhole (|v| * 10 ^ room |v|) < mantissaBound then some (rounded (room |v|) v)
  else if room |v| = 0 then none
  else some (rounded (room |v| - 1) v)

variable {size v : ℚ} {places : ℕ} {x : Decimal}

theorem room_le (size : ℚ) : room size ≤ maxScale :=
  Nat.findGreatest_le maxScale

theorem lt_of_room (h : size < mantissaBound) : size * 10 ^ room size < mantissaBound :=
  Nat.findGreatest_spec (P := fun places => size * 10 ^ places < mantissaBound)
    (Nat.zero_le maxScale) (by rwa [pow_zero, mul_one])

theorem le_room (h : size * 10 ^ places < mantissaBound) (hplaces : places ≤ maxScale) :
    places ≤ room size :=
  Nat.le_findGreatest hplaces h

theorem room_eq (hsize : 0 ≤ size) (h : size * 10 ^ places < mantissaBound)
    (hplaces : places ≤ maxScale)
    (hmore : places = maxScale ∨ mantissaBound ≤ size * 10 ^ (places + 1)) :
    room size = places := by
  refine le_antisymm ?_ (le_room h hplaces)
  rcases hmore with rfl | hmore
  · exact room_le size
  · by_contra hlarger
    have hless : size < mantissaBound := by
      refine lt_of_le_of_lt (le_mul_of_one_le_right hsize (one_le_pow₀ ?_)) h
      norm_num
    have hpow : (10 : ℚ) ^ (places + 1) ≤ 10 ^ room size :=
      pow_le_pow_right₀ (by norm_num) (by omega)
    have hfits := lt_of_room hless
    have hgrows := mul_le_mul_of_nonneg_left hpow hsize
    linarith

/-- The value of a decimal number is held as it is. -/
theorem held?_value (hx : x.Representable) : held? x.value = some x.value := by
  have hbound : (x.mantissa : ℚ) < mantissaBound := by exact_mod_cast hx.1
  have hpow : (1 : ℚ) ≤ 10 ^ x.scale := one_le_pow₀ (by norm_num)
  have hscaled : |x.value| * 10 ^ x.scale < mantissaBound := by
    rw [abs_value, div_mul_cancel₀ _ (by positivity)]
    exact hbound
  have hless : |x.value| < mantissaBound :=
    lt_of_le_of_lt (le_mul_of_one_le_right (abs_nonneg _) hpow) hscaled
  have hroom : x.scale ≤ room |x.value| := le_room hscaled hx.2
  obtain ⟨n, hn⟩ := hasPlaces_value (x := ⟨false, x.mantissa, x.scale⟩) hroom
  have hsize : (⟨false, x.mantissa, x.scale⟩ : Decimal).value = |x.value| := by
    rw [abs_value, value, sign, if_neg Bool.false_ne_true, Int.cast_one, one_mul]
  rw [hsize] at hn
  have hwhole : nearestWhole (|x.value| * 10 ^ room |x.value|) < mantissaBound := by
    have hfits := lt_of_room hless
    rw [hn] at hfits ⊢
    rw [nearestWhole_intCast]
    exact_mod_cast hfits
  rw [held?, if_neg (not_le.mpr hless), if_pos hwhole, (hasPlaces_value hroom).rounded_eq]

/-- A mantissa that fits is held up to the last place there can be, however small it is made. -/
theorem held?_eq_rounded (h : x.mantissa < mantissaBound) :
    held? x.value = some (rounded maxScale x.value) := by
  by_cases hscale : x.scale ≤ maxScale
  · rw [held?_value ⟨h, hscale⟩, (hasPlaces_value hscale).rounded_eq]
  · obtain ⟨more, hmore⟩ : ∃ more, x.scale = maxScale + (more + 1) :=
      ⟨x.scale - maxScale - 1, by omega⟩
    have hbound : (x.mantissa : ℚ) < 2 ^ 96 := by exact_mod_cast h
    have hpow : (1 : ℚ) ≤ 10 ^ more := one_le_pow₀ (by norm_num)
    have hscaled : |x.value| * 10 ^ maxScale ≤ 2 ^ 95 := by
      have hshift : |x.value| * 10 ^ maxScale = x.mantissa / (10 ^ more * 10) := by
        rw [abs_value, hmore, pow_add, pow_succ]
        field_simp
      rw [hshift, div_le_iff₀ (by positivity)]
      linarith
    have hroom : room |x.value| = maxScale := by
      refine room_eq (abs_nonneg _) ?_ le_rfl (.inl rfl)
      rw [mantissaBound_eq]
      norm_num at hscaled ⊢
      linarith
    have hwhole : nearestWhole (|x.value| * 10 ^ maxScale) ≤ 2 ^ 95 := by
      refine (isNearest_nearestWhole _).ge ?_
      exact_mod_cast hscaled
    have hless : |x.value| < mantissaBound := by
      have hgrows : |x.value| ≤ |x.value| * 10 ^ maxScale :=
        le_mul_of_one_le_right (abs_nonneg _) (one_le_pow₀ (by norm_num))
      rw [mantissaBound_eq]
      norm_num at hscaled hgrows ⊢
      linarith
    rw [held?, if_neg (not_le.mpr hless), hroom, if_pos]
    rw [mantissaBound_eq]
    exact lt_of_le_of_lt hwhole (by norm_num)

theorem le_of_room_lt (h : room size < maxScale) :
    (mantissaBound : ℚ) ≤ size * 10 ^ (room size + 1) := by
  by_contra hless
  have hmore := le_room (not_le.mp hless) h
  omega

/-- A value that is held has been rounded to the last place there can be, or to one at which it
fills most of a mantissa. -/
theorem exists_rounded_of_held? {w : ℚ} (h : held? v = some w) :
    ∃ places, w = rounded places v ∧ (places = maxScale ∨ 2 ^ 92 ≤ |v| * 10 ^ places) := by
  -- one place less takes a tenth of a mantissa
  have hmost : ∀ {places : ℕ}, (mantissaBound : ℚ) - 1 / 2 ≤ |v| * 10 ^ (places + 1) →
      (2 : ℚ) ^ 92 ≤ |v| * 10 ^ places := by
    intro places hfull
    rw [pow_succ, ← mul_assoc, mantissaBound_eq] at hfull
    norm_num at hfull ⊢
    linarith
  unfold held? at h
  split at h
  · cases h
  split at h
  · cases h
    refine ⟨_, rfl, ?_⟩
    rcases (room_le |v|).eq_or_lt with hlast | hless
    · exact .inl hlast
    · have hfull := le_of_room_lt hless
      exact .inr (hmost (by linarith))
  split at h
  · cases h
  · rename_i hcarry hroom
    cases h
    refine ⟨_, rfl, .inr ?_⟩
    obtain ⟨places, hplaces⟩ := Nat.exists_eq_succ_of_ne_zero hroom
    obtain ⟨hnear, -⟩ := abs_le.mp (isNearest_nearestWhole (|v| * 10 ^ room |v|))
    have hlarge : (mantissaBound : ℚ) ≤ nearestWhole (|v| * 10 ^ room |v|) := by
      exact_mod_cast not_lt.mp hcarry
    have hfull : (mantissaBound : ℚ) - 1 / 2 ≤ |v| * 10 ^ room |v| := by linarith
    rw [hplaces, Nat.succ_eq_add_one] at hfull ⊢
    rw [Nat.add_sub_cancel]
    exact hmost hfull

/-! ### Lowering -/

/-- A number is lowered up to the last place there can be. -/
theorem exists_lower? (x : Decimal) {size : ℕ} (hsize : size ≤ maxScale) :
    ∃ y, x.lower? size = some y ∧
      y.value = rounded maxScale (x.value * 10 ^ (-(size : ℤ))) := by
  by_cases hscale : x.scale + size ≤ maxScale
  · refine ⟨{ x with scale := x.scale + size }, ?_, ?_⟩
    · rw [lower?, if_neg (Nat.not_lt_of_le hsize), if_pos hscale]
    · rw [← value_lowered, (hasPlaces_value hscale).rounded_eq]
  · refine ⟨{ x.roundTo (maxScale - size) with scale := maxScale }, ?_, ?_⟩
    · rw [lower?, if_neg (Nat.not_lt_of_le hsize), if_neg hscale]
    · obtain ⟨places, hplaces⟩ := Nat.exists_eq_add_of_le' hsize
      have hless : places < x.scale := by omega
      have hroom : maxScale - size = places := by omega
      calc
        (⟨(x.roundTo (maxScale - size)).negative, (x.roundTo (maxScale - size)).mantissa,
            maxScale⟩ : Decimal).value
            = (⟨(x.roundTo places).negative, (x.roundTo places).mantissa,
                (x.roundTo places).scale + size⟩ : Decimal).value := by
          rw [hroom, scale_roundTo hless, ← hplaces]
        _ = rounded places x.value * 10 ^ (-(size : ℤ)) := by rw [value_lowered, value_roundTo]
        _ = rounded maxScale (x.value * 10 ^ (-(size : ℤ))) := by
          rw [hplaces, rounded_lowered]

/-! ### Reading digits -/

section Reading

variable {negative anyDigit : Bool} {mantissa scale : ℕ} {c : Char} {digits rest : List Char}

theorem ofDigitChars_digit (c : Char) (digits : List Char) (mantissa : ℕ) :
    ofDigitChars 10 (c :: digits) mantissa =
      ofDigitChars 10 digits (mantissa * 10 + digitValue c) := by
  rw [ofDigitChars_cons, Nat.mul_comm]
  rfl

/-- Digits behind a number add less than one to it. -/
theorem ofDigitChars_div_bounds (hdigits : ∀ c ∈ digits, c.isDigit = true) (mantissa : ℕ) :
    (mantissa : ℚ) ≤ ofDigitChars 10 digits mantissa / 10 ^ digits.length ∧
      (ofDigitChars 10 digits mantissa / 10 ^ digits.length : ℚ) < mantissa + 1 := by
  have hpow : (0 : ℚ) < 10 ^ digits.length := by positivity
  have hlow : mantissa * 10 ^ digits.length ≤ ofDigitChars 10 digits mantissa := by
    rw [Nat.mul_comm]
    exact mul_le_ofDigitChars digits mantissa
  have hhigh : ofDigitChars 10 digits mantissa < (mantissa + 1) * 10 ^ digits.length := by
    have hrest := ofDigitChars_zero_lt hdigits
    rw [ofDigitChars_eq_ofDigitChars_zero]
    linarith
  rw [le_div_iff₀ hpow, div_lt_iff₀ hpow]
  exact ⟨by exact_mod_cast hlow, by exact_mod_cast hhigh⟩

/-- The first digit behind a number tells on which side of the half the digits are. -/
theorem digitValue_lt_five_iff (hdigits : ∀ d ∈ c :: digits, d.isDigit = true) (mantissa : ℕ) :
    digitValue c < 5 ↔
      (ofDigitChars 10 (c :: digits) mantissa / 10 ^ (c :: digits).length : ℚ) <
        mantissa + 1 / 2 := by
  obtain ⟨hlow, hhigh⟩ :=
    ofDigitChars_div_bounds (List.forall_mem_cons.mp hdigits).2 (mantissa * 10 + digitValue c)
  rw [ofDigitChars_digit, List.length_cons, pow_succ, ← div_div,
    div_lt_iff₀ (by norm_num : (0 : ℚ) < 10)]
  push_cast at hlow hhigh
  constructor
  · intro hless
    have hfour : (digitValue c : ℚ) ≤ 4 := by exact_mod_cast Nat.le_of_lt_succ hless
    linarith
  · intro hless
    have hfive : (digitValue c : ℚ) < 5 := by linarith
    exact_mod_cast hfive

/-- Rounding by the first digit that is left over is rounding to the places that have been read,
which are as many as fit. -/
theorem roundUp?_eq_held? {digit : ℕ} (hlow : (mantissa : ℚ) ≤ size * 10 ^ scale)
    (hhigh : size * 10 ^ scale < mantissa + 1)
    (hdigit : digit < 5 ↔ size * 10 ^ scale < mantissa + 1 / 2)
    (hmantissa : mantissa < mantissaBound) (hroom : room size = scale) (hsize : 0 ≤ size) :
    (roundUp? negative mantissa scale digit).map value = held? (sign negative * size) := by
  have habs : |sign negative * size| = size := by
    rw [abs_mul, abs_sign, one_mul, abs_of_nonneg hsize]
  have hfits : (mantissa : ℚ) + 1 ≤ mantissaBound := by exact_mod_cast hmantissa
  have hless : size < mantissaBound := by
    have hpow : (1 : ℚ) ≤ 10 ^ scale := one_le_pow₀ (by norm_num)
    have hgrows := le_mul_of_one_le_right hsize hpow
    linarith
  have hscaled : 0 ≤ size * 10 ^ scale := by positivity
  rw [held?, habs, if_neg (not_le.mpr hless), hroom, rounded_sign_mul, rounded_sign_mul]
  by_cases hdown : digit < 5
  · have hnearest : nearestWhole (size * 10 ^ scale) = mantissa :=
      nearestWhole_eq (by linarith) (hdigit.mp hdown) hscaled
    rw [hnearest, if_pos (by exact_mod_cast hmantissa), roundUp?.eq_def, if_pos hdown,
      Option.map_some, value_unsignedZero, value, rounded, hnearest, Int.cast_natCast]
  have hhalf := not_lt.mp (hdigit.not.mp hdown)
  have hnearest : nearestWhole (size * 10 ^ scale) = (mantissa + 1 : ℕ) := by
    refine nearestWhole_eq ?_ ?_ hscaled <;> push_cast <;> linarith
  rw [hnearest]
  by_cases hcarry : mantissa + 1 < mantissaBound
  · rw [if_pos (by exact_mod_cast hcarry), roundUp?.eq_def, if_neg hdown, if_pos hcarry,
      Option.map_some, value_unsignedZero, value, rounded, hnearest, Int.cast_natCast]
  rw [if_neg (by exact_mod_cast hcarry), roundUp?.eq_def, if_neg hdown, if_neg hcarry]
  cases scale with
  | zero => rfl
  | succ scale =>
      -- the mantissa is the largest one
      obtain rfl : mantissa = mantissaBound - 1 := by omega
      have hten : nearestWhole (size * 10 ^ scale) = ((mantissaBound - 1 + 5) / 10 : ℕ) := by
        rw [pow_succ, ← mul_assoc, mantissaBound_eq] at hhalf hhigh
        norm_num at hhalf hhigh
        rw [mantissaBound_eq]
        refine nearestWhole_eq ?_ ?_ (by positivity) <;> norm_num <;> linarith
      rw [if_neg (Nat.succ_ne_zero scale), Nat.add_sub_cancel, Option.map_some, value_unsignedZero,
        value, rounded, hten, Int.cast_natCast]

theorem value_shift (scale : ℕ) {units places : ℕ} :
    (units / 10 ^ (scale + places) * 10 ^ scale : ℚ) = units / 10 ^ places := by
  rw [pow_add]
  field_simp

/-- Behind the last place there can be, the next digit alone is looked at. -/
theorem roundOff?_eq_held? (hdigits : ∀ c ∈ digits, c.isDigit = true)
    (hmantissa : mantissa < mantissaBound) (hscale : scale = maxScale) :
    (roundOff? negative mantissa scale digits).map value =
      held?
        (⟨negative, ofDigitChars 10 digits mantissa, scale + digits.length⟩ : Decimal).value := by
  cases digits with
  | nil =>
      rw [roundOff?, Option.map_some, value_unsignedZero]
      exact (held?_value (x := ⟨negative, mantissa, scale⟩) ⟨hmantissa, hscale.le⟩).symm
  | cons c digits =>
      obtain ⟨hlow, hhigh⟩ := ofDigitChars_div_bounds hdigits mantissa
      rw [← value_shift scale] at hlow hhigh
      have hfits : (mantissa : ℚ) + 1 ≤ mantissaBound := by exact_mod_cast hmantissa
      rw [roundOff?, if_pos (hdigits c List.mem_cons_self)]
      refine roundUp?_eq_held? hlow hhigh ?_ hmantissa ?_ (by positivity)
      · rw [value_shift]
        exact digitValue_lt_five_iff hdigits mantissa
      · exact room_eq (by positivity) (hhigh.trans_le hfits) hscale.le (.inl hscale)

/-- The digits of a fraction are read to the value that is held for them. -/
theorem plainFrom?_fraction (hdigits : ∀ c ∈ digits, c.isDigit = true)
    (hmantissa : mantissa < mantissaBound) (hscale : scale < maxScale)
    (hany : anyDigit = true ∨ digits ≠ []) :
    (plainFrom? negative ⟨mantissa, scale, true, anyDigit⟩ digits).map value =
      held?
        (⟨negative, ofDigitChars 10 digits mantissa, scale + digits.length⟩ : Decimal).value := by
  induction digits generalizing mantissa scale anyDigit with
  | nil =>
      have hread : anyDigit = true := hany.resolve_right (fun h => h rfl)
      rw [plainFrom?, if_pos hread, Option.map_some, value_unsignedZero]
      exact (held?_value (x := ⟨negative, mantissa, scale⟩) ⟨hmantissa, hscale.le⟩).symm
  | cons c digits ih =>
      obtain ⟨hc, hrest⟩ := List.forall_mem_cons.mp hdigits
      have hlength : scale + (c :: digits).length = scale + 1 + digits.length := by
        rw [List.length_cons]
        omega
      simp only [plainFrom?, hc, if_true]
      obtain ⟨hlow, hhigh⟩ := ofDigitChars_div_bounds hdigits mantissa
      obtain ⟨hnextLow, hnextHigh⟩ := ofDigitChars_div_bounds hrest (mantissa * 10 + digitValue c)
      rw [← ofDigitChars_digit] at hnextLow hnextHigh
      rw [← value_shift scale] at hlow hhigh
      rw [← value_shift (scale + 1), ← hlength] at hnextLow hnextHigh
      have hsize : (0 : ℚ) ≤
          ofDigitChars 10 (c :: digits) mantissa / 10 ^ (scale + (c :: digits).length) := by
        positivity
      by_cases hover : mantissaBound ≤ mantissa * 10 + digitValue c
      · -- the mantissa is full
        rw [if_pos hover]
        have hmore : (mantissaBound : ℚ) ≤ (mantissa * 10 + digitValue c : ℕ) := by
          exact_mod_cast hover
        have hfits : (mantissa : ℚ) + 1 ≤ mantissaBound := by exact_mod_cast hmantissa
        refine roundUp?_eq_held? hlow hhigh ?_ hmantissa ?_ hsize
        · rw [value_shift]
          exact digitValue_lt_five_iff hdigits mantissa
        · exact room_eq hsize (hhigh.trans_le hfits) hscale.le (.inr (hmore.trans hnextLow))
      rw [if_neg hover]
      have hnext := Nat.lt_of_not_le hover
      by_cases hfull : maxScale ≤ scale + 1
      · -- there are as many places as there can be
        have hlast : scale + 1 = maxScale := Nat.le_antisymm hscale hfull
        rw [Bool.true_and, if_pos (decide_eq_true hfull), hlength, ofDigitChars_digit]
        exact roundOff?_eq_held? hrest hnext hlast
      · rw [Bool.true_and, if_neg (by simpa using hfull), hlength, ofDigitChars_digit]
        exact ih hrest hnext (Nat.lt_of_not_le hfull) (.inl rfl)

/-- What may follow the digits of a plain number: nothing, or an exponent. -/
inductive Ends : List Char → Prop where
  | nil : Ends []
  | mark {c : Char} (rest : List Char) (h : isExponentMark c = true) : Ends (c :: rest)

theorem isExponentMark_iff {c : Char} : isExponentMark c = true ↔ c = 'e' ∨ c = 'E' := by
  simp [isExponentMark]

theorem plainFrom?_mark {c : Char} (h : isExponentMark c = true) (read : Progress)
    (rest : List Char) : plainFrom? negative read (c :: rest) = none := by
  rcases isExponentMark_iff.mp h with rfl | rfl <;> simp [plainFrom?]

theorem roundOff?_eq_plainFrom? {rest : List Char} (h : Ends rest) :
    roundOff? negative mantissa scale rest =
      plainFrom? negative ⟨mantissa, scale, true, true⟩ rest := by
  cases h with
  | nil => rfl
  | mark rest hmark =>
      rw [plainFrom?_mark hmark]
      rcases isExponentMark_iff.mp hmark with rfl | rfl <;> simp [roundOff?]

/-- Digits of a fraction that fit are read one after another. -/
theorem plainFrom?_fraction_append (hdigits : ∀ c ∈ digits, c.isDigit = true)
    (hunits : ofDigitChars 10 digits mantissa < mantissaBound)
    (hplaces : scale + digits.length ≤ maxScale) (hrest : Ends rest) :
    plainFrom? negative ⟨mantissa, scale, true, anyDigit⟩ (digits ++ rest) =
      plainFrom? negative ⟨ofDigitChars 10 digits mantissa, scale + digits.length, true,
        anyDigit || !digits.isEmpty⟩ rest := by
  induction digits generalizing mantissa scale anyDigit with
  | nil => simp
  | cons c digits ih =>
      obtain ⟨hc, hmore⟩ := List.forall_mem_cons.mp hdigits
      have hlength : scale + (c :: digits).length = scale + 1 + digits.length := by
        rw [List.length_cons]
        omega
      rw [ofDigitChars_digit] at hunits ⊢
      rw [hlength] at hplaces ⊢
      have hless : ¬mantissaBound ≤ mantissa * 10 + digitValue c :=
        Nat.not_le_of_lt (Nat.lt_of_le_of_lt (le_ofDigitChars digits _) hunits)
      rw [List.cons_append, plainFrom?]
      simp only [hc, if_true, if_neg hless, Bool.true_and, List.isEmpty_cons, Bool.not_false,
        Bool.or_true]
      by_cases hfull : maxScale ≤ scale + 1
      · obtain rfl : digits = [] := List.length_eq_zero_iff.mp (by omega)
        rw [if_pos (decide_eq_true hfull)]
        exact roundOff?_eq_plainFrom? hrest
      · rw [if_neg (by simpa using hfull)]
        exact (ih hmore hunits hplaces).trans (by rw [Bool.true_or])

/-- Digits in front of the point are read one after another, as long as they fit. -/
theorem plainFrom?_whole (hdigits : ∀ c ∈ digits, c.isDigit = true)
    (hunits : ofDigitChars 10 digits mantissa < mantissaBound) :
    plainFrom? negative ⟨mantissa, 0, false, anyDigit⟩ (digits ++ rest) =
      plainFrom? negative ⟨ofDigitChars 10 digits mantissa, 0, false,
        anyDigit || !digits.isEmpty⟩ rest := by
  induction digits generalizing mantissa anyDigit with
  | nil => simp
  | cons c digits ih =>
      obtain ⟨hc, hmore⟩ := List.forall_mem_cons.mp hdigits
      rw [ofDigitChars_digit] at hunits ⊢
      have hless : ¬mantissaBound ≤ mantissa * 10 + digitValue c :=
        Nat.not_le_of_lt (Nat.lt_of_le_of_lt (le_ofDigitChars digits _) hunits)
      rw [List.cons_append, plainFrom?]
      simp only [hc, if_true, if_neg hless, Bool.false_eq_true, if_false, Bool.false_and,
        List.isEmpty_cons, Bool.not_false, Bool.or_true]
      exact (ih hmore hunits).trans (by rw [Bool.true_or])

/-- Digits in front of the point that do not fit are not read at all. -/
theorem plainFrom?_whole_eq_none (hdigits : ∀ c ∈ digits, c.isDigit = true)
    (hmantissa : mantissa < mantissaBound)
    (hover : mantissaBound ≤ ofDigitChars 10 digits mantissa) :
    plainFrom? negative ⟨mantissa, 0, false, anyDigit⟩ (digits ++ rest) = none := by
  induction digits generalizing mantissa anyDigit with
  | nil => exact absurd hover (Nat.not_le_of_lt hmantissa)
  | cons c digits ih =>
      obtain ⟨hc, hmore⟩ := List.forall_mem_cons.mp hdigits
      rw [ofDigitChars_digit] at hover
      rw [List.cons_append, plainFrom?]
      simp only [hc, if_true, Bool.false_eq_true, if_false, Bool.false_and]
      split
      · rfl
      · rename_i hless
        exact ih hmore (Nat.lt_of_not_le hless) hover

theorem plainFrom?_point :
    plainFrom? negative ⟨mantissa, 0, false, anyDigit⟩ ('.' :: rest) =
      plainFrom? negative ⟨mantissa, 0, true, anyDigit⟩ rest := by
  simp [plainFrom?]

end Reading

/-! ### Plain numbers -/

/-- A fraction with its point. -/
def pointed : Option (List Char) → List Char
  | none => []
  | some digits => '.' :: digits

section Plain

variable {negative : Bool} {whole rest : List Char} {fraction : Option (List Char)}

/-- **What a plain number is read as.** It is the value that is held for the value of its digits,
or nothing where none is held. -/
theorem plainFrom?_eq_held? (hwhole : ∀ c ∈ whole, c.isDigit = true)
    (hfraction : ∀ c ∈ fraction.getD [], c.isDigit = true)
    (hany : whole ++ fraction.getD [] ≠ []) :
    (plainFrom? negative ⟨0, 0, false, false⟩ (whole ++ pointed fraction)).map value =
      held? (⟨negative, ofDigitChars 10 (whole ++ fraction.getD []) 0,
        (fraction.getD []).length⟩ : Decimal).value := by
  rw [ofDigitChars_append]
  by_cases hover : mantissaBound ≤ ofDigitChars 10 whole 0
  · -- the whole part is too large, and so is the number
    obtain ⟨hlow, -⟩ := ofDigitChars_div_bounds hfraction (ofDigitChars 10 whole 0)
    have hlarge : (mantissaBound : ℚ) ≤ ofDigitChars 10 whole 0 := by exact_mod_cast hover
    rw [plainFrom?_whole_eq_none hwhole (by decide) hover, held?, abs_value,
      if_pos (hlarge.trans hlow)]
    rfl
  have hless := Nat.lt_of_not_le hover
  rw [plainFrom?_whole hwhole hless, Bool.false_or]
  cases fraction with
  | none =>
      rw [Option.getD_none, List.append_nil] at hany
      have hread : (!whole.isEmpty) = true := by simpa using hany
      rw [pointed, plainFrom?, if_pos hread, Option.map_some, value_unsignedZero]
      exact (held?_value (x := ⟨negative, ofDigitChars 10 whole 0, 0⟩)
        ⟨hless, Nat.zero_le _⟩).symm
  | some digits =>
      simp only [Option.getD_some] at hfraction hany ⊢
      rw [pointed, plainFrom?_point, ← Nat.zero_add digits.length]
      refine plainFrom?_fraction hfraction hless (by decide) ?_
      cases whole with
      | nil => exact .inr hany
      | cons => exact .inl rfl

/-- What is read of a plain number whose digits fit, and what follows it. -/
theorem plainFrom?_append (hwhole : ∀ c ∈ whole, c.isDigit = true)
    (hfraction : ∀ c ∈ fraction.getD [], c.isDigit = true)
    (hunits : ofDigitChars 10 (whole ++ fraction.getD []) 0 < mantissaBound)
    (hplaces : (fraction.getD []).length ≤ maxScale) (hrest : Ends rest) :
    plainFrom? negative ⟨0, 0, false, false⟩ (whole ++ (pointed fraction ++ rest)) =
      plainFrom? negative ⟨ofDigitChars 10 (whole ++ fraction.getD []) 0,
        (fraction.getD []).length, fraction.isSome, !(whole ++ fraction.getD []).isEmpty⟩ rest := by
  rw [ofDigitChars_append] at hunits
  rw [plainFrom?_whole hwhole (Nat.lt_of_le_of_lt (le_ofDigitChars _ _) hunits)]
  cases fraction with
  | none => simp [pointed]
  | some digits =>
      simp only [Option.getD_some] at hfraction hunits hplaces ⊢
      rw [← Nat.zero_add digits.length] at hplaces
      rw [pointed, List.cons_append, plainFrom?_point,
        plainFrom?_fraction_append hfraction hunits hplaces hrest, ofDigitChars_append,
        Nat.zero_add]
      cases whole <;> simp

end Plain

end Decimal

end SpotWire.Numeric
