import SpotWire.Market.Increment
import SpotWire.Proofs.Numeric.Literal
import SpotWire.Proofs.Numeric.Nearest

/-!
# Whole numbers in the binary format

A whole number is rounded to a whole number of the binary format, so that an increment that is read
as one has no places (`approximatePlaces_nearest`). A literal is read as the number nearest to its
value (`Literal.binary_ofText?`).
-/

namespace SpotWire.Numeric

namespace Binary

/-! ### Rounding whole numbers -/

/-- A whole number is read as a whole number: where its last bit is behind the point, nothing is
rounded. -/
theorem exists_size_eq {negative : Bool} {n : ℕ} {x : Binary}
    (h : ofSize negative n = .finite x) : ∃ whole : ℕ, x.size = whole := by
  rcases Nat.eq_zero_or_pos n with rfl | hpos
  · rw [ofSize, if_pos (by rw [Nat.cast_zero])] at h
    cases h
    exact ⟨0, by rw [size_zero, Nat.cast_zero]⟩
  have hq : (0 : ℚ) < n := by exact_mod_cast hpos
  rw [ofSize, if_neg (not_le.mpr hq)] at h
  split at h
  · cases h
    rw [size_ofBits (bits_le hq)]
    rcases le_total 0 (lastBit n) with hnonneg | hnegative
    · obtain ⟨shift, hshift⟩ := Int.eq_ofNat_of_zero_le hnonneg
      refine ⟨bits n * 2 ^ shift, ?_⟩
      rw [hshift, zpow_natCast]
      push_cast
      rfl
    · obtain ⟨shift, hshift⟩ := Int.exists_eq_neg_ofNat hnegative
      have hunits : (n / 2 ^ lastBit n : ℚ) = ((n * 2 ^ shift : ℕ) : ℤ) := by
        rw [hshift, zpow_neg, zpow_natCast, div_inv_eq_mul]
        push_cast
        rfl
      refine ⟨n, ?_⟩
      rw [bits, hunits, nearestEven_intCast, Int.toNat_natCast, hshift, zpow_neg, zpow_natCast]
      push_cast
      field_simp
  · cases h

theorem inUnits_of_size_eq {x : Binary} {whole : ℕ} (h : x.size = whole) (places : ℕ) :
    x.inUnits places = whole * 10 ^ places := by
  have hunits : x.size * 10 ^ places = ((whole * 10 ^ places : ℕ) : ℤ) := by
    rw [h]
    push_cast
    rfl
  have hround := inUnits_eq places x
  rw [hunits, nearestEven_intCast] at hround
  exact_mod_cast hround

end Binary

/-! ### Places -/

theorem significantPlaces_mul (whole places : ℕ) :
    Increment.significantPlaces (whole * 10 ^ places) places = 0 := by
  induction places with
  | zero => rfl
  | succ places ih =>
      have hdvd : whole * 10 ^ (places + 1) = whole * 10 ^ places * 10 := by ring
      rw [Increment.significantPlaces, hdvd, if_pos (Nat.mul_mod_left _ _),
        Nat.mul_div_cancel _ (by decide), ih]

/-- An increment that is read in the binary format from a whole number has no places. -/
theorem approximatePlaces_nearest (negative : Bool) (units power : ℕ) :
    Increment.approximatePlaces (Binary.nearest negative units power) = 0 := by
  have hsize : (units * 10 ^ (power : ℤ) : ℚ) = ((units * 10 ^ power : ℕ) : ℚ) := by
    rw [zpow_natCast]
    push_cast
    rfl
  rw [Binary.nearest_eq_ofSize, hsize]
  cases hread : Binary.ofSize negative ((units * 10 ^ power : ℕ) : ℚ) with
  | finite x =>
      obtain ⟨whole, hwhole⟩ := Binary.exists_size_eq hread
      rw [Increment.approximatePlaces, Binary.inUnits_of_size_eq hwhole, significantPlaces_mul,
        ite_self]
  | infinite | notANumber => rfl

/-! ### Literals in the binary format -/

namespace Literal

open Text

variable {c : Char}

/-- The text of an exponent, if there is one. -/
def tail (literal : Literal) : List Char :=
  (literal.exponent.map Exponent.chars).getD []

theorem head_tail {literal : Literal} (h : literal.tail.head? = some c) : c = 'e' ∨ c = 'E' := by
  unfold tail at h
  cases hexponent : literal.exponent with
  | none =>
      rw [hexponent] at h
      cases h
  | some exponent =>
      rw [hexponent] at h
      cases h
      exact Decimal.isExponentMark_iff.mp exponent.isMark

theorem stopsDigits_tail (literal : Literal) : StopsDigits literal.tail := by
  intro c h
  rcases head_tail h with rfl | rfl <;> rfl

theorem exponent?_tail (literal : Literal) :
    Binary.exponent? literal.tail = some literal.power := by
  unfold tail power
  cases literal.exponent with
  | none => rfl
  | some exponent =>
      have hall : exponent.digits.all Char.isDigit = true := List.all_eq_true.mpr exponent.isDigit
      have hempty : exponent.digits.isEmpty = false := by simpa using exponent.ne_nil
      have hmark : (exponent.mark != 'e' && exponent.mark != 'E') = false := by
        rcases Decimal.isExponentMark_iff.mp exponent.isMark with h | h <;> rw [h] <;> rfl
      simp only [Option.map_some, Option.getD_some, Exponent.chars, Binary.exponent?, hmark,
        Bool.false_eq_true, if_false, Exponent.power, Exponent.size]
      cases exponent.sign with
      | minus => simp [Sign.chars, Sign.isMinus, Decimal.sign, hall, hempty]
      | plus => simp [Sign.chars, Sign.isMinus, Decimal.sign, hall, hempty]
      | none =>
          obtain ⟨d, more, hdigits⟩ := List.exists_cons_of_ne_nil exponent.ne_nil
          have hd := exponent.isDigit d (by rw [hdigits]; exact List.mem_cons_self)
          have hminus : d ≠ '-' := by
            rintro rfl
            cases hd
          have hplus : d ≠ '+' := by
            rintro rfl
            cases hd
          rw [hdigits] at hall ⊢
          simp [Sign.chars, Sign.isMinus, Decimal.sign, hminus, hplus, hall]

theorem toLower_head (h : c.isDigit = true ∨ c = '.') : c.toLower ≠ 'i' ∧ c.toLower ≠ 'n' := by
  rcases h with hdigit | rfl
  · obtain ⟨hlow, hhigh⟩ := Char.isDigit_iff_toNat.mp hdigit
    have hsame : c.toLower = c := by
      apply dif_neg
      rintro ⟨hupper, -⟩
      have hcapital : 65 ≤ c.toNat := hupper
      have hnine : '9'.toNat = 57 := rfl
      omega
    rw [hsame]
    constructor <;> rintro rfl <;> cases hdigit
  · decide

theorem unsigned?_body (literal : Literal) (negative : Bool) :
    Binary.unsigned? negative (literal.body ++ literal.tail) =
      some (Binary.nearest negative literal.units (literal.power - literal.places)) := by
  obtain ⟨c, more, hbody⟩ := List.exists_cons_of_ne_nil literal.body_ne_nil
  obtain ⟨hinf, hnan⟩ := toLower_head (head_body (by rw [hbody, List.head?_cons]))
  have hword : ∀ d word, c.toLower ≠ d →
      (literal.body ++ literal.tail).map Char.toLower ≠ d :: word := by
    intro d word hne heq
    rw [hbody, List.cons_append, List.map_cons] at heq
    exact hne (List.cons.inj heq).1
  have hnotInf : ¬((literal.body ++ literal.tail).map Char.toLower = "inf".toList ∨
      (literal.body ++ literal.tail).map Char.toLower = "infinity".toList) :=
    not_or.mpr ⟨hword 'i' _ hinf, hword 'i' _ hinf⟩
  have hnotNan : (literal.body ++ literal.tail).map Char.toLower ≠ "nan".toList :=
    hword 'n' _ hnan
  have hpointed : StopsDigits (Decimal.pointed literal.fraction ++ literal.tail) := by
    cases literal.fraction with
    | none => exact stopsDigits_tail literal
    | some digits =>
        rintro d ⟨⟩
        rfl
  have hwhole := takeWhile_isDigit literal.isDigit_whole hpointed
  have hrest := dropWhile_isDigit literal.isDigit_whole hpointed
  have hne := literal.ne_nil
  have hexponent := exponent?_tail literal
  unfold Binary.unsigned?
  dsimp only
  rw [if_neg hnotInf, if_neg hnotNan, body, List.append_assoc, hwhole, hrest, units, places]
  cases hfraction : literal.fraction with
  | none =>
      rw [hfraction, Option.getD_none, List.append_nil] at hne
      have hfull : literal.whole.isEmpty = false := List.isEmpty_eq_false_iff.mpr hne
      rw [Decimal.pointed, List.nil_append, Option.getD_none, List.append_nil]
      cases htail : literal.tail with
      | nil =>
          rw [htail] at hexponent
          simp [hexponent, hfull]
      | cons d rest =>
          have hmark : d ≠ '.' := by
            rintro rfl
            rcases head_tail (by rw [htail, List.head?_cons]) with h | h <;> cases h
          rw [htail] at hexponent
          simp [hmark, hexponent, hfull]
  | some digits =>
      have hdigits : ∀ d ∈ digits, d.isDigit = true := by
        simpa [hfraction] using literal.isDigit_fraction
      rw [hfraction, Option.getD_some] at hne
      have hfull : (literal.whole.isEmpty && digits.isEmpty) = false := by
        simpa [Bool.and_eq_false_iff, List.append_eq_nil_iff, imp_iff_not_or] using hne
      simp only [Decimal.pointed, List.cons_append, Option.getD_some,
        takeWhile_isDigit hdigits (stopsDigits_tail literal),
        dropWhile_isDigit hdigits (stopsDigits_tail literal), hexponent, hfull]
      rfl

theorem binary_ofText? (literal : Literal) :
    Binary.ofText? literal.chars =
      some (Binary.nearest literal.sign.isMinus literal.units
        (literal.power - literal.places)) := by
  change Binary.ofText? (literal.sign.chars ++ (literal.body ++ literal.tail)) = _
  rw [← unsigned?_body]
  cases literal.sign with
  | plus | minus => rfl
  | none =>
      obtain ⟨c, more, hbody⟩ := List.exists_cons_of_ne_nil literal.body_ne_nil
      have hhead := head_body (by rw [hbody, List.head?_cons])
      rw [hbody, Sign.chars, List.nil_append, List.cons_append, Binary.ofText?]
      · rfl
      · rintro _ ⟨⟩
        simp at hhead
      · rintro _ ⟨⟩
        simp at hhead

end Literal

end SpotWire.Numeric
