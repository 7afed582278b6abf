import SpotWire.Json.Number

/-!
# The texts of numbers

No number is written as a row of zeros, but for the single zero: whole numbers have no leading
zeros, and all others have a point or an exponent.
-/

namespace SpotWire.Json.Number

open Numeric (Binary)

variable {count : Nat}

theorem ofDigitChars_zeros (count : Nat) :
    Nat.ofDigitChars 10 (List.replicate count '0') 0 = 0 := by
  induction count with
  | zero => rfl
  | succ count ih =>
      rw [List.replicate_succ, Nat.ofDigitChars_cons]
      exact ih

theorem count_of_toDigits_eq_zeros {n : Nat} (h : Nat.toDigits 10 n = List.replicate count '0') :
    count = 1 := by
  have hvalue : n = 0 := by
    rw [← Nat.ofDigitChars_toDigits (b := 10) (n := n) (by decide) (by decide), h]
    exact ofDigitChars_zeros count
  subst hvalue
  have hlength := congrArg List.length h
  rw [List.length_replicate] at hlength
  exact hlength.symm

theorem count_of_integerText_eq_zeros {value : Int}
    (h : integerText value = List.replicate count '0') : count = 1 := by
  unfold integerText at h
  split at h
  · have hmem : '-' ∈ List.replicate count '0' := h ▸ List.mem_cons_self
    exact absurd (List.eq_of_mem_replicate hmem) (by decide)
  · exact count_of_toDigits_eq_zeros h

/-- A number that is not whole is told by a point or by the mark of an exponent. -/
theorem mark_mem_realText (x : Binary) : ∃ c ∈ ['.', 'e'], c ∈ realText x := by
  have hsize : ∃ c ∈ ['.', 'e'], c ∈ sizeText format x := by
    unfold sizeText
    split
    · exact ⟨'.', by simp, by simp⟩
    simp only
    split
    · refine ⟨'.', by simp, ?_⟩
      unfold positionalText
      split
      · simp
      · simp
      · split <;> simp
    · refine ⟨'e', by simp, ?_⟩
      simp [scientificText, format]
  obtain ⟨c, hmark, hmem⟩ := hsize
  exact ⟨c, hmark, List.mem_append_right _ hmem⟩

theorem count_of_text_eq_zeros {number : Number} (h : number.text = List.replicate count '0') :
    count = 1 := by
  cases number with
  | integer value => exact count_of_integerText_eq_zeros h
  | real value =>
      obtain ⟨c, hmark, hmem⟩ := mark_mem_realText value
      have hzero : c = '0' := List.eq_of_mem_replicate (h ▸ hmem : c ∈ List.replicate count '0')
      subst hzero
      exact absurd hmark (by decide)

end SpotWire.Json.Number
