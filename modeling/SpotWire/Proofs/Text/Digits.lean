import Mathlib.Data.List.TakeWhile
import Mathlib.Data.Nat.Digits.Lemmas

/-!
# Digits in texts

Digits read after others: the number that they spell is no less than the one already read, and it
is bounded by their count. The digits at the start of a text end where it goes on with no digit.
-/

namespace SpotWire.Text

open Nat (ofDigitChars ofDigitChars_cons ofDigitChars_eq_ofDigitChars_zero)

/-! ### Numbers of digits -/

theorem ofDigitChars_zero_lt {digits : List Char} (h : ∀ c ∈ digits, c.isDigit = true) :
    ofDigitChars 10 digits 0 < 10 ^ digits.length := by
  induction digits with
  | nil => exact Nat.one_pos
  | cons c digits ih =>
      obtain ⟨hc, hdigits⟩ := List.forall_mem_cons.mp h
      have hvalue : c.toNat - '0'.toNat < 10 := by
        obtain ⟨-, hnine⟩ := Char.isDigit_iff_toNat.mp hc
        have hzero : '0'.toNat = 48 := rfl
        have hlast : '9'.toNat = 57 := rfl
        omega
      have hrest := ih hdigits
      rw [ofDigitChars_cons, ofDigitChars_eq_ofDigitChars_zero, Nat.mul_zero, Nat.zero_add,
        List.length_cons, pow_succ]
      nlinarith

theorem mul_le_ofDigitChars (digits : List Char) (number : ℕ) :
    10 ^ digits.length * number ≤ ofDigitChars 10 digits number := by
  rw [ofDigitChars_eq_ofDigitChars_zero]
  exact Nat.le_add_right _ _

theorem le_ofDigitChars (digits : List Char) (number : ℕ) :
    number ≤ ofDigitChars 10 digits number := by
  have hpos : 0 < 10 ^ digits.length := Nat.pow_pos (by decide)
  exact Nat.le_trans (Nat.le_mul_of_pos_left number hpos) (mul_le_ofDigitChars digits number)

/-! ### The digits at the start of a text -/

/-- A text that does not begin with a digit. -/
def StopsDigits (rest : List Char) : Prop :=
  ∀ c, rest.head? = some c → c.isDigit = false

variable {digits rest : List Char}

theorem takeWhile_isDigit (hdigits : ∀ c ∈ digits, c.isDigit = true) (hrest : StopsDigits rest) :
    (digits ++ rest).takeWhile Char.isDigit = digits := by
  rw [List.takeWhile_append_of_pos hdigits]
  cases rest with
  | nil => exact List.append_nil digits
  | cons c rest => rw [List.takeWhile_cons_of_neg (by simp [hrest c rfl]), List.append_nil]

theorem dropWhile_isDigit (hdigits : ∀ c ∈ digits, c.isDigit = true) (hrest : StopsDigits rest) :
    (digits ++ rest).dropWhile Char.isDigit = rest := by
  rw [List.dropWhile_append_of_pos hdigits]
  cases rest with
  | nil => rfl
  | cons c rest => exact List.dropWhile_cons_of_neg (by simp [hrest c rfl])

end SpotWire.Text
