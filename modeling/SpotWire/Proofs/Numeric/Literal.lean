import SpotWire.Proofs.Numeric.Held

/-!
# Reading decimal literals

A literal is a sign, digits, perhaps a fraction and perhaps an exponent of ten, and it has a value
whatever its size. What a plain literal is read as depends on its value alone (`ofText?_of_plain`),
and it is read exactly whenever a decimal number has that value (`isReadExactly_of_plain`). The same
holds for a literal with an exponent whose digits fit, as far as the exponent is applied to them
(`ofText?_of_canShift`); where it is not, nothing is read (`ofText?_eq_none`).
-/

namespace SpotWire.Numeric

open Nat (ofDigitChars)

inductive Sign where
  | none
  | plus
  | minus
deriving DecidableEq, Repr

namespace Sign

def chars : Sign → List Char
  | none => []
  | plus => ['+']
  | minus => ['-']

def isMinus : Sign → Bool
  | minus => true
  | _ => false

end Sign

/-- An exponent of ten, behind the letter for it. -/
structure Exponent where
  mark : Char
  sign : Sign
  digits : List Char
  isMark : Decimal.isExponentMark mark = true
  isDigit : ∀ c ∈ digits, c.isDigit = true
  ne_nil : digits ≠ []

namespace Exponent

def size (exponent : Exponent) : ℕ :=
  ofDigitChars 10 exponent.digits 0

/-- The size of an exponent, if it is a number of 32 bits. -/
def size? (exponent : Exponent) : Option ℕ :=
  (some exponent.size).filter (· ≤ word32Max)

theorem size?_eq_some {exponent : Exponent} (h : exponent.size ≤ word32Max) :
    exponent.size? = some exponent.size := by
  rw [size?, Option.filter_some, if_pos (decide_eq_true h)]

def power (exponent : Exponent) : ℤ :=
  Decimal.sign exponent.sign.isMinus * exponent.size

def chars (exponent : Exponent) : List Char :=
  exponent.mark :: (exponent.sign.chars ++ exponent.digits)

end Exponent

/-- A decimal literal: there is a digit in front of the point or behind it. -/
structure Literal where
  sign : Sign
  whole : List Char
  fraction : Option (List Char)
  exponent : Option Exponent
  isDigit_whole : ∀ c ∈ whole, c.isDigit = true
  isDigit_fraction : ∀ c ∈ fraction.getD [], c.isDigit = true
  ne_nil : whole ++ fraction.getD [] ≠ []

namespace Literal

/-- The text without its sign and its exponent. -/
def body (literal : Literal) : List Char :=
  literal.whole ++ Decimal.pointed literal.fraction

def chars (literal : Literal) : List Char :=
  literal.sign.chars ++ (literal.body ++ (literal.exponent.map Exponent.chars).getD [])

def units (literal : Literal) : ℕ :=
  ofDigitChars 10 (literal.whole ++ literal.fraction.getD []) 0

def places (literal : Literal) : ℕ :=
  (literal.fraction.getD []).length

def power (literal : Literal) : ℤ :=
  (literal.exponent.map Exponent.power).getD 0

def value (literal : Literal) : ℚ :=
  Decimal.sign literal.sign.isMinus * (literal.units / 10 ^ literal.places) * 10 ^ literal.power

/-- The reader of decimal numbers gives the very value of a literal. -/
def IsReadExactly (literal : Literal) : Prop :=
  ∃ x, Decimal.ofText? literal.chars = some x ∧ x.value = literal.value

variable {literal : Literal} {exponent : Exponent}

theorem head_body {c : Char} (h : literal.body.head? = some c) : c.isDigit = true ∨ c = '.' := by
  cases hwhole : literal.whole with
  | cons d digits =>
      simp only [body, hwhole, List.cons_append, List.head?_cons, Option.some.injEq] at h
      exact .inl (literal.isDigit_whole c (by rw [hwhole, h]; exact List.mem_cons_self))
  | nil =>
      cases hfraction : literal.fraction with
      | none => exact absurd (by rw [hwhole, hfraction]; rfl) literal.ne_nil
      | some digits =>
          simp only [body, hwhole, hfraction, Decimal.pointed, List.nil_append, List.head?_cons,
            Option.some.injEq] at h
          exact .inr h.symm

theorem body_ne_nil (literal : Literal) : literal.body ≠ [] := by
  intro h
  obtain ⟨hwhole, hpointed⟩ := List.append_eq_nil_iff.mp h
  cases hfraction : literal.fraction with
  | none => exact literal.ne_nil (by rw [hwhole, hfraction]; rfl)
  | some digits =>
      rw [hfraction] at hpointed
      cases hpointed

/-- The sign in front of a number is read apart. -/
theorem plain?_sign (literal : Literal) (rest : List Char) :
    Decimal.plain? (literal.sign.chars ++ (literal.body ++ rest)) =
      Decimal.plainFrom? literal.sign.isMinus ⟨0, 0, false, false⟩ (literal.body ++ rest) := by
  cases literal.sign with
  | plus | minus => rfl
  | none =>
      obtain ⟨c, tail, hbody⟩ := List.exists_cons_of_ne_nil literal.body_ne_nil
      have hhead := head_body (by rw [hbody, List.head?_cons])
      rw [hbody, Sign.chars, List.nil_append, List.cons_append, Decimal.plain?]
      · rfl
      · rintro _ ⟨⟩
        simp at hhead
      · rintro _ ⟨⟩
        simp at hhead

theorem not_isExponentMark {c : Char} (h : c.isDigit = true) :
    (!Decimal.isExponentMark c) = true := by
  rw [Bool.not_eq_true', Bool.eq_false_iff]
  intro hmark
  rcases Decimal.isExponentMark_iff.mp hmark with rfl | rfl <;> cases h

theorem not_isExponentMark_of_mem (literal : Literal) :
    ∀ c ∈ literal.sign.chars ++ literal.body, (!Decimal.isExponentMark c) = true := by
  intro c hc
  rcases List.mem_append.mp hc with hsign | hbody
  · cases hliteral : literal.sign with
    | none => simp [hliteral, Sign.chars] at hsign
    | plus | minus =>
        rw [hliteral] at hsign
        rw [List.mem_singleton.mp hsign]
        rfl
  · rcases List.mem_append.mp hbody with hwhole | hfraction
    · exact not_isExponentMark (literal.isDigit_whole c hwhole)
    · cases hliteral : literal.fraction with
      | none => simp [hliteral, Decimal.pointed] at hfraction
      | some digits =>
          rw [hliteral, Decimal.pointed] at hfraction
          rcases List.mem_cons.mp hfraction with rfl | hdigit
          · rfl
          · exact not_isExponentMark (literal.isDigit_fraction c (by rwa [hliteral]))

/-! ### Plain literals -/

theorem value_of_plain (hplain : literal.exponent = none) :
    literal.value =
      (⟨literal.sign.isMinus, literal.units, literal.places⟩ : Decimal).value := by
  have hpower : literal.power = 0 := by rw [power, hplain]; rfl
  rw [value, hpower, zpow_zero, mul_one]
  rfl

theorem scientific?_of_plain (hplain : literal.exponent = none) :
    Decimal.scientific? literal.chars = none := by
  have hchars : literal.chars = literal.sign.chars ++ literal.body ++ [] := by
    rw [chars, hplain, List.append_assoc]
    rfl
  rw [Decimal.scientific?, hchars, List.dropWhile_append_of_pos literal.not_isExponentMark_of_mem]
  rfl

/-- The value of a plain literal decides what it is read as. -/
theorem ofText?_of_plain (hplain : literal.exponent = none) :
    (Decimal.ofText? literal.chars).map Decimal.value = Decimal.held? literal.value := by
  have hchars : literal.chars = literal.sign.chars ++ (literal.body ++ []) := by
    rw [chars, hplain]
    rfl
  have hread : Decimal.ofText? literal.chars =
      Decimal.plainFrom? literal.sign.isMinus ⟨0, 0, false, false⟩ literal.body := by
    rw [Decimal.ofText?, scientific?_of_plain hplain, Option.orElse_eq_orElse, Option.orElse_eq_or,
      Option.or_none, hchars, plain?_sign, List.append_nil]
  rw [hread, value_of_plain hplain]
  exact Decimal.plainFrom?_eq_held? literal.isDigit_whole literal.isDigit_fraction literal.ne_nil

/-- A plain literal is read exactly if a decimal number has its value, however many digits it
has. -/
theorem isReadExactly_of_plain (hplain : literal.exponent = none) {x : Decimal}
    (hx : x.Representable) (h : x.value = literal.value) : literal.IsReadExactly := by
  have hread := ofText?_of_plain hplain
  rw [← h, Decimal.held?_value hx, Option.map_eq_some_iff] at hread
  rwa [h] at hread

/-! ### Literals with an exponent -/

/-- The digits of a literal fit a decimal number. -/
structure DigitsFit (literal : Literal) : Prop where
  units : literal.units < Decimal.mantissaBound
  places : literal.places ≤ Decimal.maxScale

/-- The digits of a literal have no more places than an exponent takes away, or they fit with the
zeros that it adds. -/
def CanRaise (literal : Literal) (size : ℕ) : Prop :=
  size ≤ literal.places ∨ (size ≤ Decimal.maxScale ∧
    literal.units * 10 ^ (size - literal.places) < Decimal.mantissaBound)

/-- An exponent is applied to the digits of a literal: it adds no more places than there can be, or
it raises digits that fit. -/
def CanShift (literal : Literal) (exponent : Exponent) : Prop :=
  if exponent.sign.isMinus then exponent.size ≤ Decimal.maxScale
  else literal.CanRaise exponent.size

theorem exponentSize?_digits (exponent : Exponent) :
    Decimal.exponentSize? exponent.digits = exponent.size? ∧
      Decimal.exponentSize? ('+' :: exponent.digits) = exponent.size? := by
  have hdigits : Decimal.digits? exponent.digits = some exponent.size := by
    have hall : exponent.digits.all Char.isDigit = true := List.all_eq_true.mpr exponent.isDigit
    have hempty : exponent.digits.isEmpty = false := by simpa using exponent.ne_nil
    rw [Decimal.digits?, hall, hempty]
    rfl
  have hfilter : (Decimal.digits? exponent.digits).filter (· ≤ word32Max) = exponent.size? := by
    rw [hdigits, Exponent.size?]
  refine ⟨?_, hfilter⟩
  unfold Decimal.exponentSize?
  split
  · rename_i rest hplus
    have hdigit := exponent.isDigit '+' (by rw [hplus]; exact List.mem_cons_self)
    cases hdigit
  · exact hfilter

/-- The number in front of an exponent, as it is read. -/
def base (literal : Literal) : Decimal :=
  .unsignedZero literal.sign.isMinus literal.units literal.places

theorem plain?_append {rest : List Char} (hfits : literal.DigitsFit) (hrest : Decimal.Ends rest) :
    Decimal.plain? (literal.sign.chars ++ (literal.body ++ rest)) =
      Decimal.plainFrom? literal.sign.isMinus
        ⟨literal.units, literal.places, literal.fraction.isSome, true⟩ rest := by
  have hany : (!(literal.whole ++ literal.fraction.getD []).isEmpty) = true := by
    rw [Bool.not_eq_true', List.isEmpty_eq_false_iff]
    exact literal.ne_nil
  rw [plain?_sign, body, List.append_assoc, Decimal.plainFrom?_append literal.isDigit_whole
    literal.isDigit_fraction hfits.units hfits.places hrest, hany]
  rfl

/-- No plain number has an exponent. -/
theorem plain?_chars (hexponent : literal.exponent = some exponent) (hfits : literal.DigitsFit) :
    Decimal.plain? literal.chars = none := by
  rw [chars, hexponent]
  exact (plain?_append hfits (.mark _ exponent.isMark)).trans
    (Decimal.plainFrom?_mark exponent.isMark _ _)

theorem scientific?_chars (hexponent : literal.exponent = some exponent)
    (hfits : literal.DigitsFit) :
    Decimal.scientific? literal.chars =
      if exponent.sign.isMinus then exponent.size?.bind literal.base.lower?
      else exponent.size?.bind literal.base.raise? := by
  have hchars : literal.chars = (literal.sign.chars ++ literal.body) ++
      exponent.mark :: (exponent.sign.chars ++ exponent.digits) := by
    rw [chars, hexponent, List.append_assoc]
    rfl
  have hbase : Decimal.plain? (literal.sign.chars ++ literal.body) = some literal.base := by
    have hplain := plain?_append hfits .nil
    rw [List.append_nil] at hplain
    exact hplain
  obtain ⟨hdigits, hsigned⟩ := exponentSize?_digits exponent
  rw [Decimal.scientific?, hchars, List.takeWhile_append_of_pos literal.not_isExponentMark_of_mem,
    List.dropWhile_append_of_pos literal.not_isExponentMark_of_mem]
  simp only [List.takeWhile_cons, List.dropWhile_cons, exponent.isMark, Bool.not_true,
    Bool.false_eq_true, if_false, List.append_nil, hbase, Option.bind_eq_bind, Option.bind_some]
  cases exponent.sign with
  | minus => rw [← hdigits]; rfl
  | plus => rw [← hsigned]; rfl
  | none =>
      rw [Sign.chars, List.nil_append]
      split
      · rename_i size hminus
        have hdigit := exponent.isDigit '-' (by rw [hminus]; exact List.mem_cons_self)
        cases hdigit
      · rw [hdigits]
        rfl

theorem value_eq_base_mul (hexponent : literal.exponent = some exponent) :
    literal.value = literal.base.value * 10 ^ exponent.power := by
  rw [value, base, Decimal.value_unsignedZero, power, hexponent]
  rfl

/-- Digits that fit are lowered to the value of the literal, rounded to the last place there can
be. -/
theorem ofText?_lowered (hexponent : literal.exponent = some exponent) (hfits : literal.DigitsFit)
    (hminus : exponent.sign.isMinus = true) (hsize : exponent.size ≤ Decimal.maxScale) :
    (Decimal.ofText? literal.chars).map Decimal.value =
      some (rounded Decimal.maxScale literal.value) := by
  have hwidth : exponent.size ≤ word32Max := Nat.le_trans hsize (by decide)
  obtain ⟨x, hx, hvalue⟩ := Decimal.exists_lower? literal.base hsize
  have hpower : exponent.power = -(exponent.size : ℤ) := by
    simp [Exponent.power, hminus, Decimal.sign]
  have hread : Decimal.ofText? literal.chars = some x := by
    rw [Decimal.ofText?, plain?_chars hexponent hfits, scientific?_chars hexponent hfits,
      if_pos hminus, Exponent.size?_eq_some hwidth]
    exact hx
  rw [hread, Option.map_some, hvalue, value_eq_base_mul hexponent, hpower]

/-- Digits that fit with what an exponent makes of them are raised exactly. -/
theorem exists_ofText?_raised (hexponent : literal.exponent = some exponent)
    (hfits : literal.DigitsFit) (hplus : exponent.sign.isMinus = false)
    (hraise : literal.CanRaise exponent.size) :
    ∃ x, Decimal.ofText? literal.chars = some x ∧ x.Representable ∧ x.value = literal.value := by
  have hscale : literal.base.scale = literal.places := rfl
  have hmantissa : literal.base.mantissa = literal.units := rfl
  have hsize : exponent.size ≤ Decimal.maxScale := by
    rcases hraise with hless | ⟨hless, -⟩
    · exact Nat.le_trans hless hfits.places
    · exact hless
  have hwidth : exponent.size ≤ word32Max := Nat.le_trans hsize (by decide)
  have hread : Decimal.ofText? literal.chars = literal.base.raise? exponent.size := by
    rw [Decimal.ofText?, plain?_chars hexponent hfits, scientific?_chars hexponent hfits, hplus,
      if_neg Bool.false_ne_true, Exponent.size?_eq_some hwidth]
    rfl
  have hpower : exponent.power = exponent.size := by
    simp [Exponent.power, hplus, Decimal.sign]
  rw [hread, value_eq_base_mul hexponent, hpower]
  by_cases hless : exponent.size ≤ literal.places
  · refine ⟨{ literal.base with scale := literal.places - exponent.size }, ?_, ?_, ?_⟩
    · rw [Decimal.raise?, hscale, if_pos hless]
    · exact ⟨hfits.units, Nat.le_trans (Nat.sub_le _ _) hfits.places⟩
    · obtain ⟨rest, hrest⟩ := Nat.exists_eq_add_of_le hless
      have hsub : literal.places - exponent.size = rest := by omega
      rw [Decimal.value, Decimal.value, hscale, hsub, hrest, pow_add, zpow_natCast]
      field_simp
  · obtain ⟨-, hunits⟩ := hraise.resolve_left hless
    refine ⟨.unsignedZero literal.base.negative
      (literal.units * 10 ^ (exponent.size - literal.places)) 0, ?_, ?_, ?_⟩
    · rw [Decimal.raise?, hscale, if_neg hless, if_neg (Nat.not_lt_of_le hsize)]
      exact if_pos hunits
    · exact ⟨hunits, Nat.zero_le _⟩
    · obtain ⟨rest, hrest⟩ := Nat.exists_eq_add_of_le (Nat.le_of_not_le hless)
      have hsub : exponent.size - literal.places = rest := by omega
      rw [Decimal.value_unsignedZero, Decimal.value, Decimal.value, hscale, hmantissa, hsub, hrest,
        zpow_natCast, pow_add]
      push_cast
      field_simp

/-- A literal whose digits fit, and to which its exponent is applied, is read like a plain one: its
value decides. -/
theorem ofText?_of_canShift (hexponent : literal.exponent = some exponent)
    (hfits : literal.DigitsFit) (hshift : literal.CanShift exponent) :
    (Decimal.ofText? literal.chars).map Decimal.value = Decimal.held? literal.value := by
  unfold CanShift at hshift
  split at hshift
  · rename_i hminus
    have hvalue : literal.value =
        (⟨literal.sign.isMinus, literal.units, literal.places + exponent.size⟩ : Decimal).value := by
      rw [value_eq_base_mul hexponent, base, Decimal.value_unsignedZero, Decimal.value_lowered]
      simp [Exponent.power, hminus, Decimal.sign]
    rw [ofText?_lowered hexponent hfits hminus hshift, hvalue,
      Decimal.held?_eq_rounded hfits.units]
  · rename_i hplus
    obtain ⟨x, hx, hrepresentable, hvalue⟩ :=
      exists_ofText?_raised hexponent hfits (Bool.eq_false_iff.mpr hplus) hshift
    rw [hx, Option.map_some, ← hvalue, Decimal.held?_value hrepresentable]

/-- A literal whose digits fit, and to which its exponent is applied, is read exactly if its value
has no more places than there can be. -/
theorem isReadExactly_of_canShift (hexponent : literal.exponent = some exponent)
    (hfits : literal.DigitsFit) (hshift : literal.CanShift exponent)
    (hplaces : HasPlaces literal.value Decimal.maxScale) : literal.IsReadExactly := by
  unfold CanShift at hshift
  split at hshift
  · rename_i hminus
    have hread := ofText?_lowered hexponent hfits hminus hshift
    rwa [hplaces.rounded_eq, Option.map_eq_some_iff] at hread
  · rename_i hplus
    obtain ⟨x, hx, -, hvalue⟩ :=
      exists_ofText?_raised hexponent hfits (Bool.eq_false_iff.mpr hplus) hshift
    exact ⟨x, hx, hvalue⟩

theorem raise?_eq_none {size : ℕ} (h : ¬literal.CanRaise size) :
    literal.base.raise? size = none := by
  obtain ⟨hmore, hbound⟩ := not_or.mp h
  have hscale : literal.base.scale = literal.places := rfl
  rw [Decimal.raise?, hscale, if_neg hmore]
  by_cases hsize : size ≤ Decimal.maxScale
  · rw [if_neg (Nat.not_lt_of_le hsize)]
    exact if_neg fun hless => hbound ⟨hsize, hless⟩
  · exact if_pos (Nat.lt_of_not_le hsize)

/-- Nothing is read of a literal whose digits fit if its exponent is not applied to them. -/
theorem ofText?_eq_none (hexponent : literal.exponent = some exponent) (hfits : literal.DigitsFit)
    (h : ¬literal.CanShift exponent) : Decimal.ofText? literal.chars = none := by
  have hbind : ∀ shift? : ℕ → Option Decimal, shift? exponent.size = none →
      exponent.size?.bind shift? = none := by
    intro shift? hnone
    rw [Option.bind_eq_none_iff]
    intro size hsize
    obtain ⟨hsame, -⟩ := Option.filter_eq_some_iff.mp hsize
    cases hsame
    exact hnone
  rw [Decimal.ofText?, plain?_chars hexponent hfits, scientific?_chars hexponent hfits]
  unfold CanShift at h
  split
  · rename_i hminus
    rw [if_pos hminus] at h
    rw [hbind literal.base.lower? (if_pos (Nat.lt_of_not_le h))]
    rfl
  · rename_i hplus
    rw [if_neg hplus] at h
    rw [hbind _ (raise?_eq_none h)]
    rfl

/-- The reader of decimal numbers takes in all of a literal: it is plain, or its digits fit and its
exponent is applied to them. -/
def IsInReach (literal : Literal) : Prop :=
  literal.exponent = none ∨
    (literal.DigitsFit ∧ ∀ exponent, literal.exponent = some exponent → literal.CanShift exponent)

/-- The value of a literal that is taken in decides what it is read as. -/
theorem ofText?_of_isInReach (h : literal.IsInReach) :
    (Decimal.ofText? literal.chars).map Decimal.value = Decimal.held? literal.value := by
  cases hexponent : literal.exponent with
  | none => exact ofText?_of_plain hexponent
  | some exponent =>
      rcases h with hplain | ⟨hfits, hshift⟩
      · exact absurd (hexponent.symm.trans hplain) (Option.some_ne_none exponent)
      · exact ofText?_of_canShift hexponent hfits (hshift exponent hexponent)

/-- Of a literal whose digits fit, all is taken in or nothing is read. -/
theorem DigitsFit.isInReach_or_ofText?_eq_none (h : literal.DigitsFit) :
    literal.IsInReach ∨ Decimal.ofText? literal.chars = none := by
  cases hexponent : literal.exponent with
  | none => exact .inl (.inl hexponent)
  | some exponent =>
      by_cases hshift : literal.CanShift exponent
      · refine .inl (.inr ⟨h, ?_⟩)
        rintro _ hsame
        obtain rfl : exponent = _ := Option.some.inj (hexponent.symm.trans hsame)
        exact hshift
      · exact .inr (ofText?_eq_none hexponent h hshift)

theorem abs_value (literal : Literal) :
    |literal.value| = literal.units * 10 ^ (literal.power - literal.places) := by
  rw [value, abs_mul, abs_mul, Decimal.abs_sign, one_mul, abs_of_nonneg (by positivity),
    abs_of_pos (zpow_pos (by norm_num) _), zpow_sub₀ (by norm_num), zpow_natCast]
  ring

theorem value_eq_sign_mul (literal : Literal) :
    literal.value = Decimal.sign literal.sign.isMinus * |literal.value| := by
  rw [abs_value, value, zpow_sub₀ (by norm_num), zpow_natCast]
  ring

theorem isMinus_iff (h : literal.value ≠ 0) :
    literal.sign.isMinus = true ↔ literal.value < 0 := by
  have hpos := abs_pos.mpr h
  have hvalue := literal.value_eq_sign_mul
  cases hminus : literal.sign.isMinus with
  | false =>
      rw [hminus, Decimal.sign, if_neg Bool.false_ne_true, Int.cast_one, one_mul] at hvalue
      exact iff_of_false Bool.false_ne_true (by linarith)
  | true =>
      rw [hminus, Decimal.sign, if_pos rfl, Int.cast_neg, Int.cast_one, neg_one_mul] at hvalue
      exact iff_of_true rfl (by linarith)

end Literal

end SpotWire.Numeric
