import SpotWire.Message.Inbound
import SpotWire.Proofs.Numeric.Literal

/-!
# Timestamps of messages

A timestamp is a whole number of milliseconds or the digits of one, perhaps after a sign. Both
forms give the same milliseconds, for as long as the calendar lasts (`timestamp_forms_agree`).
Nothing else gives any. Digits are read without an overflow on the way (`gather?_eq_some_iff`): a
number only grows while more digits are read, so one without room in 64 bits stays without room.
-/

namespace SpotWire

open Json Numeric
open Nat (ofDigitChars ofDigitChars_cons)

/-! ### Numbers of 64 bits -/

/-- The whole numbers of 64 bits, one of them for the sign. -/
def IsInt64 (n : Int) : Prop :=
  int64Min ≤ n ∧ n ≤ int64Max

instance (n : Int) : Decidable (IsInt64 n) :=
  inferInstanceAs (Decidable (_ ∧ _))

/-- A result of 64 bits; `none` stands for an overflow. -/
def int64? (n : Int) : Option Int :=
  if IsInt64 n then some n else none

/-- A number by its sign and its size. -/
def signed (negative : Bool) (size : Nat) : Int :=
  if negative then -size else size

theorem isInt64_zero : IsInt64 0 := by
  decide

theorem IsInt64.of_le {negative : Bool} {size larger : Nat} (h : IsInt64 (signed negative larger))
    (hle : size ≤ larger) : IsInt64 (signed negative size) := by
  unfold IsInt64 int64Min int64Max at h ⊢
  cases negative with
  | true =>
      simp only [signed, if_true] at h ⊢
      omega
  | false =>
      simp only [signed, Bool.false_eq_true, if_false] at h ⊢
      omega

theorem signed_mul_ten (negative : Bool) (size : Nat) :
    signed negative size * 10 = signed negative (10 * size) := by
  unfold signed
  split
  all_goals omega

theorem signed_add (negative : Bool) (left right : Nat) :
    signed negative left + signed negative right = signed negative (left + right) := by
  unfold signed
  split
  all_goals omega

/-! ### Whole numbers in texts -/

/-- A text of digits, perhaps after a sign, spells a whole number of any size. -/
def SpellsInteger (text : List Char) (n : Int) : Prop :=
  ∃ (sign : Sign) (digits : List Char), text = sign.chars ++ digits ∧ digits ≠ [] ∧
    (∀ c ∈ digits, c.isDigit = true) ∧ n = signed sign.isMinus (ofDigitChars 10 digits 0)

/-- Whether a text begins with a minus, and what stands after its sign. -/
def splitSign : List Char → Bool × List Char
  | '-' :: rest => (true, rest)
  | '+' :: rest => (false, rest)
  | rest => (false, rest)

/-- Reads digits one after another behind a number. Each product and each sum has to be one of
64 bits. -/
def gather? (negative : Bool) (n : Int) : List Char → Option Int
  | [] => some n
  | c :: rest =>
      if c.isDigit then do
        let shifted ← int64? (n * 10)
        let next ← int64? (shifted + signed negative (c.toNat - '0'.toNat))
        gather? negative next rest
      else none

/-- Reads a whole number within 64 bits. -/
def gatherText? (text : List Char) : Option Int :=
  if (splitSign text).2 = [] then none else gather? (splitSign text).1 0 (splitSign text).2

section Spelling

variable {text digits rest : List Char} {negative : Bool} {n : Int} {size : Nat} {c : Char}

theorem splitSign_append (sign : Sign) (h : ∀ c ∈ digits, c.isDigit = true) :
    splitSign (sign.chars ++ digits) = (sign.isMinus, digits) := by
  cases sign with
  | plus | minus => rfl
  | none =>
      -- without a sign of its own, a text of digits does not begin with one
      change splitSign digits = (false, digits)
      unfold splitSign
      split
      · exact absurd (h '-' List.mem_cons_self) (by decide)
      · exact absurd (h '+' List.mem_cons_self) (by decide)
      · rfl

theorem exists_sign (h : splitSign text = (negative, digits)) :
    ∃ sign : Sign, text = sign.chars ++ digits ∧ negative = sign.isMinus := by
  unfold splitSign at h
  split at h
  · obtain ⟨rfl, rfl⟩ := Prod.mk.inj h
    exact ⟨.minus, rfl, rfl⟩
  · obtain ⟨rfl, rfl⟩ := Prod.mk.inj h
    exact ⟨.plus, rfl, rfl⟩
  · obtain ⟨rfl, rfl⟩ := Prod.mk.inj h
    exact ⟨.none, rfl, rfl⟩

theorem spellsInteger_iff (h : splitSign text = (negative, digits)) :
    SpellsInteger text n ↔ digits ≠ [] ∧ (∀ c ∈ digits, c.isDigit = true) ∧
      n = signed negative (ofDigitChars 10 digits 0) := by
  constructor
  · rintro ⟨sign, spelled, rfl, hsome, hdigits, hvalue⟩
    rw [splitSign_append sign hdigits] at h
    obtain ⟨rfl, rfl⟩ := Prod.mk.inj h
    exact ⟨hsome, hdigits, hvalue⟩
  · rintro ⟨hsome, hdigits, hvalue⟩
    obtain ⟨sign, htext, rfl⟩ := exists_sign h
    exact ⟨sign, digits, htext, hsome, hdigits, hvalue⟩

/-- The decimal digits of a number spell it. -/
theorem spellsInteger_integerText (n : Int) : SpellsInteger (Number.integerText n) n := by
  have hsome : Nat.toDigits 10 n.natAbs ≠ [] := Nat.toDigits_ne_nil
  have hdigits : ∀ c ∈ Nat.toDigits 10 n.natAbs, c.isDigit = true := by
    intro c hmem
    exact Nat.isDigit_of_mem_toDigits (by decide) (by decide) hmem
  have hvalue : ofDigitChars 10 (Nat.toDigits 10 n.natAbs) 0 = n.natAbs :=
    Nat.ofDigitChars_ten_toDigits
  by_cases hnegative : n < 0
  · refine ⟨.minus, _, ?_, hsome, hdigits, ?_⟩
    · rw [Number.integerText, if_pos hnegative, Sign.chars]
    · rw [hvalue, signed, if_pos (by decide)]
      omega
  · refine ⟨.none, _, ?_, hsome, hdigits, ?_⟩
    · rw [Number.integerText, if_neg hnegative, Sign.chars]
    · rw [hvalue, signed, if_neg (by decide)]
      omega

/-! ### Reading within 64 bits -/

theorem gather?_of_not_isDigit (h : ¬c.isDigit = true) : gather? negative n (c :: rest) = none := by
  rw [gather?, if_neg h]

theorem gather?_cons (hdigit : c.isDigit = true) :
    gather? negative (signed negative size) (c :: rest) =
      if IsInt64 (signed negative (10 * size + (c.toNat - '0'.toNat))) then
        gather? negative (signed negative (10 * size + (c.toNat - '0'.toNat))) rest
      else none := by
  rw [gather?, if_pos hdigit, signed_mul_ten]
  by_cases hnext : IsInt64 (signed negative (10 * size + (c.toNat - '0'.toNat)))
  · have hshifted : IsInt64 (signed negative (10 * size)) := hnext.of_le (Nat.le_add_right _ _)
    simp only [int64?, hshifted, hnext, signed_add, if_true, Option.bind_eq_bind, Option.bind_some]
  · -- either the product has no room already, or the sum has none
    by_cases hshifted : IsInt64 (signed negative (10 * size))
    · simp only [int64?, hshifted, hnext, signed_add, if_true, if_false, Option.bind_eq_bind,
        Option.bind_some, Option.bind_none]
    · simp only [int64?, hshifted, hnext, if_false, Option.bind_eq_bind, Option.bind_none]

/-- The digits are read exactly if the number that they come to has room. -/
theorem gather?_eq_some_iff (h : IsInt64 (signed negative size)) :
    gather? negative (signed negative size) digits = some n ↔
      (∀ c ∈ digits, c.isDigit = true) ∧ n = signed negative (ofDigitChars 10 digits size) ∧
        IsInt64 n := by
  induction digits generalizing size with
  | nil =>
      rw [gather?, Option.some.injEq]
      constructor
      · rintro rfl
        exact ⟨nofun, rfl, h⟩
      · rintro ⟨-, hvalue, -⟩
        exact hvalue.symm
  | cons c digits ih =>
      rw [List.forall_mem_cons, ofDigitChars_cons]
      by_cases hdigit : c.isDigit = true
      · rw [gather?_cons hdigit]
        by_cases hnext : IsInt64 (signed negative (10 * size + (c.toNat - '0'.toNat)))
        · rw [if_pos hnext, ih hnext]
          simp only [hdigit, true_and]
        · rw [if_neg hnext]
          simp only [reduceCtorEq, false_iff]
          rintro ⟨-, rfl, hfits⟩
          exact hnext (hfits.of_le (Text.le_ofDigitChars digits _))
      · rw [gather?_of_not_isDigit hdigit]
        simp only [reduceCtorEq, hdigit, false_and]

/-- A text is read within 64 bits exactly if it spells a number that has room in them. -/
theorem gatherText?_eq_some_iff :
    gatherText? text = some n ↔ SpellsInteger text n ∧ IsInt64 n := by
  cases hsplit : splitSign text with
  | mk negative digits =>
      have hzero : signed negative 0 = 0 := by
        cases negative <;> rfl
      rw [gatherText?, hsplit, spellsInteger_iff hsplit, Option.ite_none_left_eq_some, ← hzero,
        gather?_eq_some_iff (hzero ▸ isInt64_zero)]
      simp only [and_assoc]

end Spelling

namespace Inbound

variable {message : Inbound} {text : List Char} {n : Int}

theorem integerOfText?_of_splitSign {negative : Bool} {digits : List Char}
    (h : splitSign text = (negative, digits)) :
    integerOfText? text =
      if digits.isEmpty || !digits.all Char.isDigit then none
      else int64? (signed negative (ofDigitChars 10 digits 0)) := by
  have hsplit : integerOfText? text =
      if (splitSign text).2.isEmpty || !(splitSign text).2.all Char.isDigit then none
      else int64? (signed (splitSign text).1 (ofDigitChars 10 (splitSign text).2 0)) := rfl
  rw [hsplit, h]

/-- A text is read as the number that it spells, if that has room in 64 bits. -/
theorem integerOfText?_eq_some_iff :
    integerOfText? text = some n ↔ SpellsInteger text n ∧ IsInt64 n := by
  cases hsplit : splitSign text with
  | mk negative digits =>
      have hlegible : (digits.isEmpty || !digits.all Char.isDigit) = false ↔
          digits ≠ [] ∧ ∀ c ∈ digits, c.isDigit = true := by
        simp
      rw [integerOfText?_of_splitSign hsplit, spellsInteger_iff hsplit]
      cases hread : digits.isEmpty || !digits.all Char.isDigit with
      | true =>
          rw [if_pos rfl]
          simp only [reduceCtorEq, false_iff]
          rintro ⟨⟨hsome, hdigits, -⟩, -⟩
          rw [hlegible.mpr ⟨hsome, hdigits⟩] at hread
          cases hread
      | false =>
          obtain ⟨hsome, hdigits⟩ := hlegible.mp hread
          rw [if_neg Bool.false_ne_true, int64?, Option.ite_none_right_eq_some, Option.some.injEq]
          constructor
          · rintro ⟨hrange, rfl⟩
            exact ⟨⟨hsome, hdigits, rfl⟩, hrange⟩
          · rintro ⟨⟨-, -, rfl⟩, hrange⟩
            exact ⟨hrange, rfl⟩

theorem integerOfText?_eq_gatherText? (text : List Char) :
    integerOfText? text = gatherText? text := by
  apply Option.ext
  intro n
  rw [integerOfText?_eq_some_iff, gatherText?_eq_some_iff]

/-! ### Milliseconds -/

/-- The milliseconds of the calendar. -/
def InCalendar (n : Int) : Prop :=
  -8334601228800000 ≤ n ∧ n ≤ 8210266876799999

instance (n : Int) : Decidable (InCalendar n) :=
  inferInstanceAs (Decidable (_ ∧ _))

theorem inCalendar_iff : (minMillis ≤ n && n ≤ maxMillis) = true ↔ InCalendar n := by
  rw [Bool.and_eq_true, decide_eq_true_eq, decide_eq_true_eq]
  rfl

theorem isInt64_of_inCalendar (h : InCalendar n) : IsInt64 n := by
  obtain ⟨hmin, hmax⟩ := h
  unfold IsInt64 int64Min int64Max
  omega

theorem millis?_of_number (h : message.timestamp = some (.number (.integer n)))
    (hmax : n ≤ int64Max) : message.millis? = if InCalendar n then some n else none := by
  rw [millis?, h]
  simp only [if_pos hmax, Option.filter_some, inCalendar_iff]

theorem millis?_of_string {text : String} (h : message.timestamp = some (.string text)) :
    message.millis? =
      (integerOfText? text.toList).filter fun n => minMillis ≤ n && n ≤ maxMillis := by
  rw [millis?, h]

theorem millis?_eq_some_iff_of_string {text : String}
    (h : message.timestamp = some (.string text)) :
    message.millis? = some n ↔ SpellsInteger text.toList n ∧ InCalendar n := by
  rw [millis?_of_string h, Option.filter_eq_some_iff, integerOfText?_eq_some_iff, inCalendar_iff]
  constructor
  · rintro ⟨⟨hspells, -⟩, hcalendar⟩
    exact ⟨hspells, hcalendar⟩
  · rintro ⟨hspells, hcalendar⟩
    exact ⟨⟨hspells, isInt64_of_inCalendar hcalendar⟩, hcalendar⟩

/-- A timestamp that is neither a whole number of 64 bits nor a text has no milliseconds. -/
theorem millis?_eq_none
    (hnumber : ∀ n, message.timestamp = some (.number (.integer n)) → int64Max < n)
    (hstring : ∀ text, message.timestamp ≠ some (.string text)) : message.millis? = none := by
  cases htimestamp : message.timestamp with
  | none =>
      rw [millis?, htimestamp]
      rfl
  | some value =>
      cases value with
      | number number =>
          cases number with
          | integer n =>
              have hlarge := hnumber n htimestamp
              simp [millis?, htimestamp, Int.not_le.mpr hlarge]
          | real x => simp [millis?, htimestamp]
      | string text => exact absurd htimestamp (hstring text)
      | null | bool _ | array _ | object _ => simp [millis?, htimestamp]

/-- **Timestamps.** A whole number of 64 bits and the text of its decimal digits give the same
milliseconds: the number itself if it is in the calendar, and none otherwise. A text gives those
that its digits spell, perhaps after a sign, if they are in the calendar, and a text of another
shape gives none. No timestamp of another kind gives any, nor does a number beyond 64 bits. Reading
a text digit by digit within 64 bits comes to the same as reading it whole, so nothing overflows on
the way. -/
theorem timestamp_forms_agree (message other : Inbound) :
    (∀ n, IsInt64 n → message.timestamp = some (.number (.integer n)) →
        other.timestamp = some (.string (String.ofList (Number.integerText n))) →
        message.millis? = other.millis? ∧
          message.millis? = if InCalendar n then some n else none) ∧
      (∀ text, message.timestamp = some (.string text) →
        ∀ n, message.millis? = some n ↔ SpellsInteger text.toList n ∧ InCalendar n) ∧
      ((∀ n, message.timestamp = some (.number (.integer n)) → int64Max < n) →
        (∀ text, message.timestamp ≠ some (.string text)) → message.millis? = none) ∧
      ∀ text, integerOfText? text = gatherText? text := by
  refine ⟨?_, ?_, millis?_eq_none, integerOfText?_eq_gatherText?⟩
  · intro n hfits hnumber hstring
    have hread : integerOfText? (Number.integerText n) = some n :=
      integerOfText?_eq_some_iff.mpr ⟨spellsInteger_integerText n, hfits⟩
    have hmillis := millis?_of_number hnumber hfits.2
    refine ⟨?_, hmillis⟩
    rw [hmillis, millis?_of_string hstring, String.toList_ofList, hread, Option.filter_some]
    simp only [inCalendar_iff]
  · intro text hstring n
    exact millis?_eq_some_iff_of_string hstring

/-- A message with nothing but a timestamp. -/
def stamped (timestamp : Value) : Inbound :=
  ofValue (.object [("timestamp", timestamp)])

/-- The first millisecond of the calendar in both forms, a text with a sign and leading zeros, and a
timestamp that is neither. -/
theorem millis?_of_stamped :
    (stamped (.number (.integer (-8334601228800000)))).millis? =
        (stamped (.string "-8334601228800000")).millis? ∧
      (stamped (.number (.integer (-8334601228800000)))).millis? = some (-8334601228800000) ∧
      (stamped (.string "+007")).millis? = some 7 ∧ (stamped (.bool true)).millis? = none := by
  have hdigits : String.ofList (Number.integerText (-8334601228800000)) = "-8334601228800000" := by
    decide
  obtain ⟨hforms, -⟩ := timestamp_forms_agree
    (stamped (.number (.integer (-8334601228800000)))) (stamped (.string "-8334601228800000"))
  obtain ⟨hsame, hfirst⟩ := hforms (-8334601228800000) (by decide) rfl (by rw [hdigits]; rfl)
  obtain ⟨-, htexts, -⟩ := timestamp_forms_agree (stamped (.string "+007")) (stamped .null)
  have hspells : SpellsInteger "+007".toList 7 :=
    ⟨.plus, ['0', '0', '7'], by decide, List.cons_ne_nil _ _, List.all_eq_true.mp rfl, by decide⟩
  obtain ⟨-, -, hothers, -⟩ := timestamp_forms_agree (stamped (.bool true)) (stamped .null)
  refine ⟨hsame, hfirst, ?_, hothers nofun nofun⟩
  exact (htexts "+007" rfl 7).mpr ⟨hspells, by decide⟩

end Inbound

end SpotWire
