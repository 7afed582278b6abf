import SpotWire.Json.Reader
import SpotWire.Proofs.Json.Value
import SpotWire.Proofs.Text.Digits

/-!
# Reading what has been printed

The text of a value is read as the node of this value: strings come back through their escapes,
whole numbers through their digits, and members in the order in which they are held, with their
repetitions. Numbers of the binary format are left out, for reading may round them.
-/

namespace SpotWire.Json

open Numeric

/-! ### Numerals -/

namespace Numeral

variable {digits : List Char} {significand : Nat}

/-- Digits have room as long as the number that they spell has. -/
theorem gatherWhole_eq (h : Nat.ofDigitChars 10 digits significand ≤ word64Max) :
    gatherWhole significand digits = (Nat.ofDigitChars 10 digits significand, 0) := by
  induction digits generalizing significand with
  | nil => rfl
  | cons c digits ih =>
      rw [Nat.ofDigitChars_cons] at h ⊢
      have hnext := Nat.le_trans (Text.le_ofDigitChars digits _) h
      rw [Nat.mul_comm] at h hnext ⊢
      rw [gatherWhole, if_pos hnext, ih h]

theorem gatherWhole_toDigits {n : Nat} (h : n ≤ word64Max) :
    gatherWhole 0 (Nat.toDigits 10 n) = (n, 0) := by
  have hvalue : Nat.ofDigitChars 10 (Nat.toDigits 10 n) 0 = n := Nat.ofDigitChars_ten_toDigits
  rw [gatherWhole_eq (by omega), hvalue]

theorem number_of_natural {n : Nat} (h : n ≤ word64Max) :
    (Numeral.mk false (Nat.toDigits 10 n) none none).number = .ok (.integer n) := by
  simp [number, gatherWhole_toDigits h]

theorem number_of_negative {n : Nat} (hpos : 0 < n) (h : int64Min ≤ -(n : Int)) :
    (Numeral.mk true (Nat.toDigits 10 n) none none).number = .ok (.integer (-(n : Int))) := by
  have hroom : n ≤ word64Max := by
    unfold int64Min at h
    unfold word64Max
    omega
  simp [number, gatherWhole_toDigits hroom, hpos, h]

end Numeral

namespace Reader

/-! ### Strings -/

theorem hexUnit?_lowerHex : ∀ code < 0x20,
    hexUnit? '0' '0' (Value.lowerHex (code / 16)) (Value.lowerHex (code % 16)) = some code := by
  decide

theorem pieces_short {mark c : Char} (hmark : mark ≠ 'u') (h : shortEscape? mark = some c)
    (rest : List Char) :
    pieces ('\\' :: mark :: rest) = (.char c :: (pieces rest).1, (pieces rest).2) := by
  rw [pieces.eq_def]
  simp [hmark, h]

theorem pieces_hex {code : Nat} (h : code < 0x20) (rest : List Char) :
    pieces ('\\' :: 'u' :: '0' :: '0' :: Value.lowerHex (code / 16) ::
        Value.lowerHex (code % 16) :: rest) =
      (.unit code :: (pieces rest).1, (pieces rest).2) := by
  rw [pieces.eq_def]
  simp [hexUnit?_lowerHex code h]

theorem pieces_plain {c : Char} (hquote : c ≠ '"') (hslash : c ≠ '\\') (h : ¬c.toNat < 0x20)
    (rest : List Char) : pieces (c :: rest) = (.char c :: (pieces rest).1, (pieces rest).2) := by
  rw [pieces.eq_def]
  simp [hquote, hslash, h]

theorem spell_control {code : Nat} (h : code < 0x20) (stop : Stop) (rest : List Piece) :
    spell stop (.unit code :: rest) = (spell stop rest).map (Char.ofNat code :: ·) := by
  have hlow : isLowSurrogate code = false := by
    unfold isLowSurrogate
    simp
    omega
  have hhigh : isHighSurrogate code = false := by
    unfold isHighSurrogate
    simp
    omega
  rw [spell.eq_def]
  simp [hlow, hhigh]

/-- A character is printed as one part of a string, and this part spells the character. -/
theorem exists_piece (c : Char) :
    ∃ piece, (∀ rest, pieces (Value.escape c ++ rest) =
        (piece :: (pieces rest).1, (pieces rest).2)) ∧
      ∀ stop rest, spell stop (piece :: rest) = (spell stop rest).map (c :: ·) := by
  unfold Value.escape
  -- the characters with short escapes
  iterate 7
    split
    · subst c
      exact ⟨.char _, fun rest => pieces_short (by decide) rfl rest, fun _ _ => rfl⟩
  split
  · rename_i hcontrol
    refine ⟨.unit c.toNat, fun rest => pieces_hex hcontrol rest, fun stop rest => ?_⟩
    rw [spell_control hcontrol, Char.ofNat_toNat]
  · rename_i hquote hslash _ _ _ _ _ hcontrol
    exact ⟨.char c, fun rest => pieces_plain hquote hslash hcontrol rest, fun _ _ => rfl⟩

theorem pieces_flatMap_escape (text rest : List Char) :
    ∃ found, pieces (text.flatMap Value.escape ++ '"' :: rest) = (found, .closed, rest) ∧
      spell .closed found = .ok text := by
  induction text with
  | nil => exact ⟨[], by simp [pieces.eq_def], rfl⟩
  | cons c text ih =>
      obtain ⟨found, hpieces, hspell⟩ := ih
      obtain ⟨piece, hpiece, hchar⟩ := exists_piece c
      refine ⟨piece :: found, ?_, ?_⟩
      · rw [List.flatMap_cons, List.append_assoc, hpiece, hpieces]
      · rw [hchar, hspell]
        rfl

theorem string_quote (text : String) (rest : List Char) :
    string (text.toList.flatMap Value.escape ++ '"' :: rest) = (.ok text, .ok rest) := by
  obtain ⟨found, hpieces, hspell⟩ := pieces_flatMap_escape text.toList rest
  simp [string, hpieces, hspell, Stop.passedFault?, Except.map]

/-! ### Numbers -/

/-- What may stand after a printed value. -/
inductive Follows : List Char → Prop where
  | nothing : Follows []
  | comma (rest : List Char) : Follows (',' :: rest)
  | bracket (rest : List Char) : Follows (']' :: rest)
  | brace (rest : List Char) : Follows ('}' :: rest)

section Numbers

variable {digits rest : List Char}

theorem fraction_of_follows (read : Numeral) (h : Follows rest) :
    fraction read rest = .ok (read, rest) := by
  cases h <;> rfl

theorem Follows.stopsDigits (h : Follows rest) : Text.StopsDigits rest := by
  cases h <;> rintro c ⟨⟩ <;> rfl

theorem isDigit_of_mem_toDigits (n : Nat) : ∀ c ∈ Nat.toDigits 10 n, c.isDigit = true :=
  fun _ hmem => Nat.isDigit_of_mem_toDigits (by decide) (by decide) hmem

theorem digitChar_ne_zero : ∀ n < 10, 0 < n → n.digitChar ≠ '0' := by
  decide

/-- The digits of a number above zero do not begin with a zero. -/
theorem toDigits_eq_cons {n : Nat} (h : 0 < n) :
    ∃ c tail, Nat.toDigits 10 n = c :: tail ∧ c ≠ '0' := by
  induction n using Nat.strongRecOn with
  | ind n ih =>
      by_cases hsmall : n < 10
      · exact ⟨n.digitChar, [], Nat.toDigits_of_lt_base hsmall, digitChar_ne_zero n hsmall h⟩
      · obtain ⟨c, tail, hdigits, hne⟩ := ih (n / 10) (by omega) (by omega)
        refine ⟨c, tail ++ [(n % 10).digitChar], ?_, hne⟩
        rw [Nat.toDigits_of_base_le (by decide) (by omega), hdigits, List.cons_append]

theorem numeral_toDigits (negative : Bool) (n : Nat) (h : Follows rest) :
    numeral negative (Nat.toDigits 10 n ++ rest) =
      .ok (⟨negative, Nat.toDigits 10 n, none, none⟩, rest) := by
  by_cases hzero : n = 0
  · subst hzero
    cases h <;> rfl
  · obtain ⟨c, tail, hdigits, hne⟩ := toDigits_eq_cons (Nat.pos_of_ne_zero hzero)
    have hall := isDigit_of_mem_toDigits n
    have htake := Text.takeWhile_isDigit hall h.stopsDigits
    have hdrop := Text.dropWhile_isDigit hall h.stopsDigits
    rw [hdigits] at hall htake hdrop ⊢
    have hdigit := hall c List.mem_cons_self
    rw [List.cons_append] at htake hdrop ⊢
    rw [numeral]
    · rw [if_pos hdigit, htake, hdrop, fraction_of_follows _ h]
    · exact hne

theorem number_toDigits {n : Nat} (hroom : n ≤ word64Max) (h : Follows rest) :
    number false (Nat.toDigits 10 n ++ rest) = (.number (.ok (.integer n)), some rest) := by
  rw [number, numeral_toDigits false n h]
  simp only [Numeral.number_of_natural hroom]

theorem number_toDigits_negative {n : Nat} (hpos : 0 < n) (hroom : int64Min ≤ -(n : Int))
    (h : Follows rest) :
    number true (Nat.toDigits 10 n ++ rest) =
      (.number (.ok (.integer (-(n : Int)))), some rest) := by
  rw [number, numeral_toDigits true n h]
  simp only [Numeral.number_of_negative hpos hroom]

end Numbers

/-! ### Values -/

section Values

variable {value : Value} {items : List Value} {members : List (String × Value)} {fuel : Nat}
  {rest : List Char}

theorem skipBlank_cons {c : Char} (h : isBlank c = false) (rest : List Char) :
    skipBlank (c :: rest) = c :: rest := by
  rw [skipBlank, List.dropWhile_cons_of_neg (by simp [h])]

theorem head_of_isDigit {c : Char} (h : c.isDigit = true) :
    isBlank c = false ∧ c ≠ ']' ∧ c ∉ ['n', 't', 'f', '"', '[', '{', '-'] := by
  have hne : ∀ other : Char, other.isDigit = false → c ≠ other := by
    rintro other hother rfl
    rw [h] at hother
    cases hother
  refine ⟨?_, hne ']' rfl, ?_⟩
  · simp [isBlank, hne ' ' rfl, hne '\n' rfl, hne '\t' rfl, hne '\r' rfl]
  · simp [hne 'n' rfl, hne 't' rfl, hne 'f' rfl, hne '"' rfl, hne '[' rfl, hne '{' rfl, hne '-' rfl]

theorem toDigits_head (n : Nat) : ∃ c tail, Nat.toDigits 10 n = c :: tail ∧ c.isDigit = true := by
  have hne : Nat.toDigits 10 n ≠ [] := Nat.toDigits_ne_nil
  obtain ⟨c, tail, hdigits⟩ := List.exists_cons_of_ne_nil hne
  exact ⟨c, tail, hdigits, isDigit_of_mem_toDigits n c (hdigits ▸ List.mem_cons_self)⟩

theorem node_natural {n : Nat} (hroom : n ≤ word64Max) (h : Follows rest) :
    node (fuel + 1) (Nat.toDigits 10 n ++ rest) = (.number (.ok (.integer n)), some rest) := by
  obtain ⟨c, tail, hdigits, hdigit⟩ := toDigits_head n
  obtain ⟨hblank, -, hother⟩ := head_of_isDigit hdigit
  have hread := number_toDigits hroom h
  simp only [List.mem_cons, List.not_mem_nil, or_false, not_or] at hother
  rw [hdigits, List.cons_append] at hread ⊢
  rw [node, skipBlank_cons hblank]
  simp only [hother, hdigit, if_false, if_true, hread]

theorem node_negative {n : Nat} (hpos : 0 < n) (hroom : int64Min ≤ -(n : Int))
    (h : Follows rest) :
    node (fuel + 1) ('-' :: Nat.toDigits 10 n ++ rest) =
      (.number (.ok (.integer (-(n : Int)))), some rest) := by
  rw [List.cons_append, node, skipBlank_cons rfl]
  exact number_toDigits_negative hpos hroom h

theorem node_whole {number : Number} (hwhole : number.IsWhole) (h : Follows rest) :
    node (fuel + 1) (number.text ++ rest) = (.number (.ok number), some rest) := by
  obtain ⟨hfits, hinteger⟩ := hwhole
  cases number with
  | real x => exact hinteger.elim
  | integer n =>
      obtain ⟨hmin, hmax⟩ : Number.Whole n := hfits
      rw [Number.text, Number.integerText]
      by_cases hneg : n < 0
      · have hsize : n = -(n.natAbs : Int) := by omega
        rw [if_pos hneg, List.singleton_append, node_negative (by omega) (by omega) h, ← hsize]
      · have hsize : (n.natAbs : Int) = n := by omega
        rw [if_neg hneg, List.nil_append, node_natural (by omega) h, hsize]

theorem node_quote (text : String) :
    node (fuel + 1) (Value.quote text.toList ++ rest) = (.string (.ok text), some rest) := by
  rw [Value.quote, List.cons_append, List.cons_append, List.append_assoc, List.singleton_append,
    node, skipBlank_cons rfl]
  simp [string_quote]

/-- A printed value begins with a character that is no blank and ends no array. -/
theorem chars_eq_cons (h : value.HoldsWhole) :
    ∃ c tail, value.chars = c :: tail ∧ isBlank c = false ∧ c ≠ ']' := by
  cases h with
  | null => exact ⟨'n', _, rfl, rfl, by decide⟩
  | bool content => cases content <;> exact ⟨_, _, rfl, rfl, by decide⟩
  | @number number hwhole =>
      cases number with
      | real x => exact hwhole.2.elim
      | integer n =>
          rw [Value.chars, Number.text, Number.integerText]
          split
          · exact ⟨'-', _, rfl, rfl, by decide⟩
          · obtain ⟨c, tail, hdigits, hdigit⟩ := toDigits_head n.natAbs
            obtain ⟨hblank, hend, -⟩ := head_of_isDigit hdigit
            exact ⟨c, tail, hdigits, hblank, hend⟩
  | string text => exact ⟨'"', _, rfl, rfl, by decide⟩
  | @array items _ => cases items <;> exact ⟨'[', _, rfl, rfl, by decide⟩
  | @object members _ => cases members <;> exact ⟨'{', _, rfl, rfl, by decide⟩

theorem follows_itemChars (items : List Value) (rest : List Char) :
    Follows (Value.itemChars items ++ rest) := by
  cases items with
  | nil => exact .bracket rest
  | cons item items => exact .comma _

theorem follows_memberChars (members : List (String × Value)) (rest : List Char) :
    Follows (Value.memberChars members ++ rest) := by
  cases members with
  | nil => exact .brace rest
  | cons member members => exact .comma _

/-- The text of a value is read as its node, whatever may follow. Each character of the text is
worth three steps. -/
def ReadsBack (value : Value) : Prop :=
  ∀ fuel rest, Follows rest → 3 * value.chars.length ≤ fuel →
    node fuel (value.chars ++ rest) = (.ofValue value, some rest)

theorem item_chars (hvalue : ReadsBack value)
    (hitems : ∀ fuel rest, 3 * (Value.itemChars items).length ≤ fuel →
      furtherItem fuel (Value.itemChars items ++ rest) =
        (Node.ofItems items, .closed, some rest)) (fuel : Nat) (rest : List Char)
    (hfuel : 3 * (value.chars.length + (Value.itemChars items).length) ≤ fuel) :
    item (fuel + 1) (value.chars ++ (Value.itemChars items ++ rest)) =
      (Node.ofItems (value :: items), .closed, some rest) := by
  rw [item, hvalue fuel _ (follows_itemChars items rest) (by omega)]
  simp only [hitems fuel rest (by omega), Node.ofItems]

theorem furtherItem_itemChars (hwhole : ∀ item ∈ items, item.HoldsWhole)
    (h : ∀ item ∈ items, ReadsBack item) :
    ∀ fuel rest, 3 * (Value.itemChars items).length ≤ fuel →
      furtherItem fuel (Value.itemChars items ++ rest) =
        (Node.ofItems items, .closed, some rest) := by
  induction items with
  | nil =>
      intro fuel rest hfuel
      obtain ⟨fewer, rfl⟩ : ∃ fewer, fuel = fewer + 3 := Nat.exists_eq_add_of_le' hfuel
      rfl
  | cons value items ih =>
      intro fuel rest hfuel
      obtain ⟨hvalue, hitems⟩ := List.forall_mem_cons.mp h
      obtain ⟨hwholeValue, hwholeItems⟩ := List.forall_mem_cons.mp hwhole
      obtain ⟨c, tail, hchars, hblank, hend⟩ := chars_eq_cons hwholeValue
      simp only [Value.itemChars, List.cons_append, List.length_cons, List.length_append,
        List.append_assoc] at hfuel ⊢
      obtain ⟨fewer, rfl⟩ : ∃ fewer, fuel = fewer + 2 := ⟨fuel - 2, by omega⟩
      have hread := item_chars hvalue (ih hwholeItems hitems) fewer rest (by omega)
      rw [hchars, List.cons_append] at hread ⊢
      rw [furtherItem, skipBlank_cons rfl]
      simp [skipBlank_cons hblank, hend, hread]

theorem member_chars (key : String) (hvalue : ReadsBack value)
    (hmembers : ∀ fuel rest, 3 * (Value.memberChars members).length ≤ fuel →
      furtherMember fuel (Value.memberChars members ++ rest) =
        (Node.ofMembers members, .closed, some rest)) (fuel : Nat) (rest : List Char)
    (hfuel : 3 * (value.chars.length + (Value.memberChars members).length) ≤ fuel) :
    member (fuel + 1) (key.toList.flatMap Value.escape ++
        '"' :: ':' :: (value.chars ++ (Value.memberChars members ++ rest))) =
      (Node.ofMembers ((key, value) :: members), .closed, some rest) := by
  rw [member, string_quote]
  simp only [skipBlank_cons (show isBlank ':' = false from rfl), if_true,
    hvalue fuel _ (follows_memberChars members rest) (by omega), hmembers fuel rest (by omega),
    Node.ofMembers]

theorem furtherMember_memberChars (h : ∀ member ∈ members, ReadsBack member.2) :
    ∀ fuel rest, 3 * (Value.memberChars members).length ≤ fuel →
      furtherMember fuel (Value.memberChars members ++ rest) =
        (Node.ofMembers members, .closed, some rest) := by
  induction members with
  | nil =>
      intro fuel rest hfuel
      obtain ⟨fewer, rfl⟩ : ∃ fewer, fuel = fewer + 3 := Nat.exists_eq_add_of_le' hfuel
      rfl
  | cons first members ih =>
      intro fuel rest hfuel
      obtain ⟨key, value⟩ := first
      obtain ⟨hvalue, hmembers⟩ : ReadsBack value ∧ ∀ member ∈ members, ReadsBack member.2 :=
        List.forall_mem_cons.mp h
      simp only [Value.memberChars, Value.quote, List.cons_append, List.append_assoc,
        List.length_cons, List.length_append, List.nil_append] at hfuel ⊢
      obtain ⟨fewer, rfl⟩ : ∃ fewer, fuel = fewer + 2 := ⟨fuel - 2, by omega⟩
      have hread := member_chars key hvalue (ih hmembers) fewer rest (by omega)
      rw [furtherMember, skipBlank_cons rfl]
      simp [skipBlank_cons (show isBlank '"' = false from rfl), hread]

theorem readsBack_array (hwhole : ∀ item ∈ items, item.HoldsWhole)
    (h : ∀ item ∈ items, ReadsBack item) : ReadsBack (.array items) := by
  intro fuel rest hrest hfuel
  cases items with
  | nil =>
      obtain ⟨fewer, rfl⟩ : ∃ fewer, fuel = fewer + 6 := Nat.exists_eq_add_of_le' hfuel
      rfl
  | cons value items =>
      obtain ⟨hvalue, hitems⟩ := List.forall_mem_cons.mp h
      obtain ⟨hwholeValue, hwholeItems⟩ := List.forall_mem_cons.mp hwhole
      obtain ⟨c, tail, hchars, hblank, hend⟩ := chars_eq_cons hwholeValue
      simp only [Value.chars, List.cons_append, List.length_cons, List.length_append,
        List.append_assoc] at hfuel ⊢
      obtain ⟨fewer, rfl⟩ : ∃ fewer, fuel = fewer + 3 := ⟨fuel - 3, by omega⟩
      have hread := item_chars hvalue (furtherItem_itemChars hwholeItems hitems) fewer rest
        (by omega)
      rw [hchars, List.cons_append] at hread ⊢
      rw [node, skipBlank_cons rfl]
      simp [firstItem, skipBlank_cons hblank, hend, hread, Node.ofValue]

theorem readsBack_object (h : ∀ member ∈ members, ReadsBack member.2) :
    ReadsBack (.object members) := by
  intro fuel rest hrest hfuel
  cases members with
  | nil =>
      obtain ⟨fewer, rfl⟩ : ∃ fewer, fuel = fewer + 6 := Nat.exists_eq_add_of_le' hfuel
      rfl
  | cons first members =>
      obtain ⟨key, value⟩ := first
      obtain ⟨hvalue, hmembers⟩ : ReadsBack value ∧ ∀ member ∈ members, ReadsBack member.2 :=
        List.forall_mem_cons.mp h
      simp only [Value.chars, Value.quote, List.cons_append, List.append_assoc,
        List.length_cons, List.length_append, List.nil_append] at hfuel ⊢
      obtain ⟨fewer, rfl⟩ : ∃ fewer, fuel = fewer + 3 := ⟨fuel - 3, by omega⟩
      have hread := member_chars key hvalue (furtherMember_memberChars hmembers) fewer rest
        (by omega)
      rw [node, skipBlank_cons rfl]
      simp [firstMember, skipBlank_cons (show isBlank '"' = false from rfl), hread, Node.ofValue]

/-- Every value without numbers of the binary format is read back. -/
theorem readsBack (h : value.HoldsWhole) : ReadsBack value := by
  induction value using Value.induction with
  | null =>
      intro fuel rest hrest hfuel
      obtain ⟨fewer, rfl⟩ : ∃ fewer, fuel = fewer + 12 := Nat.exists_eq_add_of_le' hfuel
      rfl
  | bool content =>
      intro fuel rest hrest hfuel
      cases content with
      | true =>
          obtain ⟨fewer, rfl⟩ : ∃ fewer, fuel = fewer + 12 := Nat.exists_eq_add_of_le' hfuel
          rfl
      | false =>
          obtain ⟨fewer, rfl⟩ : ∃ fewer, fuel = fewer + 15 := Nat.exists_eq_add_of_le' hfuel
          rfl
  | number number =>
      intro fuel rest hrest hfuel
      obtain ⟨c, tail, hchars, -⟩ := chars_eq_cons h
      rw [hchars, List.length_cons] at hfuel
      obtain ⟨fewer, rfl⟩ : ∃ fewer, fuel = fewer + 1 := ⟨fuel - 1, by omega⟩
      cases h with
      | number hwhole => exact node_whole hwhole hrest
  | string text =>
      intro fuel rest hrest hfuel
      rw [Value.chars, Value.quote, List.cons_append, List.length_cons] at hfuel
      obtain ⟨fewer, rfl⟩ : ∃ fewer, fuel = fewer + 1 := ⟨fuel - 1, by omega⟩
      exact node_quote text
  | array items ih =>
      cases h with
      | array h => exact readsBack_array h fun item hmem => ih item hmem (h item hmem)
  | object members ih =>
      cases h with
      | object h => exact readsBack_object fun member hmem => ih member hmem (h member hmem)

end Values

end Reader

/-- **Printed values.** The text of a value without numbers of the binary format is a document with
the node of this value and nothing else. -/
theorem Document.ofChars_text {value : Value} (h : value.HoldsWhole) :
    Document.ofChars value.text.toList = ⟨.ofValue value, false⟩ := by
  have hread := Reader.readsBack h (3 * value.chars.length + 3) [] .nothing (by omega)
  rw [List.append_nil] at hread
  rw [Document.ofChars, Value.text, String.toList_ofList, hread]
  rfl

end SpotWire.Json
