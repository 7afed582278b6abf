import Mathlib.Data.List.TakeWhile
import SpotWire.Json.Reader

/-!
# What is left of a text

Reading a document never makes its text longer, and a string takes at least as many characters of
the text as it has itself. So no member of a document is a string as long as the document.
-/

namespace SpotWire.Json

namespace Reader

/-! ### Strings -/

theorem length_pieces (text : List Char) :
    (pieces text).1.length + (pieces text).2.2.length ≤ text.length := by
  fun_induction pieces text <;> simp_all <;> omega

theorem length_of_map_cons {chars : List Char} {read : Except Fault (List Char)} {c : Char}
    {bound : Nat} (hread : ∀ {rest}, read = .ok rest → rest.length ≤ bound)
    (h : read.map (c :: ·) = .ok chars) : chars.length ≤ bound + 1 := by
  cases read with
  | error fault => cases h
  | ok rest =>
      cases h
      exact Nat.succ_le_succ (hread rfl)

theorem length_spell {stop : Stop} {found : List Piece} {chars : List Char}
    (h : spell stop found = .ok chars) : chars.length ≤ found.length := by
  fun_induction spell stop found generalizing chars with
  | case3 c rest ih => exact length_of_map_cons ih h
  | case7 => rename_i ih; exact Nat.le_succ_of_le (length_of_map_cons ih h)
  | case9 => rename_i ih; exact length_of_map_cons ih h
  | _ => simp_all

theorem length_string {text left : List Char} {value : String}
    (h : string text = (.ok value, .ok left)) :
    value.toList.length + left.length ≤ text.length := by
  have hpieces := length_pieces text
  rcases hread : pieces text with ⟨found, stop, rest⟩
  simp only [hread] at hpieces
  simp only [string, hread] at h
  split at h
  · cases hspell : spell stop found with
    | error fault => simp [hspell, Except.map] at h
    | ok chars =>
        have hchars := length_spell hspell
        simp only [hspell, Except.map, Prod.mk.injEq, Except.ok.injEq] at h
        obtain ⟨rfl, rfl⟩ := h
        simp only [String.toList_ofList]
        omega
  · cases h
  · cases h

theorem length_left_of_string {text left : List Char} {value : Except Fault String}
    (h : string text = (value, .ok left)) : left.length ≤ text.length := by
  have hpieces := length_pieces text
  rcases hread : pieces text with ⟨found, stop, rest⟩
  simp only [hread] at hpieces
  simp only [string, hread] at h
  split at h
  · cases h
    omega
  · cases h
  · cases h

/-! ### Numerals and words -/

theorem length_exponentDigits {numeral read : Numeral} {lowered : Bool} {text left : List Char}
    (h : exponentDigits numeral lowered text = .ok (read, left)) : left.length ≤ text.length := by
  unfold exponentDigits at h
  split at h
  · cases h
  · split at h
    · cases h
      exact (List.dropWhile_suffix _).length_le
    · cases h

theorem length_exponent {numeral read : Numeral} {text left : List Char}
    (h : exponent numeral text = .ok (read, left)) : left.length ≤ text.length := by
  unfold exponent at h
  split at h
  · split at h
    · split at h <;>
        have hdigits := length_exponentDigits h <;>
        simp only [List.length_cons] at hdigits ⊢ <;>
        omega
    · cases h
      exact Nat.le_refl _
  · cases h
    exact Nat.le_refl _

theorem length_fraction {numeral read : Numeral} {text left : List Char}
    (h : fraction numeral text = .ok (read, left)) : left.length ≤ text.length := by
  unfold fraction at h
  split at h
  · split at h
    · cases h
    · split at h
      · exact Nat.le_succ_of_le
          ((length_exponent h).trans (List.length_dropWhile_le Char.isDigit _))
      · cases h
  · exact length_exponent h

theorem length_numeral {negative : Bool} {read : Numeral} {text left : List Char}
    (h : numeral negative text = .ok (read, left)) : left.length ≤ text.length := by
  unfold numeral at h
  split at h
  · cases h
  · split at h
    · split at h
      · cases h
      · exact Nat.le_succ_of_le (length_fraction h)
    · cases h
      exact Nat.zero_le _
  · split at h
    · exact (length_fraction h).trans (List.length_dropWhile_le Char.isDigit _)
    · cases h

theorem length_number {negative : Bool} {node : Node} {text left : List Char}
    (h : number negative text = (node, some left)) : left.length ≤ text.length := by
  unfold number at h
  split at h
  · rename_i found rest hread
    cases h
    exact length_numeral hread
  · cases h

theorem length_word {node read : Node} {opening : Opening} {letters text left : List Char}
    (h : word node opening letters text = (read, some left)) : left.length ≤ text.length := by
  fun_induction word node opening letters text with
  | case3 _ _ _ ih => exact Nat.le_succ_of_le (ih h)
  | _ => simp_all

/-! ### Values -/

/-- A number of steps leaves no more of a text than there was. -/
structure Shortens (fuel : Nat) : Prop where
  node : ∀ {text left : List Char} {found : Node}, node fuel text = (found, some left) →
    left.length ≤ text.length
  firstItem : ∀ {text left : List Char} {items : List Node} {ending : Ending},
    firstItem fuel text = (items, ending, some left) → left.length ≤ text.length
  item : ∀ {text left : List Char} {items : List Node} {ending : Ending},
    item fuel text = (items, ending, some left) → left.length ≤ text.length
  furtherItem : ∀ {text left : List Char} {items : List Node} {ending : Ending},
    furtherItem fuel text = (items, ending, some left) → left.length ≤ text.length
  firstMember : ∀ {text left : List Char} {members : List (Except Fault String × Node)}
    {ending : Ending}, firstMember fuel text = (members, ending, some left) →
    left.length ≤ text.length
  member : ∀ {text left : List Char} {members : List (Except Fault String × Node)}
    {ending : Ending}, member fuel text = (members, ending, some left) →
    left.length ≤ text.length
  furtherMember : ∀ {text left : List Char} {members : List (Except Fault String × Node)}
    {ending : Ending}, furtherMember fuel text = (members, ending, some left) →
    left.length ≤ text.length

theorem length_skipBlank (text : List Char) : (skipBlank text).length ≤ text.length :=
  List.length_dropWhile_le isBlank text

theorem length_of_skipBlank {text rest : List Char} {c : Char} (h : skipBlank text = c :: rest) :
    rest.length < text.length := by
  have hblank := length_skipBlank text
  rw [h] at hblank
  exact hblank

section Step

variable {fuel : Nat} {text left : List Char} {ending : Ending}

theorem Shortens.node_succ (hfuel : Shortens fuel) {found : Node}
    (h : Reader.node (fuel + 1) text = (found, some left)) : left.length ≤ text.length := by
  unfold Reader.node at h
  split at h
  · cases h
  rename_i c rest hblank
  have hrest := (length_of_skipBlank hblank).le
  split at h
  · exact (length_word h).trans hrest
  split at h
  · exact (length_word h).trans hrest
  split at h
  · exact (length_word h).trans hrest
  split at h
  · split at h
    · rename_i value after hstring
      cases h
      exact (length_left_of_string hstring).trans hrest
    · cases h
  split at h
  · rcases hread : Reader.firstItem fuel rest with ⟨items, ending, after⟩
    rw [hread] at h
    cases h
    exact (hfuel.firstItem hread).trans hrest
  split at h
  · rcases hread : Reader.firstMember fuel rest with ⟨members, ending, after⟩
    rw [hread] at h
    cases h
    exact (hfuel.firstMember hread).trans hrest
  split at h
  · exact (length_number h).trans hrest
  split at h
  · exact (length_number h).trans (length_of_skipBlank hblank)
  · cases h

theorem Shortens.firstItem_succ (hfuel : Shortens fuel) {items : List Node}
    (h : Reader.firstItem (fuel + 1) text = (items, ending, some left)) :
    left.length ≤ text.length := by
  unfold Reader.firstItem at h
  split at h
  · cases h
  rename_i c rest hblank
  split at h
  · cases h
    exact (length_of_skipBlank hblank).le
  · exact (hfuel.item h).trans (length_of_skipBlank hblank)

theorem Shortens.item_succ (hfuel : Shortens fuel) {items : List Node}
    (h : Reader.item (fuel + 1) text = (items, ending, some left)) :
    left.length ≤ text.length := by
  unfold Reader.item at h
  split at h
  · cases h
  · rename_i value rest hnode
    rcases hread : Reader.furtherItem fuel rest with ⟨further, ending, after⟩
    rw [hread] at h
    cases h
    exact (hfuel.furtherItem hread).trans (hfuel.node hnode)

theorem Shortens.furtherItem_succ (hfuel : Shortens fuel) {items : List Node}
    (h : Reader.furtherItem (fuel + 1) text = (items, ending, some left)) :
    left.length ≤ text.length := by
  unfold Reader.furtherItem at h
  split at h
  · cases h
  rename_i c rest hblank
  have hrest := (length_of_skipBlank hblank).le
  split at h
  · cases h
    exact hrest
  split at h
  · split at h
    · cases h
    rename_i c after hafter
    split at h
    · cases h
    · exact (hfuel.item h).trans (Nat.le_trans (length_of_skipBlank hafter) hrest)
  · cases h

theorem Shortens.firstMember_succ (hfuel : Shortens fuel)
    {members : List (Except Fault String × Node)}
    (h : Reader.firstMember (fuel + 1) text = (members, ending, some left)) :
    left.length ≤ text.length := by
  unfold Reader.firstMember at h
  split at h
  · cases h
  rename_i c rest hblank
  have hrest := (length_of_skipBlank hblank).le
  split at h
  · cases h
    exact hrest
  split at h
  · exact (hfuel.member h).trans hrest
  · cases h

theorem Shortens.member_succ (hfuel : Shortens fuel) {members : List (Except Fault String × Node)}
    (h : Reader.member (fuel + 1) text = (members, ending, some left)) :
    left.length ≤ text.length := by
  unfold Reader.member at h
  split at h
  · cases h
  rename_i key rest hkey
  have hrest := length_left_of_string hkey
  split at h
  · cases h
  rename_i c after hblank
  have hafter := (length_of_skipBlank hblank).le.trans hrest
  split at h
  · split at h
    · cases h
    · rename_i value rest hnode
      rcases hread : Reader.furtherMember fuel rest with ⟨further, ending, final⟩
      rw [hread] at h
      cases h
      exact ((hfuel.furtherMember hread).trans (hfuel.node hnode)).trans hafter
  · cases h

theorem Shortens.furtherMember_succ (hfuel : Shortens fuel)
    {members : List (Except Fault String × Node)}
    (h : Reader.furtherMember (fuel + 1) text = (members, ending, some left)) :
    left.length ≤ text.length := by
  unfold Reader.furtherMember at h
  split at h
  · cases h
  rename_i c rest hblank
  have hrest := (length_of_skipBlank hblank).le
  split at h
  · cases h
    exact hrest
  split at h
  · split at h
    · cases h
    rename_i c after hafter
    split at h
    · exact (hfuel.member h).trans ((length_of_skipBlank hafter).le.trans hrest)
    split at h <;> cases h
  · cases h

end Step

theorem shortens (fuel : Nat) : Shortens fuel := by
  induction fuel with
  | zero =>
      refine ⟨?_, ?_, ?_, ?_, ?_, ?_, ?_⟩
      · intro text left found h
        cases h
      all_goals
        intro text left found ending h
        cases h
  | succ fuel ih =>
      exact ⟨ih.node_succ, ih.firstItem_succ, ih.item_succ, ih.furtherItem_succ,
        ih.firstMember_succ, ih.member_succ, ih.furtherMember_succ⟩

/-! ### Members that are strings -/

section Strings

variable {fuel : Nat} {text : List Char} {value : String}

/-- Strings and objects are found in their own ways only. -/
inductive Origin (fuel : Nat) (text : List Char) (left : Option (List Char)) : Node → Prop where
  | string {value : Except Fault String} {c : Char} {rest after : List Char}
      (hblank : skipBlank text = c :: rest) (hstring : string rest = (value, .ok after)) :
      Origin fuel text left (.string value)
  | object {members : List (Except Fault String × Node)} {ending : Ending} {c : Char}
      {rest : List Char} {fewer : Nat} (hblank : skipBlank text = c :: rest)
      (hmembers : firstMember fewer rest = (members, ending, left)) :
      Origin fuel text left (.object members ending)
  | other {found : Node} (hstring : ∀ value, found ≠ .string value)
      (hobject : ∀ members ending, found ≠ .object members ending) :
      Origin fuel text left found

theorem origin_of_word {node found : Node} {opening : Opening} {letters rest : List Char}
    {left : Option (List Char)} (h : word node opening letters rest = (found, left))
    (hstring : ∀ value, node ≠ .string value)
    (hobject : ∀ members ending, node ≠ .object members ending) :
    Origin fuel text left found := by
  fun_induction word node opening letters rest with
  | case1 =>
      cases h
      exact .other hstring hobject
  | case3 _ _ _ ih => exact ih h
  | _ =>
      cases h
      exact .other (by simp) (by simp)

theorem origin_of_number {negative : Bool} {found : Node} {rest : List Char}
    {left : Option (List Char)} (h : number negative rest = (found, left)) :
    Origin fuel text left found := by
  unfold number at h
  split at h <;>
    cases h <;>
    exact .other (by simp) (by simp)

theorem origin_of_node {found : Node} {left : Option (List Char)}
    (h : node fuel text = (found, left)) : Origin fuel text left found := by
  cases fuel with
  | zero =>
      cases h
      exact .other (by simp) (by simp)
  | succ fewer =>
      unfold node at h
      split at h
      · cases h
        exact .other (by simp) (by simp)
      rename_i c rest hblank
      split at h
      · exact origin_of_word h (by simp) (by simp)
      split at h
      · exact origin_of_word h (by simp) (by simp)
      split at h
      · exact origin_of_word h (by simp) (by simp)
      split at h
      · split at h
        · rename_i value after hstring
          cases h
          exact .string hblank hstring
        · cases h
          exact .other (by simp) (by simp)
      split at h
      · cases h
        exact .other (by simp) (by simp)
      split at h
      · rcases hread : firstMember fewer rest with ⟨members, ending, after⟩
        rw [hread] at h
        cases h
        exact .object hblank hread
      split at h
      · exact origin_of_number h
      split at h
      · exact origin_of_number h
      · cases h
        exact .other (by simp) (by simp)

theorem length_of_node_string {left : Option (List Char)}
    (h : node fuel text = (.string (.ok value), left)) : value.toList.length ≤ text.length := by
  cases origin_of_node h with
  | string hblank hstring =>
      have hlength := length_string hstring
      have hrest := length_of_skipBlank hblank
      omega
  | other hstring => exact absurd rfl (hstring _)

def StringsWithin (bound : Nat) (members : List (Except Fault String × Node)) : Prop :=
  ∀ key (value : String), (key, .string (.ok value)) ∈ members → value.toList.length ≤ bound

theorem StringsWithin.mono {bound larger : Nat} {members : List (Except Fault String × Node)}
    (h : StringsWithin bound members) (hle : bound ≤ larger) : StringsWithin larger members :=
  fun key value hmem => (h key value hmem).trans hle

theorem stringsWithin_nil (bound : Nat) : StringsWithin bound [] := by
  intro key value hmem
  cases hmem

theorem stringsWithin_member (fuel : Nat) :
    (∀ text, StringsWithin text.length (member fuel text).1) ∧
      ∀ text, StringsWithin text.length (furtherMember fuel text).1 := by
  induction fuel with
  | zero => exact ⟨fun _ => stringsWithin_nil _, fun _ => stringsWithin_nil _⟩
  | succ fuel ih =>
      refine ⟨fun text => ?_, fun text => ?_⟩
      · unfold member
        split
        · exact stringsWithin_nil _
        rename_i key rest hkey
        have hrest := length_left_of_string hkey
        split
        · intro key value hmem
          simp at hmem
        rename_i c after hblank
        have hafter := (length_of_skipBlank hblank).le.trans hrest
        split
        · split
          · rename_i value hnode
            intro key string hmem
            simp only [List.mem_singleton, Prod.mk.injEq] at hmem
            obtain ⟨-, rfl⟩ := hmem
            exact (length_of_node_string hnode).trans hafter
          · rename_i value left hnode
            intro key string hmem
            rcases List.mem_cons.mp hmem with heq | hmem
            · obtain ⟨-, rfl⟩ := Prod.ext_iff.mp heq
              exact (length_of_node_string hnode).trans hafter
            · exact ((ih.2 left key string hmem).trans ((shortens fuel).node hnode)).trans hafter
        · intro key value hmem
          simp at hmem
      · unfold furtherMember
        split
        · exact stringsWithin_nil _
        rename_i c rest hblank
        have hrest := (length_of_skipBlank hblank).le
        split
        · exact stringsWithin_nil _
        split
        · split
          · exact stringsWithin_nil _
          rename_i c after hafter
          split
          · exact (ih.1 after).mono ((length_of_skipBlank hafter).le.trans hrest)
          split <;> exact stringsWithin_nil _
        · exact stringsWithin_nil _

theorem stringsWithin_firstMember (fuel : Nat) (text : List Char) :
    StringsWithin text.length (firstMember fuel text).1 := by
  cases fuel with
  | zero => exact stringsWithin_nil _
  | succ fuel =>
      unfold firstMember
      split
      · exact stringsWithin_nil _
      rename_i c rest hblank
      split
      · exact stringsWithin_nil _
      split
      · exact ((stringsWithin_member fuel).1 rest).mono (length_of_skipBlank hblank).le
      · exact stringsWithin_nil _

theorem length_of_object_string {members : List (Except Fault String × Node)} {ending : Ending}
    {left : Option (List Char)} (h : node fuel text = (.object members ending, left))
    {key : Except Fault String} (hmem : (key, .string (.ok value)) ∈ members) :
    value.toList.length < text.length := by
  cases origin_of_node h with
  | @object _ _ c rest fewer hblank hmembers =>
      have hwithin := stringsWithin_firstMember fewer rest
      rw [hmembers] at hwithin
      exact (hwithin key value hmem).trans_lt (length_of_skipBlank hblank)
  | other _ hobject => exact absurd rfl (hobject _ _)

end Strings

end Reader

/-- No member of a document is the document itself as a string. -/
theorem length_of_document_string {text : List Char}
    {members : List (Except Fault String × Node)} {ending : Ending} {trailing : Bool}
    (h : Document.ofChars text = ⟨.object members ending, trailing⟩) {key : Except Fault String}
    {value : String} (hmem : (key, .string (.ok value)) ∈ members) :
    value.toList.length < text.length := by
  rcases hread : Reader.node (3 * text.length + 3) text with ⟨root, left⟩
  rw [Document.ofChars, hread] at h
  cases h
  exact Reader.length_of_object_string hread hmem

end SpotWire.Json
