import Mathlib.Data.List.Infix
import SpotWire.Text.Search

/-!
# Texts made of parts

Parts that are joined by a separator hold a word without the separator if and only if one of them
holds it, and they can be told again where the separator is known to be missing from a part. A
placeholder is filled where it stands as long as nothing before it starts like it.
-/

namespace SpotWire.Text

variable {c : Char} {word text left right : List Char}

/-! ### Words -/

theorem occurs_iff_isInfix : Occurs word text ↔ word <:+: text := by
  constructor
  · rintro ⟨before, after, rfl⟩
    exact ⟨before, after, rfl⟩
  · rintro ⟨before, after, rfl⟩
    exact ⟨before, after, rfl⟩

theorem mentions_eq_true_iff {pattern text : String} :
    mentions pattern text = true ↔ Occurs pattern.toList text.toList :=
  occurs_eq_true_iff

theorem not_occurs_of_not_mem (hmem : c ∈ word) (hnot : c ∉ text) : ¬Occurs word text := by
  intro h
  rw [occurs_iff_isInfix] at h
  exact hnot (h.subset hmem)

theorem occurs_cons_iff (hnot : c ∉ word) : Occurs word (c :: text) ↔ Occurs word text := by
  rw [occurs_iff_isInfix, occurs_iff_isInfix, List.infix_cons_iff]
  constructor
  · rintro (hstart | hwithin)
    · cases word with
      | nil => exact List.nil_infix
      | cons b word =>
          have hhead : b = c := (List.cons_prefix_cons.mp hstart).1
          exact absurd (hhead ▸ List.mem_cons_self) hnot
    · exact hwithin
  · exact Or.inr

theorem occurs_append_cons_iff (hnot : c ∉ word) :
    Occurs word (left ++ c :: right) ↔ Occurs word left ∨ Occurs word right := by
  have hcons := @occurs_cons_iff c word right hnot
  simp only [occurs_iff_isInfix] at hcons ⊢
  rw [List.infix_append_iff, hcons]
  constructor
  · rintro (hleft | hright | ⟨first, last, rfl, hfirst, hlast⟩)
    · exact .inl hleft
    · exact .inr hright
    · -- the word would have to go on with the separator
      cases last with
      | nil =>
          rw [List.append_nil]
          exact .inl hfirst.isInfix
      | cons b last =>
          have hhead : b = c := (List.cons_prefix_cons.mp hlast).1
          rw [hhead] at hnot
          exact absurd (List.mem_append_right first List.mem_cons_self) hnot
  · rintro (hleft | hright)
    · exact .inl hleft
    · exact .inr (.inl hright)

theorem occurs_intercalate_iff (hnot : c ∉ word) (hne : word ≠ []) (parts : List (List Char)) :
    Occurs word ([c].intercalate parts) ↔ ∃ part ∈ parts, Occurs word part := by
  induction parts with
  | nil =>
      rw [List.intercalate_nil, occurs_iff_isInfix, List.infix_nil]
      simp [hne]
  | cons part rest ih =>
      cases rest with
      | nil => simp
      | cons next rest =>
          rw [List.intercalate_cons_cons, List.append_assoc, List.singleton_append,
            occurs_append_cons_iff hnot, ih]
          simp

/-! ### Separators -/

theorem eq_of_append_cons_eq {left' right' : List Char} (hleft : c ∉ left) (hleft' : c ∉ left')
    (h : left ++ c :: right = left' ++ c :: right') : left = left' ∧ right = right' := by
  induction left generalizing left' with
  | nil =>
      cases left' with
      | nil => exact ⟨rfl, (List.cons.inj h).2⟩
      | cons b left' =>
          have hhead : c = b := (List.cons.inj h).1
          exact absurd (hhead ▸ List.mem_cons_self) hleft'
  | cons a left ih =>
      cases left' with
      | nil =>
          have hhead : a = c := (List.cons.inj h).1
          exact absurd (hhead ▸ List.mem_cons_self) hleft
      | cons b left' =>
          obtain ⟨hhead, htail⟩ := List.cons.inj h
          obtain ⟨hsame, hright⟩ := ih (fun hmem => hleft (List.mem_cons_of_mem a hmem))
            (fun hmem => hleft' (List.mem_cons_of_mem b hmem)) htail
          exact ⟨by rw [hhead, hsame], hright⟩

/-- The last separator is the one that no separator follows. -/
theorem eq_of_append_cons_eq_last {left' right' : List Char} (hright : c ∉ right)
    (hright' : c ∉ right') (h : left ++ c :: right = left' ++ c :: right') :
    left = left' ∧ right = right' := by
  have hreverse : right.reverse ++ c :: left.reverse = right'.reverse ++ c :: left'.reverse := by
    have hsame := congrArg List.reverse h
    simpa using hsame
  obtain ⟨hlast, hfirst⟩ := eq_of_append_cons_eq (by rwa [List.mem_reverse])
    (by rwa [List.mem_reverse]) hreverse
  exact ⟨List.reverse_injective hfirst, List.reverse_injective hlast⟩

/-- The first part can be told from the others if it has no separator. -/
theorem eq_of_intercalate_cons_eq {parts parts' : List (List Char)} (hleft : c ∉ left)
    (hright : c ∉ right)
    (h : [c].intercalate (left :: parts) = [c].intercalate (right :: parts')) :
    left = right ∧ [c].intercalate parts = [c].intercalate parts' := by
  cases parts with
  | nil =>
      cases parts' with
      | nil =>
          rw [List.intercalate_singleton, List.intercalate_singleton] at h
          exact ⟨h, rfl⟩
      | cons next parts' =>
          rw [List.intercalate_singleton, List.intercalate_cons_cons] at h
          exact absurd (by simp [h]) hleft
  | cons next parts =>
      cases parts' with
      | nil =>
          rw [List.intercalate_singleton, List.intercalate_cons_cons] at h
          exact absurd (by simp [← h]) hright
      | cons next' parts' =>
          simp only [List.intercalate_cons_cons, List.append_assoc, List.singleton_append] at h ⊢
          exact eq_of_append_cons_eq hleft hright h

/-! ### Placeholders -/

theorem replaceFrom_append (needle value skipped : List Char) :
    replaceFrom needle value skipped.length (skipped ++ text) = replaceAll needle value text := by
  induction skipped with
  | nil => rfl
  | cons b skipped ih => exact ih

theorem replaceAll_needle_append (key value text : List Char) :
    replaceAll (c :: key) value (c :: key ++ text) =
      value ++ replaceAll (c :: key) value text := by
  have hstart : (c :: key).isPrefixOf (c :: (key ++ text)) = true := by
    rw [List.isPrefixOf_iff_prefix]
    exact List.prefix_append (c :: key) text
  rw [replaceAll, List.cons_append, replaceFrom, if_pos hstart, List.length_cons,
    Nat.add_sub_cancel, replaceFrom_append]

/-- A text without the first character of a placeholder stays as it is. -/
theorem replaceAll_append_of_not_mem (key value : List Char) (hnot : c ∉ left) :
    replaceAll (c :: key) value (left ++ right) = left ++ replaceAll (c :: key) value right := by
  induction left with
  | nil => rfl
  | cons b left ih =>
      have hne : b ≠ c := fun heq => hnot (heq ▸ List.mem_cons_self)
      have hstart : ¬(c :: key).isPrefixOf (b :: (left ++ right)) = true := by
        rw [List.isPrefixOf_iff_prefix, List.cons_prefix_cons]
        exact fun h => hne h.1.symm
      have htail := ih fun hmem => hnot (List.mem_cons_of_mem b hmem)
      rw [replaceAll] at htail
      rw [replaceAll, List.cons_append, replaceFrom, if_neg hstart, htail, List.cons_append]

theorem replaceAll_fill (key value right : List Char) (hnot : c ∉ left) :
    replaceAll (c :: key) value (left ++ (c :: key ++ right)) =
      left ++ (value ++ replaceAll (c :: key) value right) := by
  rw [replaceAll_append_of_not_mem key value hnot, replaceAll_needle_append]

end SpotWire.Text
