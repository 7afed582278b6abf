import SpotWire.Proofs.Text.Parts

/-!
# Replacing one text in another

A text is a row of the occurrences of a pattern, as they are found from left to right, and of the
characters between them (`induction_on_needle`). Where every occurrence gives way to a value, the
text stays as it is exactly if there is none, or the value is the pattern itself
(`replaceAll_eq_self_iff`).
-/

namespace SpotWire.Text

variable {c : Char} {needle value text rest left right : List Char}

/-- What holds of the empty text, and is kept when an occurrence of the pattern or a character at
which none begins is put in front, holds of all texts. -/
theorem induction_on_needle {motive : List Char → Prop} (hne : needle ≠ []) (hnil : motive [])
    (hneedle : ∀ rest, motive rest → motive (needle ++ rest))
    (hcons : ∀ c rest, ¬needle <+: c :: rest → motive rest → motive (c :: rest))
    (text : List Char) : motive text := by
  induction hlength : text.length using Nat.strong_induction_on generalizing text with
  | _ length ih =>
      cases text with
      | nil => exact hnil
      | cons c rest =>
          by_cases hstart : needle <+: c :: rest
          · obtain ⟨after, hafter⟩ := hstart
            rw [← hafter] at hlength ⊢
            have hpos : 0 < needle.length := List.length_pos_of_ne_nil hne
            refine hneedle after (ih after.length ?_ after rfl)
            rw [List.length_append] at hlength
            omega
          · refine hcons c rest hstart (ih rest.length ?_ rest rfl)
            rw [List.length_cons] at hlength
            omega

theorem replaceAll_append (hne : needle ≠ []) :
    replaceAll needle value (needle ++ rest) = value ++ replaceAll needle value rest := by
  obtain ⟨c, key, rfl⟩ := List.exists_cons_of_ne_nil hne
  exact replaceAll_needle_append key value rest

theorem replaceAll_cons (h : ¬needle <+: c :: rest) :
    replaceAll needle value (c :: rest) = c :: replaceAll needle value rest := by
  have hstart : ¬needle.isPrefixOf (c :: rest) = true := by
    rwa [List.isPrefixOf_iff_prefix]
  rw [replaceAll, replaceFrom, if_neg hstart, replaceAll]

theorem replaceAll_needle (hne : needle ≠ []) : replaceAll needle value needle = value := by
  have h : replaceAll needle value (needle ++ []) = value ++ replaceAll needle value [] :=
    replaceAll_append hne
  rwa [List.append_nil, show replaceAll needle value [] = [] from rfl, List.append_nil] at h

/-- A separator that the pattern does not have divides the occurrences. -/
theorem replaceAll_append_cons (hne : needle ≠ []) (hnot : c ∉ needle) :
    replaceAll needle value (left ++ c :: right) =
      replaceAll needle value left ++ c :: replaceAll needle value right := by
  induction left using induction_on_needle hne with
  | hnil =>
      have hstart : ¬needle <+: c :: right := by
        obtain ⟨d, key, rfl⟩ := List.exists_cons_of_ne_nil hne
        intro h
        exact hnot ((List.cons_prefix_cons.mp h).1 ▸ List.mem_cons_self)
      exact replaceAll_cons hstart
  | hneedle left ih =>
      rw [List.append_assoc, replaceAll_append hne, replaceAll_append hne, ih, List.append_assoc]
  | hcons d left hstart ih =>
      have hlater : ¬needle <+: d :: (left ++ c :: right) := by
        intro h
        rcases List.prefix_or_prefix_of_prefix h (List.prefix_append (d :: left) (c :: right)) with
          hwithin | ⟨more, rfl⟩
        · exact hstart hwithin
        · -- an occurrence that goes on behind the separator holds it
          cases more with
          | nil => exact hstart (by rw [List.append_nil])
          | cons e more =>
              obtain ⟨rfl, -⟩ :=
                List.cons_prefix_cons.mp ((List.prefix_append_right_inj (d :: left)).mp h)
              exact hnot (List.mem_append_right _ List.mem_cons_self)
      rw [List.cons_append, replaceAll_cons hlater, replaceAll_cons hstart, ih, List.cons_append]

/-! ### Texts that stay as they are -/

theorem replaceAll_self (hne : needle ≠ []) (text : List Char) :
    replaceAll needle needle text = text := by
  induction text using induction_on_needle hne with
  | hnil => rfl
  | hneedle rest ih => rw [replaceAll_append hne, ih]
  | hcons c rest hstart ih => rw [replaceAll_cons hstart, ih]

theorem replaceAll_of_not_occurs (hne : needle ≠ []) (h : ¬Occurs needle text) :
    replaceAll needle value text = text := by
  induction text using induction_on_needle hne with
  | hnil => rfl
  | hneedle rest ih => exact absurd ⟨[], rest, rfl⟩ h
  | hcons c rest hstart ih =>
      rw [replaceAll_cons hstart, ih]
      rw [occurs_iff_isInfix] at h ⊢
      exact fun hwithin => h (List.infix_cons hwithin)

theorem length_replaceAll_le (hne : needle ≠ []) (h : value.length ≤ needle.length)
    (text : List Char) : (replaceAll needle value text).length ≤ text.length := by
  induction text using induction_on_needle hne with
  | hnil => exact Nat.le_refl 0
  | hneedle rest ih =>
      rw [replaceAll_append hne, List.length_append, List.length_append]
      exact Nat.add_le_add h ih
  | hcons c rest hstart ih =>
      rw [replaceAll_cons hstart, List.length_cons, List.length_cons]
      exact Nat.succ_le_succ ih

theorem length_le_replaceAll (hne : needle ≠ []) (h : needle.length ≤ value.length)
    (text : List Char) : text.length ≤ (replaceAll needle value text).length := by
  induction text using induction_on_needle hne with
  | hnil => exact Nat.le_refl 0
  | hneedle rest ih =>
      rw [replaceAll_append hne, List.length_append, List.length_append]
      exact Nat.add_le_add h ih
  | hcons c rest hstart ih =>
      rw [replaceAll_cons hstart, List.length_cons, List.length_cons]
      exact Nat.succ_le_succ ih

/-- The first occurrence already tells a text from the one in which it has given way. -/
theorem replaceAll_ne_self (hne : needle ≠ []) (hvalue : value ≠ needle) (h : Occurs needle text) :
    replaceAll needle value text ≠ text := by
  induction text using induction_on_needle hne with
  | hnil =>
      rw [occurs_iff_isInfix, List.infix_nil] at h
      exact absurd h hne
  | hneedle rest =>
      intro hsame
      rw [replaceAll_append hne] at hsame
      have hlength := congrArg List.length hsame
      rw [List.length_append, List.length_append] at hlength
      rcases Nat.lt_trichotomy value.length needle.length with hless | hequal | hmore
      · have hrest := length_replaceAll_le hne hless.le rest
        omega
      · exact hvalue (List.append_inj_left hsame hequal)
      · have hrest := length_le_replaceAll hne hmore.le rest
        omega
  | hcons c rest hstart ih =>
      rw [replaceAll_cons hstart]
      intro hsame
      refine ih ?_ (List.cons.inj hsame).2
      rw [occurs_iff_isInfix] at h ⊢
      exact (List.infix_cons_iff.mp h).resolve_left hstart

theorem replaceAll_eq_self_iff (hne : needle ≠ []) :
    replaceAll needle value text = text ↔ ¬Occurs needle text ∨ value = needle := by
  constructor
  · intro hsame
    by_contra hboth
    obtain ⟨hoccurs, hvalue⟩ := not_or.mp hboth
    exact replaceAll_ne_self hne hvalue (not_not.mp hoccurs) hsame
  · rintro (hnone | rfl)
    · exact replaceAll_of_not_occurs hne hnone
    · exact replaceAll_self hne text

end SpotWire.Text
