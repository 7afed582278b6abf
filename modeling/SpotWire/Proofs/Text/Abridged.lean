import Mathlib.Tactic.SplitIfs
import SpotWire.Proofs.Text.Octets

/-!
# Abridged texts

A text that goes beyond a limit of octets is cut between two of its characters. The place is
sought from the limit on, by going back one octet at a time (`lastBoundary?`). The search ends at
most three octets before the limit, and before this place stands the longest start of the text that
keeps the limit (`IsLongestStart.lastBoundary?_eq`, `textBefore?_octets`).
-/

namespace SpotWire.Text

/-! ### Cutting octets -/

/-- Whether an octet is the first one of a character. All further ones begin with the bits 10. -/
def isFirst (octet : Nat) : Bool :=
  octet < 0x80 || 0xc0 ≤ octet

/-- Whether octets may be cut at a place: at both their ends, and before the first octet of a
character. -/
def isBoundary (spelled : List Nat) (place : Nat) : Bool :=
  place == 0 ||
    match spelled[place]? with
    | some octet => isFirst octet
    | none => place == spelled.length

/-- Goes back from a place, one octet at a time, until octets may be cut; `none` if that would lead
beyond their start. -/
def lastBoundary? (spelled : List Nat) (place : Nat) : Option Nat :=
  if isBoundary spelled place then some place
  else
    match place with
    | 0 => none
    | place + 1 => lastBoundary? spelled place

/-- The text before a place; `none` if octets may not be cut there or are ill-formed before it. -/
def textBefore? (spelled : List Nat) (place : Nat) : Option (List Char) :=
  if isBoundary spelled place then ofOctets? (spelled.take place) else none

/-- Abridges a text by its octets. -/
def abridgeOctets? (limit : Nat) (text : List Char) : Option (List Char) :=
  if octetCount text ≤ limit then some text
  else do
    let place ← lastBoundary? (octets text) limit
    let start ← textBefore? (octets text) place
    some (start ++ ['.', '.', '.'])

section Boundary

variable {spelled : List Nat} {place limit : Nat}

theorem isBoundary_zero (spelled : List Nat) : isBoundary spelled 0 = true :=
  rfl

theorem lastBoundary?_of_isBoundary (h : isBoundary spelled place = true) :
    lastBoundary? spelled place = some place := by
  rw [lastBoundary?.eq_def, if_pos h]

theorem lastBoundary?_succ (h : isBoundary spelled (place + 1) = false) :
    lastBoundary? spelled (place + 1) = lastBoundary? spelled place := by
  rw [lastBoundary?, if_neg (by simp [h])]

/-- The search finds the last place up to the limit where octets may be cut. -/
theorem lastBoundary?_eq_some_iff :
    lastBoundary? spelled limit = some place ↔
      place ≤ limit ∧ isBoundary spelled place = true ∧
        ∀ other, place < other → other ≤ limit → isBoundary spelled other = false := by
  induction limit with
  | zero =>
      rw [lastBoundary?_of_isBoundary (isBoundary_zero spelled), Option.some.injEq]
      constructor
      · rintro rfl
        exact ⟨Nat.le_refl 0, isBoundary_zero spelled, by omega⟩
      · rintro ⟨hle, -, -⟩
        omega
  | succ limit ih =>
      cases hlimit : isBoundary spelled (limit + 1) with
      | true =>
          rw [lastBoundary?_of_isBoundary hlimit, Option.some.injEq]
          constructor
          · rintro rfl
            exact ⟨Nat.le_refl _, hlimit, by omega⟩
          · rintro ⟨hle, -, hlast⟩
            by_contra hne
            have hfalse := hlast (limit + 1) (by omega) (Nat.le_refl _)
            rw [hlimit] at hfalse
            cases hfalse
      | false =>
          rw [lastBoundary?_succ hlimit, ih]
          constructor
          · rintro ⟨hle, hplace, hlast⟩
            refine ⟨by omega, hplace, ?_⟩
            intro other hlt hother
            by_cases heq : other = limit + 1
            · rw [heq, hlimit]
            · exact hlast other hlt (by omega)
          · rintro ⟨hle, hplace, hlast⟩
            have hne : place ≠ limit + 1 := by
              rintro rfl
              rw [hlimit] at hplace
              cases hplace
            refine ⟨by omega, hplace, ?_⟩
            intro other hlt hother
            exact hlast other hlt (by omega)

theorem isBoundary_of_append {front : List Nat}
    (h : isBoundary (front ++ spelled) (front.length + place) = true) :
    isBoundary spelled place = true := by
  by_cases hzero : place = 0
  · rw [hzero, isBoundary_zero]
  have hindex : (front ++ spelled)[front.length + place]? = spelled[place]? := by
    rw [List.getElem?_append_right (Nat.le_add_right _ _), Nat.add_sub_cancel_left]
  unfold isBoundary at h ⊢
  rw [hindex, List.length_append] at h
  have hleft : (front.length + place == 0) = false := by
    rw [beq_eq_false_iff_ne]
    omega
  rw [hleft, Bool.false_or] at h
  rw [Bool.or_eq_true]
  right
  cases hoctet : spelled[place]? with
  | some octet => simpa [hoctet] using h
  | none => simpa [hoctet] using h

/-- Octets may not be cut between the first octet of a character and the end of its further ones. -/
theorem isBoundary_inside {first : Nat} {more : List Nat}
    (hmore : ∀ octet ∈ more, isFirst octet = false) (hpos : 0 < place)
    (hlt : place < (first :: more).length) :
    isBoundary (first :: more ++ spelled) place = false := by
  obtain ⟨index, rfl⟩ := Nat.exists_eq_succ_of_ne_zero hpos.ne'
  have hindex : index < more.length := Nat.lt_of_succ_lt_succ hlt
  have hoctet : (first :: more ++ spelled)[index + 1]? = some more[index] := by
    rw [List.cons_append, List.getElem?_cons_succ, List.getElem?_append_left hindex,
      List.getElem?_eq_getElem hindex]
  unfold isBoundary
  rw [hoctet]
  exact hmore _ (List.getElem_mem hindex)

end Boundary

/-! ### Octets of characters -/

theorem exists_spelling_eq_cons (c : Char) :
    ∃ first more, spelling c.toNat = first :: more ∧ isFirst first = true ∧
      ∀ octet ∈ more, isFirst octet = false := by
  have hfurther : ∀ bits, isFirst (bits % 64 + 0x80) = false := by
    intro bits
    simp only [isFirst, Bool.or_eq_false_iff, decide_eq_false_iff_not]
    omega
  unfold spelling
  split_ifs
  all_goals refine ⟨_, _, rfl, ?_, by simp [hfurther]⟩
  all_goals simp only [isFirst, Bool.or_eq_true, decide_eq_true_eq]
  all_goals omega

theorem length_spelling (c : Char) : (spelling c.toNat).length = c.utf8Size := by
  rw [← map_toNat_utf8EncodeChar, List.length_map, String.length_utf8EncodeChar]

theorem length_octets (text : List Char) : (octets text).length = octetCount text := by
  induction text with
  | nil => rfl
  | cons c text ih => rw [octets_cons, List.length_append, length_spelling, ih, octetCount]

theorem octets_append (start rest : List Char) :
    octets (start ++ rest) = octets start ++ octets rest :=
  List.flatMap_append

theorem octetCount_append (start rest : List Char) :
    octetCount (start ++ rest) = octetCount start + octetCount rest := by
  rw [← length_octets, octets_append, List.length_append, length_octets, length_octets]

theorem isBoundary_append (start rest : List Char) :
    isBoundary (octets (start ++ rest)) (octetCount start) = true := by
  unfold isBoundary
  rw [octets_append, List.getElem?_append_right (length_octets start).le, length_octets,
    Nat.sub_self, Bool.or_eq_true]
  right
  cases rest with
  | nil =>
      change (octetCount start == (octets start ++ []).length) = true
      rw [List.append_nil, length_octets, beq_self_eq_true]
  | cons c rest =>
      obtain ⟨first, more, hspelling, hfirst, -⟩ := exists_spelling_eq_cons c
      rw [octets_cons, hspelling]
      exact hfirst

theorem exists_start_of_isBoundary {text : List Char} {place : Nat}
    (h : isBoundary (octets text) place = true) :
    ∃ start, start <+: text ∧ octetCount start = place := by
  induction text generalizing place with
  | nil =>
      have hzero : place = 0 := by
        simpa [isBoundary, octets] using h
      exact ⟨[], List.nil_prefix, hzero.symm⟩
  | cons c text ih =>
      by_cases hzero : place = 0
      · exact ⟨[], List.nil_prefix, hzero.symm⟩
      by_cases hinside : place < c.utf8Size
      · obtain ⟨first, more, hspelling, -, hmore⟩ := exists_spelling_eq_cons c
        have hlt : place < (first :: more).length := by
          rwa [← hspelling, length_spelling]
        rw [octets_cons, hspelling, isBoundary_inside hmore (Nat.pos_of_ne_zero hzero) hlt] at h
        cases h
      · obtain ⟨later, rfl⟩ := Nat.exists_eq_add_of_le (Nat.not_lt.mp hinside)
        rw [octets_cons, ← length_spelling] at h
        obtain ⟨start, hstart, hcount⟩ := ih (isBoundary_of_append h)
        exact ⟨c :: start, List.cons_prefix_cons.mpr ⟨rfl, hstart⟩, by rw [octetCount, hcount]⟩

/-- The octets of a text may be cut exactly at the ends of its starts. -/
theorem isBoundary_octets_iff {text : List Char} {place : Nat} :
    isBoundary (octets text) place = true ↔
      ∃ start, start <+: text ∧ octetCount start = place := by
  constructor
  · exact exists_start_of_isBoundary
  · rintro ⟨start, ⟨rest, rfl⟩, rfl⟩
    exact isBoundary_append start rest

/-! ### The longest start -/

/-- A start of a text that takes no more octets than the limit and is no shorter than any other
such start. -/
structure IsLongestStart (limit : Nat) (text start : List Char) : Prop where
  starts : start <+: text
  fits : octetCount start ≤ limit
  longest : ∀ other, other <+: text → octetCount other ≤ limit → other <+: start

theorem isLongestStart_fitting (limit : Nat) (text : List Char) :
    IsLongestStart limit text (fitting limit text) := by
  induction text generalizing limit with
  | nil => exact ⟨List.nil_prefix, Nat.zero_le _, fun other hother _ => hother⟩
  | cons c text ih =>
      by_cases hfits : c.utf8Size ≤ limit
      · obtain ⟨hstarts, hcount, hlongest⟩ := ih (limit - c.utf8Size)
        rw [fitting, if_pos hfits]
        refine ⟨List.cons_prefix_cons.mpr ⟨rfl, hstarts⟩, ?_, ?_⟩
        · rw [octetCount]
          omega
        · intro other hother hle
          cases other with
          | nil => exact List.nil_prefix
          | cons d other =>
              obtain ⟨rfl, hrest⟩ := List.cons_prefix_cons.mp hother
              rw [octetCount] at hle
              exact List.cons_prefix_cons.mpr ⟨rfl, hlongest other hrest (by omega)⟩
      · rw [fitting, if_neg hfits]
        refine ⟨List.nil_prefix, Nat.zero_le _, ?_⟩
        intro other hother hle
        cases other with
        | nil => exact List.nil_prefix
        | cons d other =>
            obtain ⟨rfl, -⟩ := List.cons_prefix_cons.mp hother
            rw [octetCount] at hle
            omega

theorem octetCount_le_of_starts {start text : List Char} (h : start <+: text) :
    octetCount start ≤ octetCount text := by
  obtain ⟨rest, rfl⟩ := h
  rw [octetCount_append]
  exact Nat.le_add_right _ _

variable {limit : Nat} {text start : List Char}

/-- What is cut off begins with a character, and no character has more than four octets. -/
theorem IsLongestStart.limit_le (h : IsLongestStart limit text start)
    (hlong : limit < octetCount text) : limit ≤ octetCount start + 3 := by
  obtain ⟨rest, hrest⟩ := h.starts
  cases rest with
  | nil =>
      rw [List.append_nil] at hrest
      have hfits := h.fits
      rw [hrest] at hfits
      omega
  | cons c rest =>
      by_contra hgap
      have hsize := c.utf8Size_le_four
      have hnext : start ++ [c] <+: text := ⟨rest, by simpa using hrest⟩
      have hcount : octetCount (start ++ [c]) = octetCount start + c.utf8Size := by
        rw [octetCount_append, octetCount, octetCount, Nat.add_zero]
      have hlength := (h.longest _ hnext (by omega)).length_le
      simp at hlength

theorem IsLongestStart.lastBoundary?_eq (h : IsLongestStart limit text start) :
    lastBoundary? (octets text) limit = some (octetCount start) := by
  apply lastBoundary?_eq_some_iff.mpr
  refine ⟨h.fits, isBoundary_octets_iff.mpr ⟨start, h.starts, rfl⟩, ?_⟩
  intro other hlt hle
  by_contra hboundary
  rw [Bool.not_eq_false] at hboundary
  -- a later boundary would be the end of a longer start
  obtain ⟨longer, hlonger, rfl⟩ := isBoundary_octets_iff.mp hboundary
  have hshorter := octetCount_le_of_starts (h.longest longer hlonger hle)
  omega

theorem textBefore?_octets (h : start <+: text) :
    textBefore? (octets text) (octetCount start) = some start := by
  obtain ⟨rest, rfl⟩ := h
  rw [textBefore?, if_pos (isBoundary_append start rest), octets_append, ← length_octets,
    List.take_left, ofOctets?_octets]

/-- **Abridged texts.** A text that keeps the limit stays as it is. For any other one, going back
from the limit ends at a place no more than three octets before it, and the octets before this place
are those of the longest start that keeps the limit; three dots follow this start. So a text can
always be abridged by its octets, no character of it is divided, and the result goes beyond the
limit by no more than the dots. -/
theorem abridge_keeps_whole_characters (limit : Nat) (text : List Char) :
    abridgeOctets? limit text = some (abridge limit text) ∧
      octetCount (abridge limit text) ≤ limit + 3 ∧
      if octetCount text ≤ limit then abridge limit text = text
      else
        ∃ place start, lastBoundary? (octets text) limit = some place ∧
          place ≤ limit ∧ limit - place ≤ 3 ∧
          textBefore? (octets text) place = some start ∧
          octetCount start = place ∧ IsLongestStart limit text start ∧
          abridge limit text = start ++ ['.', '.', '.'] := by
  have hlongest := isLongestStart_fitting limit text
  have hfits := hlongest.fits
  by_cases hshort : octetCount text ≤ limit
  · have habridge : abridge limit text = text := if_pos hshort
    rw [abridgeOctets?, if_pos hshort, if_pos hshort, habridge]
    exact ⟨rfl, by omega, rfl⟩
  · have habridge : abridge limit text = fitting limit text ++ ['.', '.', '.'] := if_neg hshort
    have hplace := hlongest.lastBoundary?_eq
    have hbefore := textBefore?_octets hlongest.starts
    have hgap := hlongest.limit_le (Nat.not_le.mp hshort)
    have hdots : octetCount ['.', '.', '.'] = 3 := rfl
    rw [abridgeOctets?, if_neg hshort, if_neg hshort, habridge]
    refine ⟨?_, ?_, ?_⟩
    · simp [hplace, hbefore]
    · rw [octetCount_append]
      omega
    · exact ⟨_, _, hplace, hfits, by omega, hbefore, rfl, hlongest, rfl⟩

/-- The third octet is inside a character of two. -/
example : abridge 3 ['é', 'é', 'é'] = ['é', '.', '.', '.'] := by
  decide

end SpotWire.Text
