import SpotWire.Json.Reader
import SpotWire.Proofs.Json.Value

/-!
# The numbers of a text

A numeral that is kept as a whole number fits 64 bits, so all whole numbers of a document do, and
the values that a document holds are well-formed.
-/

namespace SpotWire.Json

open Numeric

namespace Numeral

theorem gatherWhole_le (digits : List Char) {significand : Nat} (h : significand ≤ word64Max) :
    (gatherWhole significand digits).1 ≤ word64Max := by
  induction digits generalizing significand with
  | nil => exact h
  | cons c digits ih =>
      rw [gatherWhole]
      split
      · rename_i hnext
        exact ih hnext
      · exact h

theorem fits_real {negative : Bool} {significand : Nat} {exponent : Int} {found : Number}
    (h : number.real negative significand exponent = .ok found) : found.Fits := by
  unfold number.real at h
  split at h
  · cases h
    trivial
  · cases h

theorem fits_number {numeral : Numeral} {found : Number} (h : numeral.number = .ok found) :
    found.Fits := by
  have hroom := gatherWhole_le numeral.whole (Nat.zero_le word64Max)
  unfold number at h
  rcases hgather : gatherWhole 0 numeral.whole with ⟨significand, dropped⟩
  simp only [hgather] at h hroom
  split at h
  · split at h
    · cases h
      refine ⟨?_, ?_⟩
      · unfold int64Min
        omega
      · omega
    split at h
    · rename_i hnegative
      cases h
      exact ⟨hnegative.2.2, by omega⟩
    · exact fits_real h
  · split at h
    · exact fits_real h
    split at h
    · split at h
      · cases h
      · cases h
        trivial
    · exact fits_real h

end Numeral

namespace Reader

variable {fuel : Nat}

theorem allNumbers_number (negative : Bool) (text : List Char) :
    (number negative text).1.AllNumbers Number.Fits := by
  unfold number
  split
  · exact .number fun found hfound => Numeral.fits_number hfound
  · exact .broken _ _

theorem allNumbers_word {node : Node} {opening : Opening} (h : node.AllNumbers Number.Fits)
    (letters text : List Char) : (word node opening letters text).1.AllNumbers Number.Fits := by
  fun_induction word node opening letters text with
  | case1 => exact h
  | case3 _ _ _ ih => exact ih
  | _ => exact .broken _ _

/-- What is read in a number of steps has whole numbers that fit 64 bits. -/
structure Fitting (fuel : Nat) : Prop where
  node : ∀ text, (Reader.node fuel text).1.AllNumbers Number.Fits
  firstItem : ∀ text, ∀ item ∈ (Reader.firstItem fuel text).1, item.AllNumbers Number.Fits
  item : ∀ text, ∀ item ∈ (Reader.item fuel text).1, item.AllNumbers Number.Fits
  furtherItem : ∀ text, ∀ item ∈ (Reader.furtherItem fuel text).1, item.AllNumbers Number.Fits
  firstMember : ∀ text, ∀ member ∈ (Reader.firstMember fuel text).1,
    member.2.AllNumbers Number.Fits
  member : ∀ text, ∀ member ∈ (Reader.member fuel text).1, member.2.AllNumbers Number.Fits
  furtherMember : ∀ text, ∀ member ∈ (Reader.furtherMember fuel text).1,
    member.2.AllNumbers Number.Fits

section Step

variable (hfuel : Fitting fuel) (text : List Char)
include hfuel

theorem Fitting.node_succ : (Reader.node (fuel + 1) text).1.AllNumbers Number.Fits := by
  rw [Reader.node]
  split
  · exact .broken _ _
  split
  · exact allNumbers_word .null _ _
  split
  · exact allNumbers_word (.bool true) _ _
  split
  · exact allNumbers_word (.bool false) _ _
  split
  · split
    · exact .string _
    · exact .broken _ _
  split
  · exact .array _ (hfuel.firstItem _)
  split
  · exact .object _ (hfuel.firstMember _)
  split
  · exact allNumbers_number _ _
  split
  · exact allNumbers_number _ _
  · exact .broken _ _

theorem Fitting.firstItem_succ :
    ∀ item ∈ (Reader.firstItem (fuel + 1) text).1, item.AllNumbers Number.Fits := by
  rw [Reader.firstItem]
  split
  · exact List.forall_mem_nil _
  split
  · exact List.forall_mem_nil _
  · exact hfuel.item _

theorem Fitting.item_succ :
    ∀ item ∈ (Reader.item (fuel + 1) text).1, item.AllNumbers Number.Fits := by
  have hnode := hfuel.node text
  rw [Reader.item]
  split
  · rename_i hread
    rw [hread] at hnode
    exact List.forall_mem_singleton.mpr hnode
  · rename_i hread
    rw [hread] at hnode
    exact List.forall_mem_cons.mpr ⟨hnode, hfuel.furtherItem _⟩

theorem Fitting.furtherItem_succ :
    ∀ item ∈ (Reader.furtherItem (fuel + 1) text).1, item.AllNumbers Number.Fits := by
  rw [Reader.furtherItem]
  split
  · exact List.forall_mem_nil _
  split
  · exact List.forall_mem_nil _
  split
  · split
    · exact List.forall_mem_nil _
    split
    · exact List.forall_mem_nil _
    · exact hfuel.item _
  · exact List.forall_mem_nil _

theorem Fitting.firstMember_succ :
    ∀ member ∈ (Reader.firstMember (fuel + 1) text).1, member.2.AllNumbers Number.Fits := by
  rw [Reader.firstMember]
  split
  · exact List.forall_mem_nil _
  split
  · exact List.forall_mem_nil _
  split
  · exact hfuel.member _
  · exact List.forall_mem_nil _

theorem Fitting.member_succ :
    ∀ member ∈ (Reader.member (fuel + 1) text).1, member.2.AllNumbers Number.Fits := by
  rw [Reader.member]
  split
  · exact List.forall_mem_nil _
  split
  · exact List.forall_mem_singleton.mpr (.broken _ _)
  rename_i rest _
  have hnode := hfuel.node rest
  split
  · split
    · rename_i hread
      rw [hread] at hnode
      exact List.forall_mem_singleton.mpr hnode
    · rename_i hread
      rw [hread] at hnode
      exact List.forall_mem_cons.mpr ⟨hnode, hfuel.furtherMember _⟩
  · exact List.forall_mem_singleton.mpr (.broken _ _)

theorem Fitting.furtherMember_succ :
    ∀ member ∈ (Reader.furtherMember (fuel + 1) text).1, member.2.AllNumbers Number.Fits := by
  rw [Reader.furtherMember]
  split
  · exact List.forall_mem_nil _
  split
  · exact List.forall_mem_nil _
  split
  · split
    · exact List.forall_mem_nil _
    split
    · exact hfuel.member _
    split <;> exact List.forall_mem_nil _
  · exact List.forall_mem_nil _

end Step

theorem fitting (fuel : Nat) : Fitting fuel := by
  induction fuel with
  | zero =>
      refine ⟨?_, ?_, ?_, ?_, ?_, ?_, ?_⟩
      · exact fun text => .broken _ _
      all_goals
        intro text
        exact List.forall_mem_nil _
  | succ fuel ih =>
      exact ⟨ih.node_succ, ih.firstItem_succ, ih.item_succ, ih.furtherItem_succ,
        ih.firstMember_succ, ih.member_succ, ih.furtherMember_succ⟩

end Reader

theorem Document.allNumbers_ofChars (text : List Char) :
    (Document.ofChars text).root.AllNumbers Number.Fits :=
  (Reader.fitting (3 * text.length + 3)).node text

end SpotWire.Json
