import SpotWire.Proofs.Rest.Outcome
import SpotWire.Proofs.Text.Parts

/-!
# Rejections by priority

A message tells a rejection if it holds one of its patterns, whatever stands around the pattern. Of
all rejections that a message tells, the classification is the one that is looked for first. A
message that is part of a longer one leaves all it tells to the longer one, whose classification
therefore never falls behind; it may come earlier, also by a pattern that only the longer message
has.
-/

namespace SpotWire

namespace Rejection

/-- One rejection is looked for before another one. -/
def Precedes (first second : Rejection) : Prop :=
  [first, second].Sublist byPriority

instance (first second : Rejection) : Decidable (first.Precedes second) :=
  inferInstanceAs (Decidable ([first, second].Sublist byPriority))

/-- A message holds a pattern of a rejection, letter by letter. -/
def Tells (message : String) (rejection : Rejection) : Prop :=
  ∃ pattern ∈ rejection.patterns, Text.Occurs pattern.toList message.toList

variable {message longer : String} {rejection earlier : Rejection}

theorem isTold_iff_tells : rejection.isTold message = true ↔ Tells message rejection := by
  simp only [isTold_eq_true_iff, Tells, Text.mentions_eq_true_iff]

/-! ### The order of rejections -/

theorem nodup_byPriority : byPriority.Nodup := by
  decide

theorem mem_byPriority (rejection : Rejection) : rejection ∈ byPriority := by
  cases rejection <;> decide

theorem precedes_trichotomy (first second : Rejection) :
    first = second ∨ first.Precedes second ∨ second.Precedes first := by
  cases first <;> cases second <;> decide

theorem mem_iff_precedes {before after : List Rejection}
    (h : byPriority = before ++ rejection :: after) :
    earlier ∈ before ↔ earlier.Precedes rejection := by
  have hnodup := nodup_byPriority
  rw [h] at hnodup
  have hfresh : rejection ∉ after := (List.nodup_cons.mp (List.nodup_append.mp hnodup).2.1).1
  rw [Precedes, h]
  constructor
  · intro hmem
    exact (List.singleton_sublist.mpr hmem).append
      (List.singleton_sublist.mpr List.mem_cons_self)
  · intro hsublist
    obtain ⟨front, back, hparts, hfront, hback⟩ := List.sublist_append_iff.mp hsublist
    cases front with
    | nil =>
        -- the second of the two would have to come once more behind the first
        rw [List.nil_append] at hparts
        subst hparts
        have hlater : [rejection].Sublist after := hback.tail
        exact absurd (List.singleton_sublist.mp hlater) hfresh
    | cons head front =>
        obtain ⟨rfl, -⟩ := List.cons.inj hparts
        exact hfront.subset List.mem_cons_self

/-! ### Classification -/

theorem classify_eq_some_iff :
    classify message = some rejection ↔
      Tells message rejection ∧
        ∀ earlier, earlier.Precedes rejection → ¬Tells message earlier := by
  rw [classify, List.find?_eq_some_iff_append, isTold_iff_tells]
  refine and_congr_right fun _ => ?_
  constructor
  · rintro ⟨before, after, hsplit, hbefore⟩ earlier hearlier
    have hmem := (mem_iff_precedes hsplit).mpr hearlier
    have huntold := hbefore earlier hmem
    rw [← isTold_iff_tells]
    simpa using huntold
  · intro hnone
    obtain ⟨before, after, hsplit⟩ := List.append_of_mem (mem_byPriority rejection)
    refine ⟨before, after, hsplit, ?_⟩
    intro earlier hmem
    have huntold := hnone earlier ((mem_iff_precedes hsplit).mp hmem)
    rw [← isTold_iff_tells] at huntold
    simpa using huntold

theorem classify_eq_none_iff :
    classify message = none ↔ ∀ rejection, ¬Tells message rejection := by
  simp only [classify, List.find?_eq_none, isTold_iff_tells, mem_byPriority, true_imp_iff]

/-! ### Longer messages -/

theorem Tells.of_wrapped (before after : String) (h : Tells message rejection) :
    Tells (before ++ message ++ after) rejection := by
  obtain ⟨pattern, hpattern, hoccurs⟩ := h
  refine ⟨pattern, hpattern, ?_⟩
  rw [Text.occurs_iff_isInfix] at hoccurs ⊢
  rw [String.toList_append, String.toList_append]
  exact hoccurs.trans (List.infix_append before.toList message.toList after.toList)

/-- A message that tells all that another one tells is not classified behind it. -/
theorem classify_of_tells_mono
    (hmono : ∀ rejection, Tells message rejection → Tells longer rejection)
    (h : classify message = some rejection) :
    ∃ found, classify longer = some found ∧
      (found = rejection ∨ found.Precedes rejection) := by
  have htold := hmono rejection (classify_eq_some_iff.mp h).1
  cases hfound : classify longer with
  | none => exact absurd htold (classify_eq_none_iff.mp hfound rejection)
  | some found =>
      refine ⟨found, rfl, ?_⟩
      rcases precedes_trichotomy found rejection with rfl | hbefore | hafter
      · exact .inl rfl
      · exact .inr hbefore
      · exact absurd htold ((classify_eq_some_iff.mp hfound).2 rejection hafter)

end Rejection

namespace Failure

variable {code message : String}

theorem ofRejected_eq_rejected_iff {rejection : Rejection} {told : String} :
    ofRejected code message = .rejected rejection told ↔
      Rejection.classify message = some rejection ∧ told = message := by
  unfold ofRejected
  split
  · rename_i found hfound
    simp [hfound, eq_comm]
  · rename_i hnone
    simp [hnone]

theorem ofRejected_eq_api_iff {own told : String} :
    ofRejected code message = .api own told ↔
      Rejection.classify message = none ∧ own = code ∧ told = message := by
  unfold ofRejected
  split
  · rename_i found hfound
    simp [hfound]
  · rename_i hnone
    simp [hnone, eq_comm]

end Failure

namespace Rejection

/-- **Rejections by priority.** A message is classified as a rejection exactly if it holds a pattern
of it and no pattern of a rejection before it, and not at all exactly if it holds no pattern.

* A longer message that has a classified one as a part is classified too, as the same rejection or
  one before it.
* A failure holds the message as it is, and the rejection if there is one, else the code as it
  is. -/
theorem classification_keeps_priority (message : String) :
    (∀ rejection, classify message = some rejection ↔
        (∃ pattern ∈ rejection.patterns, Text.Occurs pattern.toList message.toList) ∧
          ∀ earlier : Rejection, earlier.Precedes rejection →
            ∀ pattern ∈ earlier.patterns, ¬Text.Occurs pattern.toList message.toList) ∧
      (classify message = none ↔
        ∀ rejection : Rejection, ∀ pattern ∈ rejection.patterns,
          ¬Text.Occurs pattern.toList message.toList) ∧
      (∀ rejection before after, classify message = some rejection →
        ∃ found, classify (before ++ message ++ after) = some found ∧
          (found = rejection ∨ found.Precedes rejection)) ∧
      ∀ code,
        (∀ rejection told, Failure.ofRejected code message = .rejected rejection told ↔
          classify message = some rejection ∧ told = message) ∧
        ∀ own told, Failure.ofRejected code message = .api own told ↔
          classify message = none ∧ own = code ∧ told = message := by
  have huntold : ∀ rejection, ¬Tells message rejection ↔
      ∀ pattern ∈ rejection.patterns, ¬Text.Occurs pattern.toList message.toList := by
    intro rejection
    simp only [Tells, not_exists, not_and]
  refine ⟨?_, ?_, ?_, ?_⟩
  · intro rejection
    simp only [classify_eq_some_iff, huntold]
    rfl
  · simp only [classify_eq_none_iff, huntold]
  · intro rejection before after h
    exact classify_of_tells_mono (fun _ => Tells.of_wrapped before after) h
  · intro code
    exact ⟨fun rejection told => Failure.ofRejected_eq_rejected_iff,
      fun own told => Failure.ofRejected_eq_api_iff⟩

/-- Words in front of a message may complete a pattern of an earlier rejection. -/
theorem classification_of_seam :
    classify "exist. Insufficient balance" = some .insufficientFunds ∧
      ∃ found, classify ("Order does not " ++ "exist. Insufficient balance" ++ "!") = some found ∧
        found = .orderNotFound ∧ found.Precedes .insufficientFunds := by
  have hpart : classify "exist. Insufficient balance" = some .insufficientFunds := by decide
  have hwhole : classify ("Order does not " ++ "exist. Insufficient balance" ++ "!") =
      some .orderNotFound := by decide
  obtain ⟨found, hfound, hrank⟩ :=
    (classification_keeps_priority "exist. Insufficient balance").2.2.1 .insufficientFunds
      "Order does not " "!" hpart
  obtain rfl : .orderNotFound = found := Option.some.inj (hwhole.symm.trans hfound)
  exact ⟨hpart, .orderNotFound, hfound, rfl, hrank.resolve_left nofun⟩

end Rejection

end SpotWire
