import SpotWire.Message.Outbound
import SpotWire.Proofs.Wire.Restored

/-!
# Messages that are sent, printed and read again

The kind of a message is named by one of its members. A time that has been read is the value of a
node other than `null`, so that a printed message is read as the same one.
-/

namespace SpotWire.Outbound

open Json Wire

variable {reading inner : Reading} {node : Node} {kind : Kind} {message : Outbound}

/-! ### What has been read -/

section Parts

variable {ending : Ending} {field : Field}

/-- The members that are kept have been read as values. -/
theorem readMembers_eq_ok {members : List (Except Fault String × Node)}
    {known found : Option Kind} {others kept : List (String × Node)}
    (h : readMembers reading known others members ending = .ok (found, kept)) :
    ∀ member ∈ kept, member ∈ others ∨
      (.ok member.1, member.2) ∈ members ∧ ∃ held, value reading member.2 = .ok held := by
  induction members generalizing known others with
  | nil =>
      rw [readMembers] at h
      split at h
      · cases h
        exact fun member hmem => .inl (List.mem_reverse.mp hmem)
      · cases h
  | cons first rest ih =>
      obtain ⟨name, content⟩ := first
      obtain ⟨key, hkey, hread⟩ := bind_eq_ok h
      obtain rfl := orBroken_eq_ok hkey
      intro member hmem
      split at hread
      · obtain ⟨next, -, hrest⟩ := bind_eq_ok hread
        exact (ih hrest member hmem).imp_right fun hread =>
          ⟨List.mem_cons_of_mem _ hread.1, hread.2⟩
      · obtain ⟨held, hheld, hrest⟩ := bind_eq_ok hread
        rcases ih hrest member hmem with hother | hread
        · rcases List.mem_cons.mp hother with rfl | hother
          · exact .inr ⟨List.mem_cons_self, held, hheld⟩
          · exact .inl hother
        · exact .inr ⟨List.mem_cons_of_mem _ hread.1, hread.2⟩

/-- A message comes from a member, or is the one for a field that is missing. -/
theorem ofMembers_eq_ok {held : Option Outbound} {members : List (String × Node)}
    (h : ofMembers field held members = .ok message) :
    held = some message ∨ field.missing = some message ∨
      ∃ member ∈ members, field.decode .ofHeld member.2 = .ok message := by
  induction members generalizing held with
  | nil =>
      cases held with
      | some own => exact .inl (congrArg some (Except.ok.inj h))
      | none =>
          refine .inr (.inl ?_)
          cases hmissing : field.missing with
          | some own =>
              simp only [ofMembers, hmissing, require] at h
              exact congrArg some (Except.ok.inj h)
          | none =>
              simp only [ofMembers, hmissing, require] at h
              cases h
  | cons first rest ih =>
      obtain ⟨key, content⟩ := first
      rw [ofMembers] at h
      split at h
      · obtain ⟨next, hnext, h⟩ := bind_eq_ok h
        obtain ⟨hempty, own, hown, rfl⟩ := fill_eq_ok hnext
        rcases ih h with heq | hmissing | ⟨member, hmem, hread⟩
        · obtain rfl := Option.some.inj heq
          exact .inr (.inr ⟨_, List.mem_cons_self, hown⟩)
        · exact .inr (.inl hmissing)
        · exact .inr (.inr ⟨member, List.mem_cons_of_mem _ hmem, hread⟩)
      · rcases ih h with heq | hmissing | ⟨member, hmem, hread⟩
        · exact .inl heq
        · exact .inr (.inl hmissing)
        · exact .inr (.inr ⟨member, List.mem_cons_of_mem _ hmem, hread⟩)

theorem ofItems_eq_ok {items : List Node} (h : ofItems kind items = .ok message) :
    ∃ item ∈ items, kind.field.decode .ofHeld item = .ok message := by
  unfold ofItems at h
  split at h
  · cases h
  · exact ⟨_, List.mem_singleton_self _, h⟩
  · obtain ⟨own, -, h⟩ := bind_eq_ok h
    cases h

/-- Only the field of a pong gives a time, and only where it is not `null`. -/
theorem field_decode_eq_pong {time : Value}
    (h : kind.field.decode reading node = .ok (.pong (some time))) :
    node ≠ .null ∧ value reading node = .ok time := by
  cases kind with
  | subscribe | unsubscribe =>
      obtain ⟨channel, -, hmessage⟩ := map_eq_ok h
      cases hmessage
  | pong =>
      obtain ⟨found, hfound, hmessage⟩ := map_eq_ok h
      cases hmessage
      exact (eq_some_iff_of_optional hfound time).mp rfl

end Parts

/-- A time that has been read is the value of a node that is not `null`. -/
theorem exists_time {time : Value} (h : decode reading node = .ok (.pong (some time))) :
    ∃ inner content, reading.enter = .ok inner ∧ content ≠ .null ∧
      value inner content = .ok time ∧
      ∀ P, node.AllNumbers P → content.AllNumbers P := by
  unfold decode at h
  split at h
  · rename_i members ending
    obtain ⟨inner, hinner, h⟩ := bind_eq_ok h
    obtain ⟨⟨known, kept⟩, hkept, h⟩ := bind_eq_ok h
    obtain ⟨kind, -, h⟩ := bind_eq_ok h
    rcases ofMembers_eq_ok h with heq | hmissing | ⟨⟨key, content⟩, hmem, hread⟩
    · cases heq
    · cases kind <;> cases hmissing
    · obtain ⟨hne, htime⟩ := field_decode_eq_pong hread
      obtain ⟨hmember, held, hheld⟩ :=
        (readMembers_eq_ok hkept (key, content) hmem).resolve_left List.not_mem_nil
      obtain rfl := value_unique (Reading.admits_zero_of_enter hinner) (Reading.admits_ofHeld 0)
        hheld htime
      refine ⟨inner, content, hinner, hne, hheld, fun P hnumbers => ?_⟩
      cases hnumbers with
      | object _ hmembers => exact hmembers _ hmember
  · rename_i nodes ending
    obtain ⟨inner, hinner, h⟩ := bind_eq_ok h
    split at h
    · split at h <;> cases h
    · rename_i first rest
      obtain ⟨kind, -, h⟩ := bind_eq_ok h
      obtain ⟨values, hvalues, h⟩ := bind_eq_ok h
      obtain ⟨content, hmem, hread⟩ := ofItems_eq_ok h
      obtain ⟨hne, htime⟩ := field_decode_eq_pong hread
      obtain ⟨held, hheld⟩ :=
        exists_forall₂_iff.mp ⟨values, (items_eq_ok_iff.mp hvalues).2⟩ content hmem
      obtain rfl := value_unique (Reading.admits_zero_of_enter hinner) (Reading.admits_ofHeld 0)
        hheld htime
      refine ⟨inner, content, hinner, hne, hheld, fun P hnumbers => ?_⟩
      cases hnumbers with
      | array _ hitems => exact hitems _ (List.mem_cons_of_mem _ hmem)
  · obtain ⟨found, -, h⟩ := bind_eq_ok h
    cases h

theorem exists_enter (h : decode reading node = .ok message) :
    ∃ inner, reading.enter = .ok inner := by
  unfold decode at h
  split at h
  · obtain ⟨inner, hinner, -⟩ := bind_eq_ok h
    exact ⟨inner, hinner⟩
  · obtain ⟨inner, hinner, -⟩ := bind_eq_ok h
    exact ⟨inner, hinner⟩
  · obtain ⟨found, -, h⟩ := bind_eq_ok h
    cases h

/-! ### Printed messages -/

/-- A time as it is read again: `null` is none. -/
def settled : Option Value → Option Value
  | some .null => none
  | time => time

theorem settled_of_ne_null {time : Value} (h : time ≠ .null) :
    settled (some time) = some time := by
  cases time <;> first | rfl | exact absurd rfl h

theorem ofName_name (kind : Kind) : Named.ofName (Named.name kind) = .ok kind := by
  cases kind <;> rfl

theorem field_name_ne_event (kind : Kind) : kind.field.name ≠ "event" := by
  cases kind <;> decide

/-- An object of a kind's name and its field is a message of this kind. -/
theorem decode_object (kind : Kind) {content : Value} (hinner : reading.enter = .ok inner)
    (hcontent : value inner (.ofValue content) = .ok content)
    (hfield : kind.field.decode .ofHeld (.ofValue content) = .ok message) :
    decode reading (.ofValue (.object
      [("event", .string (Named.name kind)), (kind.field.name, content)])) = .ok message := by
  simp only [Node.ofValue, Node.ofMembers, decode, hinner]
  simp [readMembers, orBroken, fill, decodeKind, ofName_name, field_name_ne_event, hcontent,
    Ending.readFault?, require, ofMembers, hfield, bind, Except.bind, Except.map]

theorem optional_value_ofOption {time : Option Value}
    (h : ∀ own, time = some own → own.Ordered ∧ reading.Admits own.levels) :
    optional value reading (.ofValue (.ofOption id time)) = .ok (settled time) := by
  cases time with
  | none => rfl
  | some own =>
      by_cases hnull : own = .null
      · rw [hnull]
        rfl
      · rw [settled_of_ne_null hnull, Value.ofOption, id, optional_ofValue hnull,
          value_ofValue (h own rfl).1 (h own rfl).2]
        rfl

theorem decode_pong {time : Option Value} (hinner : reading.enter = .ok inner)
    (h : ∀ own, time = some own → own.Ordered ∧ inner.Admits own.levels) :
    decode reading (.ofValue (Outbound.pong time).toValue) = .ok (.pong (settled time)) := by
  refine decode_object .pong hinner ?_ ?_
  · cases time with
    | none => rfl
    | some own => exact value_ofValue (h own rfl).1 (h own rfl).2
  · have hheld : optional value .ofHeld (.ofValue (.ofOption id time)) = .ok (settled time) :=
      optional_value_ofOption fun own hown => ⟨(h own hown).1, Reading.admits_ofHeld _⟩
    simp only [Kind.field, hheld]
    rfl

/-- A message is read again from its printed form where its time is not `null`. -/
theorem decode_toValue (hinner : reading.enter = .ok inner)
    (h : ∀ time, message = .pong (some time) →
      time ≠ .null ∧ time.Ordered ∧ inner.Admits time.levels) :
    decode reading (.ofValue message.toValue) = .ok message := by
  have hzero := Reading.admits_zero_of_enter hinner
  cases message with
  | subscribe channel =>
      exact decode_object .subscribe hinner (value_ofValue (.string channel) hzero) rfl
  | unsubscribe channel =>
      exact decode_object .unsubscribe hinner (value_ofValue (.string channel) hzero) rfl
  | pong time =>
      rw [decode_pong hinner]
      · cases time with
        | none => rfl
        | some own => rw [settled_of_ne_null (h own rfl).1]
      · rintro own rfl
        exact (h own rfl).2

/-- The parts of a message that are free: the time of a pong. -/
def HasNoReal (message : Outbound) : Prop :=
  ∀ time, message = .pong (some time) → time.HasNoReal

theorem holdsWhole_toValue (h : ∀ time, message = .pong (some time) → time.HoldsWhole) :
    message.toValue.HoldsWhole := by
  cases message with
  | subscribe channel | unsubscribe channel => simp [toValue, Value.HoldsWhole]
  | pong time =>
      have htime : (Value.ofOption id time).HoldsWhole :=
        Value.holdsWhole_ofOption fun own hown => h own (by rw [hown])
      refine .object ?_
      simp only [List.forall_mem_cons]
      exact ⟨.string _, htime, nofun⟩

theorem restores_decode (reading : Reading) : Restores reading decode toValue HasNoReal where
  reread h := by
    obtain ⟨inner, hinner⟩ := exists_enter h
    refine decode_toValue hinner ?_
    rintro time rfl
    obtain ⟨own, content, hown, hne, htime, -⟩ := exists_time h
    obtain rfl : own = inner := Except.ok.inj (hown.symm.trans hinner)
    have hzero := Reading.admits_zero_of_enter hown
    exact ⟨(restores_value hzero).ne_null htime hne, (hasValue_of_value hzero htime).ordered,
      admits_of_value hzero htime⟩
  ne_null {node a} h hne := by cases a <;> nofun
  holdsWhole h hfits hfree := by
    refine holdsWhole_toValue ?_
    rintro time rfl
    obtain ⟨inner, content, hinner, -, htime, hnumbers⟩ := exists_time h
    exact (restores_value (Reading.admits_zero_of_enter hinner)).holdsWhole htime
      (hnumbers _ hfits) (hfree time rfl)

end SpotWire.Outbound
