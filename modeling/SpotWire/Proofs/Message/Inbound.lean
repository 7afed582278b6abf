import SpotWire.Message.Outbound

/-!
# Messages that are received

A message is classified by its member `event`, if that is one of four texts. It is answered if it
is a ping.
-/

namespace SpotWire

open Json

namespace MessageKind

/-- The texts that name an event. -/
def eventNames : List String :=
  ["ping", "subscribed", "unsubscribed", "payload"]

theorem ofEvent?_eq_ping_iff {event : String} :
    MessageKind.ofEvent? event = some .ping ↔ event = "ping" := by
  constructor
  · intro h
    unfold ofEvent? at h
    split at h
    · assumption
    split at h
    · cases h
    split at h
    · cases h
    split at h <;> cases h
  · rintro rfl
    rfl

theorem ofEvent?_eq_none_iff {event : String} : ofEvent? event = none ↔ event ∉ eventNames := by
  unfold ofEvent? eventNames
  repeat' split
  all_goals simp [*]

end MessageKind

namespace Inbound

variable {content : Value}

theorem member?_eq_some_iff {key : String} {value : Value} :
    content.member? key = some value ↔
      ∃ members, content = .object members ∧ Members.find? key members = some value := by
  cases content <;> simp [Value.member?]

theorem string?_eq_some_iff {key text : String} :
    (content.member? key).bind Value.string? = some text ↔
      content.member? key = some (.string text) := by
  cases content.member? key with
  | none => simp
  | some value => cases value <;> simp [Value.string?]

theorem kind_eq_bind (content : Value) :
    (ofValue content).kind =
      ((content.member? "event").bind Value.string?).bind MessageKind.ofEvent? :=
  rfl

theorem kind_eq_ping_iff :
    (ofValue content).kind = some .ping ↔ content.member? "event" = some (.string "ping") := by
  rw [kind_eq_bind, Option.bind_eq_some_iff]
  simp only [string?_eq_some_iff, MessageKind.ofEvent?_eq_ping_iff, exists_eq_right]

theorem kind_eq_none_iff :
    (ofValue content).kind = none ↔
      ∀ name ∈ MessageKind.eventNames, content.member? "event" ≠ some (.string name) := by
  rw [kind_eq_bind, Option.bind_eq_none_iff]
  simp only [string?_eq_some_iff, MessageKind.ofEvent?_eq_none_iff]
  exact ⟨fun h name hmem hevent => h name hevent hmem, fun h name hevent hmem => h name hmem hevent⟩

theorem ping_eq_ite (content : Value) :
    (ofValue content).ping =
      if (ofValue content).kind = some .ping then some ⟨content.member? "time"⟩ else none :=
  rfl

/-- The answer to a value sends the time of a ping back. -/
theorem pongReply?_ofValue (content : Value) :
    (ofValue content).pongReply? =
      if (content.member? "event").bind Value.string? = some "ping" then
        some (.pong (content.member? "time"))
      else none := by
  have hkind : (ofValue content).kind = some .ping ↔
      (content.member? "event").bind Value.string? = some "ping" :=
    kind_eq_ping_iff.trans string?_eq_some_iff.symm
  rw [pongReply?, ping_eq_ite]
  by_cases hping : (content.member? "event").bind Value.string? = some "ping"
  · rw [if_pos hping, if_pos (hkind.mpr hping)]
    rfl
  · rw [if_neg hping, if_neg (mt hkind.mp hping)]
    rfl

end Inbound

end SpotWire
