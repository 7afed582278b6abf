import SpotWire.Proofs.Message.Inbound
import SpotWire.Proofs.Message.Outbound

/-!
# Pings and their answers

A message is answered if and only if its event is a ping, with the time that it carries. The answer
is read as a pong with this time.
-/

namespace SpotWire.Inbound

open Json Wire

variable {content : Value}

theorem isSome_ping_iff : (ofValue content).ping.isSome ↔ (ofValue content).kind = some .ping := by
  rw [ping_eq_ite]
  split <;> simp [*]

theorem isPing_iff : (ofValue content).isPing = true ↔ (ofValue content).kind = some .ping := by
  rw [isPing, beq_iff_eq]

theorem kind_of_isSome_payload (h : (ofValue content).payload.isSome) :
    (ofValue content).kind = some .data := by
  simp only [ofValue] at h
  split at h
  · assumption
  · cases h

theorem pongReply?_of_kind (h : (ofValue content).kind = some .ping) :
    (ofValue content).pongReply? = some (.pong (content.member? "time")) := by
  rw [pongReply?, ping_eq_ite, if_pos h]
  rfl

/-- A member of a value that a program holds is such a value, with the numbers of the whole. -/
theorem wellFormed_of_member? {key : String} {member : Value} (h : content.WellFormed)
    (hmember : content.member? key = some member) :
    member.WellFormed ∧ (content.HasNoReal → member.HasNoReal) := by
  obtain ⟨members, rfl, hfind⟩ := member?_eq_some_iff.mp hmember
  obtain ⟨hfits, hordered⟩ := h
  cases hordered with
  | object hkeys hordered =>
      have hmem := (Members.find?_eq_some_iff hkeys).mp hfind
      exact ⟨⟨Value.allNumbers_object.mp hfits _ hmem, hordered _ hmem⟩,
        fun hreal => Value.allNumbers_object.mp hreal _ hmem⟩

/-- The answer to a ping is read as a pong with the time of the ping. -/
theorem ofText_pong {time : Option Value}
    (h : ∀ own, time = some own →
      own.WellFormed ∧ own.HasNoReal ∧ own.levels + 1 < Reading.documentDepth) :
    Wire.ofText Outbound.decode (Outbound.pong time).text =
      .ok (.pong (Outbound.settled time)) := by
  rw [Outbound.text, ofText_text Outbound.decode]
  · refine Outbound.decode_pong rfl fun own hown => ?_
    obtain ⟨hwell, -, hlevels⟩ := h own hown
    refine ⟨hwell.ordered, ?_⟩
    rintro depth ⟨⟩
    omega
  · refine Outbound.holdsWhole_toValue ?_
    rintro own heq
    obtain ⟨hwell, hreal, -⟩ := h own (Outbound.pong.inj heq)
    exact hwell.fits.holdsWhole hreal

/-- **Pings.** A message is answered if and only if it is an object whose event is a ping. Its other
members are kept as they came, and the answer is a pong with the time of the ping, as which it is
also read. -/
theorem ping_is_answered (hcontent : content.WellFormed) :
    ((ofValue content).ping.isSome ↔ (ofValue content).kind = some .ping) ∧
      ((ofValue content).kind = some .ping ↔
        ∃ members, content = .object members ∧
          Members.find? "event" members = some (.string "ping")) ∧
      ((ofValue content).payload.isSome → (ofValue content).kind = some .data) ∧
      ((ofValue content).kind = none ↔
        ∀ name ∈ ["ping", "subscribed", "unsubscribed", "payload"],
          content.member? "event" ≠ some (.string name)) ∧
      ((ofValue content).event = content.member? "event" ∧
        (ofValue content).data = content.member? "data" ∧
        (ofValue content).timestamp = content.member? "timestamp" ∧
        ∀ channel, (ofValue content).channel = some channel ↔
          content.member? "channel" = some (.string channel)) ∧
      ((ofValue content).pongReply?.isSome ↔ (ofValue content).isPing = true) ∧
      ∀ reply, (ofValue content).pongReply? = some reply →
        reply.text = (Value.object [("event", .string "pong"),
          ("time", (content.member? "time").getD .null)]).text ∧
        ((∀ time, content.member? "time" = some time →
            time.HasNoReal ∧ time.levels + 1 < Reading.documentDepth) →
          Wire.ofText Outbound.decode reply.text =
            .ok (.pong (Outbound.settled (content.member? "time")))) := by
  refine ⟨isSome_ping_iff, kind_eq_ping_iff.trans member?_eq_some_iff, kind_of_isSome_payload,
    kind_eq_none_iff, ⟨rfl, rfl, rfl, fun channel => string?_eq_some_iff⟩, ?_, ?_⟩
  · rw [isPing_iff, ← isSome_ping_iff, pongReply?, Option.isSome_map]
  · intro reply hreply
    have hkind : (ofValue content).kind = some .ping := by
      rw [← isSome_ping_iff, ← Option.isSome_map, ← pongReply?, hreply]
      rfl
    rw [pongReply?_of_kind hkind] at hreply
    obtain rfl := Option.some.inj hreply
    refine ⟨?_, fun h => ofText_pong fun time htime => ?_⟩
    · cases content.member? "time" <;> rfl
    · exact ⟨(wellFormed_of_member? hcontent htime).1, h time htime⟩

/-- A ping with a time that is itself an object. -/
def nestedPing : Value :=
  .object [("event", .string "ping"), ("time", .object [("at", .number (.integer 7))])]

theorem wellFormed_nestedPing : nestedPing.WellFormed where
  fits := by
    have hfits : Number.Whole 7 := by decide
    simp [nestedPing, Number.Fits, hfits]
  ordered := by
    refine .object ?_ ?_
    · unfold Members.Ordered
      decide
    · simp only [List.forall_mem_cons]
      refine ⟨.string _, .object (List.pairwise_singleton _ _) ?_, nofun⟩
      simp [Value.Ordered.number]

/-- The time goes back as it came. -/
theorem answer_of_nestedPing :
    ∃ reply, (ofValue nestedPing).pongReply? = some reply ∧
      Wire.ofText Outbound.decode reply.text =
        .ok (.pong (some (.object [("at", .number (.integer 7))]))) := by
  obtain ⟨-, -, -, -, -, -, hreply⟩ := ping_is_answered wellFormed_nestedPing
  refine ⟨_, rfl, (hreply _ rfl).2 ?_⟩
  rintro time ⟨⟩
  exact ⟨by simp [Value.HasNoReal, Number.IsInteger], by decide⟩

end SpotWire.Inbound
