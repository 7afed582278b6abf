import SpotWire.Proofs.Message.Ping

/-!
# Received messages, printed and read again

A message is printed with its classification, and read again as the same message, except that a
`null` which was there as a value is read as none (`decode_toValue`). The text is the same for
both, and so is all that a program asks of a message (`message_is_restored`).
-/

namespace SpotWire.Inbound

open Json Wire

variable {reading inner : Reading} {message : Inbound} {content : Value}

/-! ### Messages as they are read again -/

/-- A message as it is read again: each of its free parts that is `null` is none. -/
def settled (message : Inbound) : Inbound :=
  { message with
    event := Outbound.settled message.event
    data := Outbound.settled message.data
    timestamp := Outbound.settled message.timestamp
    ping := message.ping.map fun ping => ⟨Outbound.settled ping.time⟩ }

theorem ofOption_settled (part : Option Value) :
    Value.ofOption id (Outbound.settled part) = Value.ofOption id part := by
  cases part with
  | none => rfl
  | some own => cases own <;> rfl

theorem toValue_settled (message : Inbound) : message.settled.toValue = message.toValue := by
  obtain ⟨event, channel, data, timestamp, kind, payload, ping⟩ := message
  simp only [toValue, settled, ofOption_settled, Option.map_map, Function.comp_def, Ping.toValue]

/-- The parts of a message that are any values. -/
def freeParts (message : Inbound) : List Value :=
  message.event.toList ++ message.data.toList ++ message.timestamp.toList ++
    (message.ping.bind Ping.time).toList

/-! ### Reading the members -/

theorem ofName_kind (kind : MessageKind) : Named.ofName (Named.name kind) = .ok kind := by
  cases kind <;> rfl

theorem ofName_payload (payload : PayloadKind) :
    Named.ofName (Named.name payload) = .ok payload := by
  cases payload <;> rfl

theorem decode_ping {ping : Ping} (hadmits : reading.Admits ping.toValue.levels)
    (hordered : ∀ time, ping.time = some time → time.Ordered) :
    Ping.decode reading (.ofValue ping.toValue) = .ok ⟨Outbound.settled ping.time⟩ := by
  obtain ⟨inner, hinner, hmembers⟩ := hadmits.enter_object
  have htime : Ping.Draft.setTime inner ⟨none⟩ (.ofValue (.ofOption id ping.time)) =
      .ok ⟨some (Outbound.settled ping.time)⟩ := by
    have hread : optional value inner (.ofValue (.ofOption id ping.time)) =
        .ok (Outbound.settled ping.time) := by
      refine Outbound.optional_value_ofOption fun own hown => ⟨hordered own hown, ?_⟩
      have hadmits := hmembers _ List.mem_cons_self
      rwa [hown] at hadmits
    rw [Ping.Draft.setTime, fill, hread]
    rfl
  rw [Ping.decode, Ping.toValue, Shape.decode_ofValue_object hinner, fillMembers_cons rfl htime]
  rfl

/-- What is read of the parts of a printed message. -/
structure ReadsParts (reading : Reading) (message : Inbound) : Prop where
  event : optional value reading (.ofValue (.ofOption id message.event)) =
    .ok (Outbound.settled message.event)
  channel : optional string reading (.ofValue (.ofOption .string message.channel)) =
    .ok message.channel
  data : optional value reading (.ofValue (.ofOption id message.data)) =
    .ok (Outbound.settled message.data)
  timestamp : optional value reading (.ofValue (.ofOption id message.timestamp)) =
    .ok (Outbound.settled message.timestamp)
  kind : ∀ own, message.kind = some own →
    optional variant reading (.ofValue (.string (Named.name own))) = .ok (some own)
  payload : ∀ own, message.payload = some own →
    optional variant reading (.ofValue (.string (Named.name own))) = .ok (some own)
  ping : ∀ own, message.ping = some own →
    optional Ping.decode reading (.ofValue own.toValue) = .ok (some ⟨Outbound.settled own.time⟩)

theorem optional_variant {α : Type} [Named α] {a : α}
    (h : Named.ofName (Named.name a) = .ok a) (reading : Reading) :
    optional variant reading (.ofValue (.string (Named.name a))) = .ok (some a) := by
  have hne : Value.string (Named.name a) ≠ .null := nofun
  rw [optional_ofValue hne]
  exact congrArg (Except.map some) ((variant_string reading _).trans h)

theorem readsParts (hordered : ∀ part ∈ message.freeParts, part.Ordered)
    (hadmits : ∀ part ∈ message.freeParts, reading.Admits part.levels)
    (hping : ∀ ping, message.ping = some ping → reading.Admits ping.toValue.levels) :
    ReadsParts reading message := by
  have hfree : ∀ part : Option Value, (∀ own, part = some own → own ∈ message.freeParts) →
      optional value reading (.ofValue (.ofOption id part)) = .ok (Outbound.settled part) :=
    fun part hpart => Outbound.optional_value_ofOption fun own hown =>
      ⟨hordered own (hpart own hown), hadmits own (hpart own hown)⟩
  refine ⟨hfree _ fun own hown => ?_, ?_, hfree _ fun own hown => ?_, hfree _ fun own hown => ?_,
    fun own _ => optional_variant (ofName_kind own) reading,
    fun own _ => optional_variant (ofName_payload own) reading, fun own hown => ?_⟩
  · simp [freeParts, hown]
  · exact optional_ofOption fun text _ => ⟨nofun, string_ofValue reading text⟩
  · simp [freeParts, hown]
  · simp [freeParts, hown]
  · have hne : own.toValue ≠ .null := nofun
    have htime : ∀ time, own.time = some time → time.Ordered := by
      intro time htime
      exact hordered time (by simp [freeParts, hown, htime])
    rw [optional_ofValue hne, decode_ping (hping own hown) htime]
    rfl

theorem join_map_some {α : Type} (part : Option α) : (part.map some).join = part := by
  cases part <;> rfl

theorem decode_of_readsParts (hinner : reading.enter = .ok inner) (h : ReadsParts inner message) :
    decode reading (.ofValue message.toValue) = .ok message.settled := by
  have hevent : ∀ draft : Draft, draft.event = none →
      Draft.setEvent inner draft (.ofValue (.ofOption id message.event)) =
        .ok { draft with event := some (Outbound.settled message.event) } := by
    intro draft hnone
    rw [Draft.setEvent, hnone, fill, h.event]
    rfl
  have hchannel : ∀ draft : Draft, draft.channel = none →
      Draft.setChannel inner draft (.ofValue (.ofOption .string message.channel)) =
        .ok { draft with channel := some message.channel } := by
    intro draft hnone
    rw [Draft.setChannel, hnone, fill, h.channel]
    rfl
  have hdata : ∀ draft : Draft, draft.data = none →
      Draft.setData inner draft (.ofValue (.ofOption id message.data)) =
        .ok { draft with data := some (Outbound.settled message.data) } := by
    intro draft hnone
    rw [Draft.setData, hnone, fill, h.data]
    rfl
  have htimestamp : ∀ draft : Draft, draft.timestamp = none →
      Draft.setTimestamp inner draft (.ofValue (.ofOption id message.timestamp)) =
        .ok { draft with timestamp := some (Outbound.settled message.timestamp) } := by
    intro draft hnone
    rw [Draft.setTimestamp, hnone, fill, h.timestamp]
    rfl
  have hkind : ∀ draft : Draft, draft.kind = none → ∀ own, message.kind = some own →
      Draft.setKind inner draft (.ofValue (.string (Named.name own))) =
        .ok { draft with kind := message.kind.map some } := by
    intro draft hnone own hown
    rw [Draft.setKind, hnone, fill, h.kind own hown, hown]
    rfl
  have hpayload : ∀ draft : Draft, draft.payload = none → ∀ own, message.payload = some own →
      Draft.setPayload inner draft (.ofValue (.string (Named.name own))) =
        .ok { draft with payload := message.payload.map some } := by
    intro draft hnone own hown
    rw [Draft.setPayload, hnone, fill, h.payload own hown, hown]
    rfl
  have hping : ∀ draft : Draft, draft.ping = none → ∀ own, message.ping = some own →
      Draft.setPing inner draft (.ofValue own.toValue) =
        .ok { draft with ping := message.settled.ping.map some } := by
    intro draft hnone own hown
    rw [Draft.setPing, hnone, fill, h.ping own hown, settled, hown]
    rfl
  have hmembers := List.append_nil (message.ping.map fun ping => ("ping_data", ping.toValue)).toList
  rw [decode, toValue, Shape.decode_ofValue_object hinner, List.append_assoc, List.append_assoc,
    ← hmembers]
  simp only [List.cons_append, List.nil_append]
  rw [fillMembers_cons rfl (hevent _ rfl), fillMembers_cons rfl (hchannel _ rfl),
    fillMembers_cons rfl (hdata _ rfl), fillMembers_cons rfl (htimestamp _ rfl),
    fillMembers_append_toList rfl (fun hnone => by rw [hnone]; rfl) (hkind _ rfl),
    fillMembers_append_toList rfl (fun hnone => by rw [hnone]; rfl) (hpayload _ rfl),
    fillMembers_append_toList rfl (fun hnone => by rw [settled, hnone]; rfl) (hping _ rfl)]
  refine congrArg Except.ok ?_
  simp only [Draft.toInbound, join_map_some, Option.join_some]
  rfl

/-! ### Reading the text -/

theorem levels_ping_lt {ping : Ping} (h : message.ping = some ping) :
    ping.toValue.levels < message.toValue.levels := by
  have hmem : ("ping_data", ping.toValue) ∈
      (message.ping.map fun ping => ("ping_data", ping.toValue)).toList := by
    rw [h]
    exact List.mem_singleton_self _
  exact Node.levels_lt_object (List.mem_append_right _ hmem)

/-- The free parts of a message stand inside its printed form. -/
theorem levels_lt_of_mem_freeParts {part : Value} (h : part ∈ message.freeParts) :
    part.levels < message.toValue.levels := by
  have hfixed : ∀ (key : String) (own : Option Value), own = some part →
      (key, Value.ofOption id own) ∈ [("event_type", Value.ofOption id message.event),
        ("channel", .ofOption .string message.channel), ("data", .ofOption id message.data),
        ("timestamp", .ofOption id message.timestamp)] →
      part.levels < message.toValue.levels := by
    rintro key _ rfl hmem
    exact Node.levels_lt_object (List.mem_append_left _ (List.mem_append_left _
      (List.mem_append_left _ hmem)))
  simp only [freeParts, List.mem_append, Option.mem_toList] at h
  rcases h with ((hevent | hdata) | htimestamp) | htime
  · exact hfixed "event_type" _ hevent (by simp)
  · exact hfixed "data" _ hdata (by simp)
  · exact hfixed "timestamp" _ htimestamp (by simp)
  · obtain ⟨ping, hping, htime⟩ := Option.bind_eq_some_iff.mp htime
    have hmem : ("time", part) ∈ [("time", Value.ofOption id ping.time)] := by
      rw [htime]
      exact List.mem_singleton_self _
    exact Nat.lt_trans (Node.levels_lt_object hmem) (levels_ping_lt hping)

/-- A message is read again from its printed form, its free parts settled. -/
theorem decode_toValue (hadmits : reading.Admits message.toValue.levels)
    (hordered : ∀ part ∈ message.freeParts, part.Ordered) :
    decode reading (.ofValue message.toValue) = .ok message.settled := by
  have hpos : 0 < message.toValue.levels := Node.levels_object_pos _
  rw [← Nat.sub_add_cancel hpos] at hadmits
  obtain ⟨inner, hinner, hadmits⟩ := hadmits.enter
  refine decode_of_readsParts hinner
    (readsParts hordered (fun part hmem => ?_) fun ping hping => ?_)
  · exact hadmits.mono (Nat.le_pred_of_lt (levels_lt_of_mem_freeParts hmem))
  · exact hadmits.mono (Nat.le_pred_of_lt (levels_ping_lt hping))

theorem holdsWhole_toValue (h : ∀ part ∈ message.freeParts, part.HoldsWhole) :
    message.toValue.HoldsWhole := by
  have hfree : ∀ part : Option Value, (∀ own, part = some own → own ∈ message.freeParts) →
      (Value.ofOption id part).HoldsWhole :=
    fun part hpart => Value.holdsWhole_ofOption fun own hown => h own (hpart own hown)
  have hchannel : (Value.ofOption .string message.channel).HoldsWhole :=
    Value.holdsWhole_ofOption fun text _ => .string text
  have hping : ∀ ping, message.ping = some ping → ping.toValue.HoldsWhole := by
    intro ping hown
    refine .object ?_
    simp only [List.forall_mem_cons]
    exact ⟨hfree _ fun own htime => by simp [freeParts, hown, htime], nofun⟩
  refine .object ?_
  simp only [List.forall_mem_append, List.forall_mem_cons, Option.mem_toList,
    Option.map_eq_some_iff]
  refine ⟨⟨⟨⟨hfree _ fun own hown => by simp [freeParts, hown], hchannel,
    hfree _ fun own hown => by simp [freeParts, hown],
    hfree _ fun own hown => by simp [freeParts, hown], nofun⟩, ?_⟩, ?_⟩, ?_⟩
  · rintro _ ⟨kind, -, rfl⟩
    exact .string _
  · rintro _ ⟨payload, -, rfl⟩
    exact .string _
  · rintro _ ⟨ping, hown, rfl⟩
    exact hping ping hown

/-- A message is read from its own text, its free parts settled. -/
theorem ofText_toValue
    (hparts : ∀ part ∈ message.freeParts, part.WellFormed ∧ part.HasNoReal)
    (hlevels : message.toValue.levels < Reading.documentDepth) :
    Wire.ofText decode message.toValue.text = .ok message.settled := by
  have hwhole : message.toValue.HoldsWhole :=
    holdsWhole_toValue fun part hmem => (hparts part hmem).1.fits.holdsWhole (hparts part hmem).2
  rw [ofText_text decode hwhole]
  exact decode_toValue (Reading.admits_ofDocument hlevels) fun part hmem =>
    (hparts part hmem).1.ordered

/-! ### What is asked of a message -/

theorem eventName?_settled (message : Inbound) :
    message.settled.eventName? = message.eventName? := by
  cases hevent : message.event with
  | none => simp [eventName?, settled, hevent, Outbound.settled]
  | some own => cases own <;> simp [eventName?, settled, hevent, Outbound.settled, Value.string?]

theorem millis?_settled (message : Inbound) : message.settled.millis? = message.millis? := by
  cases htimestamp : message.timestamp with
  | none => simp [millis?, settled, htimestamp, Outbound.settled]
  | some own => cases own <;> simp [millis?, settled, htimestamp, Outbound.settled]

/-- The answer is printed alike. -/
theorem pongReply?_settled (message : Inbound) :
    message.settled.pongReply?.map Outbound.text = message.pongReply?.map Outbound.text := by
  have htext : ∀ time : Option Value,
      (Outbound.pong (Outbound.settled time)).text = (Outbound.pong time).text := by
    intro time
    rw [Outbound.text, Outbound.text, Outbound.toValue, Outbound.toValue, ofOption_settled]
  cases hping : message.ping with
  | none => simp [pongReply?, settled, hping]
  | some ping => simp [pongReply?, settled, hping, Outbound.ofPing, htext]

/-- The free parts of a message are members of the value that it was made from. -/
theorem wellFormed_of_mem_freeParts (hcontent : content.WellFormed) (hreal : content.HasNoReal)
    {part : Value} (h : part ∈ (ofValue content).freeParts) :
    part.WellFormed ∧ part.HasNoReal := by
  have hmember : ∀ key, content.member? key = some part → part.WellFormed ∧ part.HasNoReal :=
    fun key hkey => (wellFormed_of_member? hcontent hkey).imp_right fun h => h hreal
  simp only [freeParts, List.mem_append, Option.mem_toList] at h
  rcases h with ((hevent | hdata) | htimestamp) | htime
  · exact hmember "event" hevent
  · exact hmember "data" hdata
  · exact hmember "timestamp" htimestamp
  · obtain ⟨ping, hping, htime⟩ := Option.bind_eq_some_iff.mp htime
    rw [ping_eq_ite, Option.ite_none_right_eq_some] at hping
    obtain ⟨-, hping⟩ := hping
    cases hping
    exact hmember "time" htime

/-- **Messages are restored.** A message that has been made from a value is read again from its own
text, if this has no more levels than a text may have, as the same message but for its event, its
data, its timestamp and the time of its ping, where a `null` is none.

* The message that is read prints the very same text, and is read from it as it is.
* Both tell the same event, are pings alike, have the same time in milliseconds, and are answered
  with the same text. -/
theorem message_is_restored (hcontent : content.WellFormed) (hreal : content.HasNoReal)
    (hlevels : (ofValue content).toValue.levels < Reading.documentDepth) :
    ∃ read, Wire.ofText decode (ofValue content).toValue.text = .ok read ∧
      (read.event = Outbound.settled (content.member? "event") ∧
        read.data = Outbound.settled (content.member? "data") ∧
        read.timestamp = Outbound.settled (content.member? "timestamp") ∧
        read.ping = (ofValue content).ping.map fun ping => ⟨Outbound.settled ping.time⟩) ∧
      (read.channel = (ofValue content).channel ∧ read.kind = (ofValue content).kind ∧
        read.payload = (ofValue content).payload) ∧
      (read.toValue.text = (ofValue content).toValue.text ∧
        Wire.ofText decode read.toValue.text = .ok read) ∧
      read.eventName? = (ofValue content).eventName? ∧
      read.isPing = (ofValue content).isPing ∧
      read.millis? = (ofValue content).millis? ∧
      read.pongReply?.map Outbound.text = (ofValue content).pongReply?.map Outbound.text := by
  have hread := ofText_toValue (fun part => wellFormed_of_mem_freeParts hcontent hreal) hlevels
  refine ⟨_, hread, ⟨rfl, rfl, rfl, rfl⟩, ⟨rfl, rfl, rfl⟩, ?_, eventName?_settled _, rfl,
    millis?_settled _, pongReply?_settled _⟩
  rw [toValue_settled]
  exact ⟨rfl, hread⟩

/-- A ping whose time and data are `null`. -/
def emptyPing : Value :=
  .object [("data", .null), ("event", .string "ping"), ("time", .null), ("timestamp", .string "7")]

theorem wellFormed_emptyPing : emptyPing.WellFormed where
  fits := by simp [emptyPing]
  ordered := by
    refine .object ?_ ?_
    · unfold Members.Ordered
      decide
    · simp only [List.forall_mem_cons]
      exact ⟨.null, .string _, .null, .string _, nofun⟩

/-- What was `null` is none once it is read again, and the answer is the same. -/
theorem emptyPing_is_restored :
    ∃ read, Wire.ofText decode (ofValue emptyPing).toValue.text = .ok read ∧
      (ofValue emptyPing).data = some .null ∧ read.data = none ∧
      (ofValue emptyPing).ping = some ⟨some .null⟩ ∧ read.ping = some ⟨none⟩ ∧
      read.millis? = some 7 ∧
      read.pongReply?.map Outbound.text = some "\x7b\"event\":\"pong\",\"time\":null\x7d" := by
  have hreal : emptyPing.HasNoReal := by simp [emptyPing, Value.HasNoReal]
  have hlevels : (ofValue emptyPing).toValue.levels < Reading.documentDepth := by decide
  obtain ⟨read, hread, ⟨-, hdata, -, hping⟩, -, -, -, -, hmillis, hreply⟩ :=
    message_is_restored wellFormed_emptyPing hreal hlevels
  have hanswer : (ofValue emptyPing).pongReply?.map Outbound.text =
      some "\x7b\"event\":\"pong\",\"time\":null\x7d" := by decide
  have htime : (ofValue emptyPing).millis? = some 7 := by decide
  exact ⟨read, hread, rfl, hdata, rfl, hping, hmillis.trans htime, hreply.trans hanswer⟩

end SpotWire.Inbound
