import SpotWire.Proofs.Stream.Capacity
import SpotWire.Proofs.Stream.Generations

/-!
# How a reader stops

A reader closes its connection when nothing is queued and nothing can be queued any more. What has
been accepted is written then, and stays so, as nothing is accepted later. A reader that stops with
messages in its queue has an excuse: its peer, a write that failed, or a receiver that was dropped.
A reader that neither stops nor can do anything is blocked: it waits for somebody to receive.
-/

namespace SpotWire.Stream

/-- Everything accepted has been written, among the answers to all pings, and at most a close frame
after it. -/
def WrittenInFull (history : History) : Prop :=
  ∃ body closing, history.written = body ++ closing ∧ (closing = [] ∨ closing = [.close]) ∧
    Interleaving (history.accepted.map Frame.ofMessage)
      (history.reads.replies.map Frame.ofMessage) body

/-- What ends a reader although messages may be queued. -/
inductive Excuse (stream : Stream) (place : Nat) : Action → Prop where
  | peerClosed (canWrite : Bool) : Excuse stream place (.arrive place (.frame .close) canWrite)
  | peerGone (canWrite : Bool) : Excuse stream place (.arrive place .ended canWrite)
  | readFailed (reason : String) (canWrite : Bool) :
      Excuse stream place (.arrive place (.failure reason) canWrite)
  | writeFailed {connection : Connection} (hat : stream.connections[place]? = some connection)
      (hqueue : connection.queue ≠ []) : Excuse stream place (.flush place false)
  | answerFailed {frame : Frame} {message : Inbound} (hmessage : frame.message? = some message)
      (hreply : message.pongReply?.isSome = true) :
      Excuse stream place (.arrive place (.frame frame) false)
  | receiverGone {connection : Connection} {message : Inbound}
      (hat : stream.connections[place]? = some connection)
      (hholding : connection.phase = .holding message) (hreceiver : stream.isReceiverOpen = false) :
      Excuse stream place (.handOn place)

def Excused (config : Config) (place : Nat) (actions : List Action) : Prop :=
  ∃ earlier action later middle sofar, actions = earlier ++ action :: later ∧
    (Stream.ofConfig config).run? earlier = some (middle, sofar) ∧ Excuse middle place action

theorem Excused.append {config : Config} {place : Nat} {actions : List Action}
    (h : Excused config place actions) (more : List Action) :
    Excused config place (actions ++ more) := by
  obtain ⟨earlier, action, later, middle, sofar, rfl, hrun, hexcuse⟩ := h
  exact ⟨earlier, action, later ++ more, middle, sofar, by simp, hrun, hexcuse⟩

/-! ### Senders -/

section Senders

variable {stream next : Stream} {action : Action} {effects : List Effect} {place : Nat}
  {before after : Connection}

theorem hasSenders_eq_false_iff : stream.hasSenders place = false ↔
    (∀ slot, stream.slot = some slot → slot.connection ≠ place) ∧
      ∀ sending ∈ stream.sendings, sending.connection ≠ place := by
  simp [hasSenders, Option.any_eq_false]

/-- Once nobody can queue messages for a reader, nobody can again and no message is accepted. -/
theorem Happening.deserted (h : stream.Happening action next effects)
    (hat : stream.connections[place]? = some before) (hdeserted : stream.hasSenders place = false) :
    next.hasSenders place = false ∧ (historyAt place [action] effects).accepted = [] := by
  have hlt : place < stream.connections.length := (List.getElem?_eq_some_iff.mp hat).1
  rw [hasSenders_eq_false_iff] at hdeserted ⊢
  obtain ⟨hslot, hsendings⟩ := hdeserted
  cases h with
  | opens =>
      refine ⟨⟨?_, hsendings⟩, rfl⟩
      rintro slot ⟨⟩
      exact Nat.ne_of_gt hlt
  | disconnects => exact ⟨⟨by simp [disconnect], hsendings⟩, rfl⟩
  | accepts hsending _ _ =>
      have hother := hsendings _ (List.mem_of_getElem? hsending)
      refine ⟨⟨hslot, fun other hother => hsendings other (List.mem_of_mem_eraseIdx hother)⟩, ?_⟩
      rw [historyAt_accepted, if_neg hother]
      rfl
  | flushes => exact ⟨⟨hslot, hsendings⟩, by rw [historyAt_apply]⟩
  | arrives => exact ⟨⟨hslot, hsendings⟩, by rw [historyAt_apply]⟩
  | handsOn => exact ⟨⟨hslot, hsendings⟩, by rw [historyAt_apply]⟩
  | finishes =>
      refine ⟨⟨fun slot hnext => hslot slot ?_, hsendings⟩, rfl⟩
      simp only at hnext
      split at hnext
      · cases hnext
      · exact hnext
  | @stands _ _ events _ hread hkeep _ _ hnext =>
      rw [historyAt_logged place action events (hread place), hkeep]
      refine ⟨⟨hslot, fun sending hmem => ?_⟩, rfl⟩
      rcases hnext sending hmem with hold | ⟨slot, hslot', heq⟩
      · exact hsendings sending hold
      · rw [heq]
        exact hslot slot hslot'

/-- A reader that stops closes its connection, or has an excuse. -/
theorem Happening.departs (h : stream.Happening action next effects)
    (hbefore : stream.connections[place]? = some before) (hrunning : before.hasStopped = false)
    (hafter : next.connections[place]? = some after) (hstopped : after.hasStopped = true) :
    (before.queue = [] ∧ stream.hasSenders place = false ∧
      ∃ canWrite : Bool, action = .flush place canWrite ∧
        historyAt place [action] effects = ⟨[], [], if canWrite then [.close] else [], []⟩) ∨
      Excuse stream place action := by
  have hdistinct : before.hasStopped ≠ after.hasStopped := by simp [hrunning, hstopped]
  have hchanged : after ≠ before := by
    rintro rfl
    exact hdistinct rfl
  cases h.alteration hbefore hafter hchanged with
  | accepts => exact absurd rfl hdistinct
  | @flushes canWrite turn hturn =>
      rcases flush?_cases hturn with ⟨message, rest, -, -, rfl⟩ |
        ⟨message, rest, hqueue, rfl, rfl⟩ | ⟨hqueue, hsenders, rfl⟩
      · exact absurd rfl hdistinct
      · exact .inr (.writeFailed hbefore (by simp [hqueue]))
      · refine .inl ⟨hqueue, hsenders, canWrite, rfl, ?_⟩
        rw [historyAt_apply]
        cases canWrite <;> simp [Action.read?, Connection.close, Connection.idle]
  | @arrives arrival canWrite turn hturn =>
      refine .inr ?_
      have hmove := move_of_arrive true hturn
      generalize turn.connection = left, turn.written.toList = written,
        turn.delivered.toList = delivered at hmove hstopped
      cases hmove with
      | closes => exact .peerClosed canWrite
      | loses reason => exact .readFailed reason canWrite
      | ends => exact .peerGone canWrite
      | passes => exact absurd (hrunning.symm.trans hstopped) Bool.false_ne_true
      | takes => exact absurd hstopped Bool.false_ne_true
      | fails _ hmessage hreply => exact .answerFailed hmessage (by simp [hreply])
  | handsOn hturn =>
      obtain ⟨message, hholding, ⟨-, -, rfl⟩ | ⟨hreceiver, -⟩⟩ := handOn?_cases hturn
      · exact absurd hstopped Bool.false_ne_true
      · exact .inr (.receiverGone hbefore hholding hreceiver)
  | finishes hleaving => simp [Connection.hasStopped, hleaving] at hrunning

end Senders

/-! ### Runs -/

/-- How a reader stands after a run: it runs, or has closed its connection with everything written,
or has had an excuse. -/
inductive Standing (config : Config) (place : Nat) (actions : List Action) (stream : Stream)
    (connection : Connection) (history : History) : Prop where
  | running (hrunning : connection.hasStopped = false) (hsettled : Settled connection history)
  | done (hstopped : connection.hasStopped = true) (hdeserted : stream.hasSenders place = false)
      (hfull : WrittenInFull history)
  | excused (hstopped : connection.hasStopped = true) (hexcused : Excused config place actions)

section Runs

variable {config : Config} {place : Nat} {earlier actions : List Action}
  {stream middle next last : Stream} {action : Action} {sofar effects : List Effect}
  {before after connection : Connection} {history : History}

theorem standing_of_running (hrun : (Stream.ofConfig config).run? earlier = some (middle, sofar))
    (h : middle.Happening action next effects) (hbefore : middle.connections[place]? = some before)
    (hafter : next.connections[place]? = some after)
    (hmove : Move middle.isReceiverOpen before after (historyAt place [action] effects))
    (hrunning : before.hasStopped = false) (hsettled : Settled before history) :
    Standing config place (earlier ++ [action]) next after
      (history ++ historyAt place [action] effects) := by
  cases hstays : after.hasStopped with
  | false => exact .running hstays ((Account.move_of_settled hmove hrunning hsettled).settled hstays)
  | true =>
      rcases h.departs hbefore hrunning hafter hstays with
        ⟨hqueue, hsenders, canWrite, rfl, hhistory⟩ | hexcuse
      · refine .done hstays (h.deserted hbefore hsenders).1 ?_
        obtain ⟨sent, haccepted, hbody⟩ := hsettled.written
        rw [hqueue, List.append_nil] at haccepted
        subst haccepted
        rw [hhistory]
        refine ⟨history.written, if canWrite then [.close] else [], by simp, ?_,
          by simpa using hbody⟩
        cases canWrite with
        | true => exact .inr rfl
        | false => exact .inl rfl
      · exact .excused hstays ⟨earlier, action, [], middle, sofar, rfl, hrun, hexcuse⟩

theorem Standing.step (hrun : (Stream.ofConfig config).run? earlier = some (middle, sofar))
    (h : middle.Happening action next effects) (hbefore : middle.connections[place]? = some before)
    (hafter : next.connections[place]? = some after)
    (hmove : Move middle.isReceiverOpen before after (historyAt place [action] effects))
    (hstanding : Standing config place earlier middle before history) :
    Standing config place (earlier ++ [action]) next after
      (history ++ historyAt place [action] effects) := by
  cases hstanding with
  | running hrunning hsettled =>
      exact standing_of_running hrun h hbefore hafter hmove hrunning hsettled
  | done hstopped hdeserted hfull =>
      -- nobody is left to queue a message, so nothing is added to what has been written in full
      obtain ⟨hstopped', messages, hhistory⟩ := hmove.stopped hstopped
      obtain ⟨hdeserted', hnone⟩ := h.deserted hbefore hdeserted
      rw [hhistory] at hnone ⊢
      obtain rfl : messages = [] := hnone
      have hsame : history ++ ⟨[], [], [], []⟩ = history := History.append_empty history
      rw [hsame]
      exact .done hstopped' hdeserted' hfull
  | excused hstopped hexcused =>
      exact .excused (hmove.stopped hstopped).1 (hexcused.append [action])

end Runs

/-! ### Emptying a queue -/

section Flushes

variable {stream : Stream} {place : Nat} {connection : Connection}

end Flushes

/-! ### Closing -/

section Closing

variable {stream next : Stream} {place : Nat} {connection after : Connection}
  {effects : List Effect} {canWrite : Bool}

end Closing

section Excuses

variable {stream next last : Stream} {place : Nat} {action : Action} {actions : List Action}
  {effects : List Effect} {connection after : Connection}

/-- What a reader reads as an excuse stops it. -/
theorem hasStopped_of_arrive {arrival : Arrival} {canWrite : Bool} {turn : Turn}
    (hturn : connection.arrive? arrival canWrite = some turn)
    (h : Excuse stream place (.arrive place arrival canWrite)) :
    turn.connection.hasStopped = true := by
  have hmove := move_of_arrive true hturn
  generalize turn.connection = left, turn.written.toList = written,
    turn.delivered.toList = delivered at hmove ⊢
  cases hmove with
  | closes | loses | ends | fails => rfl
  | passes _ _ hclose hmessage =>
      cases h with
      | peerClosed => exact absurd rfl hclose
      | answerFailed hother => cases hmessage.symm.trans hother
  | takes _ _ hmessage hwrite =>
      cases h with
      | peerClosed => cases hmessage
      | answerFailed hother hreply =>
          obtain rfl := Option.some.inj (hmessage.symm.trans hother)
          cases hwrite hreply

/-- A reader stops for its excuse. -/
theorem Excuse.stops (h : Excuse stream place action)
    (hstep : stream.step? action = some (next, effects)) :
    ∃ after, next.connections[place]? = some after ∧ after.hasStopped = true := by
  have hturned : ∀ {connection : Connection} {turn : Turn},
      stream.connections[place]? = some connection →
      stream.apply place turn = (next, effects) → turn.connection.hasStopped = true →
      ∃ after, next.connections[place]? = some after ∧ after.hasStopped = true := by
    intro connection turn hat happly hstopped
    have hlt : place < stream.connections.length := (List.getElem?_eq_some_iff.mp hat).1
    obtain ⟨rfl, rfl⟩ := Prod.ext_iff.mp happly
    exact ⟨turn.connection, by simp [apply, hlt], hstopped⟩
  have hexcuse := h
  cases h with
  | peerClosed | peerGone | readFailed | answerFailed =>
      obtain ⟨connection, turn, hat, hturn, happly⟩ := step?_arrive_eq_some_iff.mp hstep
      exact hturned hat happly (hasStopped_of_arrive hturn hexcuse)
  | writeFailed hat hqueue =>
      obtain ⟨connection, turn, hfound, hturn, happly⟩ := step?_flush_eq_some_iff.mp hstep
      obtain rfl := Option.some.inj (hfound.symm.trans hat)
      refine hturned hat happly ?_
      obtain ⟨_, _, -, hwrite, -⟩ | ⟨_, _, -, -, rfl⟩ | ⟨hempty, -⟩ := flush?_cases hturn
      · cases hwrite
      · rfl
      · exact absurd hempty hqueue
  | receiverGone hat hholding hreceiver =>
      obtain ⟨connection, turn, hfound, hturn, happly⟩ := step?_handOn_eq_some_iff.mp hstep
      refine hturned hfound happly ?_
      obtain ⟨_, -, ⟨hopen, -⟩ | ⟨-, rfl⟩⟩ := handOn?_cases hturn
      · cases hreceiver.symm.trans hopen
      · rfl

/-- A reader that has stopped does not run again. -/
theorem hasStopped_of_run (hrun : stream.run? actions = some (last, effects))
    (h : ∃ connection, stream.connections[place]? = some connection ∧
      connection.hasStopped = true) :
    ∃ connection, last.connections[place]? = some connection ∧ connection.hasStopped = true := by
  refine run?_induction (motive := fun stream => ∃ connection,
    stream.connections[place]? = some connection ∧ connection.hasStopped = true) ?_ hrun h
  rintro before after action more h ⟨connection, hat, hstopped⟩
  obtain ⟨moved, hmoved, hmove⟩ := h.move hat
  exact ⟨moved, hmoved, (hmove.stopped hstopped).1⟩

theorem Excused.hasStopped {config : Config} (h : Excused config place actions)
    (hrun : (Stream.ofConfig config).run? actions = some (last, effects)) :
    ∃ connection, last.connections[place]? = some connection ∧ connection.hasStopped = true := by
  obtain ⟨earlier, action, later, middle, sofar, rfl, hearlier, hexcuse⟩ := h
  obtain ⟨found, _, _, hfound, hrest, -⟩ := run?_append_eq_some_iff.mp hrun
  obtain ⟨rfl, rfl⟩ := Prod.ext_iff.mp (Option.some.inj (hfound.symm.trans hearlier))
  obtain ⟨next, _, _, hstep, hlater, -⟩ := run?_cons_eq_some_iff.mp hrest
  exact hasStopped_of_run hlater (hexcuse.stops hstep)

end Excuses

end SpotWire.Stream
