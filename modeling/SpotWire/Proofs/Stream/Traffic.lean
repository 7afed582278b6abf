import SpotWire.Proofs.Stream.Frame
import SpotWire.Proofs.Stream.History

/-!
# Traffic of a connection

A reader takes from two sides, the queue of its connection and the peer, in any order. Until it
stops, everything that it has taken has gone where it belongs or is the message that it holds
(`Settled`). When it stops, at most what it took last is missing (`HandsOn`, `WritesOut`).
-/

namespace SpotWire.Stream

/-- The messages read have been handed on, in their order and once each, but for one that is held to
be handed on next. Only the very last one may be missing, where its answer could not be written or
nobody receives messages any more. -/
inductive HandsOn (receiverOpen : Bool) (held : Option Inbound) (reads : Reads)
    (delivered : List Inbound) : Prop where
  | all (hdelivered : delivered ++ held.toList = reads.messages)
  | allButLast (earlier : Reads) (frame : Frame) (canWrite : Bool) (message : Inbound)
      (hreads : reads = earlier ++ [(.frame frame, canWrite)])
      (hmessage : frame.message? = some message) (hheld : held = none)
      (hdelivered : delivered ++ [message] = reads.messages)
      (hcause : (message.pongReply?.isSome = true ∧ canWrite = false) ∨ receiverOpen = false)

/-- All pings read have been answered, in their order and once each. Only the answer to the very
last one may be missing, where it could not be written. -/
inductive Answers (reads : Reads) (replies : List Outbound) : Prop where
  | all (hreplies : replies = reads.replies)
  | allButLast (earlier : Reads) (frame : Frame) (message : Inbound) (reply : Outbound)
      (hreads : reads = earlier ++ [(.frame frame, false)])
      (hmessage : frame.message? = some message) (hreply : message.pongReply? = some reply)
      (hreplies : replies ++ [reply] = reads.replies)

/-- What has been written are the first of the accepted messages mixed with answers to pings, and
after them at most a close frame. -/
inductive WritesOut (reads : Reads) (accepted : List Outbound) (written : List Frame) : Prop where
  | intro (sent unsent replies : List Outbound) (body closing : List Frame)
      (haccepted : accepted = sent ++ unsent) (hanswers : Answers reads replies)
      (hbody : Interleaving (sent.map Frame.ofMessage) (replies.map Frame.ofMessage) body)
      (hwritten : written = body ++ closing) (hclosing : closing = [] ∨ closing = [.close])

/-- The message that is held is the one in the frame read last. -/
def IsLastRead (reads : Reads) (message : Inbound) : Prop :=
  ∃ earlier frame canWrite, reads = earlier ++ [(.frame frame, canWrite)] ∧
    frame.message? = some message

/-- Until a reader stops: every message read has been handed on, unless it is the last one and held,
and what has been written are the accepted messages that are not queued any more, mixed with the
answers to all pings. -/
structure Settled (connection : Connection) (history : History) : Prop where
  delivered : history.delivered ++ connection.held?.toList = history.reads.messages
  held : ∀ message, connection.held? = some message → IsLastRead history.reads message
  written : ∃ sent, history.accepted = sent ++ connection.queue ∧
    Interleaving (sent.map Frame.ofMessage) (history.reads.replies.map Frame.ofMessage)
      history.written

inductive Account (receiverOpen : Bool) (connection : Connection) (history : History) : Prop where
  | running (hrunning : connection.hasStopped = false) (hsettled : Settled connection history)
  | stopped (hstopped : connection.hasStopped = true)
      (hhands : HandsOn receiverOpen none history.reads history.delivered)
      (hwrites : WritesOut history.reads history.accepted history.written)

/-! ### One thing read -/

section Reads

variable {arrival : Arrival} {frame : Frame} {message : Inbound} {canWrite : Bool}

theorem messages_of_none (h : arrival.message? = none) :
    Reads.messages [(arrival, canWrite)] = [] := by
  simp [Reads.messages, h]

theorem messages_of_frame (h : frame.message? = some message) :
    Reads.messages [(.frame frame, canWrite)] = [message] := by
  simp [Reads.messages, Arrival.message?, h]

theorem replies_of_none (h : arrival.message? = none) :
    Reads.replies [(arrival, canWrite)] = [] := by
  simp [Reads.replies, messages_of_none h]

theorem replies_of_frame (h : frame.message? = some message) :
    Reads.replies [(.frame frame, canWrite)] = message.pongReply?.toList := by
  cases hreply : message.pongReply? <;> simp [Reads.replies, messages_of_frame h, hreply]

end Reads

namespace Settled

variable {connection : Connection} {history : History}

theorem of_serving (hserving : connection.phase = .serving)
    (hdelivered : history.delivered = history.reads.messages)
    (hwritten : ∃ sent, history.accepted = sent ++ connection.queue ∧
      Interleaving (sent.map Frame.ofMessage) (history.reads.replies.map Frame.ofMessage)
        history.written) : Settled connection history := by
  have hheld := connection.held?_of_serving hserving
  refine ⟨by simpa [hheld] using hdelivered, fun message h => ?_, hwritten⟩
  cases hheld.symm.trans h

theorem start (generation : UInt64) : Settled (.start generation) .empty :=
  .of_serving rfl rfl ⟨[], rfl, .nil⟩

theorem delivered_of_serving (h : Settled connection history)
    (hserving : connection.phase = .serving) : history.delivered = history.reads.messages := by
  simpa [connection.held?_of_serving hserving] using h.delivered

theorem accept (h : Settled connection history) (message : Outbound) :
    Settled (connection.accept message) (history ++ ⟨[], [message], [], []⟩) := by
  obtain ⟨sent, haccepted, hbody⟩ := h.written
  have hheld : (connection.accept message).held? = connection.held? := rfl
  refine ⟨by simpa [hheld] using h.delivered, by simpa [hheld] using h.held, sent, ?_, by simpa⟩
  simp [haccepted, Connection.accept]

theorem write {message : Outbound} {rest : List Outbound} (h : Settled connection history)
    (hserving : connection.phase = .serving) (hqueue : connection.queue = message :: rest) :
    Settled { connection with queue := rest } (history ++ ⟨[], [], [.ofMessage message], []⟩) := by
  obtain ⟨sent, haccepted, hbody⟩ := h.written
  refine .of_serving hserving (by simpa using h.delivered_of_serving hserving) ?_
  refine ⟨sent ++ [message], by simp [haccepted, hqueue], ?_⟩
  simpa using hbody.left (.ofMessage message)

theorem pass {arrival : Arrival} (canWrite : Bool) (h : Settled connection history)
    (hserving : connection.phase = .serving) (hmessage : arrival.message? = none) :
    Settled connection (history ++ ⟨[(arrival, canWrite)], [], [], []⟩) := by
  obtain ⟨sent, haccepted, hbody⟩ := h.written
  refine .of_serving hserving ?_ ⟨sent, by simp [haccepted], ?_⟩
  · simp [h.delivered_of_serving hserving, messages_of_none hmessage]
  · simpa [replies_of_none hmessage] using hbody

theorem take {frame : Frame} {message : Inbound} (canWrite : Bool) (h : Settled connection history)
    (hserving : connection.phase = .serving) (hmessage : frame.message? = some message) :
    Settled (connection.hold message) (history ++
      ⟨[(.frame frame, canWrite)], [], message.pongReply?.toList.map .ofMessage, []⟩) := by
  obtain ⟨sent, haccepted, hbody⟩ := h.written
  have hheld : (connection.hold message).held? = some message := rfl
  refine ⟨?_, ?_, sent, by simpa [Connection.hold] using haccepted, ?_⟩
  · simp [hheld, h.delivered_of_serving hserving, messages_of_frame hmessage]
  · intro other hother
    cases hheld.symm.trans hother
    exact ⟨history.reads, frame, canWrite, rfl, hmessage⟩
  · cases hreply : message.pongReply? with
    | none => simpa [replies_of_frame hmessage, hreply] using hbody
    | some reply =>
        simpa [replies_of_frame hmessage, hreply] using hbody.right (.ofMessage reply)

theorem deliver {message : Inbound} (h : Settled connection history)
    (hholding : connection.phase = .holding message) :
    Settled connection.serve (history ++ ⟨[], [], [], [message]⟩) := by
  obtain ⟨sent, haccepted, hbody⟩ := h.written
  have hdelivered := h.delivered
  rw [Connection.held?_eq_some_iff.mpr hholding] at hdelivered
  exact .of_serving rfl (by simpa using hdelivered)
    ⟨sent, by simpa [Connection.serve] using haccepted, by simpa using hbody⟩

theorem writesOut (h : Settled connection history) :
    WritesOut history.reads history.accepted history.written := by
  obtain ⟨sent, haccepted, hbody⟩ := h.written
  exact ⟨sent, connection.queue, history.reads.replies, history.written, [], haccepted, .all rfl,
    hbody, by simp, .inl rfl⟩

/-- A reader that stops with nothing in hand may say goodbye. -/
theorem writesOut_close (h : Settled connection history) (canWrite : Bool) :
    WritesOut history.reads history.accepted
      (history.written ++ if canWrite then [.close] else []) := by
  obtain ⟨sent, haccepted, hbody⟩ := h.written
  refine ⟨sent, connection.queue, history.reads.replies, history.written, _, haccepted, .all rfl,
    hbody, rfl, ?_⟩
  cases canWrite with
  | true => exact .inr rfl
  | false => exact .inl rfl

end Settled

namespace Account

variable {receiverOpen : Bool} {before after : Connection} {history later : History}

theorem start (generation : UInt64) : Account receiverOpen (.start generation) .empty :=
  .running rfl (.start generation)

theorem stopped_of_settled (h : Settled before history) (hserving : before.phase = .serving)
    (why : Departure) : Account receiverOpen (after.leave why) history :=
  .stopped rfl (.all (by simpa using h.delivered_of_serving hserving)) h.writesOut

theorem move_of_settled (hmove : Move receiverOpen before after later)
    (hrunning : before.hasStopped = false) (h : Settled before history) :
    Account receiverOpen after (history ++ later) := by
  cases hmove with
  | rests => exact .running hrunning (by simpa using h)
  | accepts message _ => exact .running hrunning (h.accept message)
  | writes hserving hqueue => exact .running hrunning (h.write hserving hqueue)
  | breaks hserving => exact stopped_of_settled (by simpa using h) hserving .writeFailed
  | drains canWrite hserving =>
      refine .stopped rfl (.all ?_) ?_
      · simpa using h.delivered_of_serving hserving
      · simpa using h.writesOut_close canWrite
  | closes canWrite hserving =>
      have hnext := h.pass canWrite hserving (show (Arrival.frame .close).message? = none from rfl)
      refine .stopped rfl (.all ?_) ?_
      · simpa using hnext.delivered_of_serving hserving
      · simpa using hnext.writesOut_close canWrite
  | loses reason canWrite hserving =>
      exact stopped_of_settled (h.pass canWrite hserving
        (show (Arrival.failure reason).message? = none from rfl)) hserving _
  | ends canWrite hserving =>
      exact stopped_of_settled (h.pass canWrite hserving
        (show Arrival.ended.message? = none from rfl)) hserving _
  | passes canWrite hserving _ hmessage =>
      exact .running hrunning (h.pass canWrite hserving hmessage)
  | takes canWrite hserving hmessage => exact .running rfl (h.take canWrite hserving hmessage)
  | @fails frame message reply hserving hmessage hreply =>
      -- the last message is neither answered nor handed on
      have hdelivered := h.delivered_of_serving hserving
      obtain ⟨sent, haccepted, hbody⟩ := h.written
      refine .stopped rfl ?_ ?_
      · refine .allButLast history.reads frame false message rfl hmessage rfl ?_
          (.inl ⟨by simp [hreply], rfl⟩)
        simp [hdelivered, messages_of_frame hmessage]
      · refine ⟨sent, before.queue, history.reads.replies, history.written, [], by simp [haccepted],
          ?_, hbody, by simp, .inl rfl⟩
        refine .allButLast history.reads frame message reply rfl hmessage hreply ?_
        simp [replies_of_frame hmessage, hreply]
  | delivers hholding => exact .running rfl (h.deliver hholding)
  | @strands message hholding hreceiver =>
      -- the message that was held is the last one read
      have hheld := Connection.held?_eq_some_iff.mpr hholding
      obtain ⟨earlier, frame, canWrite, hreads, hmessage⟩ := h.held message hheld
      have hdelivered := h.delivered
      rw [hheld] at hdelivered
      rw [History.append_empty]
      exact .stopped rfl (.allButLast earlier frame canWrite message hreads hmessage rfl hdelivered
        (.inr hreceiver)) h.writesOut
  | finishes hleaving => simp [Connection.hasStopped, hleaving] at hrunning

theorem move_of_stopped (hmove : Move receiverOpen before after later)
    (hstopped : before.hasStopped = true)
    (hhands : HandsOn receiverOpen none history.reads history.delivered)
    (hwrites : WritesOut history.reads history.accepted history.written) :
    Account receiverOpen after (history ++ later) := by
  obtain ⟨hstopped', messages, rfl⟩ := hmove.stopped hstopped
  obtain ⟨sent, unsent, replies, body, closing, haccepted, hanswers, hbody, hwritten, hclosing⟩ :=
    hwrites
  refine .stopped hstopped' (by simpa using hhands) ?_
  exact ⟨sent, unsent ++ messages, replies, body, closing, by simp [haccepted],
    by simpa using hanswers, hbody, by simp [hwritten], hclosing⟩

theorem move (h : Account receiverOpen before history)
    (hmove : Move receiverOpen before after later) :
    Account receiverOpen after (history ++ later) := by
  cases h with
  | running hrunning hsettled => exact move_of_settled hmove hrunning hsettled
  | stopped hstopped hhands hwrites => exact move_of_stopped hmove hstopped hhands hwrites

theorem mono {later : Bool} (h : Account receiverOpen before history)
    (hreceiver : later = true → receiverOpen = true) : Account later before history := by
  cases h with
  | running hrunning hsettled => exact .running hrunning hsettled
  | stopped hstopped hhands hwrites =>
      refine .stopped hstopped ?_ hwrites
      cases hhands with
      | all hdelivered => exact .all hdelivered
      | allButLast earlier frame canWrite message hreads hmessage hheld hdelivered hcause =>
          refine .allButLast earlier frame canWrite message hreads hmessage hheld hdelivered ?_
          rcases hcause with hunwritten | hgone
          · exact .inl hunwritten
          · refine .inr ?_
            by_contra hopen
            simp [hreceiver (by simpa using hopen)] at hgone

theorem held?_of_stopped (hstopped : before.hasStopped = true) : before.held? = none := by
  rw [Option.eq_none_iff_forall_ne_some]
  intro message hheld
  have hrunning := Connection.hasStopped_of_holding (Connection.held?_eq_some_iff.mp hheld)
  exact absurd hstopped (by simp [hrunning])

theorem handsOn (h : Account receiverOpen before history) :
    HandsOn receiverOpen before.held? history.reads history.delivered := by
  cases h with
  | running _ hsettled => exact .all hsettled.delivered
  | stopped hstopped hhands _ =>
      rw [held?_of_stopped hstopped]
      exact hhands

theorem writesOut (h : Account receiverOpen before history) :
    WritesOut history.reads history.accepted history.written := by
  cases h with
  | running _ hsettled => exact hsettled.writesOut
  | stopped _ _ hwrites => exact hwrites

theorem settled (h : Account receiverOpen before history) (hrunning : before.hasStopped = false) :
    Settled before history := by
  cases h with
  | running _ hsettled => exact hsettled
  | stopped hstopped => exact absurd (hrunning.symm.trans hstopped) Bool.false_ne_true

end Account

/-! ### Runs -/

section Runs

variable {config : Config} {actions : List Action} {stream last : Stream} {effects : List Effect}
  {place : Nat} {connection : Connection}

theorem account_of_run (hrun : (Stream.ofConfig config).run? actions = some (last, effects))
    (hat : last.connections[place]? = some connection) :
    Account last.isReceiverOpen connection (historyAt place actions effects) := by
  let motive := fun (_ : List Action) (stream : Stream) (connection : Connection)
    (history : History) => Account stream.isReceiverOpen connection history
  refine historyAt_induction (motive := motive) ?_ ?_ hrun hat
  · intro _ stream generation
    exact .start generation
  · intro _ middle next _ _ _ before after history _ h _ _ hmove haccount
    exact (haccount.move hmove).mono h.isReceiverOpen

theorem exists_turn_of_arrive (hserving : connection.phase = .serving) (arrival : Arrival)
    (canWrite : Bool) : ∃ turn, connection.arrive? arrival canWrite = some turn := by
  simp only [Connection.arrive?, Connection.isServing_iff.mpr hserving, Bool.not_true,
    Bool.false_eq_true, if_false]
  split
  · exact ⟨_, rfl⟩
  · exact ⟨_, rfl⟩
  · exact ⟨_, rfl⟩
  · split
    · exact ⟨_, rfl⟩
    · split <;> exact ⟨_, rfl⟩

/-- What carries no message leaves its connection as it is. -/
theorem turn_of_passed {turn : Turn} {frame : Frame} {canWrite : Bool}
    (hturn : connection.arrive? (.frame frame) canWrite = some turn)
    (hclose : frame ≠ .close) (hmessage : frame.message? = none) :
    turn.connection = connection ∧ turn.written.toList = [] ∧ turn.delivered.toList = [] := by
  have hmove := move_of_arrive true hturn
  generalize turn.connection = after, turn.written.toList = written,
    turn.delivered.toList = delivered at hmove
  cases hmove with
  | closes => exact absurd rfl hclose
  | passes => exact ⟨rfl, rfl, rfl⟩
  | takes _ _ hother | fails _ hother => simp [hmessage] at hother

theorem step?_of_passed (hat : stream.connections[place]? = some connection)
    (hserving : connection.phase = .serving) {frame : Frame} (hclose : frame ≠ .close)
    (hmessage : frame.message? = none) (canWrite : Bool) :
    ∃ next more, stream.step? (.arrive place (.frame frame) canWrite) = some (next, more) ∧
      next.connections[place]? = some connection ∧
      historyAt place [.arrive place (.frame frame) canWrite] more =
        ⟨[(.frame frame, canWrite)], [], [], []⟩ := by
  have hlt : place < stream.connections.length := (List.getElem?_eq_some_iff.mp hat).1
  obtain ⟨turn, hturn⟩ := exists_turn_of_arrive hserving (.frame frame) canWrite
  obtain ⟨hsame, hwritten, hdelivered⟩ := turn_of_passed hturn hclose hmessage
  refine ⟨(stream.apply place turn).1, (stream.apply place turn).2, step?_of_arrive hat hturn, ?_,
    ?_⟩
  · simp [apply, hlt, hsame]
  · rw [historyAt_apply, hwritten, hdelivered]
    simp [Action.read?]

/-- A reader that holds a message hands it on where there is room. -/
theorem step?_of_held (hat : stream.connections[place]? = some connection) {message : Inbound}
    (hholding : connection.phase = .holding message) (hreceiver : stream.isReceiverOpen = true)
    (hroom : stream.inbox.length < capacity) :
    ∃ next more, stream.step? (.handOn place) = some (next, more) ∧
      next.connections[place]? = some connection.serve ∧
      next.hasSenders place = stream.hasSenders place ∧
      historyAt place [.handOn place] more = ⟨[], [], [], [message]⟩ := by
  have hlt : place < stream.connections.length := (List.getElem?_eq_some_iff.mp hat).1
  let turn : Turn := { connection.serve.idle with delivered := some message }
  have hturn : connection.handOn? stream.isReceiverOpen stream.hasRoom = some turn := by
    simp [Connection.handOn?, hholding, hreceiver, hasRoom, hroom, turn]
  refine ⟨(stream.apply place turn).1, (stream.apply place turn).2, step?_of_handOn hat hturn, ?_,
    rfl, ?_⟩
  · simp [apply, hlt, turn, Connection.idle]
  · rw [historyAt_apply]
    simp [Action.read?, turn, Connection.idle]

end Runs

/-- **Traffic.** In every run, whatever a reader takes from its queue and from its peer and in
whatever order: the messages that it reads are handed on, and the messages that have been accepted
and the answers to pings are written, each in their order, once, and without a gap. Until the reader
stops, nothing is missing but the message read last, while that waits for room to be handed on; it
is handed on as soon as there is. What carries no message does nothing and does not end a reader.
Octets count as the text that they spell, and a message is answered if and only if it is a ping. A
run may end anywhere, so it may end with the last read: nobody received messages then already. -/
theorem traffic_is_kept (config : Config) (actions : List Action) (last : Stream)
    (effects : List Effect) (hrun : (Stream.ofConfig config).run? actions = some (last, effects))
    (place : Nat) (connection : Connection) (hat : last.connections[place]? = some connection) :
    (HandsOn last.isReceiverOpen connection.held? (historyAt place actions effects).reads
        (historyAt place actions effects).delivered ∧
      WritesOut (historyAt place actions effects).reads (historyAt place actions effects).accepted
        (historyAt place actions effects).written) ∧
    (connection.hasStopped = false → Settled connection (historyAt place actions effects)) ∧
    (connection.phase = .serving → ∀ frame canWrite, frame ≠ .close → frame.message? = none →
      ∃ next more, last.step? (.arrive place (.frame frame) canWrite) = some (next, more) ∧
        next.connections[place]? = some connection ∧
        historyAt place [.arrive place (.frame frame) canWrite] more =
          ⟨[(.frame frame, canWrite)], [], [], []⟩) ∧
    (∀ message, connection.phase = .holding message → last.isReceiverOpen = true →
      last.inbox.length < capacity →
        ∃ next more, last.step? (.handOn place) = some (next, more) ∧
          next.connections[place]? = some connection.serve ∧
          historyAt place [.handOn place] more = ⟨[], [], [], [message]⟩) ∧
    (Frame.ping.message? = none ∧ Frame.pong.message? = none ∧
      (∀ text : String,
        (Frame.binary (Text.octets text.toList)).message? = (Frame.text text).message?) ∧
      (∀ octets, (∀ text : String, octets ≠ Text.octets text.toList) →
        (Frame.binary octets).message? = none) ∧
      (∀ text problem, Wire.ofText Wire.value text = .error problem →
        (Frame.text text).message? = none) ∧
      ∀ text content, Wire.ofText Wire.value text = .ok content →
        (Frame.text text).message? = some (.ofValue content) ∧
        (Inbound.ofValue content).pongReply? =
          if (content.member? "event").bind Json.Value.string? = some "ping" then
            some (.pong (content.member? "time"))
          else none) := by
  have haccount := account_of_run hrun hat
  refine ⟨⟨haccount.handsOn, haccount.writesOut⟩, haccount.settled, ?_, ?_, rfl, rfl,
    Frame.message?_octets, fun _ => Frame.message?_of_no_text, fun _ _ => Frame.message?_of_error,
    ?_⟩
  · intro hserving frame canWrite hclose hmessage
    exact step?_of_passed hat hserving hclose hmessage canWrite
  · intro message hholding hreceiver hroom
    obtain ⟨next, more, hstep, hnext, -, hhistory⟩ := step?_of_held hat hholding hreceiver hroom
    exact ⟨next, more, hstep, hnext, hhistory⟩
  · intro text content hcontent
    exact ⟨Frame.message?_of_ok hcontent, Inbound.pongReply?_ofValue content⟩

/-- A caller asks for a feed, and the peer pings before the message is queued. -/
def pingAmongRequests : List Action :=
  [.connect .market true, .beginRequest .subscribe ⟨.account, none, ⟨none, none⟩⟩,
    .arrive 0 (.frame (.text "\x7b\"event\":\"ping\"\x7d")) true, .finishRequest 0, .handOn 0,
    .flush 0 true]

theorem traffic_of_pingAmongRequests :
    ∃ last effects connection,
      (Stream.ofConfig .standard).run? pingAmongRequests = some (last, effects) ∧
      last.connections[0]? = some connection ∧ connection.phase = .serving ∧
      Settled connection (historyAt 0 pingAmongRequests effects) := by
  have hserving : ((Stream.ofConfig .standard).run? pingAmongRequests).any
      (fun reached => reached.1.connections[0]?.any Connection.isServing) = true := by
    decide +kernel
  obtain ⟨⟨last, effects⟩, hrun, hlast⟩ := (Option.any_eq_true _ _).mp hserving
  obtain ⟨connection, hat, hphase⟩ := (Option.any_eq_true _ _).mp hlast
  have hphase := Connection.isServing_iff.mp hphase
  have htraffic := traffic_is_kept .standard pingAmongRequests last effects hrun 0 connection hat
  exact ⟨last, effects, connection, hrun, hat, hphase,
    htraffic.2.1 (Connection.hasStopped_of_serving hphase)⟩

end SpotWire.Stream
