import Mathlib.Data.List.Induction
import SpotWire.Stream.Session

/-!
# What passes through a connection

A run of a stream mixes the actions of all callers and readers. `historyAt` picks out what concerns
one connection: what its reader takes from the peer, what is accepted into its queue, what is
written, what is handed on. `Move` lists everything that can happen to a connection, each time with
the history that it adds, and `Happening` everything that an action can do to the stream. Both are
read off the operations once (`happening_of_step`, `Happening.move`); what is proved about runs
rests on them.
-/

namespace SpotWire.Stream

/-! ### Interleavings -/

/-- Two sequences put together into one, each kept in its own order. It grows at its end, as a
trace does. -/
inductive Interleaving {α : Type} : List α → List α → List α → Prop where
  | nil : Interleaving [] [] []
  | left {xs ys zs : List α} (x : α) (h : Interleaving xs ys zs) :
      Interleaving (xs ++ [x]) ys (zs ++ [x])
  | right {xs ys zs : List α} (y : α) (h : Interleaving xs ys zs) :
      Interleaving xs (ys ++ [y]) (zs ++ [y])

/-- What a reader takes from its peer in an action, and whether it can write then. -/
def Action.read? (place : Nat) : Action → Option (Arrival × Bool)
  | .arrive reader arrival canWrite => if reader = place then some (arrival, canWrite) else none
  | _ => none

def Effect.accepted? (place : Nat) : Effect → Option Outbound
  | .accepted connection message => if connection = place then some message else none
  | _ => none

def Effect.delivered? (place : Nat) : Effect → Option Inbound
  | .delivered connection message => if connection = place then some message else none
  | _ => none

def Arrival.message? : Arrival → Option Inbound
  | .frame content => content.message?
  | _ => none

/-- What a reader has taken from its peer, each time with whether it could write then. -/
abbrev Reads := List (Arrival × Bool)

def Reads.messages (reads : Reads) : List Inbound :=
  reads.filterMap fun read => read.1.message?

/-- The answers to the pings in what has been read. -/
def Reads.replies (reads : Reads) : List Outbound :=
  reads.messages.filterMap Inbound.pongReply?

@[simp]
theorem Reads.messages_append (reads more : Reads) :
    Reads.messages (reads ++ more) = reads.messages ++ more.messages :=
  List.filterMap_append

@[simp]
theorem Reads.replies_append (reads more : Reads) :
    Reads.replies (reads ++ more) = reads.replies ++ more.replies := by
  simp [replies]

@[ext]
structure History where
  reads : Reads
  accepted : List Outbound
  written : List Frame
  delivered : List Inbound

namespace History

def empty : History := ⟨[], [], [], []⟩

instance : Append History where
  append earlier later :=
    ⟨earlier.reads ++ later.reads, earlier.accepted ++ later.accepted,
      earlier.written ++ later.written, earlier.delivered ++ later.delivered⟩

section Append

variable (earlier later : History)

@[simp]
theorem reads_append : (earlier ++ later).reads = earlier.reads ++ later.reads := rfl

@[simp]
theorem accepted_append : (earlier ++ later).accepted = earlier.accepted ++ later.accepted := rfl

@[simp]
theorem written_append : (earlier ++ later).written = earlier.written ++ later.written := rfl

@[simp]
theorem delivered_append :
    (earlier ++ later).delivered = earlier.delivered ++ later.delivered := rfl

@[simp]
theorem append_empty : earlier ++ History.empty = earlier := by
  ext1 <;> simp [empty]

end Append

end History

/-- The part of a run that concerns one connection. -/
def historyAt (place : Nat) (actions : List Action) (effects : List Effect) : History :=
  ⟨actions.filterMap (Action.read? place), effects.filterMap (Effect.accepted? place),
    effects.filterMap (Effect.frame? place), effects.filterMap (Effect.delivered? place)⟩

theorem historyAt_append (place : Nat) (actions more : List Action)
    (effects further : List Effect) :
    historyAt place (actions ++ more) (effects ++ further) =
      historyAt place actions effects ++ historyAt place more further := by
  simp only [historyAt, List.filterMap_append]
  rfl

/-! ### Phases -/

namespace Connection

variable {connection : Connection}

theorem isServing_iff : connection.isServing = true ↔ connection.phase = .serving := by
  unfold isServing
  cases connection.phase <;> simp

theorem held?_eq_some_iff {message : Inbound} :
    connection.held? = some message ↔ connection.phase = .holding message := by
  unfold held?
  cases connection.phase <;> simp

theorem held?_of_serving (h : connection.phase = .serving) : connection.held? = none := by
  rw [held?, h]

theorem hasStopped_of_serving (h : connection.phase = .serving) :
    connection.hasStopped = false := by
  rw [hasStopped, isLeaving, isFinished, h]
  rfl

theorem hasStopped_of_holding {message : Inbound} (h : connection.phase = .holding message) :
    connection.hasStopped = false := by
  rw [hasStopped, isLeaving, isFinished, h]
  rfl

theorem isFinished_of_running (h : connection.hasStopped = false) :
    connection.isFinished = false := by
  rw [hasStopped, Bool.or_eq_false_iff] at h
  exact h.2

end Connection

/-! ### What can happen to a connection -/

/-- One move of a connection: the connection before and after it, and what passes through. Only a
reader that has not stopped moves on its own account; a queue takes messages until its reader has
finished. -/
inductive Move (receiverOpen : Bool) : Connection → Connection → History → Prop where
  | rests (connection : Connection) : Move receiverOpen connection connection .empty
  | accepts {connection : Connection} (message : Outbound)
      (hopen : connection.isFinished = false) :
      Move receiverOpen connection (connection.accept message)
        ⟨[], [message], [], []⟩
  | writes {connection : Connection} {message : Outbound} {rest : List Outbound}
      (hserving : connection.phase = .serving) (hqueue : connection.queue = message :: rest) :
      Move receiverOpen connection { connection with queue := rest }
        ⟨[], [], [.ofMessage message], []⟩
  | breaks {connection : Connection} {message : Outbound} {rest : List Outbound}
      (hserving : connection.phase = .serving) (hqueue : connection.queue = message :: rest) :
      Move receiverOpen connection ({ connection with queue := rest }.leave .writeFailed) .empty
  | drains {connection : Connection} (canWrite : Bool)
      (hserving : connection.phase = .serving) (hqueue : connection.queue = []) :
      Move receiverOpen connection (connection.leave .drained)
        ⟨[], [], if canWrite then [.close] else [], []⟩
  | closes {connection : Connection} (canWrite : Bool) (hserving : connection.phase = .serving) :
      Move receiverOpen connection (connection.leave .peerClosed)
        ⟨[(.frame .close, canWrite)], [], if canWrite then [.close] else [], []⟩
  | loses {connection : Connection} (reason : String) (canWrite : Bool)
      (hserving : connection.phase = .serving) :
      Move receiverOpen connection (connection.leave .readFailed)
        ⟨[(.failure reason, canWrite)], [], [], []⟩
  | ends {connection : Connection} (canWrite : Bool) (hserving : connection.phase = .serving) :
      Move receiverOpen connection (connection.leave .peerGone)
        ⟨[(.ended, canWrite)], [], [], []⟩
  | passes {connection : Connection} {frame : Frame} (canWrite : Bool)
      (hserving : connection.phase = .serving) (hclose : frame ≠ .close)
      (hmessage : frame.message? = none) :
      Move receiverOpen connection connection
        ⟨[(.frame frame, canWrite)], [], [], []⟩
  | takes {connection : Connection} {frame : Frame} {message : Inbound} (canWrite : Bool)
      (hserving : connection.phase = .serving) (hmessage : frame.message? = some message)
      (hwrite : message.pongReply?.isSome → canWrite = true) :
      Move receiverOpen connection (connection.hold message)
        ⟨[(.frame frame, canWrite)], [], message.pongReply?.toList.map .ofMessage, []⟩
  | fails {connection : Connection} {frame : Frame} {message : Inbound} {reply : Outbound}
      (hserving : connection.phase = .serving) (hmessage : frame.message? = some message)
      (hreply : message.pongReply? = some reply) :
      Move receiverOpen connection (connection.leave .writeFailed)
        ⟨[(.frame frame, false)], [], [], []⟩
  | delivers {connection : Connection} {message : Inbound}
      (hholding : connection.phase = .holding message) (hreceiver : receiverOpen = true) :
      Move receiverOpen connection connection.serve ⟨[], [], [], [message]⟩
  | strands {connection : Connection} {message : Inbound}
      (hholding : connection.phase = .holding message) (hreceiver : receiverOpen = false) :
      Move receiverOpen connection (connection.leave .receiverGone) .empty
  | finishes {connection : Connection} (hleaving : connection.isLeaving = true) :
      Move receiverOpen connection connection.finish .empty

section Moves

variable {receiverOpen : Bool} {before after : Connection} {history : History}

theorem Move.generation_eq (h : Move receiverOpen before after history) :
    after.generation = before.generation := by
  cases h <;> rfl

theorem Move.isFinished_eq_false (h : Move receiverOpen before after history)
    (hrunning : before.hasStopped = false) : after.isFinished = false := by
  cases h with
  | finishes hleaving => simp [Connection.hasStopped, hleaving] at hrunning
  | rests | accepts | writes | passes => exact before.isFinished_of_running hrunning
  | _ => rfl

/-- A reader that has stopped does not serve again, and only its queue can still grow. -/
theorem Move.stopped (h : Move receiverOpen before after history)
    (hstopped : before.hasStopped = true) :
    after.hasStopped = true ∧ ∃ messages, history = ⟨[], messages, [], []⟩ := by
  cases h with
  | rests => exact ⟨hstopped, [], rfl⟩
  | accepts message => exact ⟨hstopped, [message], rfl⟩
  | finishes => exact ⟨rfl, [], rfl⟩
  | delivers hholding | strands hholding =>
      exact absurd hstopped (by simp [Connection.hasStopped_of_holding hholding])
  | writes hserving | breaks hserving | drains _ hserving | closes _ hserving | loses _ _ hserving
  | ends _ hserving | passes _ hserving | takes _ hserving | fails hserving =>
      exact absurd hstopped (by simp [Connection.hasStopped_of_serving hserving])

end Moves

section Turns

variable {connection : Connection} {turn : Turn} {hasSenders receiverOpen canWrite : Bool}

theorem serving_of_flush (h : connection.flush? hasSenders canWrite = some turn) :
    connection.phase = .serving := by
  by_contra hstopped
  rw [← Connection.isServing_iff] at hstopped
  simp [Connection.flush?, hstopped] at h

theorem serving_of_arrive {arrival : Arrival} (h : connection.arrive? arrival canWrite = some turn) :
    connection.phase = .serving := by
  by_contra hstopped
  rw [← Connection.isServing_iff] at hstopped
  simp [Connection.arrive?, hstopped] at h

/-- What a reader does with its queue: it writes the first message, or stops as that fails, or
closes the connection once nothing is queued and nothing more can be. -/
theorem flush?_cases (h : connection.flush? hasSenders canWrite = some turn) :
    (∃ message rest, connection.queue = message :: rest ∧ canWrite = true ∧
      turn = { { connection with queue := rest }.idle with written := some (.ofMessage message) }) ∨
    (∃ message rest, connection.queue = message :: rest ∧ canWrite = false ∧
      turn = ({ connection with queue := rest }.leave .writeFailed).idle) ∨
    (connection.queue = [] ∧ hasSenders = false ∧ turn = connection.close .drained canWrite) := by
  have hserving := serving_of_flush h
  simp only [Connection.flush?, Connection.isServing_iff.mpr hserving, Bool.not_true,
    Bool.false_eq_true, if_false] at h
  split at h
  · rename_i message rest hqueue
    cases canWrite with
    | true => exact .inl ⟨message, rest, hqueue, rfl, (Option.some.inj h).symm⟩
    | false => exact .inr (.inl ⟨message, rest, hqueue, rfl, (Option.some.inj h).symm⟩)
  · rename_i hqueue
    cases hasSenders with
    | true => cases h
    | false => exact .inr (.inr ⟨hqueue, rfl, (Option.some.inj h).symm⟩)

theorem move_of_flush (receiverOpen : Bool)
    (h : connection.flush? hasSenders canWrite = some turn) :
    Move receiverOpen connection turn.connection
      ⟨[], [], turn.written.toList, turn.delivered.toList⟩ := by
  have hserving := serving_of_flush h
  rcases flush?_cases h with ⟨message, rest, hqueue, rfl, rfl⟩ | ⟨message, rest, hqueue, rfl, rfl⟩ |
    ⟨hqueue, rfl, rfl⟩
  · exact .writes hserving hqueue
  · exact .breaks hserving hqueue
  · cases canWrite with
    | true => exact .drains true hserving hqueue
    | false => exact .drains false hserving hqueue

theorem message?_eq_none_of_text? {frame : Frame} (h : frame.text? = none) :
    frame.message? = none := by
  simp [Frame.message?, h]

theorem message?_of_text? {frame : Frame} {text : String} (h : frame.text? = some text) :
    frame.message? = (Inbound.ofText text).toOption := by
  simp [Frame.message?, h]

/-- What a reader does with a message: it answers first, then holds it. -/
theorem move_of_handle {frame : Frame} {message : Inbound}
    (hserving : connection.phase = .serving) (hmessage : frame.message? = some message) :
    Move receiverOpen connection (connection.handle message canWrite).connection
      ⟨[(.frame frame, canWrite)], [], (connection.handle message canWrite).written.toList,
        (connection.handle message canWrite).delivered.toList⟩ := by
  cases hreply : message.pongReply? with
  | none =>
      have hwrite : message.pongReply?.isSome → canWrite = true := by simp [hreply]
      simpa [Connection.handle, Connection.idle, hreply] using
        Move.takes canWrite hserving hmessage hwrite
  | some reply =>
      cases canWrite with
      | false => simpa [Connection.handle, Connection.idle, hreply] using
          Move.fails hserving hmessage hreply
      | true => simpa [Connection.handle, Connection.idle, hreply] using
          Move.takes true hserving hmessage fun _ => rfl

theorem move_of_arrive (receiverOpen : Bool) {arrival : Arrival}
    (h : connection.arrive? arrival canWrite = some turn) :
    Move receiverOpen connection turn.connection
      ⟨[(arrival, canWrite)], [], turn.written.toList, turn.delivered.toList⟩ := by
  have hserving := serving_of_arrive h
  simp only [Connection.arrive?, Connection.isServing_iff.mpr hserving, Bool.not_true,
    Bool.false_eq_true, if_false] at h
  split at h
  · rename_i reason
    cases h
    exact .loses reason canWrite hserving
  · cases h
    exact .ends canWrite hserving
  · cases h
    cases canWrite with
    | true => exact .closes true hserving
    | false => exact .closes false hserving
  · rename_i frame hclose
    split at h
    · rename_i htext
      cases h
      exact .passes canWrite hserving hclose (message?_eq_none_of_text? htext)
    · rename_i text htext
      split at h
      · rename_i problem hproblem
        cases h
        refine .passes canWrite hserving hclose ?_
        rw [message?_of_text? htext, hproblem]
        rfl
      · rename_i message hok
        cases h
        refine move_of_handle hserving ?_
        rw [message?_of_text? htext, hok]
        rfl

/-- What a reader does with the message that it holds: it hands it on if there is room, and leaves
if nobody receives messages any more. -/
theorem handOn?_cases {hasRoom : Bool} (h : connection.handOn? receiverOpen hasRoom = some turn) :
    ∃ message, connection.phase = .holding message ∧
      ((receiverOpen = true ∧ hasRoom = true ∧
          turn = { connection.serve.idle with delivered := some message }) ∨
        (receiverOpen = false ∧ turn = (connection.leave .receiverGone).idle)) := by
  unfold Connection.handOn? at h
  split at h
  · rename_i message hholding
    refine ⟨message, hholding, ?_⟩
    cases receiverOpen with
    | false => exact .inr ⟨rfl, (Option.some.inj h).symm⟩
    | true =>
        cases hasRoom with
        | false => cases h
        | true => exact .inl ⟨rfl, rfl, (Option.some.inj h).symm⟩
  · cases h

theorem move_of_handOn {hasRoom : Bool} (h : connection.handOn? receiverOpen hasRoom = some turn) :
    Move receiverOpen connection turn.connection
      ⟨[], [], turn.written.toList, turn.delivered.toList⟩ := by
  obtain ⟨message, hholding, ⟨hreceiver, -, rfl⟩ | ⟨hreceiver, rfl⟩⟩ := handOn?_cases h
  · exact .delivers hholding hreceiver
  · exact .strands hholding hreceiver

theorem running_of_handOn {hasRoom : Bool}
    (h : connection.handOn? receiverOpen hasRoom = some turn) : connection.hasStopped = false := by
  obtain ⟨message, hholding, -⟩ := handOn?_cases h
  exact Connection.hasStopped_of_holding hholding

end Turns

/-! ### What an action can do -/

/-- The generation that an action gives out: that of the connection it opens. -/
def generation? (stream : Stream) : Action → Option UInt64
  | .connect endpoint reached =>
      match (stream.connect endpoint reached).answer with
      | .ok _ => (stream.connect endpoint reached).stream.slot.map Slot.generation
      | .error _ => none
  | _ => none

/-- Everything that an action can do. What `stands` covers touches neither the slot nor any
connection, and takes delivered messages away only to receive them or to drop the receiver. -/
inductive Happening (stream : Stream) : Action → Stream → List Effect → Prop where
  | opens {endpoint : Endpoint} (hslot : stream.slot = none)
      (hgeneration : stream.generation? (.connect endpoint true) = some stream.nextGeneration) :
      Happening stream (.connect endpoint true)
        { stream with
          slot := some ⟨stream.nextGeneration, stream.connections.length⟩
          nextGeneration := stream.nextGeneration + 1
          connections := stream.connections ++ [.start stream.nextGeneration] }
        [.logged (connectedEvent (stream.url endpoint))]
  | disconnects : Happening stream .disconnect stream.disconnect []
  | accepts {place : Nat} {sending : Sending} {connection : Connection} {samples : Samples}
      {events : List LogEvent} (hsending : stream.sendings[place]? = some sending)
      (hat : stream.connections[sending.connection]? = some connection)
      (hopen : connection.isFinished = false) (hroom : connection.queue.length < capacity) :
      Happening stream (.finishRequest place)
        { stream with
          sendings := stream.sendings.eraseIdx place
          connections :=
            stream.connections.set sending.connection (connection.accept sending.message)
          samples }
        (.accepted sending.connection sending.message :: events.map .logged)
  | flushes {place : Nat} {canWrite : Bool} {connection : Connection} {turn : Turn}
      (hat : stream.connections[place]? = some connection)
      (hturn : connection.flush? (stream.hasSenders place) canWrite = some turn) :
      Happening stream (.flush place canWrite) (stream.apply place turn).1
        (stream.apply place turn).2
  | arrives {place : Nat} {arrival : Arrival} {canWrite : Bool} {connection : Connection}
      {turn : Turn} (hat : stream.connections[place]? = some connection)
      (hturn : connection.arrive? arrival canWrite = some turn) :
      Happening stream (.arrive place arrival canWrite) (stream.apply place turn).1
        (stream.apply place turn).2
  | handsOn {place : Nat} {connection : Connection} {turn : Turn}
      (hat : stream.connections[place]? = some connection)
      (hturn : connection.handOn? stream.isReceiverOpen stream.hasRoom = some turn) :
      Happening stream (.handOn place) (stream.apply place turn).1 (stream.apply place turn).2
  | finishes {place : Nat} {connection : Connection}
      (hat : stream.connections[place]? = some connection)
      (hleaving : connection.isLeaving = true) :
      Happening stream (.finish place)
        { stream with
          connections := stream.connections.set place connection.finish
          slot :=
            if stream.slot.any fun slot => slot.generation == connection.generation then none
            else stream.slot }
        [.logged (closedEvent connection.generation)]
  | stands {action : Action} {next : Stream} {events : List LogEvent}
      (hgeneration : stream.generation? action = none)
      (hread : ∀ place, action.read? place = none)
      (hslot : next.slot = stream.slot) (hnext : next.nextGeneration = stream.nextGeneration)
      (hconnections : next.connections = stream.connections)
      (hsendings : ∀ sending ∈ next.sendings, sending ∈ stream.sendings ∨
        ∃ slot, stream.slot = some slot ∧ sending.connection = slot.connection)
      (hreceiver : next.isReceiverOpen = true → stream.isReceiverOpen = true)
      (hinbox : next.inbox <:+ stream.inbox)
      (hkept : action ≠ .receive → action ≠ .dropReceiver →
        next.inbox = stream.inbox ∧ next.isReceiverOpen = stream.isReceiverOpen) :
      Happening stream action next (events.map .logged)

section Steps

variable {stream next : Stream} {effects : List Effect}

/-- An action that leaves the messages and the receiver alone, and neither the slot nor a
connection changes. -/
theorem happening_of_standing {action : Action} (hgeneration : stream.generation? action = none)
    (hread : ∀ place, action.read? place = none) (hslot : next.slot = stream.slot)
    (hnext : next.nextGeneration = stream.nextGeneration)
    (hconnections : next.connections = stream.connections)
    (hsendings : ∀ sending ∈ next.sendings, sending ∈ stream.sendings)
    (hinbox : next.inbox = stream.inbox)
    (hreceiver : next.isReceiverOpen = stream.isReceiverOpen) :
    Happening stream action next [] := by
  change Happening stream action next (([] : List LogEvent).map .logged)
  exact .stands hgeneration hread hslot hnext hconnections
    (fun sending h => .inl (hsendings sending h)) (fun h => hreceiver ▸ h)
    (hinbox ▸ List.suffix_rfl) fun _ _ => ⟨hinbox, hreceiver⟩

theorem connect_of_occupied {slot : Slot} (hslot : stream.slot = some slot) (endpoint : Endpoint)
    (reached : Bool) :
    stream.connect endpoint reached = ⟨stream, [], .error (.stream .alreadyConnected)⟩ := by
  simp [connect, isConnected, hslot]

theorem connect_of_unreached (hslot : stream.slot = none) (endpoint : Endpoint) :
    stream.connect endpoint false = ⟨stream, [], .error (.stream .transport)⟩ := by
  simp [connect, isConnected, hslot]

theorem happening_of_connect (endpoint : Endpoint) (reached : Bool) :
    Happening stream (.connect endpoint reached) (stream.connect endpoint reached).stream
      (stream.connect endpoint reached).effects := by
  cases hslot : stream.slot with
  | some slot =>
      have hoff := connect_of_occupied hslot endpoint reached
      rw [hoff]
      exact happening_of_standing (by simp [generation?, hoff]) (fun _ => rfl) rfl rfl rfl
        (fun _ h => h) rfl rfl
  | none =>
      cases reached with
      | false =>
          have hoff := connect_of_unreached hslot endpoint
          rw [hoff]
          exact happening_of_standing (by simp [generation?, hoff]) (fun _ => rfl) rfl rfl rfl
            (fun _ h => h) rfl rfl
      | true =>
          have hgeneration :
              stream.generation? (.connect endpoint true) = some stream.nextGeneration := by
            simp [generation?, connect, isConnected, hslot]
          simpa [connect, isConnected, hslot] using Happening.opens hslot hgeneration

theorem happening_of_beginRequest (change : Change) (subscription : Subscription) :
    Happening stream (.beginRequest change subscription)
      (stream.beginRequest change subscription).stream
      (stream.beginRequest change subscription).effects := by
  cases hchannel : Channel.ofFeed stream.symbolSuffix subscription.kind subscription.symbol
      subscription.params with
  | error fault =>
      simp only [beginRequest, hchannel]
      exact .stands rfl (fun _ => rfl) rfl rfl rfl (fun _ h => .inl h) id List.suffix_rfl
        fun _ _ => ⟨rfl, rfl⟩
  | ok channel =>
      cases hslot : stream.slot with
      | none =>
          simp only [beginRequest, hchannel, hslot]
          exact .stands rfl (fun _ => rfl) rfl rfl rfl (fun _ h => .inl h) id List.suffix_rfl
            fun _ _ => ⟨rfl, rfl⟩
      | some slot =>
          simp only [beginRequest, hchannel, hslot]
          refine .stands rfl (fun _ => rfl) hslot.symm rfl rfl ?_ id List.suffix_rfl
            fun _ _ => ⟨rfl, rfl⟩
          intro sending hsending
          rcases List.mem_append.mp hsending with hold | hnew
          · exact .inl hold
          · exact .inr ⟨slot, hslot, by rw [List.mem_singleton.mp hnew]⟩

theorem finishRequest?_eq_some_iff {place : Nat} {outcome : Outcome Unit} :
    stream.finishRequest? place = some outcome ↔
      ∃ sending, stream.sendings[place]? = some sending ∧ stream.mustWait sending = false ∧
        { stream with sendings := stream.sendings.eraseIdx place }.enqueue sending = outcome := by
  rw [finishRequest?, Option.bind_eq_bind, Option.bind_eq_some_iff]
  simp only [Option.ite_none_left_eq_some, Bool.not_eq_true, Option.some.injEq]

theorem happening_of_finishRequest {place : Nat} {outcome : Outcome Unit}
    (h : stream.finishRequest? place = some outcome) :
    Happening stream (.finishRequest place) outcome.stream outcome.effects := by
  obtain ⟨sending, hsending, hwait, rfl⟩ := finishRequest?_eq_some_iff.mp h
  have hrefused :
      Happening stream (.finishRequest place)
        { stream with sendings := stream.sendings.eraseIdx place } [] :=
    happening_of_standing rfl (fun _ => rfl) rfl rfl rfl
      (fun _ h => List.mem_of_mem_eraseIdx h) rfl rfl
  unfold enqueue
  split
  · exact hrefused
  · rename_i connection hat
    split
    · exact hrefused
    · rename_i hopen
      have hopen : connection.isFinished = false := by simpa using hopen
      have hroom : connection.queue.length < capacity := by
        simpa [mustWait, hat, Connection.isFull, hopen] using hwait
      exact .accepts hsending hat hopen hroom

theorem happening_of_finish {place : Nat} (h : stream.finish? place = some (next, effects)) :
    Happening stream (.finish place) next effects := by
  obtain ⟨connection, hat, hfinish⟩ := Option.bind_eq_some_iff.mp h
  split at hfinish
  · rename_i hleaving
    cases hfinish
    exact .finishes hat hleaving
  · cases hfinish

theorem happening_of_takeReceiver :
    Happening stream .takeReceiver stream.takeReceiver.2 [] := by
  unfold takeReceiver
  split
  · rename_i hkept
    have hopen : stream.isReceiverOpen = true := by rw [isReceiverOpen, hkept]; rfl
    exact happening_of_standing rfl (fun _ => rfl) rfl rfl rfl (fun _ h => h) rfl hopen.symm
  · exact happening_of_standing rfl (fun _ => rfl) rfl rfl rfl (fun _ h => h) rfl rfl

theorem happening_of_dropReceiver :
    Happening stream .dropReceiver stream.dropReceiver.2 [] := by
  have hstays : Happening stream .dropReceiver stream [] :=
    happening_of_standing rfl (fun _ => rfl) rfl rfl rfl (fun _ h => h) rfl rfl
  unfold dropReceiver
  split
  · change Happening stream .dropReceiver _ (([] : List LogEvent).map .logged)
    exact .stands rfl (fun _ => rfl) rfl rfl rfl (fun _ h => .inl h) (by simp [isReceiverOpen])
      List.nil_suffix fun _ hdrop => absurd rfl hdrop
  · exact hstays

theorem happening_of_receive : Happening stream .receive stream.receive.2 [] := by
  have hstays : Happening stream .receive stream [] :=
    happening_of_standing rfl (fun _ => rfl) rfl rfl rfl (fun _ h => h) rfl rfl
  unfold receive
  split
  · rename_i message rest _ hinbox
    change Happening stream .receive _ (([] : List LogEvent).map .logged)
    exact .stands rfl (fun _ => rfl) rfl rfl rfl (fun _ h => .inl h) id
      (hinbox ▸ List.suffix_cons message rest) fun hreceive => absurd rfl hreceive
  · exact hstays
  · exact hstays

section Readers

variable {reached : Stream × List Effect} {place : Nat}

theorem step?_flush_eq_some_iff {canWrite : Bool} :
    stream.step? (.flush place canWrite) = some reached ↔
      ∃ connection turn, stream.connections[place]? = some connection ∧
        connection.flush? (stream.hasSenders place) canWrite = some turn ∧
        stream.apply place turn = reached := by
  simp [step?, flush?, Option.bind_eq_some_iff]

theorem step?_arrive_eq_some_iff {arrival : Arrival} {canWrite : Bool} :
    stream.step? (.arrive place arrival canWrite) = some reached ↔
      ∃ connection turn, stream.connections[place]? = some connection ∧
        connection.arrive? arrival canWrite = some turn ∧
        stream.apply place turn = reached := by
  simp [step?, arrive?, Option.bind_eq_some_iff]

theorem step?_handOn_eq_some_iff :
    stream.step? (.handOn place) = some reached ↔
      ∃ connection turn, stream.connections[place]? = some connection ∧
        connection.handOn? stream.isReceiverOpen stream.hasRoom = some turn ∧
        stream.apply place turn = reached := by
  simp [step?, handOn?, Option.bind_eq_some_iff]

end Readers

theorem happening_of_step {action : Action} (h : stream.step? action = some (next, effects)) :
    Happening stream action next effects := by
  cases action with
  | connect endpoint reached =>
      cases h
      exact happening_of_connect endpoint reached
  | disconnect =>
      cases h
      exact .disconnects
  | beginRequest change subscription =>
      cases h
      exact happening_of_beginRequest change subscription
  | finishRequest place =>
      obtain ⟨outcome, houtcome, hseen⟩ := Option.map_eq_some_iff.mp h
      cases hseen
      exact happening_of_finishRequest houtcome
  | flush place canWrite =>
      obtain ⟨connection, turn, hat, hturn, happly⟩ := step?_flush_eq_some_iff.mp h
      cases happly
      exact .flushes hat hturn
  | arrive place arrival canWrite =>
      obtain ⟨connection, turn, hat, hturn, happly⟩ := step?_arrive_eq_some_iff.mp h
      cases happly
      exact .arrives hat hturn
  | handOn place =>
      obtain ⟨connection, turn, hat, hturn, happly⟩ := step?_handOn_eq_some_iff.mp h
      cases happly
      exact .handsOn hat hturn
  | finish place => exact happening_of_finish h
  | takeReceiver =>
      cases h
      exact happening_of_takeReceiver
  | dropReceiver =>
      cases h
      exact happening_of_dropReceiver
  | receive =>
      cases h
      exact happening_of_receive

end Steps

/-! ### What an action does to one connection -/

@[simp]
theorem filterMap_accepted?_logged (place : Nat) (events : List LogEvent) :
    (events.map .logged).filterMap (Effect.accepted? place) = [] := by
  simp [Function.comp_def, Effect.accepted?]

@[simp]
theorem filterMap_frame?_logged (place : Nat) (events : List LogEvent) :
    (events.map .logged).filterMap (Effect.frame? place) = [] := by
  simp [Function.comp_def, Effect.frame?]

@[simp]
theorem filterMap_delivered?_logged (place : Nat) (events : List LogEvent) :
    (events.map .logged).filterMap (Effect.delivered? place) = [] := by
  simp [Function.comp_def, Effect.delivered?]

theorem historyAt_logged (place : Nat) (action : Action) (events : List LogEvent)
    (hread : action.read? place = none) :
    historyAt place [action] (events.map .logged) = .empty := by
  rw [historyAt, filterMap_accepted?_logged, filterMap_frame?_logged, filterMap_delivered?_logged,
    List.filterMap_cons_none hread]
  rfl

theorem historyAt_apply (stream : Stream) (place reader : Nat) (action : Action) (turn : Turn) :
    historyAt place [action] (stream.apply reader turn).2 =
      ⟨(action.read? place).toList, [], if reader = place then turn.written.toList else [],
        if reader = place then turn.delivered.toList else []⟩ := by
  have hread : [action].filterMap (Action.read? place) = (action.read? place).toList := by
    cases h : action.read? place <;> simp [h]
  obtain ⟨connection, written, delivered, unreadable, events⟩ := turn
  by_cases heq : reader = place <;> cases written <;> cases delivered <;>
    simp only [historyAt, apply, hread, List.filterMap_append, filterMap_accepted?_logged,
      filterMap_frame?_logged, filterMap_delivered?_logged, Effect.accepted?, Effect.frame?,
      Effect.delivered?, Option.toList, List.map_nil, List.map_cons, List.filterMap_nil,
      List.filterMap_cons, heq, if_true, if_false, List.nil_append, List.append_nil]

theorem historyAt_accepted (place sender connection : Nat) (message : Outbound)
    (events : List LogEvent) :
    historyAt place [.finishRequest sender] (.accepted connection message :: events.map .logged) =
      if connection = place then ⟨[], [message], [], []⟩ else .empty := by
  by_cases heq : connection = place <;>
    simp [historyAt, History.empty, heq, Action.read?, Effect.accepted?, Effect.frame?,
      Effect.delivered?]

theorem step?_of_arrive {stream : Stream} {place : Nat} {connection : Connection} {turn : Turn}
    {arrival : Arrival} {canWrite : Bool} (hat : stream.connections[place]? = some connection)
    (hturn : connection.arrive? arrival canWrite = some turn) :
    stream.step? (.arrive place arrival canWrite) = some (stream.apply place turn) :=
  step?_arrive_eq_some_iff.mpr ⟨connection, turn, hat, hturn, rfl⟩

theorem step?_of_handOn {stream : Stream} {place : Nat} {connection : Connection} {turn : Turn}
    (hat : stream.connections[place]? = some connection)
    (hturn : connection.handOn? stream.isReceiverOpen stream.hasRoom = some turn) :
    stream.step? (.handOn place) = some (stream.apply place turn) :=
  step?_handOn_eq_some_iff.mpr ⟨connection, turn, hat, hturn, rfl⟩

section Moves

variable {stream next : Stream} {action : Action} {effects : List Effect} {place : Nat}
  {before : Connection}

/-- A turn of one reader moves its own connection and no other. -/
theorem move_of_apply {reader : Nat} {connection : Connection} {turn : Turn}
    (hreader : stream.connections[reader]? = some connection)
    (hother : reader ≠ place → action.read? place = none)
    (hmove : Move stream.isReceiverOpen connection turn.connection
      ⟨(action.read? reader).toList, [], turn.written.toList, turn.delivered.toList⟩)
    (hat : stream.connections[place]? = some before) :
    ∃ after, (stream.apply reader turn).1.connections[place]? = some after ∧
      Move stream.isReceiverOpen before after
        (historyAt place [action] (stream.apply reader turn).2) := by
  have hlt : place < stream.connections.length := (List.getElem?_eq_some_iff.mp hat).1
  rw [historyAt_apply]
  by_cases heq : reader = place
  · subst heq
    obtain rfl : before = connection := Option.some.inj (hat.symm.trans hreader)
    refine ⟨turn.connection, by simp [apply, hlt], ?_⟩
    simpa using hmove
  · refine ⟨before, by simp [apply, heq, hat], ?_⟩
    simpa [heq, hother heq, History.empty] using Move.rests before

/-- Every connection makes one move in every action. -/
theorem Happening.move (h : stream.Happening action next effects)
    (hat : stream.connections[place]? = some before) :
    ∃ after, next.connections[place]? = some after ∧
      Move stream.isReceiverOpen before after (historyAt place [action] effects) := by
  have hlt : place < stream.connections.length := (List.getElem?_eq_some_iff.mp hat).1
  cases h with
  | opens => exact ⟨before, by simp only [List.getElem?_append_left hlt, hat], .rests before⟩
  | disconnects => exact ⟨before, hat, .rests before⟩
  | @accepts sender sending connection samples events _ hconnection hopen _ =>
      rw [historyAt_accepted]
      by_cases heq : sending.connection = place
      · subst heq
        obtain rfl : before = connection := Option.some.inj (hat.symm.trans hconnection)
        refine ⟨before.accept sending.message, by simp [hlt], ?_⟩
        simpa using Move.accepts sending.message hopen
      · refine ⟨before, by simp [heq, hat], ?_⟩
        simpa [heq] using Move.rests before
  | @flushes reader canWrite connection turn hreader hturn =>
      exact move_of_apply hreader (fun _ => rfl) (move_of_flush _ hturn) hat
  | @arrives reader arrival canWrite connection turn hreader hturn =>
      refine move_of_apply hreader (fun hne => by simp [Action.read?, hne]) ?_ hat
      simpa [Action.read?] using move_of_arrive _ hturn
  | handsOn hreader hturn => exact move_of_apply hreader (fun _ => rfl) (move_of_handOn hturn) hat
  | @finishes reader connection hreader hleaving =>
      by_cases heq : reader = place
      · subst heq
        obtain rfl : before = connection := Option.some.inj (hat.symm.trans hreader)
        exact ⟨before.finish, by simp [hlt], .finishes hleaving⟩
      · exact ⟨before, by simp [heq, hat], .rests before⟩
  | @stands _ _ events _ hread _ _ hconnections =>
      rw [historyAt_logged place action events (hread place)]
      exact ⟨before, hconnections ▸ hat, .rests before⟩

theorem eq_of_getElem?_set {connections : List Connection} {reader : Nat}
    {replaced after : Connection} (hbefore : connections[place]? = some before)
    (hafter : (connections.set reader replaced)[place]? = some after) :
    (reader = place ∧ after = replaced) ∨ (reader ≠ place ∧ after = before) := by
  have hlt : place < connections.length := (List.getElem?_eq_some_iff.mp hbefore).1
  by_cases heq : reader = place
  · subst heq
    exact .inl ⟨rfl, by simpa [hlt] using hafter.symm⟩
  · exact .inr ⟨heq, by simpa [heq, hbefore] using hafter.symm⟩

/-- What alters a connection: a message for its queue, a turn of its reader, or its end. -/
inductive Alteration (stream : Stream) (place : Nat) (before : Connection) :
    Action → Connection → List Effect → Prop where
  | accepts {action : Action} {effects : List Effect} (message : Outbound) :
      Alteration stream place before action (before.accept message) effects
  | flushes {canWrite : Bool} {turn : Turn}
      (hturn : before.flush? (stream.hasSenders place) canWrite = some turn) :
      Alteration stream place before (.flush place canWrite) turn.connection
        (stream.apply place turn).2
  | arrives {arrival : Arrival} {canWrite : Bool} {turn : Turn}
      (hturn : before.arrive? arrival canWrite = some turn) :
      Alteration stream place before (.arrive place arrival canWrite) turn.connection
        (stream.apply place turn).2
  | handsOn {turn : Turn}
      (hturn : before.handOn? stream.isReceiverOpen stream.hasRoom = some turn) :
      Alteration stream place before (.handOn place) turn.connection (stream.apply place turn).2
  | finishes {effects : List Effect} (hleaving : before.isLeaving = true) :
      Alteration stream place before (.finish place) before.finish effects

theorem Happening.alteration (h : stream.Happening action next effects) {after : Connection}
    (hbefore : stream.connections[place]? = some before)
    (hafter : next.connections[place]? = some after) (hchanged : after ≠ before) :
    Alteration stream place before action after effects := by
  have hlt : place < stream.connections.length := (List.getElem?_eq_some_iff.mp hbefore).1
  cases h with
  | opens =>
      rw [List.getElem?_append_left hlt, hbefore] at hafter
      exact absurd (Option.some.inj hafter).symm hchanged
  | disconnects => exact absurd (Option.some.inj (hafter.symm.trans hbefore)) hchanged
  | @accepts _ sending _ _ _ _ hat =>
      rcases eq_of_getElem?_set hbefore hafter with ⟨rfl, rfl⟩ | ⟨-, rfl⟩
      · obtain rfl := Option.some.inj (hat.symm.trans hbefore)
        exact .accepts sending.message
      · exact absurd rfl hchanged
  | flushes hat hturn =>
      rcases eq_of_getElem?_set hbefore hafter with ⟨rfl, rfl⟩ | ⟨-, rfl⟩
      · obtain rfl := Option.some.inj (hat.symm.trans hbefore)
        exact .flushes hturn
      · exact absurd rfl hchanged
  | arrives hat hturn =>
      rcases eq_of_getElem?_set hbefore hafter with ⟨rfl, rfl⟩ | ⟨-, rfl⟩
      · obtain rfl := Option.some.inj (hat.symm.trans hbefore)
        exact .arrives hturn
      · exact absurd rfl hchanged
  | handsOn hat hturn =>
      rcases eq_of_getElem?_set hbefore hafter with ⟨rfl, rfl⟩ | ⟨-, rfl⟩
      · obtain rfl := Option.some.inj (hat.symm.trans hbefore)
        exact .handsOn hturn
      · exact absurd rfl hchanged
  | finishes hat hleaving =>
      rcases eq_of_getElem?_set hbefore hafter with ⟨rfl, rfl⟩ | ⟨-, rfl⟩
      · obtain rfl := Option.some.inj (hat.symm.trans hbefore)
        exact .finishes hleaving
      · exact absurd rfl hchanged
  | stands _ _ _ _ hconnections =>
      rw [hconnections, hbefore] at hafter
      exact absurd (Option.some.inj hafter).symm hchanged

theorem Happening.eq_finish (h : stream.Happening action next effects) {after : Connection}
    (hbefore : stream.connections[place]? = some before) (hopen : before.isFinished = false)
    (hafter : next.connections[place]? = some after) (hfinished : after.isFinished = true) :
    action = .finish place := by
  have hdistinct : before.isFinished ≠ after.isFinished := by simp [hopen, hfinished]
  have hchanged : after ≠ before := by
    rintro rfl
    exact hdistinct rfl
  have hrunning : ∀ {receiverOpen : Bool} {history : History},
      Move receiverOpen before after history → before.hasStopped ≠ false := by
    intro receiverOpen history hmove hrunning
    exact hdistinct (hopen.trans (hmove.isFinished_eq_false hrunning).symm)
  cases h.alteration hbefore hafter hchanged with
  | accepts => exact absurd rfl hdistinct
  | flushes hturn =>
      have hserving := Connection.hasStopped_of_serving (serving_of_flush hturn)
      exact absurd hserving (hrunning (move_of_flush true hturn))
  | arrives hturn =>
      have hserving := Connection.hasStopped_of_serving (serving_of_arrive hturn)
      exact absurd hserving (hrunning (move_of_arrive true hturn))
  | handsOn hturn => exact absurd (running_of_handOn hturn) (hrunning (move_of_handOn hturn))
  | finishes => rfl

theorem Happening.historyAt_of_absent (h : stream.Happening action next effects)
    (hbefore : stream.connections[place]? = none) :
    historyAt place [action] effects = .empty := by
  have hother : ∀ {other : Nat} {connection : Connection},
      stream.connections[other]? = some connection → other ≠ place := by
    rintro other connection hat rfl
    simp [hbefore] at hat
  cases h with
  | opens => rfl
  | disconnects => rfl
  | accepts _ hat => rw [historyAt_accepted, if_neg (hother hat)]
  | flushes hat | handsOn hat =>
      rw [historyAt_apply, if_neg (hother hat), if_neg (hother hat)]
      rfl
  | arrives hat =>
      rw [historyAt_apply, if_neg (hother hat), if_neg (hother hat), Action.read?,
        if_neg (hother hat)]
      rfl
  | finishes => rfl
  | @stands _ _ events _ hread => exact historyAt_logged place action events (hread place)

theorem Happening.born (h : stream.Happening action next effects) {after : Connection}
    (hbefore : stream.connections[place]? = none) (hafter : next.connections[place]? = some after) :
    after = .start stream.nextGeneration := by
  have hge : stream.connections.length ≤ place := List.getElem?_eq_none_iff.mp hbefore
  have hlt : place < next.connections.length := (List.getElem?_eq_some_iff.mp hafter).1
  cases h with
  | opens =>
      have heq : place = stream.connections.length := by
        simp only [List.length_append, List.length_singleton] at hlt
        omega
      subst heq
      simpa using hafter.symm
  | disconnects => exact absurd hlt (Nat.not_lt.mpr hge)
  | accepts => exact absurd hlt (by simpa using hge)
  | flushes => exact absurd hlt (by simpa [apply] using hge)
  | arrives => exact absurd hlt (by simpa [apply] using hge)
  | handsOn => exact absurd hlt (by simpa [apply] using hge)
  | finishes => exact absurd hlt (by simpa using hge)
  | stands _ _ _ _ hconnections => exact absurd hlt (by simpa [hconnections] using hge)

theorem Happening.isReceiverOpen (h : stream.Happening action next effects)
    (hopen : next.isReceiverOpen = true) : stream.isReceiverOpen = true := by
  cases h with
  | stands _ _ _ _ _ _ hreceiver => exact hreceiver hopen
  | _ => exact hopen

end Moves

/-! ### Runs -/

section Runs

variable {stream last : Stream} {effects : List Effect}

theorem run?_cons_eq_some_iff {action : Action} {rest : List Action} :
    stream.run? (action :: rest) = some (last, effects) ↔
      ∃ next first later, stream.step? action = some (next, first) ∧
        next.run? rest = some (last, later) ∧ effects = first ++ later := by
  simp only [run?, Option.bind_eq_bind, Option.bind_eq_some_iff, Option.some.injEq,
    Prod.exists, Prod.mk.injEq]
  constructor
  · rintro ⟨next, first, hstep, last', later, hrun, rfl, rfl⟩
    exact ⟨next, first, later, hstep, hrun, rfl⟩
  · rintro ⟨next, first, later, hstep, hrun, rfl⟩
    exact ⟨next, first, hstep, last, later, hrun, rfl, rfl⟩

theorem run?_append_eq_some_iff {actions more : List Action} :
    stream.run? (actions ++ more) = some (last, effects) ↔
      ∃ middle earlier later, stream.run? actions = some (middle, earlier) ∧
        middle.run? more = some (last, later) ∧ effects = earlier ++ later := by
  induction actions generalizing stream effects with
  | nil => simp [run?]
  | cons action rest ih =>
      simp only [List.cons_append, run?_cons_eq_some_iff, ih]
      constructor
      · rintro ⟨next, first, _, hstep, ⟨middle, earlier, later, hrun, hmore, rfl⟩, rfl⟩
        exact ⟨middle, first ++ earlier, later, ⟨next, first, earlier, hstep, hrun, rfl⟩, hmore,
          by simp⟩
      · rintro ⟨middle, _, later, ⟨next, first, earlier, hstep, hrun, rfl⟩, hmore, rfl⟩
        exact ⟨next, first, earlier ++ later, hstep, ⟨middle, earlier, later, hrun, hmore, rfl⟩,
          by simp⟩

theorem run?_singleton (stream : Stream) (action : Action) :
    stream.run? [action] = stream.step? action := by
  cases h : stream.step? action <;> simp [run?, h]

theorem run?_induction {motive : Stream → Prop} {actions : List Action}
    (hstep : ∀ {before after : Stream} {action : Action} {effects : List Effect},
      before.Happening action after effects → motive before → motive after)
    (hrun : stream.run? actions = some (last, effects)) (hstart : motive stream) :
    motive last := by
  induction actions generalizing stream effects with
  | nil =>
      cases hrun
      exact hstart
  | cons action rest ih =>
      obtain ⟨next, first, later, hfirst, hrest, rfl⟩ := run?_cons_eq_some_iff.mp hrun
      exact ih hrest (hstep (happening_of_step hfirst) hstart)

theorem historyAt_of_absent {config : Config} {actions : List Action} {place : Nat}
    (hrun : (Stream.ofConfig config).run? actions = some (last, effects))
    (habsent : last.connections[place]? = none) : historyAt place actions effects = .empty := by
  induction actions using List.reverseRecOn generalizing last effects with
  | nil =>
      cases hrun
      rfl
  | append_singleton earlier action ih =>
      obtain ⟨middle, before, later, hearlier, hlast, rfl⟩ := run?_append_eq_some_iff.mp hrun
      rw [run?_singleton] at hlast
      have h := happening_of_step hlast
      cases hmiddle : middle.connections[place]? with
      | none => rw [historyAt_append, ih hearlier hmiddle, h.historyAt_of_absent hmiddle,
          History.append_empty]
      | some connection =>
          obtain ⟨after, hafter, -⟩ := h.move hmiddle
          simp [habsent] at hafter

/-- Every connection of a run has been opened in it and has moved since. -/
theorem historyAt_induction {config : Config} {place : Nat}
    {motive : List Action → Stream → Connection → History → Prop}
    (hborn : ∀ actions stream generation, motive actions stream (.start generation) .empty)
    (hstep : ∀ {earlier : List Action} {middle next : Stream} {action : Action}
      {sofar effects : List Effect} {before after : Connection} {history : History},
      (Stream.ofConfig config).run? earlier = some (middle, sofar) →
      middle.Happening action next effects → middle.connections[place]? = some before →
      next.connections[place]? = some after →
      Move middle.isReceiverOpen before after (historyAt place [action] effects) →
      motive earlier middle before history →
      motive (earlier ++ [action]) next after (history ++ historyAt place [action] effects))
    {actions : List Action} {connection : Connection}
    (hrun : (Stream.ofConfig config).run? actions = some (last, effects))
    (hat : last.connections[place]? = some connection) :
    motive actions last connection (historyAt place actions effects) := by
  -- on the last action, since a history grows at its end
  induction actions using List.reverseRecOn generalizing last effects connection with
  | nil =>
      cases hrun
      simp [ofConfig] at hat
  | append_singleton earlier action ih =>
      obtain ⟨middle, sofar, later, hearlier, hlast, rfl⟩ := run?_append_eq_some_iff.mp hrun
      rw [run?_singleton] at hlast
      have h := happening_of_step hlast
      rw [historyAt_append]
      cases hmiddle : middle.connections[place]? with
      | none =>
          rw [historyAt_of_absent hearlier hmiddle, h.historyAt_of_absent hmiddle,
            h.born hmiddle hat]
          exact hborn _ _ _
      | some before =>
          obtain ⟨after, hafter, hmove⟩ := h.move hmiddle
          obtain rfl : after = connection := Option.some.inj (hafter.symm.trans hat)
          exact hstep hearlier h hmiddle hafter hmove (ih hearlier hmiddle)

end Runs

end SpotWire.Stream
