import SpotWire.Proofs.Channel.Distinct
import SpotWire.Proofs.Stream.Generations

/-!
# Calls that fail

A call that fails leaves the slot, the counters and the connections as they were, with their queues
and readers. A call for a change takes two steps, and other callers and readers may do anything
between them. `requestThrough?` runs a call through what they do, and `Concludes` lists the four
ways in which it ends.
-/

namespace SpotWire.Stream

/-! ### Messages on their way -/

/-- Where a message that is on its way stands after an action: it moves up when one before it has
got to its queue, and is on its way no more once it has got there itself. -/
def Action.carry? (place : Nat) : Action → Option Nat
  | .finishRequest other =>
      if other < place then some (place - 1) else if other = place then none else some place
  | _ => some place

/-- A call for a change through what others do between its two steps: the stream before its last
step, and what the two steps come to. There is none if the others cannot do so, if the call's own
message is taken among what they do, or if it still has to wait for room in its queue. -/
def requestThrough? (stream : Stream) (change : Change) (subscription : Subscription)
    (between : List Action) : Option (Stream × Outcome String) :=
  let begun := stream.beginRequest change subscription
  match begun.answer with
  | .error _ => some (stream, begun)
  | .ok channel => do
      let (middle, _) ← begun.stream.run? between
      let place ← between.foldlM Action.carry? stream.sendings.length
      let finished ← middle.finishRequest? place
      some (middle,
        { stream := finished.stream
          effects := begun.effects ++ finished.effects
          answer := finished.answer.map fun _ => channel })

section Sendings

variable {stream next : Stream} {effects : List Effect} {action : Action}

/-- A stream with the same suffix of symbols, and perhaps more messages on their way. -/
structure Extends (stream next : Stream) : Prop where
  symbolSuffix : next.symbolSuffix = stream.symbolSuffix
  sendings : stream.sendings <+: next.sendings

theorem Extends.of_eq (hsuffix : next.symbolSuffix = stream.symbolSuffix)
    (hsendings : next.sendings = stream.sendings) : Extends stream next :=
  ⟨hsuffix, hsendings ▸ List.prefix_rfl⟩

theorem extends_connect (stream : Stream) (endpoint : Endpoint) (reached : Bool) :
    Extends stream (stream.connect endpoint reached).stream := by
  unfold connect
  split
  · exact .of_eq rfl rfl
  · split <;> exact .of_eq rfl rfl

theorem extends_beginRequest (stream : Stream) (change : Change) (subscription : Subscription) :
    Extends stream (stream.beginRequest change subscription).stream := by
  unfold beginRequest
  dsimp only
  split
  · exact .of_eq rfl rfl
  · split
    · exact .of_eq rfl rfl
    · exact ⟨rfl, List.prefix_append _ _⟩

theorem extends_enqueue (stream : Stream) (sending : Sending) :
    (stream.enqueue sending).stream.symbolSuffix = stream.symbolSuffix ∧
      (stream.enqueue sending).stream.sendings = stream.sendings := by
  unfold enqueue
  split
  · exact ⟨rfl, rfl⟩
  · split <;> exact ⟨rfl, rfl⟩

/-- Messages get on their way at the end of the row, and leave it one at a time. -/
theorem extends_of_step (h : stream.step? action = some (next, effects)) :
    (∃ place, action = .finishRequest place ∧ next.symbolSuffix = stream.symbolSuffix ∧
      next.sendings = stream.sendings.eraseIdx place) ∨
      ((∀ place, action ≠ .finishRequest place) ∧ Extends stream next) := by
  cases action with
  | connect endpoint reached =>
      cases h
      exact .inr ⟨nofun, extends_connect stream endpoint reached⟩
  | disconnect =>
      cases h
      exact .inr ⟨nofun, .of_eq rfl rfl⟩
  | beginRequest change subscription =>
      cases h
      exact .inr ⟨nofun, extends_beginRequest stream change subscription⟩
  | finishRequest place =>
      obtain ⟨outcome, houtcome, hseen⟩ := Option.map_eq_some_iff.mp h
      obtain ⟨sending, -, -, rfl⟩ := finishRequest?_eq_some_iff.mp houtcome
      cases hseen
      exact .inl ⟨place, rfl, extends_enqueue _ sending⟩
  | flush place canWrite =>
      obtain ⟨connection, turn, -, -, happly⟩ := step?_flush_eq_some_iff.mp h
      cases happly
      exact .inr ⟨nofun, .of_eq rfl rfl⟩
  | arrive place arrival canWrite =>
      obtain ⟨connection, turn, -, -, happly⟩ := step?_arrive_eq_some_iff.mp h
      cases happly
      exact .inr ⟨nofun, .of_eq rfl rfl⟩
  | handOn place =>
      obtain ⟨connection, turn, -, -, happly⟩ := step?_handOn_eq_some_iff.mp h
      cases happly
      exact .inr ⟨nofun, .of_eq rfl rfl⟩
  | finish place =>
      obtain ⟨connection, -, hleft⟩ := Option.bind_eq_some_iff.mp h
      split at hleft
      · cases hleft
        exact .inr ⟨nofun, .of_eq rfl rfl⟩
      · cases hleft
  | takeReceiver =>
      cases h
      refine .inr ⟨nofun, ?_⟩
      unfold takeReceiver
      split <;> exact .of_eq rfl rfl
  | dropReceiver =>
      cases h
      refine .inr ⟨nofun, ?_⟩
      unfold dropReceiver
      split <;> exact .of_eq rfl rfl
  | receive =>
      cases h
      refine .inr ⟨nofun, ?_⟩
      unfold receive
      split <;> exact .of_eq rfl rfl

theorem symbolSuffix_of_step (h : stream.step? action = some (next, effects)) :
    next.symbolSuffix = stream.symbolSuffix := by
  rcases extends_of_step h with ⟨-, -, hsuffix, -⟩ | ⟨-, hextends⟩
  · exact hsuffix
  · exact hextends.symbolSuffix

theorem symbolSuffix_of_run {actions : List Action}
    (hrun : stream.run? actions = some (next, effects)) :
    next.symbolSuffix = stream.symbolSuffix := by
  induction actions generalizing stream effects with
  | nil =>
      cases hrun
      rfl
  | cons action rest ih =>
      obtain ⟨middle, first, later, hstep, hrest, rfl⟩ := run?_cons_eq_some_iff.mp hrun
      exact (ih hrest).trans (symbolSuffix_of_step hstep)

theorem sending_of_step {place later : Nat} {sending : Sending}
    (h : stream.step? action = some (next, effects))
    (hsending : stream.sendings[place]? = some sending)
    (hcarry : action.carry? place = some later) : next.sendings[later]? = some sending := by
  rcases extends_of_step h with ⟨other, rfl, -, hnext⟩ | ⟨hother, hextends⟩
  · rw [hnext, List.getElem?_eraseIdx]
    simp only [Action.carry?] at hcarry
    split at hcarry
    · cases hcarry
      rw [if_neg (by omega), Nat.sub_add_cancel (by omega), hsending]
    · split at hcarry
      · cases hcarry
      · cases hcarry
        rw [if_pos (by omega), hsending]
  · have hsame : later = place := by
      cases action with
      | finishRequest other => exact absurd rfl (hother other)
      | _ => exact (Option.some.inj hcarry).symm
    obtain ⟨more, hnext⟩ := hextends.sendings
    have hlt : place < stream.sendings.length := (List.getElem?_eq_some_iff.mp hsending).1
    rw [hsame, ← hnext, List.getElem?_append_left hlt, hsending]

/-- A message on its way is found again where its place has moved. -/
theorem sending_of_run {between : List Action} {place later : Nat} {sending : Sending}
    (hrun : stream.run? between = some (next, effects))
    (hsending : stream.sendings[place]? = some sending)
    (hcarry : between.foldlM Action.carry? place = some later) :
    next.sendings[later]? = some sending := by
  induction between generalizing stream effects place with
  | nil =>
      cases hrun
      cases hcarry
      exact hsending
  | cons action rest ih =>
      obtain ⟨middle, first, later, hstep, hrest, rfl⟩ := run?_cons_eq_some_iff.mp hrun
      rw [List.foldlM_cons] at hcarry
      obtain ⟨moved, hmoved, hcarry⟩ := Option.bind_eq_some_iff.mp hcarry
      exact ih hrest (sending_of_step hstep hsending hmoved) hcarry

end Sendings

/-! ### What the steps of calls come to -/

section Steps

variable {stream : Stream} {slot : Slot} {change : Change} {subscription : Subscription}
  {channel : String}

theorem run?_of_unreached (hslot : stream.slot = none) (endpoint : Endpoint)
    (further : List Action) :
    stream.run? (.connect endpoint false :: further) = stream.run? further := by
  have hstep : stream.step? (.connect endpoint false) = some (stream, []) := by
    simp [step?, connect_of_unreached hslot, Outcome.seen]
  cases hrun : stream.run? further <;> simp [run?, hstep, hrun]

/-- What the log says of the channel of a subscription. -/
def requestEvents (subscription : Subscription) (channel : String) : List Effect :=
  (Channel.events subscription.kind (.ok channel)).map .logged

theorem beginRequest_of_fault {fault : Channel.Fault}
    (hchannel : subscription.channel stream.symbolSuffix = .error fault) :
    stream.beginRequest change subscription = ⟨stream, [], .error (.ofChannel fault)⟩ := by
  rw [Subscription.channel] at hchannel
  simp [beginRequest, hchannel, Channel.events]

theorem beginRequest_of_empty (hchannel : subscription.channel stream.symbolSuffix = .ok channel)
    (hslot : stream.slot = none) :
    stream.beginRequest change subscription =
      ⟨stream, requestEvents subscription channel, .error (.stream .notConnected)⟩ := by
  rw [Subscription.channel] at hchannel
  simp [beginRequest, hchannel, hslot, requestEvents]

theorem beginRequest_of_occupied
    (hchannel : subscription.channel stream.symbolSuffix = .ok channel)
    (hslot : stream.slot = some slot) :
    stream.beginRequest change subscription =
      { stream :=
          { stream with
            sendings := stream.sendings ++ [⟨slot.connection, change.message channel⟩] }
        effects := requestEvents subscription channel
        answer := .ok channel } := by
  rw [Subscription.channel] at hchannel
  simp [beginRequest, hchannel, hslot, requestEvents]

variable {place : Nat} {sending : Sending} {connection : Connection}

theorem enqueue_of_finished (hat : stream.connections[sending.connection]? = some connection)
    (hfinished : connection.isFinished = true) :
    stream.enqueue sending = ⟨stream, [], .error (.stream .closed)⟩ := by
  simp [enqueue, hat, hfinished]

theorem enqueue_of_open (hat : stream.connections[sending.connection]? = some connection)
    (hopen : connection.isFinished = false) :
    stream.enqueue sending =
      { stream :=
          { stream with
            connections :=
              stream.connections.set sending.connection (connection.accept sending.message)
            samples := (stream.samples.countSent sending.message).1 }
        effects := .accepted sending.connection sending.message ::
          (stream.samples.countSent sending.message).2.map .logged
        answer := .ok () } := by
  simp [enqueue, hat, hopen]

end Steps

/-! ### How calls end -/

/-- How a call for a change ends: the stream before its last step, and what its steps come to. -/
inductive Concludes (stream : Stream) (change : Change) (subscription : Subscription) :
    Stream → Outcome String → Prop where
  | lacksSymbol (hpublic : subscription.kind.isPrivate = false)
      (hsymbol : subscription.symbol = none) :
      Concludes stream change subscription stream
        ⟨stream, [], .error (.missingSymbol subscription.kind.name)⟩
  | lacksConnection {channel : String}
      (hchannel : subscription.channel stream.symbolSuffix = .ok channel)
      (hslot : stream.slot = none) :
      Concludes stream change subscription stream
        ⟨stream, requestEvents subscription channel, .error (.stream .notConnected)⟩
  | findsClosed {channel : String} {slot : Slot} {middle : Stream} {place : Nat}
      {connection : Connection}
      (hchannel : subscription.channel stream.symbolSuffix = .ok channel)
      (hslot : stream.slot = some slot)
      (hat : middle.connections[slot.connection]? = some connection)
      (hgeneration : connection.generation = slot.generation)
      (hfinished : connection.isFinished = true) :
      Concludes stream change subscription middle
        ⟨{ middle with sendings := middle.sendings.eraseIdx place },
          requestEvents subscription channel, .error (.stream .closed)⟩
  | isAccepted {channel : String} {slot : Slot} {middle : Stream} {place : Nat}
      {connection : Connection}
      (hchannel : subscription.channel stream.symbolSuffix = .ok channel)
      (hslot : stream.slot = some slot)
      (hat : middle.connections[slot.connection]? = some connection)
      (hgeneration : connection.generation = slot.generation)
      (hopen : connection.isFinished = false) :
      Concludes stream change subscription middle
        { stream :=
            { middle with
              sendings := middle.sendings.eraseIdx place
              connections :=
                middle.connections.set slot.connection (connection.accept (change.message channel))
              samples := (middle.samples.countSent (change.message channel)).1 }
          effects := requestEvents subscription channel ++
            .accepted slot.connection (change.message channel) ::
              (middle.samples.countSent (change.message channel)).2.map .logged
          answer := .ok channel }

section Calls

variable {stream middle : Stream} {change : Change} {subscription : Subscription}
  {between : List Action} {outcome : Outcome String}

/-- A connection keeps its place and its generation. -/
theorem connection_of_run {effects : List Effect} {place : Nat} {generation : UInt64}
    (hrun : stream.run? between = some (middle, effects))
    (h : ∃ connection, stream.connections[place]? = some connection ∧
      connection.generation = generation) :
    ∃ connection, middle.connections[place]? = some connection ∧
      connection.generation = generation := by
  refine run?_induction (motive := fun stream => ∃ connection,
    stream.connections[place]? = some connection ∧ connection.generation = generation) ?_ hrun h
  rintro before after action more h ⟨connection, hat, hgeneration⟩
  obtain ⟨moved, hmoved, hmove⟩ := h.move hat
  exact ⟨moved, hmoved, hmove.generation_eq.trans hgeneration⟩

theorem requestThrough?_of_occupied {channel : String} {slot : Slot} {effects : List Effect}
    {place : Nat} (hnumbered : Numbered stream)
    (hchannel : subscription.channel stream.symbolSuffix = .ok channel)
    (hslot : stream.slot = some slot)
    (hrun : (stream.beginRequest change subscription).stream.run? between = some (middle, effects))
    (hcarry : between.foldlM Action.carry? stream.sendings.length = some place) :
    ∃ connection finished, middle.connections[slot.connection]? = some connection ∧
      connection.generation = slot.generation ∧
      finished = { middle with sendings := middle.sendings.eraseIdx place }.enqueue
        ⟨slot.connection, change.message channel⟩ ∧
      stream.requestThrough? change subscription between =
        if connection.isFull then none
        else
          some (middle,
            { stream := finished.stream
              effects := requestEvents subscription channel ++ finished.effects
              answer := finished.answer.map fun _ => channel }) := by
  obtain ⟨-, connection, hat, hgeneration, -⟩ := hnumbered.slot slot hslot
  have hbegun : stream.beginRequest change subscription = _ :=
    beginRequest_of_occupied hchannel hslot
  rw [hbegun] at hrun
  obtain ⟨kept, hkept, hkeptGeneration⟩ := connection_of_run hrun ⟨connection, hat, hgeneration⟩
  have hsending : middle.sendings[place]? =
      some ⟨slot.connection, change.message channel⟩ :=
    sending_of_run hrun (by simp) hcarry
  refine ⟨kept, _, hkept, hkeptGeneration, rfl, ?_⟩
  cases hfull : kept.isFull <;>
    simp [requestThrough?, hbegun, hrun, hcarry, finishRequest?, hsending, mustWait, hkept, hfull]

theorem concludes_of_requestThrough? (hnumbered : Numbered stream)
    (h : stream.requestThrough? change subscription between = some (middle, outcome)) :
    Concludes stream change subscription middle outcome := by
  cases hchannel : subscription.channel stream.symbolSuffix with
  | error fault =>
      obtain ⟨⟨hpublic, hsymbol⟩, rfl⟩ := Channel.ofFeed_eq_error_iff.mp hchannel
      rw [requestThrough?, beginRequest_of_fault hchannel] at h
      cases h
      exact .lacksSymbol hpublic hsymbol
  | ok channel =>
      cases hslot : stream.slot with
      | none =>
          rw [requestThrough?, beginRequest_of_empty hchannel hslot] at h
          cases h
          exact .lacksConnection hchannel hslot
      | some slot =>
          have hcall := h
          rw [requestThrough?, beginRequest_of_occupied hchannel hslot] at hcall
          obtain ⟨⟨reached, effects⟩, hrun, hcall⟩ := Option.bind_eq_some_iff.mp hcall
          obtain ⟨place, hcarry, -⟩ := Option.bind_eq_some_iff.mp hcall
          rw [← beginRequest_of_occupied hchannel hslot] at hrun
          obtain ⟨connection, finished, hat, hgeneration, hfinished, hends⟩ :=
            requestThrough?_of_occupied hnumbered hchannel hslot hrun hcarry
          rw [hends, Option.ite_none_left_eq_some] at h
          cases h.2
          cases hphase : connection.isFinished with
          | true =>
              rw [enqueue_of_finished hat hphase] at hfinished
              subst hfinished
              simpa [Except.map] using
                Concludes.findsClosed hchannel hslot hat hgeneration hphase
          | false =>
              rw [enqueue_of_open hat hphase] at hfinished
              subst hfinished
              exact .isAccepted hchannel hslot hat hgeneration hphase

/-- Nobody has to act between the two steps of a call. -/
theorem requestThrough?_nil (stream : Stream) (change : Change) (subscription : Subscription) :
    stream.requestThrough? change subscription [] =
      (stream.request? change subscription).map fun outcome =>
        ((stream.beginRequest change subscription).stream, outcome) := by
  cases hchannel : subscription.channel stream.symbolSuffix with
  | error fault => simp [requestThrough?, request?, beginRequest_of_fault hchannel]
  | ok channel =>
      cases hslot : stream.slot with
      | none => simp [requestThrough?, request?, beginRequest_of_empty hchannel hslot]
      | some slot =>
          simp [requestThrough?, request?, beginRequest_of_occupied hchannel hslot, run?,
            Option.map_eq_bind, Option.bind_assoc]

end Calls

/-! ### What calls leave behind -/

/-- Two streams with the same slot, the same counters and the same connections, with their queues
and readers. Messages on their way may differ. -/
structure Untouched (before after : Stream) : Prop where
  slot : after.slot = before.slot
  nextGeneration : after.nextGeneration = before.nextGeneration
  connections : after.connections = before.connections
  samples : after.samples = before.samples

/-- Why a call for a change has failed, where it began and where it failed. -/
inductive Refusal (stream middle : Stream) (subscription : Subscription) : Failure → Prop where
  | lacksSymbol (hpublic : subscription.kind.isPrivate = false)
      (hsymbol : subscription.symbol = none) :
      Refusal stream middle subscription (.missingSymbol subscription.kind.name)
  | lacksConnection (hslot : stream.slot = none) :
      Refusal stream middle subscription (.stream .notConnected)
  | findsClosed {slot : Slot} {connection : Connection} (hslot : stream.slot = some slot)
      (hat : middle.connections[slot.connection]? = some connection)
      (hfinished : connection.isFinished = true) :
      Refusal stream middle subscription (.stream .closed)

section Calls

variable {stream middle : Stream} {change : Change} {subscription : Subscription}
  {outcome : Outcome String}

theorem untouched_beginRequest (stream : Stream) (change : Change) (subscription : Subscription) :
    Untouched stream (stream.beginRequest change subscription).stream := by
  unfold beginRequest
  dsimp only
  split
  · exact ⟨rfl, rfl, rfl, rfl⟩
  · split <;> exact ⟨rfl, rfl, rfl, rfl⟩

@[simp]
theorem accepted?_requestEvents (place : Nat) (subscription : Subscription) (channel : String) :
    (requestEvents subscription channel).filterMap (Effect.accepted? place) = [] :=
  filterMap_accepted?_logged place _

theorem Concludes.refusal (h : Concludes stream change subscription middle outcome)
    {failure : Failure} (hanswer : outcome.answer = .error failure) :
    Refusal stream middle subscription failure ∧ Untouched middle outcome.stream ∧
      ∀ place, outcome.effects.filterMap (Effect.accepted? place) = [] := by
  cases h with
  | lacksSymbol hpublic hsymbol =>
      cases hanswer
      exact ⟨.lacksSymbol hpublic hsymbol, ⟨rfl, rfl, rfl, rfl⟩, fun _ => rfl⟩
  | lacksConnection hchannel hslot =>
      cases hanswer
      exact ⟨.lacksConnection hslot, ⟨rfl, rfl, rfl, rfl⟩, fun place =>
        accepted?_requestEvents place subscription _⟩
  | findsClosed hchannel hslot hat hgeneration hfinished =>
      cases hanswer
      exact ⟨.findsClosed hslot hat hfinished, ⟨rfl, rfl, rfl, rfl⟩, fun place =>
        accepted?_requestEvents place subscription _⟩
  | isAccepted => cases hanswer

/-- One message gets to one queue. -/
theorem Concludes.acceptance (h : Concludes stream change subscription middle outcome)
    {channel : String} (hanswer : outcome.answer = .ok channel) :
    subscription.channel stream.symbolSuffix = .ok channel ∧
      ∃ slot connection, stream.slot = some slot ∧
        middle.connections[slot.connection]? = some connection ∧
        connection.generation = slot.generation ∧ connection.isFinished = false ∧
        outcome.stream.connections =
          middle.connections.set slot.connection (connection.accept (change.message channel)) ∧
        ∀ place, outcome.effects.filterMap (Effect.accepted? place) =
          if slot.connection = place then [change.message channel] else [] := by
  cases h with
  | lacksSymbol => cases hanswer
  | lacksConnection => cases hanswer
  | findsClosed => cases hanswer
  | @isAccepted channel slot middle _ connection hchannel hslot hat hgeneration hopen =>
      cases hanswer
      refine ⟨hchannel, slot, connection, hslot, hat, hgeneration, hopen, rfl, fun place => ?_⟩
      rw [List.filterMap_append, accepted?_requestEvents, List.nil_append, List.filterMap_cons,
        filterMap_accepted?_logged]
      by_cases hplace : slot.connection = place <;> simp [Effect.accepted?, hplace]

end Calls

/-- **Calls that fail change nothing.** In every state that a stream can reach, a connect fails
without any effect if the slot is occupied, and one that does not reach the peer leaves no trace. A
call for a change fails for one of three reasons, whatever others do between its two steps. Neither
of its steps then touches the slot, a counter, a queue or a reader. A public feed without symbol is
found first, with or without a connection. A call that succeeds puts one message into one queue,
that of the connection whose generation was in the slot; the message asks for the channel that is
answered. A call comes to its end unless that queue is full, in which case it waits. -/
theorem failed_calls_change_nothing (config : Config) (actions : List Action) (stream : Stream)
    (effects : List Effect) (hrun : (Stream.ofConfig config).run? actions = some (stream, effects)) :
    (∀ slot, stream.slot = some slot → ∀ endpoint reached,
      stream.connect endpoint reached = ⟨stream, [], .error (.stream .alreadyConnected)⟩) ∧
    (stream.slot = none → ∀ endpoint,
      stream.connect endpoint false = ⟨stream, [], .error (.stream .transport)⟩ ∧
        ∀ further, stream.run? (.connect endpoint false :: further) = stream.run? further) ∧
    ∀ (change : Change) (subscription : Subscription),
      (subscription.kind.isPrivate = false → subscription.symbol = none → ∀ between,
        stream.requestThrough? change subscription between =
          some (stream, ⟨stream, [], .error (.missingSymbol subscription.kind.name)⟩)) ∧
      (∀ between middle outcome failure,
        stream.requestThrough? change subscription between = some (middle, outcome) →
        outcome.answer = .error failure →
          Refusal stream middle subscription failure ∧
          Untouched stream (stream.beginRequest change subscription).stream ∧
          Untouched middle outcome.stream ∧
          ∀ place, outcome.effects.filterMap (Effect.accepted? place) = []) ∧
      (∀ between middle outcome channel,
        stream.requestThrough? change subscription between = some (middle, outcome) →
        outcome.answer = .ok channel →
          Untouched stream (stream.beginRequest change subscription).stream ∧
          ∃ slot connection, stream.slot = some slot ∧
            middle.connections[slot.connection]? = some connection ∧
            connection.generation = slot.generation ∧ connection.isFinished = false ∧
            outcome.stream.connections =
              middle.connections.set slot.connection
                (connection.accept (change.message channel)) ∧
            ∀ place, outcome.effects.filterMap (Effect.accepted? place) =
              if slot.connection = place then [change.message channel] else []) ∧
      (∀ slot between middle more place, stream.slot = some slot →
        (stream.beginRequest change subscription).stream.run? between = some (middle, more) →
        between.foldlM Action.carry? stream.sendings.length = some place →
        middle.connections[slot.connection]?.any Connection.isFull = false →
        ∃ ending, stream.requestThrough? change subscription between = some ending) := by
  have hnumbered := Numbered.of_run hrun
  refine ⟨fun slot hslot endpoint reached => connect_of_occupied hslot endpoint reached,
    fun hslot endpoint => ⟨connect_of_unreached hslot endpoint, run?_of_unreached hslot endpoint⟩,
    fun change subscription => ⟨?_, ?_, ?_, ?_⟩⟩
  · intro hpublic hsymbol between
    have hchannel : subscription.channel stream.symbolSuffix =
        .error (.missingSymbol subscription.kind) :=
      Channel.ofFeed_eq_error_iff.mpr ⟨⟨hpublic, hsymbol⟩, rfl⟩
    rw [requestThrough?, beginRequest_of_fault hchannel]
    rfl
  · intro between middle outcome failure hcall hanswer
    obtain ⟨hrefusal, huntouched, haccepted⟩ :=
      (concludes_of_requestThrough? hnumbered hcall).refusal hanswer
    exact ⟨hrefusal, untouched_beginRequest stream change subscription, huntouched, haccepted⟩
  · intro between middle outcome channel hcall hanswer
    obtain ⟨-, hacceptance⟩ := (concludes_of_requestThrough? hnumbered hcall).acceptance hanswer
    exact ⟨untouched_beginRequest stream change subscription, hacceptance⟩
  · intro slot between middle more place hslot hbetween hcarry hroom
    cases hchannel : subscription.channel stream.symbolSuffix with
    | error fault => exact ⟨_, by rw [requestThrough?, beginRequest_of_fault hchannel]⟩
    | ok channel =>
        obtain ⟨connection, finished, hat, -, -, hends⟩ :=
          requestThrough?_of_occupied hnumbered hchannel hslot hbetween hcarry
        rw [hat, Option.any_some] at hroom
        rw [hroom] at hends
        exact ⟨_, hends⟩

def accountUpdates : Subscription := ⟨.account, none, ⟨none, none⟩⟩

/-- A call finds the reader finished that was there when it began; another one, between whose steps
the earlier reader closes its connection, gets its message to the later one. -/
theorem calls_of_reopened :
    ∃ stream effects, (Stream.ofConfig .standard).run? reopened = some (stream, effects) ∧
      (∃ middle outcome,
        stream.requestThrough? .subscribe accountUpdates [.arrive 1 .ended true, .finish 1] =
          some (middle, outcome) ∧
        outcome.answer = .error (.stream .closed) ∧ Untouched middle outcome.stream) ∧
      ∃ middle outcome,
        stream.requestThrough? .subscribe accountUpdates [.flush 0 true, .finish 0] =
          some (middle, outcome) ∧
        outcome.answer = .ok "account" ∧
        outcome.effects.filterMap (Effect.accepted? 1) = [.subscribe "account"] := by
  refine ⟨_, _, rfl, ?_⟩
  obtain ⟨-, -, hcalls⟩ := failed_calls_change_nothing .standard reopened _ _ rfl
  obtain ⟨-, hfails, hsucceeds, -⟩ := hcalls .subscribe accountUpdates
  refine ⟨⟨_, _, rfl, rfl, ?_⟩, ⟨_, _, rfl, rfl, ?_⟩⟩
  · exact (hfails [.arrive 1 .ended true, .finish 1] _ _ _ rfl rfl).2.2.1
  · obtain ⟨-, slot, connection, hslot, -, -, -, -, haccepted⟩ :=
      hsucceeds [.flush 0 true, .finish 0] _ _ _ rfl rfl
    cases hslot
    exact haccepted 1

end SpotWire.Stream
