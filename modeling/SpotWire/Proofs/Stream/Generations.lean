import Mathlib.Data.List.Nodup
import SpotWire.Proofs.Stream.History

/-!
# Generations of connections

The connection in the slot is known by its generation, a word of 64 bits. As long as the words do
not repeat, a reader that finishes late clears the slot only if the connection there is its own.
-/

namespace SpotWire.Stream

def generations (stream : Stream) : List Action → List UInt64
  | [] => []
  | action :: rest =>
      match stream.step? action with
      | none => []
      | some (next, _) => (stream.generation? action).toList ++ next.generations rest

/-- Connections are numbered by their places, and the slot holds the last one, whose reader has
not finished. -/
structure Numbered (stream : Stream) : Prop where
  generations : stream.connections.map Connection.generation =
    (List.range stream.connections.length).map UInt64.ofNat
  next : stream.nextGeneration = UInt64.ofNat stream.connections.length
  slot : ∀ slot, stream.slot = some slot →
    slot.connection + 1 = stream.connections.length ∧
      ∃ connection, stream.connections[slot.connection]? = some connection ∧
        connection.generation = slot.generation ∧ connection.isFinished = false

section Happenings

variable {stream next : Stream} {action : Action} {effects : List Effect}

theorem map_generation_set {connections : List Connection} {place : Nat}
    {connection other : Connection} (hat : connections[place]? = some connection)
    (heq : other.generation = connection.generation) :
    (connections.set place other).map Connection.generation =
      connections.map Connection.generation := by
  obtain ⟨hlt, rfl⟩ := List.getElem?_eq_some_iff.mp hat
  rw [List.map_set, heq]
  refine List.ext_getElem? fun other => ?_
  by_cases hother : place = other
  · subst hother
    simp [hlt]
  · simp [hother]

/-- A generation is given out when a connection is added, and those before it keep theirs. -/
theorem Happening.map_generation (h : stream.Happening action next effects) :
    next.connections.map Connection.generation =
      stream.connections.map Connection.generation ++ (stream.generation? action).toList := by
  cases h with
  | opens _ hgeneration => simp [hgeneration, Connection.start]
  | disconnects => simp [disconnect, generation?]
  | @accepts _ sending connection _ _ _ hat =>
      have hkeep : (connection.accept sending.message).generation = connection.generation := rfl
      exact (map_generation_set hat hkeep).trans (List.append_nil _).symm
  | flushes hat hturn =>
      have hkeep := (move_of_flush true hturn).generation_eq
      exact (map_generation_set hat hkeep).trans (List.append_nil _).symm
  | arrives hat hturn =>
      have hkeep := (move_of_arrive true hturn).generation_eq
      exact (map_generation_set hat hkeep).trans (List.append_nil _).symm
  | handsOn hat hturn =>
      have hkeep := (move_of_handOn hturn).generation_eq
      exact (map_generation_set hat hkeep).trans (List.append_nil _).symm
  | @finishes _ connection hat =>
      have hkeep : connection.finish.generation = connection.generation := rfl
      exact (map_generation_set hat hkeep).trans (List.append_nil _).symm
  | stands hgeneration _ _ _ hconnections => simp [hgeneration, hconnections]

theorem Happening.nextGeneration_eq (h : stream.Happening action next effects) :
    next.nextGeneration =
      stream.nextGeneration + UInt64.ofNat (stream.generation? action).toList.length := by
  cases h with
  | opens _ hgeneration => simp [hgeneration]
  | disconnects => simp [disconnect, generation?]
  | accepts => simp [generation?]
  | flushes => simp [generation?, apply]
  | arrives => simp [generation?, apply]
  | handsOn => simp [generation?, apply]
  | finishes => simp [generation?]
  | stands hgeneration _ _ hnext => simp [hgeneration, hnext]

theorem Happening.slot_of_occupied (h : stream.Happening action next effects) {slot : Slot}
    (hslot : stream.slot = some slot) :
    next.slot = some slot ∨ (next.slot = none ∧ (action = .disconnect ∨
      ∃ place connection, action = .finish place ∧
        stream.connections[place]? = some connection ∧
        connection.generation = slot.generation)) := by
  cases h with
  | opens hempty => simp [hslot] at hempty
  | disconnects => exact .inr ⟨rfl, .inl rfl⟩
  | accepts => exact .inl hslot
  | flushes => exact .inl hslot
  | arrives => exact .inl hslot
  | handsOn => exact .inl hslot
  | @finishes place connection hat =>
      by_cases heq : slot.generation = connection.generation
      · exact .inr ⟨by simp [hslot, heq], .inr ⟨place, connection, rfl, hat, heq.symm⟩⟩
      · exact .inl (by simp [hslot, heq])
  | stands _ _ hkeep => exact .inl (hkeep.trans hslot)

theorem Happening.slot_of_occupied_next (h : stream.Happening action next effects) {slot : Slot}
    (hslot : next.slot = some slot) :
    stream.slot = some slot ∨
      (slot = ⟨stream.nextGeneration, stream.connections.length⟩ ∧
        next.connections = stream.connections ++ [.start stream.nextGeneration]) := by
  cases h with
  | opens => exact .inr ⟨(Option.some.inj hslot).symm, rfl⟩
  | disconnects => simp [disconnect] at hslot
  | accepts => exact .inl hslot
  | flushes => exact .inl hslot
  | arrives => exact .inl hslot
  | handsOn => exact .inl hslot
  | finishes =>
      simp only at hslot
      split at hslot
      · cases hslot
      · exact .inl hslot
  | stands _ _ hkeep => exact .inl (hkeep.symm.trans hslot)

theorem generation?_eq_some_iff {generation : UInt64} :
    stream.generation? action = some generation ↔
      (∃ endpoint, action = .connect endpoint true) ∧ stream.slot = none ∧
        generation = stream.nextGeneration := by
  constructor
  · intro h
    cases action with
    | connect endpoint reached =>
        cases hslot : stream.slot with
        | some slot => simp [generation?, connect, isConnected, hslot] at h
        | none =>
            cases reached with
            | false => simp [generation?, connect, isConnected, hslot] at h
            | true =>
                refine ⟨⟨endpoint, rfl⟩, rfl, ?_⟩
                simpa [generation?, connect, isConnected, hslot] using h.symm
    | _ => cases h
  · rintro ⟨⟨endpoint, rfl⟩, hslot, rfl⟩
    simp [generation?, connect, isConnected, hslot]

theorem generation?_of_occupied {slot : Slot} (hslot : stream.slot = some slot) :
    stream.generation? action = none := by
  cases hgeneration : stream.generation? action with
  | none => rfl
  | some generation =>
      obtain ⟨-, hempty, -⟩ := generation?_eq_some_iff.mp hgeneration
      simp [hslot] at hempty

/-- An action that leaves the slot as it is leaves the reader of the connection there running. -/
theorem Happening.open_of_slot (h : stream.Happening action next effects) {slot : Slot}
    {before after : Connection} (hslot : next.slot = some slot)
    (hat : stream.connections[slot.connection]? = some before)
    (hgeneration : before.generation = slot.generation) (hopen : before.isFinished = false)
    (hafter : next.connections[slot.connection]? = some after) : after.isFinished = false := by
  by_contra hfinished
  have haction := h.eq_finish hat hopen hafter (by simpa using hfinished)
  subst haction
  cases h with
  | @finishes _ connection hconnection =>
      obtain rfl : before = connection := Option.some.inj (hat.symm.trans hconnection)
      simp only [hgeneration] at hslot
      split at hslot
      · cases hslot
      · rename_i hother
        simp [hslot] at hother
  | stands _ _ _ _ hconnections =>
      rw [hconnections, hat] at hafter
      simp_all

end Happenings

theorem Numbered.ofConfig (config : Config) : Numbered (.ofConfig config) where
  generations := rfl
  next := rfl
  slot := by simp [Stream.ofConfig]

theorem Numbered.step {stream next : Stream} {action : Action} {effects : List Effect}
    (h : stream.Happening action next effects) (hnumbered : Numbered stream) :
    Numbered next := by
  have hmap := h.map_generation
  have hlength : next.connections.length =
      stream.connections.length + (stream.generation? action).toList.length := by
    simpa using congrArg List.length hmap
  refine ⟨?_, ?_, ?_⟩
  · rw [hmap, hnumbered.generations, hlength]
    cases hgeneration : stream.generation? action with
    | none => simp
    | some generation =>
        obtain ⟨-, -, rfl⟩ := generation?_eq_some_iff.mp hgeneration
        simp [List.range_succ, hnumbered.next]
  · rw [h.nextGeneration_eq, hnumbered.next, hlength, UInt64.ofNat_add]
  · intro slot hslot
    rcases h.slot_of_occupied_next hslot with hold | ⟨rfl, hconnections⟩
    · obtain ⟨hlast, connection, hat, hgeneration, hopen⟩ := hnumbered.slot slot hold
      obtain ⟨after, hafter, hmove⟩ := h.move hat
      refine ⟨?_, after, hafter, hmove.generation_eq.trans hgeneration,
        h.open_of_slot hslot hat hgeneration hopen hafter⟩
      rw [hlength, generation?_of_occupied hold]
      simpa using hlast
    · exact ⟨by simp [hconnections], .start stream.nextGeneration, by simp [hconnections], rfl, rfl⟩

theorem Numbered.of_run {config : Config} {stream : Stream} {actions : List Action}
    {effects : List Effect} (hrun : (Stream.ofConfig config).run? actions = some (stream, effects)) :
    Numbered stream :=
  run?_induction (fun h hbefore => hbefore.step h) hrun (.ofConfig config)

/-- The connections of a run carry the generations that it has given out. -/
theorem map_generation_of_run {stream last : Stream} {actions : List Action}
    {effects : List Effect} (hrun : stream.run? actions = some (last, effects)) :
    last.connections.map Connection.generation =
      stream.connections.map Connection.generation ++ stream.generations actions := by
  induction actions generalizing stream effects with
  | nil =>
      cases hrun
      simp [generations]
  | cons action rest ih =>
      obtain ⟨next, first, later, hstep, hrest, rfl⟩ := run?_cons_eq_some_iff.mp hrun
      rw [ih hrest, (happening_of_step hstep).map_generation, generations, hstep,
        List.append_assoc]

theorem ofNat_injective_of_lt {i j : Nat} (hi : i < UInt64.size) (hj : j < UInt64.size)
    (h : UInt64.ofNat i = UInt64.ofNat j) : i = j := by
  have hnat := congrArg UInt64.toNat h
  rwa [UInt64.toNat_ofNat_of_lt' hi, UInt64.toNat_ofNat_of_lt' hj] at hnat

namespace Numbered

variable {stream next : Stream} {action : Action} {effects : List Effect}

theorem nodup (hnumbered : Numbered stream) (hcount : stream.connections.length ≤ UInt64.size) :
    (stream.connections.map Connection.generation).Nodup := by
  rw [hnumbered.generations]
  refine List.Nodup.map_on ?_ List.nodup_range
  intro i hi j hj heq
  exact ofNat_injective_of_lt (Nat.lt_of_lt_of_le (List.mem_range.mp hi) hcount)
    (Nat.lt_of_lt_of_le (List.mem_range.mp hj) hcount) heq

theorem generation_eq (hnumbered : Numbered stream) {place : Nat} {connection : Connection}
    (hat : stream.connections[place]? = some connection) :
    connection.generation = UInt64.ofNat place := by
  obtain ⟨hlt, rfl⟩ := List.getElem?_eq_some_iff.mp hat
  have hnumber := congrArg (fun generations => generations[place]?) hnumbered.generations
  simpa [hlt] using hnumber

theorem place_eq (hnumbered : Numbered stream) (hcount : stream.connections.length ≤ UInt64.size)
    {place other : Nat} {connection another : Connection}
    (hat : stream.connections[place]? = some connection)
    (hother : stream.connections[other]? = some another)
    (heq : connection.generation = another.generation) : place = other := by
  rw [hnumbered.generation_eq hat, hnumbered.generation_eq hother] at heq
  have hplace : place < stream.connections.length := (List.getElem?_eq_some_iff.mp hat).1
  have hless : other < stream.connections.length := (List.getElem?_eq_some_iff.mp hother).1
  exact ofNat_injective_of_lt (Nat.lt_of_lt_of_le hplace hcount)
    (Nat.lt_of_lt_of_le hless hcount) heq

/-- While generations do not repeat, only a caller and the reader of the connection in the slot
can clear it. -/
theorem slot_of_step (hnumbered : Numbered stream) (hcount : stream.connections.length ≤ UInt64.size)
    (h : stream.Happening action next effects) {slot : Slot} (hslot : stream.slot = some slot) :
    next.slot = some slot ∨
      (next.slot = none ∧ (action = .disconnect ∨ action = .finish slot.connection)) := by
  rcases h.slot_of_occupied hslot with hkeep | ⟨hempty, hcause⟩
  · exact .inl hkeep
  · refine .inr ⟨hempty, hcause.imp_right ?_⟩
    rintro ⟨place, connection, rfl, hat, hgeneration⟩
    obtain ⟨-, own, hown, howned, -⟩ := hnumbered.slot slot hslot
    rw [hnumbered.place_eq hcount hat hown (hgeneration.trans howned.symm)]

theorem slot_of_run (hnumbered : Numbered stream) (hcount : stream.connections.length ≤ UInt64.size)
    {slot : Slot} (hslot : stream.slot = some slot) {actions : List Action} {last : Stream}
    (hrun : stream.run? actions = some (last, effects)) (hdisconnect : .disconnect ∉ actions)
    (hfinish : .finish slot.connection ∉ actions) : last.slot = some slot := by
  induction actions generalizing stream effects with
  | nil =>
      cases hrun
      exact hslot
  | cons action rest ih =>
      obtain ⟨next, first, later, hstep, hrest, rfl⟩ := run?_cons_eq_some_iff.mp hrun
      have h := happening_of_step hstep
      simp only [List.mem_cons, not_or] at hdisconnect hfinish
      have hkeep : next.slot = some slot := by
        rcases hnumbered.slot_of_step hcount h hslot with hkeep | ⟨-, hcause | hcause⟩
        · exact hkeep
        · exact absurd hcause.symm hdisconnect.1
        · exact absurd hcause.symm hfinish.1
      have hlength : next.connections.length = stream.connections.length := by
        simpa [generation?_of_occupied hslot] using congrArg List.length h.map_generation
      exact ih (hnumbered.step h) (hlength ▸ hcount) hkeep hrest hdisconnect.2 hfinish.2

theorem getLast?_generation (hnumbered : Numbered stream) {slot : Slot}
    (hslot : stream.slot = some slot) :
    (stream.connections.map Connection.generation).getLast? = some slot.generation := by
  obtain ⟨hlast, connection, hat, hgeneration, -⟩ := hnumbered.slot slot hslot
  rw [List.getLast?_eq_getElem?, List.length_map, ← hlast, Nat.add_sub_cancel, List.getElem?_map,
    hat, Option.map_some, hgeneration]

end Numbered

/-- **Late readers.** In every run that gives out fewer than `2 ^ 64` generations, these are
distinct, and an occupied slot holds the last of them, whose reader has not finished. Only a caller
that disconnects and that reader, in its last step, clear the slot. So a connection stays in the
slot whatever the readers of earlier connections still do. -/
theorem slot_survives_late_readers (config : Config) (actions : List Action) (last : Stream)
    (effects : List Effect) (hrun : (Stream.ofConfig config).run? actions = some (last, effects))
    (hcount : ((Stream.ofConfig config).generations actions).length < UInt64.size) :
    ((Stream.ofConfig config).generations actions).Nodup ∧
      ∀ slot, last.slot = some slot →
        ((Stream.ofConfig config).generations actions).getLast? = some slot.generation ∧
        (∃ connection, last.connections[slot.connection]? = some connection ∧
          connection.generation = slot.generation ∧ connection.isFinished = false) ∧
        (∀ action next more, last.step? action = some (next, more) →
          next.slot = some slot ∨
            (next.slot = none ∧ (action = .disconnect ∨ action = .finish slot.connection))) ∧
        (∀ further final more, last.run? further = some (final, more) →
          .disconnect ∉ further → .finish slot.connection ∉ further →
          final.slot = some slot) := by
  have hnumbered : Numbered last :=
    run?_induction (fun h hbefore => hbefore.step h) hrun (.ofConfig config)
  have hgenerations : (Stream.ofConfig config).generations actions =
      last.connections.map Connection.generation := (map_generation_of_run hrun).symm
  rw [hgenerations] at hcount ⊢
  have hlength : last.connections.length ≤ UInt64.size := by
    simpa using Nat.le_of_lt hcount
  refine ⟨hnumbered.nodup hlength, fun slot hslot => ⟨hnumbered.getLast?_generation hslot, ?_⟩⟩
  obtain ⟨-, connection, hat, hgeneration, hopen⟩ := hnumbered.slot slot hslot
  refine ⟨⟨connection, hat, hgeneration, hopen⟩, ?_, ?_⟩
  · intro action next more hstep
    exact hnumbered.slot_of_step hlength (happening_of_step hstep) hslot
  · intro further final more hfurther hdisconnect hfinish
    exact hnumbered.slot_of_run hlength hslot hfurther hdisconnect hfinish

/-- Two connections have been opened, the first has been given up and its reader still runs. -/
def reopened : List Action := [.connect .market true, .disconnect, .connect .account true]

/-- The reader of a first connection closes it and finishes after a second one has been opened. -/
theorem second_slot_survives_first_reader :
    (Stream.ofConfig .standard).generations reopened = [0, 1] ∧
      ∃ last effects, (Stream.ofConfig .standard).run? reopened =
          some (last, effects) ∧ last.slot = some ⟨1, 1⟩ ∧
        ∃ final more, last.run? [.flush 0 true, .finish 0] = some (final, more) ∧
          final.slot = some ⟨1, 1⟩ := by
  refine ⟨rfl, _, _, rfl, rfl, _, _, rfl, ?_⟩
  have hsurvives := slot_survives_late_readers .standard reopened _ _ rfl (by decide)
  exact (hsurvives.2 ⟨1, 1⟩ rfl).2.2.2 [.flush 0 true, .finish 0] _ _ rfl (by simp) (by simp)

end SpotWire.Stream
