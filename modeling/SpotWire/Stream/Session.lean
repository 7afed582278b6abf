import SpotWire.Stream.Run

/-!
A stream together with its peer. After every call and everything that the peer does, the readers
do all that they can before the next one.
-/

namespace SpotWire.Stream

namespace Effect

def frame? (place : Nat) : Effect → Option Frame
  | .wrote connection frame => if connection = place then some frame else none
  | _ => none

def event? : Effect → Option LogEvent
  | .logged event => some event
  | _ => none

end Effect

/-- Lets the reader of a connection take its turns until it has to wait for its peer, at most as
many as stated. -/
def work (stream : Stream) (place : Nat) : Nat → Stream × List Effect
  | 0 => (stream, [])
  | turns + 1 =>
      match (stream.handOn? place).or (stream.flush? place true) with
      | some (next, effects) =>
          let (last, more) := next.work place turns
          (last, effects ++ more)
      | none => (stream.finish? place).getD (stream, [])

/-- The turns that a reader has left: one for the message that it holds, one for each message in its
queue, and two to close. -/
def turnsLeft (stream : Stream) (place : Nat) : Nat :=
  match stream.connections[place]? with
  | none => 0
  | some connection => connection.queue.length + 3

def workAll (stream : Stream) : Stream × List Effect :=
  (List.range stream.connections.length).foldl
    (fun state place =>
      let (next, effects) := state.1.work place (state.1.turnsLeft place)
      (next, state.2 ++ effects))
    (stream, [])

structure Session where
  stream : Stream
  /-- Whether the peer accepts connections. -/
  reachable : Bool
  /-- What the peer has seen of the connections given up, at their end, since it was last asked. -/
  givenUp : List Frame

namespace Session

/-- What becomes of a session: what the peer sees on the connection in use, the log, the session
after it. -/
structure Report where
  session : Session
  frames : List Frame
  events : List LogEvent

def ofConfig (config : Config) (reachable : Bool) : Session :=
  ⟨.ofConfig config, reachable, []⟩

/-- Lets the readers work after some effects. Frames are those of the connection in use before. -/
def settle (session : Session) (stream : Stream) (effects : List Effect) : Report :=
  let (next, more) := stream.workAll
  let effects := effects ++ more
  { session := { session with stream := next }
    frames :=
      match session.stream.slot with
      | none => []
      | some slot => effects.filterMap (Effect.frame? slot.connection)
    events := effects.filterMap Effect.event? }

def connect (session : Session) (endpoint : Endpoint) : Except Failure Unit × Report :=
  let outcome := session.stream.connect endpoint session.reachable
  (outcome.answer, session.settle outcome.stream outcome.effects)

/-- Asks for a change; `none` if that would have to wait. -/
def request? (session : Session) (change : Change) (subscription : Subscription) :
    Option (Except Failure String × Report) :=
  (session.stream.request? change subscription).map fun outcome =>
    (outcome.answer, session.settle outcome.stream outcome.effects)

/-- Whether the reader of the connection in use waits for room, so that the peer gets no answer. -/
def isBlocked (session : Session) : Bool :=
  session.stream.slot.any fun slot =>
    session.stream.connections[slot.connection]?.any fun connection => connection.held?.isSome

/-- The peer does something on the connection in use; `none` if there is no such connection. -/
def arrive? (session : Session) (arrival : Arrival) : Option Report := do
  let slot ← session.stream.slot
  let (stream, effects) ← session.stream.arrive? slot.connection arrival true
  some (session.settle stream effects)

def disconnect (session : Session) : Report :=
  let report := session.settle session.stream.disconnect []
  if session.stream.isConnected then
    { report with
      session :=
        { report.session with givenUp := report.session.givenUp ++ report.frames } }
  else report

/-- What the peer has seen of the connections given up since it was last asked. -/
def takeGivenUp (session : Session) : List Frame × Session :=
  (session.givenUp, { session with givenUp := [] })

def takeReceiver (session : Session) : Bool × Session :=
  let (taken, stream) := session.stream.takeReceiver
  (taken, { session with stream })

def dropReceiver (session : Session) : Bool × Session :=
  let (dropped, stream) := session.stream.dropReceiver
  (dropped, { session with stream })

def receive (session : Session) : Reception × Session :=
  let (reception, stream) := session.stream.receive
  (reception, { session with stream })

end Session

end SpotWire.Stream
