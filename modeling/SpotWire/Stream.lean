import SpotWire.Stream.Connection
import SpotWire.Stream.Samples

/-!
A stream of the exchange: at most one connection at a time takes messages to the exchange, and all
connections deliver to one receiver.

A connection that has been given up still has a reader that works on it for a while. The
connection in the slot is known by its generation, so that an earlier reader that finishes late
does not clear the slot of a later connection. Queues have a bounded capacity, and so have the
messages that wait to be received: who has to wait for room does so before taking a step.
-/

namespace SpotWire

open Wire

/-- A feed that a caller wants to hear of, or not any more. -/
structure Subscription where
  kind : FeedKind
  symbol : Option String
  params : ChannelParams
deriving DecidableEq, Repr

namespace Stream

inductive Change where
  | subscribe
  | unsubscribe
deriving DecidableEq, Repr

def Change.message : Change → String → Outbound
  | .subscribe, channel => .subscribe channel
  | .unsubscribe, channel => .unsubscribe channel

/-- Where a connection leads: to the data of the market, or to those of an account. -/
inductive Endpoint where
  | market
  | account
deriving DecidableEq, Repr

/-- The connection that takes messages. -/
structure Slot where
  generation : UInt64
  /-- The place of the connection among all connections. -/
  connection : Nat
deriving DecidableEq, Repr

/-- A message on its way to the queue of a connection. -/
structure Sending where
  connection : Nat
  message : Outbound
deriving Repr

inductive Receiver where
  | kept
  | taken
  | dropped
deriving DecidableEq, Repr

inductive Effect where
  | accepted (connection : Nat) (message : Outbound)
  | wrote (connection : Nat) (frame : Frame)
  | delivered (connection : Nat) (message : Inbound)
  | logged (event : LogEvent)
deriving Repr

inductive Reception where
  | message (message : Inbound)
  | empty
  | noReceiver
deriving Repr

end Stream

structure Stream where
  marketUrl : String
  accountUrl : String
  symbolSuffix : String
  slot : Option Stream.Slot
  nextGeneration : UInt64
  /-- All connections there have been, in their order. -/
  connections : List Stream.Connection
  sendings : List Stream.Sending
  receiver : Stream.Receiver
  /-- The messages that have been delivered and not been received yet. -/
  inbox : List Inbound
  samples : Stream.Samples
deriving Repr

namespace Stream

structure Outcome (α : Type) where
  stream : Stream
  effects : List Effect
  answer : Except Failure α

def ofConfig (config : Config) : Stream :=
  { marketUrl := config.publicStreamUrl
    accountUrl := config.privateStreamUrl
    symbolSuffix := config.symbolSuffix
    slot := none
    nextGeneration := 0
    connections := []
    sendings := []
    receiver := .kept
    inbox := []
    samples := .none }

def isConnected (stream : Stream) : Bool :=
  stream.slot.isSome

/-- Whether a message can still get to the queue of a connection. -/
def hasSenders (stream : Stream) (place : Nat) : Bool :=
  stream.slot.any (·.connection == place) || stream.sendings.any (·.connection == place)

def isReceiverOpen (stream : Stream) : Bool :=
  stream.receiver != .dropped

/-- Whether one more message can be delivered. -/
def hasRoom (stream : Stream) : Bool :=
  stream.inbox.length < capacity

/-! ### Connecting -/

def url (stream : Stream) : Endpoint → String
  | .market => stream.marketUrl
  | .account => stream.accountUrl

def connectedEvent (url : String) : LogEvent := ⟨.info, "ws connected", [("url", .text url)]⟩

/-- Opens a connection of the next generation, if the peer is reached. -/
def connect (stream : Stream) (endpoint : Endpoint) (reached : Bool) : Outcome Unit :=
  if stream.isConnected then ⟨stream, [], .error (.stream .alreadyConnected)⟩
  else if !reached then ⟨stream, [], .error (.stream .transport)⟩
  else
    { stream :=
        { stream with
          slot := some ⟨stream.nextGeneration, stream.connections.length⟩
          nextGeneration := stream.nextGeneration + 1
          connections := stream.connections ++ [.start stream.nextGeneration] }
      effects := [.logged (connectedEvent (stream.url endpoint))]
      answer := .ok () }

/-- Gives the connection up; its reader writes what is queued and closes it. -/
def disconnect (stream : Stream) : Stream :=
  { stream with slot := none }

/-! ### Sending -/

/-- Begins to ask for a change: the message for it is on its way over the connection in the slot.
The answer is the channel. -/
def beginRequest (stream : Stream) (change : Change) (subscription : Subscription) :
    Outcome String :=
  let outcome :=
    Channel.ofFeed stream.symbolSuffix subscription.kind subscription.symbol subscription.params
  let effects := (Channel.events subscription.kind outcome).map .logged
  match outcome with
  | .error fault => ⟨stream, effects, .error (.ofChannel fault)⟩
  | .ok channel =>
      match stream.slot with
      | none => ⟨stream, effects, .error (.stream .notConnected)⟩
      | some slot =>
          { stream :=
              { stream with
                sendings := stream.sendings ++ [⟨slot.connection, change.message channel⟩] }
            effects
            answer := .ok channel }

/-- Puts a message into the queue of its connection, unless the reader has finished. -/
def enqueue (stream : Stream) (sending : Sending) : Outcome Unit :=
  match stream.connections[sending.connection]? with
  | none => ⟨stream, [], .error (.stream .closed)⟩
  | some connection =>
      if connection.isFinished then ⟨stream, [], .error (.stream .closed)⟩
      else
        let (samples, events) := stream.samples.countSent sending.message
        { stream :=
            { stream with
              connections :=
                stream.connections.set sending.connection (connection.accept sending.message)
              samples }
          effects := .accepted sending.connection sending.message :: events.map .logged
          answer := .ok () }

/-- Whether a message on its way has to wait for room in the queue of its connection. -/
def mustWait (stream : Stream) (sending : Sending) : Bool :=
  stream.connections[sending.connection]?.any Connection.isFull

/-- The message on its way at a place gets to the queue of its connection, or is refused there. -/
def finishRequest? (stream : Stream) (place : Nat) : Option (Outcome Unit) := do
  let sending ← stream.sendings[place]?
  if stream.mustWait sending then none
  else some ({ stream with sendings := stream.sendings.eraseIdx place }.enqueue sending)

/-- Asks for a change without interruption, if that needs not wait. -/
def request? (stream : Stream) (change : Change) (subscription : Subscription) :
    Option (Outcome String) :=
  let begun := stream.beginRequest change subscription
  match begun.answer with
  | .error _ => some begun
  | .ok channel =>
      (begun.stream.finishRequest? stream.sendings.length).map fun finished =>
        { stream := finished.stream
          effects := begun.effects ++ finished.effects
          answer := finished.answer.map fun _ => channel }

/-! ### Readers -/

/-- Counts the text that was no message, if there was one. -/
def countUnreadable (samples : Samples) : Option (Problem × String) → Samples × List LogEvent
  | none => (samples, [])
  | some (problem, text) => samples.countUnreadable problem text

/-- Takes over what the reader of a connection has done in a turn. -/
def apply (stream : Stream) (place : Nat) (turn : Turn) : Stream × List Effect :=
  let (samples, events) := countUnreadable stream.samples turn.unreadable
  ({ stream with
      connections := stream.connections.set place turn.connection
      inbox := stream.inbox ++ turn.delivered.toList
      samples },
    (events ++ turn.events).map .logged ++ turn.written.toList.map (.wrote place) ++
      turn.delivered.toList.map (.delivered place))

def flush? (stream : Stream) (place : Nat) (canWrite : Bool) : Option (Stream × List Effect) := do
  let connection ← stream.connections[place]?
  let turn ← connection.flush? (stream.hasSenders place) canWrite
  some (stream.apply place turn)

/-- A turn in which a reader handles what has arrived. -/
def arrive? (stream : Stream) (place : Nat) (arrival : Arrival) (canWrite : Bool) :
    Option (Stream × List Effect) := do
  let connection ← stream.connections[place]?
  let turn ← connection.arrive? arrival canWrite
  some (stream.apply place turn)

/-- A turn in which a reader hands on the message that it holds. -/
def handOn? (stream : Stream) (place : Nat) : Option (Stream × List Effect) := do
  let connection ← stream.connections[place]?
  let turn ← connection.handOn? stream.isReceiverOpen stream.hasRoom
  some (stream.apply place turn)

def closedEvent (generation : UInt64) : LogEvent :=
  ⟨.info, "ws stream closed", [("generation", .count generation.toNat)]⟩

/-- The last step of a reader: it clears the slot if the connection there is its own. -/
def finish? (stream : Stream) (place : Nat) : Option (Stream × List Effect) := do
  let connection ← stream.connections[place]?
  if connection.isLeaving then
    let own := stream.slot.any fun slot => slot.generation == connection.generation
    some
      ({ stream with
          connections := stream.connections.set place connection.finish
          slot := if own then none else stream.slot },
        [.logged (closedEvent connection.generation)])
  else none

/-! ### Receiving -/

/-- Takes the receiving end, which can be done once. -/
def takeReceiver (stream : Stream) : Bool × Stream :=
  match stream.receiver with
  | .kept => (true, { stream with receiver := .taken })
  | _ => (false, stream)

/-- Drops the receiving end, if it has been taken, with all that has been delivered. -/
def dropReceiver (stream : Stream) : Bool × Stream :=
  match stream.receiver with
  | .taken => (true, { stream with receiver := .dropped, inbox := [] })
  | _ => (false, stream)

def receive (stream : Stream) : Reception × Stream :=
  match stream.receiver, stream.inbox with
  | .taken, message :: rest => (.message message, { stream with inbox := rest })
  | .taken, [] => (.empty, stream)
  | _, _ => (.noReceiver, stream)

end Stream

end SpotWire
