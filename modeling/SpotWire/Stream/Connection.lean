import SpotWire.Log
import SpotWire.Stream.Frame

/-!
One connection of a stream and the reader that serves it.

A reader takes turns: it writes a message that has been queued, or handles what has arrived. A
message that has arrived is handed on before anything else is done, and waits for room if there is
none. The reader stops serving for one of a few reasons, and some time later it finishes.
-/

namespace SpotWire.Stream

open Wire

/-- As many messages fit the queue of a connection, and as many those that have been delivered. -/
def capacity : Nat := 100

/-- Why a reader has stopped to serve its connection. -/
inductive Departure where
  /-- Everything queued has been written and nothing more can be queued. -/
  | drained
  | peerClosed
  | writeFailed
  | readFailed
  | peerGone
  /-- Nobody receives the messages any more. -/
  | receiverGone
deriving DecidableEq, Repr

inductive Phase where
  | serving
  /-- A message has been read and waits to be handed on. -/
  | holding (message : Inbound)
  | leaving (why : Departure)
  | finished
deriving Repr

structure Connection where
  generation : UInt64
  /-- The messages that have been accepted and not been written yet. -/
  queue : List Outbound
  phase : Phase
deriving Repr

/-- What a reader does in one turn, and the connection after it. -/
structure Turn where
  connection : Connection
  written : Option Frame
  delivered : Option Inbound
  unreadable : Option (Problem × String)
  events : List LogEvent
deriving Repr

def readFailedEvent (reason : String) : LogEvent :=
  ⟨.warn, "ws read failed", [("error", .text reason)]⟩

namespace Connection

def start (generation : UInt64) : Connection := ⟨generation, [], .serving⟩

def isServing (connection : Connection) : Bool :=
  connection.phase matches .serving

/-- The message that waits to be handed on. -/
def held? (connection : Connection) : Option Inbound :=
  match connection.phase with
  | .holding message => some message
  | _ => none

def isLeaving (connection : Connection) : Bool :=
  connection.phase matches .leaving _

def isFinished (connection : Connection) : Bool :=
  connection.phase matches .finished

def hasStopped (connection : Connection) : Bool :=
  connection.isLeaving || connection.isFinished

/-- Whether a message for the queue has to wait for room there. -/
def isFull (connection : Connection) : Bool :=
  !connection.isFinished && capacity ≤ connection.queue.length

def accept (connection : Connection) (message : Outbound) : Connection :=
  { connection with queue := connection.queue ++ [message] }

def serve (connection : Connection) : Connection :=
  { connection with phase := .serving }

def hold (connection : Connection) (message : Inbound) : Connection :=
  { connection with phase := .holding message }

def leave (connection : Connection) (why : Departure) : Connection :=
  { connection with phase := .leaving why }

def finish (connection : Connection) : Connection :=
  { connection with phase := .finished }

/-- A turn in which nothing leaves the reader. -/
def idle (connection : Connection) : Turn := ⟨connection, none, none, none, []⟩

/-- Says goodbye to the peer, where it still listens. -/
def close (connection : Connection) (why : Departure) (canWrite : Bool) : Turn :=
  { (connection.leave why).idle with written := if canWrite then some .close else none }

/-- Takes the next message from the queue and writes it. When the queue is empty and nothing can be
queued any more, closes the connection; while something can, there is nothing to do. -/
def flush? (connection : Connection) (hasSenders canWrite : Bool) : Option Turn :=
  if !connection.isServing then none
  else
    match connection.queue with
    | message :: rest =>
        let connection := { connection with queue := rest }
        if canWrite then some { connection.idle with written := some (.ofMessage message) }
        else some (connection.leave .writeFailed).idle
    | [] => if hasSenders then none else some (connection.close .drained canWrite)

/-- Handles a message: a ping is answered first, then the message is to be handed on. -/
def handle (connection : Connection) (message : Inbound) (canWrite : Bool) : Turn :=
  match message.pongReply? with
  | none => (connection.hold message).idle
  | some reply =>
      if canWrite then { (connection.hold message).idle with written := some (.ofMessage reply) }
      else (connection.leave .writeFailed).idle

/-- Handles what has arrived. A frame without a message is passed over. -/
def arrive? (connection : Connection) (arrival : Arrival) (canWrite : Bool) : Option Turn :=
  if !connection.isServing then none
  else
    match arrival with
    | .failure reason =>
        some { (connection.leave .readFailed).idle with events := [readFailedEvent reason] }
    | .ended => some (connection.leave .peerGone).idle
    | .frame .close => some (connection.close .peerClosed canWrite)
    | .frame frame =>
        match frame.text? with
        | none => some connection.idle
        | some text =>
            match Inbound.ofText text with
            | .error problem => some { connection.idle with unreadable := some (problem, text) }
            | .ok message => some (connection.handle message canWrite)

/-- Hands on the message that waits for it, once there is room. If nobody receives messages any
more, the reader leaves. -/
def handOn? (connection : Connection) (receiverOpen hasRoom : Bool) : Option Turn :=
  match connection.phase with
  | .holding message =>
      if !receiverOpen then some (connection.leave .receiverGone).idle
      else if hasRoom then some { connection.serve.idle with delivered := some message }
      else none
  | _ => none

end Connection

end SpotWire.Stream
