import SpotWire.Envelope
import SpotWire.Failure
import SpotWire.Log

/-!
What the reply to a request comes to.
-/

namespace SpotWire

open Wire

structure Reply where
  status : Nat
  body : String
deriving DecidableEq, Repr

namespace Reply

def isGranted (reply : Reply) : Bool :=
  200 ≤ reply.status && reply.status < 300

/-- What an envelope comes to: its data, or why there are none. -/
def ofEnvelope {α : Type} (envelope : Envelope α) : Except Failure α :=
  if envelope.isSuccess then
    match envelope.data with
    | some data => .ok data
    | none => .error (.invalidReply "response has no data")
  else .error (.ofRejected envelope.code envelope.message)

/-- The data of a reply. A body that is no envelope counts as the message of an error status. -/
def data {α : Type} (decode : Decoder α) (reply : Reply) : Except Failure α :=
  match ofText (Envelope.decode decode) reply.body with
  | .ok envelope => ofEnvelope envelope
  | .error problem =>
      if reply.isGranted then .error (.unreadable problem)
      else .error (.ofStatus reply.status reply.body)

def rejectedEvent (code message : String) : LogEvent :=
  ⟨.debug, "weex api error", [("code", .text code), ("msg", .text message)]⟩

/-- What the log says of a reply: that a request was rejected. -/
def events {α : Type} (decode : Decoder α) (reply : Reply) : List LogEvent :=
  match ofText (Envelope.decode decode) reply.body with
  | .ok envelope =>
      if envelope.isSuccess then [] else [rejectedEvent envelope.code envelope.message]
  | .error _ => []

end Reply

end SpotWire
