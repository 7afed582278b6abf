import SpotWire.Message.Outbound
import SpotWire.Text.Octets

/-!
Frames of a stream connection, and what reading a connection gives.
-/

namespace SpotWire.Stream

inductive Frame where
  | text (content : String)
  | binary (octets : List Nat)
  | ping
  | pong
  | close
deriving DecidableEq, Repr

/-- What reading a connection gives: a frame, a failure with its reason, or nothing any more. -/
inductive Arrival where
  | frame (frame : Frame)
  | failure (reason : String)
  | ended
deriving DecidableEq, Repr

namespace Frame

def ofMessage (message : Outbound) : Frame :=
  .text message.text

/-- The text that a frame carries: octets count as their text in UTF-8, if they are one. -/
def text? : Frame → Option String
  | .text content => some content
  | .binary octets => (Text.ofOctets? octets).map String.ofList
  | _ => none

def message? (frame : Frame) : Option Inbound :=
  frame.text?.bind fun text => (Inbound.ofText text).toOption

end Frame

end SpotWire.Stream
