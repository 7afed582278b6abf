import SpotWire.Message.Inbound

/-!
Messages that are sent to the exchange over a stream. On the wire the member `event` names the
kind of message; an array gives the name first and the message's one field second.
-/

namespace SpotWire

open Json Wire

inductive Outbound where
  | subscribe (channel : String)
  | unsubscribe (channel : String)
  | pong (time : Option Value)
deriving Repr

namespace Outbound

inductive Kind where
  | subscribe
  | unsubscribe
  | pong
deriving DecidableEq, Repr

instance : Named Kind where
  all := [.subscribe, .unsubscribe, .pong]
  name
    | .subscribe => "subscribe"
    | .unsubscribe => "unsubscribe"
    | .pong => "pong"

def ofPing (ping : Ping) : Outbound :=
  .pong ping.time

/-- Keeps a connection alive; there is no time to send back. -/
def keepalive : Outbound :=
  .pong none

def toValue : Outbound → Value
  | .subscribe channel => .object [("event", .string "subscribe"), ("channel", .string channel)]
  | .unsubscribe channel =>
      .object [("event", .string "unsubscribe"), ("channel", .string channel)]
  | .pong time => .object [("event", .string "pong"), ("time", .ofOption id time)]

def text (message : Outbound) : String :=
  message.toValue.text

def describe : String := "internally tagged enum OutboundMessage"

def decodeKind : Decoder Kind := fun _ node =>
  match node with
  | .string name => do Named.ofName (← orBroken name)
  | node => unexpected node identifierText

/-- The name of the field of a message kind, and how a message is made from its content. -/
structure Field where
  name : String
  variantName : String
  /-- The message when the field is missing, if it may be. -/
  missing : Option Outbound
  decode : Decoder Outbound

def Kind.field : Kind → Field
  | .subscribe =>
      ⟨"channel", "Subscribe", none, fun reading node => (string reading node).map .subscribe⟩
  | .unsubscribe =>
      ⟨"channel", "Unsubscribe", none, fun reading node => (string reading node).map .unsubscribe⟩
  | .pong =>
      ⟨"time", "Pong", some (.pong none), fun reading node =>
        (optional value reading node).map .pong⟩

/-- Reads all members of an object; the kind is known by the member `event`, the others are
kept. -/
def readMembers (reading : Reading) (kind : Option Kind) (others : List (String × Node)) :
    List (Except Fault String × Node) → Ending → Except Problem (Option Kind × List (String × Node))
  | [], ending =>
      match ending.readFault? with
      | none => .ok (kind, others.reverse)
      | some fault => .error (.broken fault)
  | (key, content) :: rest, ending => do
      let key ← orBroken key
      if key = "event" then
        let kind ← fill "event" kind decodeKind reading content
        readMembers reading kind others rest ending
      else
        let _ ← value reading content
        readMembers reading kind ((key, content) :: others) rest ending

/-- Makes a message from the members that have been kept. -/
def ofMembers (field : Field) (held : Option Outbound) :
    List (String × Node) → Except Problem Outbound
  | [] =>
      match held with
      | some message => .ok message
      | none => require field.name field.missing
  | (key, content) :: rest => do
      if key = field.name then
        let held ← fill field.name held field.decode .ofHeld content
        ofMembers field held rest
      else ofMembers field held rest

def ofItems (kind : Kind) (items : List Node) : Except Problem Outbound :=
  let field := kind.field
  match items with
  | [] => fail (.length 0 ("struct variant OutboundMessage::" ++ field.variantName ++
      " with 1 element"))
  | [item] => field.decode .ofHeld item
  | item :: rest => do
      let _ ← field.decode .ofHeld item
      fail (.length (rest.length + 1) "1 element in sequence")

def decode : Decoder Outbound := fun reading node =>
  match node with
  | .object members ending => do
      let reading ← reading.enter
      let (kind, others) ← readMembers reading none [] members ending
      let kind ← require "event" kind
      ofMembers kind.field none others
  | .array nodes ending => do
      let reading ← reading.enter
      match nodes with
      | [] =>
          match ending.readFault? with
          | some fault => .error (.broken fault)
          | none => fail (.missingField "event")
      | first :: rest => do
          let kind ← decodeKind reading first
          let _ ← Wire.items value reading rest ending
          ofItems kind rest
  | node => unexpected node describe

end Outbound

/-- The answer to a ping, where the message is one. -/
def Inbound.pongReply? (message : Inbound) : Option Outbound :=
  message.ping.map Outbound.ofPing

end SpotWire
