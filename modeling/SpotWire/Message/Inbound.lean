import SpotWire.Numeric.Width
import SpotWire.Text.Search
import SpotWire.Wire.Record

/-!
Messages that the exchange sends over a stream, and what they are.

A message is kept as it came, member by member, beside its classification. A member that was
there as `null` is told apart from one that was missing; on the wire both are `null`.
-/

namespace SpotWire

open Json Numeric Wire

inductive MessageKind where
  | ping
  | subscriptionAck
  | unsubscriptionAck
  | data
deriving DecidableEq, Repr

instance : Named MessageKind where
  all := [.ping, .subscriptionAck, .unsubscriptionAck, .data]
  name
    | .ping => "ping"
    | .subscriptionAck => "subscription_ack"
    | .unsubscriptionAck => "unsubscription_ack"
    | .data => "data"

inductive PayloadKind where
  | ticker
  | orderbook
  | trades
  | kline
  | account
  | orders
  | fills
deriving DecidableEq, Repr

instance : Named PayloadKind where
  all := [.ticker, .orderbook, .trades, .kline, .account, .orders, .fills]
  name
    | .ticker => "ticker"
    | .orderbook => "orderbook"
    | .trades => "trades"
    | .kline => "kline"
    | .account => "account"
    | .orders => "orders"
    | .fills => "fills"

namespace MessageKind

def ofEvent? (event : String) : Option MessageKind :=
  if event = "ping" then some .ping
  else if event = "subscribed" then some .subscriptionAck
  else if event = "unsubscribed" then some .unsubscriptionAck
  else if event = "payload" then some .data
  else none

end MessageKind

namespace PayloadKind

/-- The family of the payloads of a channel. Public channels are known by a word anywhere in
their name, private ones by their whole name. -/
def ofChannel? (channel : String) : Option PayloadKind :=
  if Text.mentions "ticker" channel then some .ticker
  else if Text.mentions "depth" channel then some .orderbook
  else if Text.mentions "trades" channel then some .trades
  else if Text.mentions "kline" channel then some .kline
  else if channel = "account" then some .account
  else if channel = "orders" then some .orders
  else if channel = "fill" then some .fills
  else none

end PayloadKind

/-- The time that a ping carries, to be sent back. -/
structure Ping where
  time : Option Value
deriving Repr

namespace Ping

def toValue (ping : Ping) : Value :=
  .object [("time", .ofOption id ping.time)]

structure Draft where
  time : Option (Option Value)

def Draft.setTime (reading : Reading) (draft : Draft) (content : Node) :
    Except Problem Draft := do
  .ok { draft with time := ← fill "time" draft.time (optional value) reading content }

def shape : Shape Draft where
  name := "PingData"
  set reading
    | "time" => some (Draft.setTime reading)
    | _ => none
  places reading := [⟨Draft.setTime reading, false⟩]

def decode : Decoder Ping := fun reading node =>
  (shape.decode ⟨none⟩ reading node).map fun draft => ⟨draft.time.join⟩

end Ping

structure Inbound where
  /-- The event, whatever its type. -/
  event : Option Value
  channel : Option String
  data : Option Value
  timestamp : Option Value
  kind : Option MessageKind
  payload : Option PayloadKind
  ping : Option Ping
deriving Repr

namespace Inbound

def eventName? (message : Inbound) : Option String :=
  message.event.bind Value.string?

def isPing (message : Inbound) : Bool :=
  message.kind == some .ping

/-- Classifies a value by its event. A payload is classified further by its channel. -/
def ofValue (value : Value) : Inbound :=
  let event := value.member? "event"
  let channel := (value.member? "channel").bind Value.string?
  let kind := (event.bind Value.string?).bind MessageKind.ofEvent?
  { event
    channel
    data := value.member? "data"
    timestamp := value.member? "timestamp"
    kind
    payload := if kind = some .data then PayloadKind.ofChannel? (channel.getD "") else none
    ping := if kind = some .ping then some ⟨value.member? "time"⟩ else none }

def ofText (text : String) : Except Problem Inbound :=
  (Wire.ofText value text).map ofValue

/-- A whole number of 64 bits from its digits, perhaps after a sign. -/
def integerOfText? (text : List Char) : Option Int :=
  let (negative, digits) :=
    match text with
    | '-' :: rest => (true, rest)
    | '+' :: rest => (false, rest)
    | rest => (false, rest)
  if digits.isEmpty || !digits.all Char.isDigit then none
  else
    let size : Int := Nat.ofDigitChars 10 digits 0
    let n := if negative then -size else size
    if int64Min ≤ n ∧ n ≤ int64Max then some n else none

/-- The first and the last millisecond of the calendar. -/
def minMillis : Int := -8334601228800000

def maxMillis : Int := 8210266876799999

/-- The timestamp in milliseconds, where it is a whole number, or its digits, in the calendar. -/
def millis? (message : Inbound) : Option Int :=
  let millis :=
    match message.timestamp with
    | some (.number (.integer n)) => if n ≤ int64Max then some n else none
    | some (.string text) => integerOfText? text.toList
    | _ => none
  millis.filter fun n => minMillis ≤ n && n ≤ maxMillis

/-- The classification is left out where there is none. -/
def toValue (message : Inbound) : Value :=
  .object <|
    [("event_type", .ofOption id message.event), ("channel", .ofOption .string message.channel),
      ("data", .ofOption id message.data), ("timestamp", .ofOption id message.timestamp)] ++
    (message.kind.map fun kind => ("message_type", Value.string (Named.name kind))).toList ++
    (message.payload.map fun payload => ("data_type", Value.string (Named.name payload))).toList ++
    (message.ping.map fun ping => ("ping_data", ping.toValue)).toList

structure Draft where
  event : Option (Option Value)
  channel : Option (Option String)
  data : Option (Option Value)
  timestamp : Option (Option Value)
  kind : Option (Option MessageKind)
  payload : Option (Option PayloadKind)
  ping : Option (Option Ping)

namespace Draft

def empty : Draft := ⟨none, none, none, none, none, none, none⟩

def setEvent (reading : Reading) (draft : Draft) (content : Node) : Except Problem Draft := do
  .ok { draft with
    event := ← fill "event_type" draft.event (optional value) reading content }

def setChannel (reading : Reading) (draft : Draft) (content : Node) : Except Problem Draft := do
  .ok { draft with
    channel := ← fill "channel" draft.channel (optional string) reading content }

def setData (reading : Reading) (draft : Draft) (content : Node) : Except Problem Draft := do
  .ok { draft with data := ← fill "data" draft.data (optional value) reading content }

def setTimestamp (reading : Reading) (draft : Draft) (content : Node) :
    Except Problem Draft := do
  .ok { draft with
    timestamp := ← fill "timestamp" draft.timestamp (optional value) reading content }

def setKind (reading : Reading) (draft : Draft) (content : Node) : Except Problem Draft := do
  .ok { draft with
    kind := ← fill "message_type" draft.kind (optional variant) reading content }

def setPayload (reading : Reading) (draft : Draft) (content : Node) : Except Problem Draft := do
  .ok { draft with
    payload := ← fill "data_type" draft.payload (optional variant) reading content }

def setPing (reading : Reading) (draft : Draft) (content : Node) : Except Problem Draft := do
  .ok { draft with
    ping := ← fill "ping_data" draft.ping (optional Ping.decode) reading content }

def toInbound (draft : Draft) : Inbound :=
  ⟨draft.event.join, draft.channel.join, draft.data.join, draft.timestamp.join, draft.kind.join,
    draft.payload.join, draft.ping.join⟩

end Draft

def shape : Shape Draft where
  name := "ParsedMessage"
  set reading
    | "event_type" => some (Draft.setEvent reading)
    | "channel" => some (Draft.setChannel reading)
    | "data" => some (Draft.setData reading)
    | "timestamp" => some (Draft.setTimestamp reading)
    | "message_type" => some (Draft.setKind reading)
    | "data_type" => some (Draft.setPayload reading)
    | "ping_data" => some (Draft.setPing reading)
    | _ => none
  places reading :=
    [⟨Draft.setEvent reading, false⟩, ⟨Draft.setChannel reading, false⟩,
      ⟨Draft.setData reading, false⟩, ⟨Draft.setTimestamp reading, false⟩,
      ⟨Draft.setKind reading, false⟩, ⟨Draft.setPayload reading, false⟩,
      ⟨Draft.setPing reading, false⟩]

/-- Reads a message with its classification. -/
def decode : Decoder Inbound := fun reading node =>
  (shape.decode .empty reading node).map Draft.toInbound

end Inbound

end SpotWire
