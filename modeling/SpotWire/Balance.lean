import SpotWire.Moment.Reader
import SpotWire.Numeric.Decimal.OfBinary
import SpotWire.Numeric.Decimal.Reader
import SpotWire.Wire.Record

/-!
Balances of an account, coin by coin, as the trading framework holds them before the first balance
has been fetched.
-/

namespace SpotWire

open Json Wire
open Numeric (Decimal)

/-- Amounts of coins, in the order of the coins' names. -/
abbrev Amounts := List (String × Decimal)

structure Balance where
  info : List (String × Value)
  moment : Option Moment
  timestamp : Option Int
  total : Amounts
  free : Amounts
  used : Amounts

namespace Balance

def empty : Balance := ⟨[], none, none, [], [], []⟩

def amountsValue (amounts : Amounts) : Value :=
  .object (amounts.map fun entry => (entry.1, .string (String.ofList entry.2.text)))

def toValue (balance : Balance) : Value :=
  .object
    [("info", .object balance.info),
      ("datetime", .ofOption (fun moment => .string moment.text) balance.moment),
      ("timestamp", .ofOption (fun time => .number (.integer time)) balance.timestamp),
      ("total", amountsValue balance.total), ("free", amountsValue balance.free),
      ("used", amountsValue balance.used)]

def decimalText : String := "a Decimal type representing a fixed-point number"

def decimalOfNumber? : Number → Option Decimal
  | .integer n => some ⟨n < 0, n.natAbs, 0⟩
  | .real x => Decimal.ofBinary? x

/-- A decimal number is a text or a number. -/
def decodeDecimal : Decoder Decimal := fun _ node =>
  match node with
  | .string (.ok text) =>
      match Decimal.ofText? text.toList with
      | some amount => .ok amount
      | none => fail (.value (.string text) decimalText)
  | .number (.ok number) =>
      match decimalOfNumber? number with
      | some amount => .ok amount
      | none => fail (.value (.number number) decimalText)
  | node => unexpected node decimalText

def decodeAmounts : Decoder Amounts := fun reading node =>
  (Wire.map decodeDecimal reading node).map Members.ofList

def decodeInfo : Decoder (List (String × Value)) := fun reading node =>
  (Wire.map value reading node).map Members.ofList

def decodeMoment : Decoder Moment := fun _ node =>
  match node with
  | .string (.ok text) =>
      match Moment.ofText text.toList with
      | .ok moment => .ok moment
      | .error fault => fail (.moment fault)
  | node => unexpected node "an RFC 3339 formatted date and time string"

structure Draft where
  info : Option (List (String × Value))
  moment : Option (Option Moment)
  timestamp : Option (Option Int)
  total : Option Amounts
  free : Option Amounts
  used : Option Amounts

namespace Draft

def empty : Draft := ⟨none, none, none, none, none, none⟩

def setInfo (reading : Reading) (draft : Draft) (content : Node) : Except Problem Draft := do
  .ok { draft with info := ← fill "info" draft.info decodeInfo reading content }

def setMoment (reading : Reading) (draft : Draft) (content : Node) : Except Problem Draft := do
  .ok { draft with
    moment := ← fill "datetime" draft.moment (optional decodeMoment) reading content }

def setTimestamp (reading : Reading) (draft : Draft) (content : Node) :
    Except Problem Draft := do
  .ok { draft with
    timestamp := ← fill "timestamp" draft.timestamp (optional int64) reading content }

def setTotal (reading : Reading) (draft : Draft) (content : Node) : Except Problem Draft := do
  .ok { draft with total := ← fill "total" draft.total decodeAmounts reading content }

def setFree (reading : Reading) (draft : Draft) (content : Node) : Except Problem Draft := do
  .ok { draft with free := ← fill "free" draft.free decodeAmounts reading content }

def setUsed (reading : Reading) (draft : Draft) (content : Node) : Except Problem Draft := do
  .ok { draft with used := ← fill "used" draft.used decodeAmounts reading content }

def toBalance (draft : Draft) : Except Problem Balance := do
  let info ← require "info" draft.info
  let total ← require "total" draft.total
  let free ← require "free" draft.free
  let used ← require "used" draft.used
  .ok ⟨info, draft.moment.join, draft.timestamp.join, total, free, used⟩

end Draft

def shape : Shape Draft where
  name := "DefaultBalance"
  set reading
    | "info" => some (Draft.setInfo reading)
    | "datetime" => some (Draft.setMoment reading)
    | "timestamp" => some (Draft.setTimestamp reading)
    | "total" => some (Draft.setTotal reading)
    | "free" => some (Draft.setFree reading)
    | "used" => some (Draft.setUsed reading)
    | _ => none
  places reading :=
    [⟨Draft.setInfo reading, false⟩, ⟨Draft.setMoment reading, false⟩,
      ⟨Draft.setTimestamp reading, false⟩, ⟨Draft.setTotal reading, false⟩,
      ⟨Draft.setFree reading, false⟩, ⟨Draft.setUsed reading, false⟩]

def decode : Decoder Balance := fun reading node => do
  (← shape.decode .empty reading node).toBalance

end Balance

end SpotWire
