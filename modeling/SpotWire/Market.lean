import SpotWire.Wire.Record

/-!
Markets as they are handed to the trading framework, and the products of the exchange they are
made from.

A market's details are two increments and whatever else the exchange says of it. On the wire the
increments stand among the other details, as texts or as numbers.
-/

namespace SpotWire

open Json Wire

/-- Details of a market: the least steps of amounts and of prices, and all other members. -/
structure MarketInfo where
  stepSize : Option String
  tickSize : Option String
  extra : List (String × Value)
deriving Repr

namespace MarketInfo

def empty : MarketInfo := ⟨none, none, []⟩

def toMembers (info : MarketInfo) : List (String × Value) :=
  (info.stepSize.map fun size => ("stepSize", Value.string size)).toList ++
    (info.tickSize.map fun size => ("tickSize", Value.string size)).toList ++ info.extra

def toValue (info : MarketInfo) : Value :=
  .object info.toMembers

/-- An increment: a text, a number by its text, or nothing. -/
def increment : Value → Except Problem (Option String)
  | .null => .ok none
  | .string text => .ok (some text)
  | .number number => .ok (some (String.ofList number.text))
  | other => fail (.increment other)

def decodeIncrement : Decoder (Option String) := fun reading node => do
  match node with
  | .null => .ok none
  | node => increment (← value reading node)

structure Draft where
  stepSize : Option (Option String)
  tickSize : Option (Option String)
  /-- All other members, the last one first. -/
  others : List (String × Value)

namespace Draft

def empty : Draft := ⟨none, none, []⟩

def toInfo (draft : Draft) : MarketInfo :=
  ⟨draft.stepSize.join, draft.tickSize.join, Members.ofList draft.others.reverse⟩

def add (reading : Reading) (draft : Draft) (key : String) (content : Node) :
    Except Problem Draft := do
  if key = "stepSize" then
    let size ← fill "stepSize" draft.stepSize decodeIncrement reading content
    .ok { draft with stepSize := size }
  else if key = "tickSize" then
    let size ← fill "tickSize" draft.tickSize decodeIncrement reading content
    .ok { draft with tickSize := size }
  else
    let content ← value reading content
    .ok { draft with others := (key, content) :: draft.others }

end Draft

def shapeName : String := "struct MarketInfo"

/-- Details are an object, each member of which is kept. -/
def decode : Decoder MarketInfo := fun reading node =>
  match node with
  | .object members ending => do
      let reading ← reading.enter
      let draft ← fillMembers (fun key => some fun draft content => draft.add reading key content)
        Draft.empty members ending
      .ok draft.toInfo
  | node => unexpected node shapeName

/-- Details from members that have been read already. -/
def ofMembers (members : List (String × Value)) : Except Problem MarketInfo := do
  let draft ← members.foldlM
    (fun draft member => Draft.add .ofHeld draft member.1 (Node.ofValue member.2)) Draft.empty
  .ok draft.toInfo

end MarketInfo

structure MarketPrecision where
  amount : Option UInt32
  price : Option UInt32
deriving DecidableEq, Repr

namespace MarketPrecision

def empty : MarketPrecision := ⟨none, none⟩

def toValue (precision : MarketPrecision) : Value :=
  .object [("amount", .ofOption .ofWord precision.amount),
    ("price", .ofOption .ofWord precision.price)]

structure Draft where
  amount : Option (Option UInt32)
  price : Option (Option UInt32)

namespace Draft

def empty : Draft := ⟨none, none⟩

def setAmount (reading : Reading) (draft : Draft) (content : Node) : Except Problem Draft := do
  .ok { draft with amount := ← fill "amount" draft.amount (optional word) reading content }

def setPrice (reading : Reading) (draft : Draft) (content : Node) : Except Problem Draft := do
  .ok { draft with price := ← fill "price" draft.price (optional word) reading content }

end Draft

def shape : Shape Draft where
  name := "MarketPrecision"
  set reading
    | "amount" => some (Draft.setAmount reading)
    | "price" => some (Draft.setPrice reading)
    | _ => none
  places reading := [⟨Draft.setAmount reading, false⟩, ⟨Draft.setPrice reading, false⟩]

def decode : Decoder MarketPrecision := fun reading node =>
  (shape.decode .empty reading node).map fun draft => ⟨draft.amount.join, draft.price.join⟩

end MarketPrecision

structure MarketStatus where
  symbol : String
  info : MarketInfo
  precision : MarketPrecision
deriving Repr

namespace MarketStatus

def ofSymbol (symbol : String) : MarketStatus :=
  ⟨symbol, .empty, .empty⟩

def toValue (status : MarketStatus) : Value :=
  .object [("symbol", .string status.symbol), ("info", status.info.toValue),
    ("precision", status.precision.toValue)]

structure Draft where
  symbol : Option String
  info : Option MarketInfo
  precision : Option MarketPrecision

namespace Draft

def empty : Draft := ⟨none, none, none⟩

def setSymbol (reading : Reading) (draft : Draft) (content : Node) : Except Problem Draft := do
  .ok { draft with symbol := ← fill "symbol" draft.symbol string reading content }

def setInfo (reading : Reading) (draft : Draft) (content : Node) : Except Problem Draft := do
  .ok { draft with info := ← fill "info" draft.info MarketInfo.decode reading content }

def setPrecision (reading : Reading) (draft : Draft) (content : Node) :
    Except Problem Draft := do
  .ok { draft with
    precision := ← fill "precision" draft.precision MarketPrecision.decode reading content }

def toStatus (draft : Draft) : Except Problem MarketStatus := do
  let symbol ← require "symbol" draft.symbol
  .ok ⟨symbol, draft.info.getD .empty, draft.precision.getD .empty⟩

end Draft

def shape : Shape Draft where
  name := "MarketStatus"
  set reading
    | "symbol" => some (Draft.setSymbol reading)
    | "info" => some (Draft.setInfo reading)
    | "precision" => some (Draft.setPrecision reading)
    | _ => none
  places reading :=
    [⟨Draft.setSymbol reading, false⟩, ⟨Draft.setInfo reading, true⟩,
      ⟨Draft.setPrecision reading, true⟩]

def decode : Decoder MarketStatus := fun reading node => do
  (← shape.decode .empty reading node).toStatus

end MarketStatus

structure Product where
  symbol : String
  baseCoin : String
  quoteCoin : String
  priceScale : Option UInt32
  quantityScale : Option UInt32
  info : MarketInfo
deriving Repr

namespace Product

/-- The details stand among the fields. -/
def toValue (product : Product) : Value :=
  .object <|
    [("symbol", .string product.symbol), ("baseCoin", .string product.baseCoin),
      ("quoteCoin", .string product.quoteCoin),
      ("priceScale", .ofOption .ofWord product.priceScale),
      ("quantityScale", .ofOption .ofWord product.quantityScale)] ++ product.info.toMembers

structure Draft where
  symbol : Option String
  baseCoin : Option String
  quoteCoin : Option String
  priceScale : Option (Option UInt32)
  quantityScale : Option (Option UInt32)
  /-- All other members, the last one first. -/
  others : List (String × Value)

namespace Draft

def empty : Draft := ⟨none, none, none, none, none, []⟩

def add (reading : Reading) (draft : Draft) (key : String) (content : Node) :
    Except Problem Draft := do
  if key = "symbol" then
    .ok { draft with symbol := ← fill key draft.symbol string reading content }
  else if key = "baseCoin" then
    .ok { draft with baseCoin := ← fill key draft.baseCoin string reading content }
  else if key = "quoteCoin" then
    .ok { draft with quoteCoin := ← fill key draft.quoteCoin string reading content }
  else if key = "priceScale" then
    .ok { draft with
      priceScale := ← fill key draft.priceScale (optional word) reading content }
  else if key = "quantityScale" then
    .ok { draft with
      quantityScale := ← fill key draft.quantityScale (optional word) reading content }
  else
    let content ← value reading content
    .ok { draft with others := (key, content) :: draft.others }

/-- The details are looked at once all members have been read. -/
def toProduct (draft : Draft) : Except Problem Product := do
  let symbol ← require "symbol" draft.symbol
  let info ← MarketInfo.ofMembers draft.others.reverse
  .ok ⟨symbol, draft.baseCoin.getD "", draft.quoteCoin.getD "", draft.priceScale.join,
    draft.quantityScale.join, info⟩

end Draft

def shapeName : String := "struct ProductInfo"

def decode : Decoder Product := fun reading node =>
  match node with
  | .object members ending => do
      let reading ← reading.enter
      let draft ← fillMembers (fun key => some fun draft content => draft.add reading key content)
        Draft.empty members ending
      draft.toProduct
  | node => unexpected node shapeName

/-- The market of a product. The coins join its details; its scales are the precision that the
exchange states. -/
def toStatus (product : Product) : MarketStatus :=
  { symbol := product.symbol
    info := { product.info with
      extra := Members.put "quoteCoin" (.string product.quoteCoin)
        (Members.put "baseCoin" (.string product.baseCoin) product.info.extra) }
    precision := ⟨product.quantityScale, product.priceScale⟩ }

end Product

end SpotWire
