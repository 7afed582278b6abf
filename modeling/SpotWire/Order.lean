import SpotWire.Wire.Record

/-!
Orders of the trading framework and the parameters that go along with them to the exchange.
-/

namespace SpotWire

open Json Wire

inductive OrderType where
  | buyMarket
  | buyLimit
  | sellMarket
  | sellLimit
  | stopLoss
  | stopLossLimit
  | takeProfit
  | takeProfitLimit
  | trailingStop
deriving DecidableEq, Repr

instance : Named OrderType where
  all := [.buyMarket, .buyLimit, .sellMarket, .sellLimit, .stopLoss, .stopLossLimit, .takeProfit,
    .takeProfitLimit, .trailingStop]
  name
    | .buyMarket => "buy_market"
    | .buyLimit => "buy_limit"
    | .sellMarket => "sell_market"
    | .sellLimit => "sell_limit"
    | .stopLoss => "stop_loss"
    | .stopLossLimit => "stop_loss_limit"
    | .takeProfit => "take_profit"
    | .takeProfitLimit => "take_profit_limit"
    | .trailingStop => "trailing_stop"

inductive Force where
  | normal
  | postOnly
  | fillOrKill
  | immediateOrCancel
deriving DecidableEq, Repr

instance : Named Force where
  all := [.normal, .postOnly, .fillOrKill, .immediateOrCancel]
  name
    | .normal => "normal"
    | .postOnly => "postOnly"
    | .fillOrKill => "fok"
    | .immediateOrCancel => "ioc"

/-- The parts of an order that decide its parameters. -/
structure OrderDescriptor where
  orderId : Option String
  orderType : Option OrderType
deriving DecidableEq, Repr

structure OrderParams where
  clientOrderId : Option String
  force : Option Force
deriving DecidableEq, Repr

/-- Limit orders, and stop orders that turn into market orders, are sent with a force. -/
def OrderType.needsForce : OrderType → Bool
  | .buyLimit | .sellLimit | .stopLoss | .takeProfit => true
  | _ => false

namespace OrderParams

def isEmpty (params : OrderParams) : Bool :=
  params.clientOrderId.isNone && params.force.isNone

def ofOrder (order : OrderDescriptor) : OrderParams :=
  { clientOrderId := order.orderId.filter (· ≠ "")
    force := if order.orderType.any OrderType.needsForce then some .normal else none }

/-- Fields without a value are left out. -/
def toValue (params : OrderParams) : Value :=
  .object <|
    (params.clientOrderId.map fun id => ("clientOrderId", Value.string id)).toList ++
      (params.force.map fun force => ("force", Value.string (Named.name force))).toList

structure Draft where
  clientOrderId : Option (Option String)
  force : Option (Option Force)

namespace Draft

def empty : Draft := ⟨none, none⟩

def setClientOrderId (reading : Reading) (draft : Draft) (content : Node) :
    Except Problem Draft := do
  let id ← fill "clientOrderId" draft.clientOrderId (optional string) reading content
  .ok { draft with clientOrderId := id }

def setForce (reading : Reading) (draft : Draft) (content : Node) : Except Problem Draft := do
  let force ← fill "force" draft.force (optional variant) reading content
  .ok { draft with force }

def toParams (draft : Draft) : OrderParams :=
  ⟨draft.clientOrderId.join, draft.force.join⟩

end Draft

def shape : Shape Draft where
  name := "OrderParams"
  set reading
    | "clientOrderId" => some (Draft.setClientOrderId reading)
    | "force" => some (Draft.setForce reading)
    | _ => none
  places reading := [⟨Draft.setClientOrderId reading, false⟩, ⟨Draft.setForce reading, false⟩]

def decode : Decoder OrderParams := fun reading node =>
  (shape.decode .empty reading node).map Draft.toParams

end OrderParams

end SpotWire
