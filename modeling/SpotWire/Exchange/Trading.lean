import SpotWire.Account
import SpotWire.Exchange
import SpotWire.Failure

/-!
What the exchange offers to the trading side of the framework.
-/

namespace SpotWire.Exchange

def segments : List Segment := [.spot]

/-- There are cash accounts only. -/
def switchTo : AccountKind → Except Failure Unit
  | .cash => .ok ()
  | .margin => .error (.unsupportedOperation "margin trading is not supported on WEEX")
  | .future =>
      .error (.unsupportedOperation "futures trading requires the WEEX contract connector")

/-- The orders that one request may hold. -/
def maxOrders : Nat := 50

/-- Markets need their precision derived from their increments. -/
def correctsMarkets : Bool := true

def setsMarginType : Bool := false

/-- Market orders to buy may state what they cost. -/
def buysByCost : Bool := true

end SpotWire.Exchange
