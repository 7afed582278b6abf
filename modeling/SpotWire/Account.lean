import SpotWire.Wire.Decoder

/-!
Kinds of trading accounts, and the tokens by which the exchange calls its account types.
-/

namespace SpotWire

inductive AccountKind where
  | cash
  | margin
  | future
deriving DecidableEq, Repr

namespace AccountKind

instance : Wire.Named AccountKind where
  all := [.cash, .margin, .future]
  name
    | .cash => "CASH"
    | .margin => "MARGIN"
    | .future => "FUTURE"

def cashTokens : List String :=
  ["EXCHANGE", "SPOT", "SPOT_V2", "FUND", "OTC_SGD"]

def futureTokens : List String :=
  ["CONTRACT", "USD_MIX", "USDT_MIX"]

def upper (token : String) : String :=
  String.ofList (token.toList.map Char.toUpper)

/-- The kind of account that a token names, letter case aside. An unknown token names a cash
account. -/
def ofToken (token : String) : AccountKind :=
  if cashTokens.contains (upper token) then .cash
  else if futureTokens.contains (upper token) then .future
  else .cash

end AccountKind

inductive Segment where
  | spot
  | future
deriving DecidableEq, Repr

instance : Wire.Named Segment where
  all := [.spot, .future]
  name
    | .spot => "spot"
    | .future => "future"

end SpotWire
