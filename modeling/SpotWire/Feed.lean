import SpotWire.Wire.Decoder

/-!
The feeds that the exchange streams, and the feed families that a trading framework knows.
-/

namespace SpotWire

inductive FeedKind where
  | ticker
  | depth
  | trades
  | kline
  | account
  | orders
  | fill
deriving DecidableEq, Repr

namespace FeedKind

def all : List FeedKind := [.ticker, .depth, .trades, .kline, .account, .orders, .fill]

def name : FeedKind → String
  | .ticker => "ticker"
  | .depth => "depth"
  | .trades => "trades"
  | .kline => "kline"
  | .account => "account"
  | .orders => "orders"
  | .fill => "fill"

def ofName? (text : String) : Option FeedKind :=
  all.find? fun kind => kind.name == text

/-- What stands for a kind of feed in a document. -/
instance : Wire.Named FeedKind where
  all := [.ticker, .depth, .trades, .kline, .account, .orders, .fill]
  name
    | .ticker => "ticker"
    | .depth => "depth"
    | .trades => "trades"
    | .kline => "kline"
    | .account => "account"
    | .orders => "orders"
    | .fill => "fill"

/-- Private feeds need an authenticated connection and have no symbol. -/
def isPrivate : FeedKind → Bool
  | .account | .orders | .fill => true
  | .ticker | .depth | .trades | .kline => false

end FeedKind

inductive FeedFamily where
  | ticker
  | trades
  | book
  | candle
  | orders
  | portfolio
  | position
deriving DecidableEq, Repr

namespace FeedFamily

instance : Wire.Named FeedFamily where
  all := [.ticker, .trades, .book, .candle, .orders, .portfolio, .position]
  name
    | .ticker => "ticker"
    | .trades => "trades"
    | .book => "l2_book"
    | .candle => "candle"
    | .orders => "orders"
    | .portfolio => "portfolio"
    | .position => "position"

/-- A spot exchange streams every family except positions. -/
def isStreamed : FeedFamily → Bool
  | .position => false
  | _ => true

end FeedFamily

end SpotWire
