import SpotWire.Feed
import SpotWire.Log
import SpotWire.Text.Search

/-!
Channels: the names under which the exchange streams its feeds. A channel's name is made from a
pattern, whose placeholders give way to the symbol, the number of levels and the interval.
-/

namespace SpotWire

structure FeedDescriptor where
  kind : FeedKind
  pattern : String
  description : String
  isPrivate : Bool
deriving DecidableEq, Repr

structure ChannelParams where
  levels : Option UInt32
  interval : Option String
deriving DecidableEq, Repr

namespace FeedKind

def descriptors : List FeedDescriptor :=
  [⟨.ticker, "ticker.\x7bsymbol\x7d", "24hr ticker statistics", false⟩,
    ⟨.depth, "depth.\x7bsymbol\x7d.\x7blevels\x7d", "Order book depth updates", false⟩,
    ⟨.trades, "trades.\x7bsymbol\x7d", "Public trade executions", false⟩,
    ⟨.kline, "kline.LAST_PRICE.\x7bsymbol\x7d.\x7binterval\x7d", "Candlestick/K-line updates",
      false⟩,
    ⟨.account, "account", "Account balance updates", true⟩,
    ⟨.orders, "orders", "Order status updates", true⟩,
    ⟨.fill, "fill", "Trade execution updates", true⟩]

/-- Where the descriptor of a feed stands. -/
def place : FeedKind → Fin descriptors.length
  | .ticker => ⟨0, by decide⟩
  | .depth => ⟨1, by decide⟩
  | .trades => ⟨2, by decide⟩
  | .kline => ⟨3, by decide⟩
  | .account => ⟨4, by decide⟩
  | .orders => ⟨5, by decide⟩
  | .fill => ⟨6, by decide⟩

def descriptor (kind : FeedKind) : FeedDescriptor :=
  descriptors.get kind.place

end FeedKind

namespace Interval

/-- Time frames of the framework and the exchange's tokens for them. -/
def table : List (String × String) :=
  [("1m", "MINUTE_1"), ("5m", "MINUTE_5"), ("15m", "MINUTE_15"), ("30m", "MINUTE_30"),
    ("1h", "HOUR_1"), ("2h", "HOUR_2"), ("4h", "HOUR_4"), ("6h", "HOUR_6"), ("8h", "HOUR_8"),
    ("12h", "HOUR_12"), ("1d", "DAY_1"), ("1w", "WEEK_1"), ("1M", "MONTH_1")]

def token? (frame : String) : Option String :=
  (table.find? fun entry => entry.1 == frame).map Prod.snd

/-- The token when no interval is asked for. -/
def standard : String := "MINUTE_1"

/-- The token of a time frame; anything else is taken to be a token itself. -/
def token (requested : Option String) : String :=
  let requested := requested.getD standard
  (token? requested).getD requested

def frames : List String :=
  table.map Prod.fst

end Interval

namespace Symbol

/-- Puts the suffix at the end of a symbol that does not end with it. -/
def normalize (suffix symbol : String) : String :=
  if suffix.toList.isSuffixOf symbol.toList then symbol else symbol ++ suffix

end Symbol

namespace Channel

/-- The number of levels when none is asked for. -/
def standardLevels : UInt32 := 15

def levels (params : ChannelParams) : UInt32 :=
  params.levels.getD standardLevels

def levelsText (levels : UInt32) : String :=
  String.ofList (Nat.toDigits 10 levels.toNat)

inductive Fault where
  | unsupportedFeed (name : String)
  | missingSymbol (kind : FeedKind)
deriving DecidableEq, Repr

/-- A placeholder and what it gives way to. -/
structure Filling where
  key : String
  value : String

def placeholder (key : String) : List Char :=
  '{' :: key.toList ++ ['}']

/-- Fills the placeholders of a pattern one after another; what has been filled in is searched
for the placeholders after it. -/
def render (pattern : String) (fillings : List Filling) : String :=
  String.ofList <| fillings.foldl
    (fun text filling => Text.replaceAll (placeholder filling.key) filling.value.toList text)
    pattern.toList

def fillings (kind : FeedKind) (symbol : String) (params : ChannelParams) : List Filling :=
  match kind with
  | .depth => [⟨"symbol", symbol⟩, ⟨"levels", levelsText (levels params)⟩]
  | .kline => [⟨"symbol", symbol⟩, ⟨"interval", Interval.token params.interval⟩]
  | _ => [⟨"symbol", symbol⟩]

/-- The channel of a feed. Private feeds have no symbol, public feeds need one. -/
def ofFeed (suffix : String) (kind : FeedKind) (symbol : Option String)
    (params : ChannelParams) : Except Fault String :=
  if kind.descriptor.isPrivate then .ok kind.descriptor.pattern
  else
    match symbol with
    | none => .error (.missingSymbol kind)
    | some symbol =>
        .ok (render kind.descriptor.pattern
          (fillings kind (Symbol.normalize suffix symbol) params))

/-- The channel of a feed that is given by its name. -/
def ofName (suffix feed : String) (symbol : Option String) (params : ChannelParams) :
    Except Fault String :=
  match FeedKind.ofName? feed with
  | none => .error (.unsupportedFeed feed)
  | some kind => ofFeed suffix kind symbol params

/-- What the log says of a channel that has been made: nothing of private ones. -/
def events (kind : FeedKind) : Except Fault String → List LogEvent
  | .ok channel =>
      if kind.isPrivate then []
      else
        [{ severity := .debug
           message := "formatted channel"
           details := [("feed", .text kind.name), ("channel", .text channel)] }]
  | .error _ => []

def privateTokens : List String := ["account", "orders", "fill"]

/-- Whether a channel needs an authenticated connection: whether it has the name of a private feed
anywhere in it. Public channels may have one in their symbol. -/
def isAuthenticated (channel : String) : Bool :=
  privateTokens.any fun token => Text.mentions token channel

end Channel

end SpotWire
