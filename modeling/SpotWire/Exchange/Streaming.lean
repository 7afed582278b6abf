import SpotWire.Channel
import SpotWire.Config
import SpotWire.Exchange
import SpotWire.Message.Outbound

/-!
What the exchange offers to the streaming side of the framework.
-/

namespace SpotWire.Exchange

open Wire

/-- The feed families and whether they are streamed. -/
def families : List (FeedFamily × Bool) :=
  (Named.all : List FeedFamily).map fun family => (family, family.isStreamed)

def loginHeaders : List String :=
  ["ACCESS-KEY", "ACCESS-PASSPHRASE", "ACCESS-TIMESTAMP", "ACCESS-SIGN"]

/-- The headers in the order of their names, without values: the framework fills them in. -/
def emptyHeaders : List (String × String) :=
  (loginHeaders.mergeSort fun a b => !(b < a)).map fun header => (header, "")

def pingMessage : Outbound := .keepalive

def subscribeMessage (channel : String) : Outbound := .subscribe channel

def unsubscribeMessage (channel : String) : Outbound := .unsubscribe channel

def parseSymbol (config : Config) (symbol : String) : String :=
  Symbol.normalize config.symbolSuffix symbol

def formatChannel (config : Config) (feed : String) (symbol : Option String)
    (params : ChannelParams) : Except Channel.Fault String :=
  Channel.ofName config.symbolSuffix feed symbol params

end SpotWire.Exchange
