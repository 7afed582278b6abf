import SpotWire.Wire.Record

/-!
Settings of the connection to the exchange: addresses, rates, the suffix of symbols and limits of
stream connections. Settings that are not given take their defaults.
-/

namespace SpotWire

open Json Wire

structure ConnectionLimits where
  connectionsPerIp : UInt32
  subscriptionsPerConnection : UInt32
  operationsPerHour : UInt32
  requestsPerFiveMinutes : UInt32
deriving DecidableEq, Repr

namespace ConnectionLimits

def standard : ConnectionLimits := ⟨100, 100, 240, 300⟩

def toValue (limits : ConnectionLimits) : Value :=
  .object
    [("max_connections_per_ip", .ofWord limits.connectionsPerIp),
      ("max_subscriptions_per_connection", .ofWord limits.subscriptionsPerConnection),
      ("operations_per_hour", .ofWord limits.operationsPerHour),
      ("connection_requests_per_5min", .ofWord limits.requestsPerFiveMinutes)]

structure Draft where
  connectionsPerIp : Option UInt32
  subscriptionsPerConnection : Option UInt32
  operationsPerHour : Option UInt32
  requestsPerFiveMinutes : Option UInt32

namespace Draft

def empty : Draft := ⟨none, none, none, none⟩

def setConnectionsPerIp (reading : Reading) (draft : Draft) (content : Node) :
    Except Problem Draft := do
  .ok { draft with
    connectionsPerIp := ←
      fill "max_connections_per_ip" draft.connectionsPerIp word reading content }

def setSubscriptionsPerConnection (reading : Reading) (draft : Draft) (content : Node) :
    Except Problem Draft := do
  .ok { draft with
    subscriptionsPerConnection := ←
      fill "max_subscriptions_per_connection" draft.subscriptionsPerConnection word reading
        content }

def setOperationsPerHour (reading : Reading) (draft : Draft) (content : Node) :
    Except Problem Draft := do
  .ok { draft with
    operationsPerHour := ←
      fill "operations_per_hour" draft.operationsPerHour word reading content }

def setRequestsPerFiveMinutes (reading : Reading) (draft : Draft) (content : Node) :
    Except Problem Draft := do
  .ok { draft with
    requestsPerFiveMinutes := ←
      fill "connection_requests_per_5min" draft.requestsPerFiveMinutes word reading content }

def toLimits (draft : Draft) : ConnectionLimits :=
  { connectionsPerIp := draft.connectionsPerIp.getD standard.connectionsPerIp
    subscriptionsPerConnection :=
      draft.subscriptionsPerConnection.getD standard.subscriptionsPerConnection
    operationsPerHour := draft.operationsPerHour.getD standard.operationsPerHour
    requestsPerFiveMinutes :=
      draft.requestsPerFiveMinutes.getD standard.requestsPerFiveMinutes }

end Draft

def shape : Shape Draft where
  name := "ConnectionLimits"
  set reading
    | "max_connections_per_ip" => some (Draft.setConnectionsPerIp reading)
    | "max_subscriptions_per_connection" => some (Draft.setSubscriptionsPerConnection reading)
    | "operations_per_hour" => some (Draft.setOperationsPerHour reading)
    | "connection_requests_per_5min" => some (Draft.setRequestsPerFiveMinutes reading)
    | _ => none
  places reading :=
    [⟨Draft.setConnectionsPerIp reading, true⟩,
      ⟨Draft.setSubscriptionsPerConnection reading, true⟩,
      ⟨Draft.setOperationsPerHour reading, true⟩,
      ⟨Draft.setRequestsPerFiveMinutes reading, true⟩]

def decode : Decoder ConnectionLimits := fun reading node =>
  (shape.decode .empty reading node).map Draft.toLimits

end ConnectionLimits

structure Config where
  spotUrl : String
  contractUrl : String
  publicStreamUrl : String
  privateStreamUrl : String
  /-- Requests per second to public addresses. -/
  rateLimit : UInt32
  /-- Requests per second to private addresses. -/
  privateRateLimit : UInt32
  symbolSuffix : String
  limits : ConnectionLimits
deriving DecidableEq, Repr

namespace Config

def standard : Config where
  spotUrl := "https://api-spot.weex.com"
  contractUrl := "https://api-contract.weex.com"
  publicStreamUrl := "wss://ws-spot.weex.com/v2/ws/public"
  privateStreamUrl := "wss://ws-spot.weex.com/v2/ws/private"
  rateLimit := 20
  privateRateLimit := 10
  symbolSuffix := "_SPBL"
  limits := .standard

def toValue (config : Config) : Value :=
  .object
    [("spot_api_url", .string config.spotUrl), ("contract_api_url", .string config.contractUrl),
      ("websocket_public_url", .string config.publicStreamUrl),
      ("websocket_private_url", .string config.privateStreamUrl),
      ("rate_limit", .ofWord config.rateLimit),
      ("private_rate_limit", .ofWord config.privateRateLimit),
      ("supported_symbols_suffix", .string config.symbolSuffix),
      ("connection_limits", config.limits.toValue)]

structure Draft where
  spotUrl : Option String
  contractUrl : Option String
  publicStreamUrl : Option String
  privateStreamUrl : Option String
  rateLimit : Option UInt32
  privateRateLimit : Option UInt32
  symbolSuffix : Option String
  limits : Option ConnectionLimits

namespace Draft

def empty : Draft := ⟨none, none, none, none, none, none, none, none⟩

def setSpotUrl (reading : Reading) (draft : Draft) (content : Node) : Except Problem Draft := do
  .ok { draft with spotUrl := ← fill "spot_api_url" draft.spotUrl string reading content }

def setContractUrl (reading : Reading) (draft : Draft) (content : Node) :
    Except Problem Draft := do
  .ok { draft with
    contractUrl := ← fill "contract_api_url" draft.contractUrl string reading content }

def setPublicStreamUrl (reading : Reading) (draft : Draft) (content : Node) :
    Except Problem Draft := do
  .ok { draft with
    publicStreamUrl := ←
      fill "websocket_public_url" draft.publicStreamUrl string reading content }

def setPrivateStreamUrl (reading : Reading) (draft : Draft) (content : Node) :
    Except Problem Draft := do
  .ok { draft with
    privateStreamUrl := ←
      fill "websocket_private_url" draft.privateStreamUrl string reading content }

def setRateLimit (reading : Reading) (draft : Draft) (content : Node) :
    Except Problem Draft := do
  .ok { draft with rateLimit := ← fill "rate_limit" draft.rateLimit word reading content }

def setPrivateRateLimit (reading : Reading) (draft : Draft) (content : Node) :
    Except Problem Draft := do
  .ok { draft with
    privateRateLimit := ←
      fill "private_rate_limit" draft.privateRateLimit word reading content }

def setSymbolSuffix (reading : Reading) (draft : Draft) (content : Node) :
    Except Problem Draft := do
  .ok { draft with
    symbolSuffix := ←
      fill "supported_symbols_suffix" draft.symbolSuffix string reading content }

def setLimits (reading : Reading) (draft : Draft) (content : Node) : Except Problem Draft := do
  .ok { draft with
    limits := ←
      fill "connection_limits" draft.limits ConnectionLimits.decode reading content }

def toConfig (draft : Draft) : Config :=
  { spotUrl := draft.spotUrl.getD standard.spotUrl
    contractUrl := draft.contractUrl.getD standard.contractUrl
    publicStreamUrl := draft.publicStreamUrl.getD standard.publicStreamUrl
    privateStreamUrl := draft.privateStreamUrl.getD standard.privateStreamUrl
    rateLimit := draft.rateLimit.getD standard.rateLimit
    privateRateLimit := draft.privateRateLimit.getD standard.privateRateLimit
    symbolSuffix := draft.symbolSuffix.getD standard.symbolSuffix
    limits := draft.limits.getD standard.limits }

end Draft

def shape : Shape Draft where
  name := "ConnectorConfig"
  set reading
    | "spot_api_url" => some (Draft.setSpotUrl reading)
    | "contract_api_url" => some (Draft.setContractUrl reading)
    | "websocket_public_url" => some (Draft.setPublicStreamUrl reading)
    | "websocket_private_url" => some (Draft.setPrivateStreamUrl reading)
    | "rate_limit" => some (Draft.setRateLimit reading)
    | "private_rate_limit" => some (Draft.setPrivateRateLimit reading)
    | "supported_symbols_suffix" => some (Draft.setSymbolSuffix reading)
    | "connection_limits" => some (Draft.setLimits reading)
    | _ => none
  places reading :=
    [⟨Draft.setSpotUrl reading, true⟩, ⟨Draft.setContractUrl reading, true⟩,
      ⟨Draft.setPublicStreamUrl reading, true⟩, ⟨Draft.setPrivateStreamUrl reading, true⟩,
      ⟨Draft.setRateLimit reading, true⟩, ⟨Draft.setPrivateRateLimit reading, true⟩,
      ⟨Draft.setSymbolSuffix reading, true⟩, ⟨Draft.setLimits reading, true⟩]

def decode : Decoder Config := fun reading node =>
  (shape.decode .empty reading node).map Draft.toConfig

inductive Fault where
  | rateLimit
  | symbolSuffix
  | streamUrl (url : String)
deriving DecidableEq, Repr

def Fault.message : Fault → String
  | .rateLimit => "rate limits must be positive"
  | .symbolSuffix => "symbol suffix must not be empty"
  | .streamUrl url => "not a websocket url: " ++ url

def isStreamUrl (url : String) : Bool :=
  "wss://".toList.isPrefixOf url.toList || "ws://".toList.isPrefixOf url.toList

def fault? (config : Config) : Option Fault :=
  if config.rateLimit = 0 ∨ config.privateRateLimit = 0 then some .rateLimit
  else if config.symbolSuffix = "" then some .symbolSuffix
  else if !isStreamUrl config.publicStreamUrl then some (.streamUrl config.publicStreamUrl)
  else if !isStreamUrl config.privateStreamUrl then some (.streamUrl config.privateStreamUrl)
  else none

/-- The settings, if they break no rule. -/
def validate (config : Config) : Except Fault Config :=
  match config.fault? with
  | none => .ok config
  | some fault => .error fault

end Config

end SpotWire
