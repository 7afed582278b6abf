import SpotWire.Failure
import SpotWire.Yaml.Record

/-!
Reading settings from YAML texts and files. The settings that are read have to keep all rules.
-/

namespace SpotWire

open Yaml

namespace ConnectionLimits

def ofYamlNode? (document : Document) (node : Yaml.Node Nat) : Option ConnectionLimits := do
  let fields ← document.fields? node
  let draft : Draft :=
    { connectionsPerIp := ← fields.read? "max_connections_per_ip" document.word?
      subscriptionsPerConnection :=
        ← fields.read? "max_subscriptions_per_connection" document.word?
      operationsPerHour := ← fields.read? "operations_per_hour" document.word?
      requestsPerFiveMinutes := ← fields.read? "connection_requests_per_5min" document.word? }
  some draft.toLimits

end ConnectionLimits

namespace Config

def ofYamlNode? (document : Document) (node : Yaml.Node Nat) : Option Config := do
  let fields ← document.fields? node
  let draft : Draft :=
    { spotUrl := ← fields.read? "spot_api_url" document.text?
      contractUrl := ← fields.read? "contract_api_url" document.text?
      publicStreamUrl := ← fields.read? "websocket_public_url" document.text?
      privateStreamUrl := ← fields.read? "websocket_private_url" document.text?
      rateLimit := ← fields.read? "rate_limit" document.word?
      privateRateLimit := ← fields.read? "private_rate_limit" document.word?
      symbolSuffix := ← fields.read? "supported_symbols_suffix" document.text?
      limits :=
        ← fields.read? "connection_limits" (ConnectionLimits.ofYamlNode? document) }
  some draft.toConfig

/-- The settings in a document; an empty one holds the defaults. -/
def ofDocument? (document : Document) : Option Config :=
  match document.root with
  | none => some standard
  | some root => ofYamlNode? document root

def ofYaml (text : List Char) : Except Failure Config :=
  match (Document.ofChars? text).bind ofDocument? with
  | none => .error .unreadableConfig
  | some config => config.validate.mapError .ofConfig

/-- The settings in a file, of which the octets are given if there is one. -/
def ofFile (content : Option (List Nat)) : Except Failure Config :=
  match content with
  | none => .error (.file .missing)
  | some octets =>
      match Text.ofOctets? octets with
      | none => .error (.file .notText)
      | some text => ofYaml text

end Config

end SpotWire
