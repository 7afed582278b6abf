import SpotWire.Config
import SpotWire.Proofs.Wire.Partial
import SpotWire.Proofs.Wire.Printed

/-!
# Settings given in part

Settings that an object does not give have their defaults, and so have the limits of streams within
them. All other settings are as they are given, in whatever order, and what else the object holds
plays no part.
-/

namespace SpotWire

open Json Wire

variable {reading : Reading} {dropped droppedLimits : List String} {node : Node}

namespace ConnectionLimits

/-- Limits of which some have their defaults. -/
def without (limits : ConnectionLimits) (dropped : List String) : ConnectionLimits where
  connectionsPerIp :=
    kept dropped "max_connections_per_ip" limits.connectionsPerIp standard.connectionsPerIp
  subscriptionsPerConnection :=
    kept dropped "max_subscriptions_per_connection" limits.subscriptionsPerConnection
      standard.subscriptionsPerConnection
  operationsPerHour :=
    kept dropped "operations_per_hour" limits.operationsPerHour standard.operationsPerHour
  requestsPerFiveMinutes :=
    kept dropped "connection_requests_per_5min" limits.requestsPerFiveMinutes
      standard.requestsPerFiveMinutes

/-- An object of limits without the members of some keys. -/
def IsPart (limits : ConnectionLimits) (dropped : List String) (node : Node) : Prop :=
  ∃ members, node = .object (membersOf members) .closed ∧
    Wire.IsPart (fieldsOf limits.toValue) dropped members

def Draft.holding (limits : ConnectionLimits) (keys : List String) : Draft where
  connectionsPerIp := held? keys "max_connections_per_ip" limits.connectionsPerIp
  subscriptionsPerConnection :=
    held? keys "max_subscriptions_per_connection" limits.subscriptionsPerConnection
  operationsPerHour := held? keys "operations_per_hour" limits.operationsPerHour
  requestsPerFiveMinutes := held? keys "connection_requests_per_5min" limits.requestsPerFiveMinutes

variable {limits : ConnectionLimits}

theorem gathers (limits : ConnectionLimits) (reading : Reading) :
    Gathers (shape.set reading) (fieldsOf limits.toValue) (Draft.holding limits) := by
  intro member hmem keys hnot
  simp only [fieldsOf, toValue, List.map_cons, List.map_nil, List.mem_cons, List.not_mem_nil,
    or_false] at hmem
  rcases hmem with rfl | rfl | rfl | rfl
  all_goals
    refine ⟨_, rfl, ?_⟩
    simp [Draft.setConnectionsPerIp, Draft.setSubscriptionsPerConnection,
      Draft.setOperationsPerHour, Draft.setRequestsPerFiveMinutes, Draft.holding, held?, fill,
      hnot, bind, Except.bind, Except.map]

theorem set_eq_none {key : String} (h : key ∉ (fieldsOf limits.toValue).map Prod.fst) :
    shape.set reading key = none := by
  simp only [fieldsOf, toValue, List.map_cons, List.map_nil, List.mem_cons, List.not_mem_nil,
    or_false, not_or] at h
  obtain ⟨_, _, _, _⟩ := h
  simp only [shape]

theorem toLimits_holding {keys : List String}
    (h : ∀ key ∈ (fieldsOf limits.toValue).map Prod.fst, key ∈ keys ↔ key ∉ dropped) :
    (Draft.holding limits keys).toLimits = limits.without dropped := by
  simp only [fieldsOf, toValue, List.map_cons, List.map_nil, List.forall_mem_cons] at h
  obtain ⟨hconnections, hsubscriptions, hoperations, hrequests, -⟩ := h
  simp only [Draft.holding, Draft.toLimits, without, getD_held? hconnections,
    getD_held? hsubscriptions, getD_held? hoperations, getD_held? hrequests]

theorem nodup_fields : ((fieldsOf limits.toValue).map Prod.fst).Nodup := by
  simp [fieldsOf, toValue]

theorem decode_of_isPart (hadmits : reading.Admits 1) (h : limits.IsPart dropped node) :
    decode reading node = .ok (limits.without dropped) := by
  obtain ⟨members, rfl, hpart⟩ := h
  obtain ⟨inner, hinner, -⟩ := hadmits.enter
  obtain ⟨keys, hkeys, hdecode⟩ :=
    (gathers limits inner).decode (fun _ => set_eq_none) hinner nodup_fields hpart
  have hempty : Draft.holding limits [] = .empty := rfl
  rw [decode, ← hempty, hdecode, Except.map, toLimits_holding hkeys]

end ConnectionLimits

namespace Config

/-- Settings of which some have their defaults, and some of the limits as well. -/
def without (config : Config) (dropped droppedLimits : List String) : Config where
  spotUrl := kept dropped "spot_api_url" config.spotUrl standard.spotUrl
  contractUrl := kept dropped "contract_api_url" config.contractUrl standard.contractUrl
  publicStreamUrl :=
    kept dropped "websocket_public_url" config.publicStreamUrl standard.publicStreamUrl
  privateStreamUrl :=
    kept dropped "websocket_private_url" config.privateStreamUrl standard.privateStreamUrl
  rateLimit := kept dropped "rate_limit" config.rateLimit standard.rateLimit
  privateRateLimit :=
    kept dropped "private_rate_limit" config.privateRateLimit standard.privateRateLimit
  symbolSuffix :=
    kept dropped "supported_symbols_suffix" config.symbolSuffix standard.symbolSuffix
  limits := kept dropped "connection_limits" (config.limits.without droppedLimits) standard.limits

/-- The members of settings, with an object of limits in place of their own. -/
def fieldsWith (config : Config) (limits : Node) : List (String × Node) :=
  (fieldsOf config.toValue).map fun field =>
    if field.1 = "connection_limits" then (field.1, limits) else field

/-- An object of settings without the members of some keys, and without some of the limits. -/
def IsPart (config : Config) (dropped droppedLimits : List String) (node : Node) : Prop :=
  ∃ members limits, node = .object (membersOf members) .closed ∧
    config.limits.IsPart droppedLimits limits ∧
    Wire.IsPart (config.fieldsWith limits) dropped members

/-- What settings are read into, of which the limits are given in part. -/
def Draft.holding (config : Config) (droppedLimits keys : List String) : Draft where
  spotUrl := held? keys "spot_api_url" config.spotUrl
  contractUrl := held? keys "contract_api_url" config.contractUrl
  publicStreamUrl := held? keys "websocket_public_url" config.publicStreamUrl
  privateStreamUrl := held? keys "websocket_private_url" config.privateStreamUrl
  rateLimit := held? keys "rate_limit" config.rateLimit
  privateRateLimit := held? keys "private_rate_limit" config.privateRateLimit
  symbolSuffix := held? keys "supported_symbols_suffix" config.symbolSuffix
  limits := held? keys "connection_limits" (config.limits.without droppedLimits)

variable {config : Config} {limits : Node}

theorem fieldsWith_eq (config : Config) (limits : Node) :
    config.fieldsWith limits =
      [("spot_api_url", .ofValue (.string config.spotUrl)),
        ("contract_api_url", .ofValue (.string config.contractUrl)),
        ("websocket_public_url", .ofValue (.string config.publicStreamUrl)),
        ("websocket_private_url", .ofValue (.string config.privateStreamUrl)),
        ("rate_limit", .ofValue (.ofWord config.rateLimit)),
        ("private_rate_limit", .ofValue (.ofWord config.privateRateLimit)),
        ("supported_symbols_suffix", .ofValue (.string config.symbolSuffix)),
        ("connection_limits", limits)] := by
  simp [fieldsWith, fieldsOf, toValue]

theorem gathers (hlimits : ConnectionLimits.decode reading limits =
      .ok (config.limits.without droppedLimits)) :
    Gathers (shape.set reading) (config.fieldsWith limits)
      (Draft.holding config droppedLimits) := by
  intro member hmem keys hnot
  simp only [fieldsWith_eq, List.mem_cons, List.not_mem_nil, or_false] at hmem
  rcases hmem with rfl | rfl | rfl | rfl | rfl | rfl | rfl | rfl
  all_goals
    refine ⟨_, rfl, ?_⟩
    simp [Draft.setSpotUrl, Draft.setContractUrl, Draft.setPublicStreamUrl,
      Draft.setPrivateStreamUrl, Draft.setRateLimit, Draft.setPrivateRateLimit,
      Draft.setSymbolSuffix, Draft.setLimits, Draft.holding, held?, fill, hnot, hlimits, bind,
      Except.bind, Except.map]

theorem set_eq_none {key : String} (h : key ∉ (config.fieldsWith limits).map Prod.fst) :
    shape.set reading key = none := by
  simp only [fieldsWith_eq, List.map_cons, List.map_nil, List.mem_cons, List.not_mem_nil,
    or_false, not_or] at h
  obtain ⟨_, _, _, _, _, _, _, _⟩ := h
  simp only [shape]

theorem toConfig_holding {keys : List String}
    (h : ∀ key ∈ (config.fieldsWith limits).map Prod.fst, key ∈ keys ↔ key ∉ dropped) :
    (Draft.holding config droppedLimits keys).toConfig = config.without dropped droppedLimits := by
  simp only [fieldsWith_eq, List.map_cons, List.map_nil, List.forall_mem_cons] at h
  obtain ⟨hspot, hcontract, hpublic, hprivate, hrate, hprivateRate, hsuffix, hlimits, -⟩ := h
  simp only [Draft.holding, Draft.toConfig, without, getD_held? hspot, getD_held? hcontract,
    getD_held? hpublic, getD_held? hprivate, getD_held? hrate, getD_held? hprivateRate,
    getD_held? hsuffix, getD_held? hlimits]

theorem nodup_fields : ((config.fieldsWith limits).map Prod.fst).Nodup := by
  simp [fieldsWith_eq]

/-- Settings given in part overlay the defaults. -/
theorem decode_of_isPart (hadmits : reading.Admits 2)
    (h : config.IsPart dropped droppedLimits node) :
    decode reading node = .ok (config.without dropped droppedLimits) := by
  obtain ⟨members, limits, rfl, hlimits, hpart⟩ := h
  obtain ⟨inner, hinner, hone⟩ := hadmits.enter
  have hgathers := gathers (ConnectionLimits.decode_of_isPart hone hlimits)
  obtain ⟨keys, hkeys, hdecode⟩ :=
    hgathers.decode (fun _ => set_eq_none) hinner nodup_fields hpart
  have hempty : Draft.holding config droppedLimits [] = .empty := rfl
  rw [decode, ← hempty, hdecode, Except.map, toConfig_holding hkeys]

end Config

end SpotWire
