import SpotWire.Config
import SpotWire.Order
import SpotWire.Proofs.Market.Product
import SpotWire.Proofs.Message.Outbound
import SpotWire.Proofs.Rest.Restored

/-!
# Printing is undone by reading

Whatever has been read from a text, of any type that goes over the wire, is read again from its own
text: parameters of orders and settings, whose fields are printed one by one, and products,
envelopes and messages, with data that are free.
-/

namespace SpotWire

open Json Wire

variable {reading inner : Reading}

/-! ### Parameters and settings -/

namespace OrderParams

theorem variant_ofName (reading : Reading) (force : Force) :
    variant reading (.ofValue (.string (Named.name force))) = .ok force := by
  have hname : Named.ofName (Named.name force) = .ok force := by cases force <;> rfl
  exact (variant_string reading _).trans hname

theorem decode_toValue (hinner : reading.enter = .ok inner) (params : OrderParams) :
    decode reading (.ofValue params.toValue) = .ok params := by
  obtain ⟨id, force⟩ := params
  rw [decode, toValue, Shape.decode_ofValue_object hinner]
  cases id <;> cases force <;>
    simp [Node.ofMembers, fillMembers, orBroken, shape, Draft.setClientOrderId, Draft.setForce,
      Draft.empty, fill, optional_ofValue, variant_ofName, Draft.toParams, Ending.readFault?, bind,
      Except.bind, Except.map]

theorem holdsWhole_toValue (params : OrderParams) : params.toValue.HoldsWhole := by
  obtain ⟨id, force⟩ := params
  cases id <;> cases force <;> simp [toValue, Value.HoldsWhole]

end OrderParams

namespace ConnectionLimits

theorem decode_toValue (hinner : reading.enter = .ok inner) (limits : ConnectionLimits) :
    decode reading (.ofValue limits.toValue) = .ok limits := by
  rw [decode, toValue, Shape.decode_ofValue_object hinner]
  simp [Node.ofMembers, fillMembers, orBroken, shape, Draft.setConnectionsPerIp,
    Draft.setSubscriptionsPerConnection, Draft.setOperationsPerHour,
    Draft.setRequestsPerFiveMinutes, Draft.empty, fill, Draft.toLimits, Ending.readFault?, bind,
    Except.bind, Except.map]

theorem holdsWhole_toValue (limits : ConnectionLimits) : limits.toValue.HoldsWhole := by
  refine .object ?_
  simp only [List.forall_mem_cons]
  exact ⟨Value.holdsWhole_ofWord _, Value.holdsWhole_ofWord _, Value.holdsWhole_ofWord _,
    Value.holdsWhole_ofWord _, nofun⟩

end ConnectionLimits

namespace Config

/-- The limits stand one level further inside. -/
theorem decode_toValue {innermost : Reading} (hinner : reading.enter = .ok inner)
    (hinnermost : inner.enter = .ok innermost) (config : Config) :
    decode reading (.ofValue config.toValue) = .ok config := by
  rw [decode, toValue, Shape.decode_ofValue_object hinner]
  simp [Node.ofMembers, fillMembers, orBroken, shape, Draft.setSpotUrl, Draft.setContractUrl,
    Draft.setPublicStreamUrl, Draft.setPrivateStreamUrl, Draft.setRateLimit,
    Draft.setPrivateRateLimit, Draft.setSymbolSuffix, Draft.setLimits,
    ConnectionLimits.decode_toValue hinnermost, Draft.empty, fill, Draft.toConfig,
    Ending.readFault?, bind, Except.bind, Except.map]

theorem holdsWhole_toValue (config : Config) : config.toValue.HoldsWhole := by
  refine .object ?_
  simp only [List.forall_mem_cons]
  exact ⟨.string _, .string _, .string _, .string _, Value.holdsWhole_ofWord _,
    Value.holdsWhole_ofWord _, .string _, config.limits.holdsWhole_toValue, nofun⟩

end Config

/-! ### All types -/

/-- **Printing is undone by reading.** What has been read from a text is read again from its own
text, if the parts that are free hold no number of the binary format. -/
theorem every_type_reprints :
    Reprints Product.decode Product.toValue Product.HasNoReal ∧
      Reprints (Envelope.decode int64) (Envelope.toValue fun time => .number (.integer time))
        (fun _ => True) ∧
      Reprints (Envelope.decode value) (Envelope.toValue id)
        (fun envelope => ∀ data, envelope.data = some data → data.HasNoReal) ∧
      Reprints (Envelope.decode Product.decode) (Envelope.toValue Product.toValue)
        (fun envelope => ∀ product, envelope.data = some product → product.HasNoReal) ∧
      Reprints Outbound.decode Outbound.toValue Outbound.HasNoReal ∧
      Reprints OrderParams.decode OrderParams.toValue (fun _ => True) ∧
      Reprints ConnectionLimits.decode ConnectionLimits.toValue (fun _ => True) ∧
      Reprints Config.decode Config.toValue fun _ => True := by
  have hvalue : ∀ inner, Reading.ofDocument.enter = .ok inner →
      Restores inner value id Value.HasNoReal := fun inner hinner =>
    restores_value (Reading.admits_zero_of_enter hinner)
  have htimes := Envelope.restores_decode fun inner (_ : Reading.ofDocument.enter = .ok inner) =>
    restores_int64 inner
  have hproducts := Envelope.restores_decode
    fun inner (_ : Reading.ofDocument.enter = .ok inner) => Product.restores_decode inner
  refine ⟨(Product.restores_decode _).reprints, ?_, (Envelope.restores_decode hvalue).reprints,
    hproducts.reprints, (Outbound.restores_decode _).reprints,
    reprints_of_reads (OrderParams.decode_toValue rfl) OrderParams.holdsWhole_toValue,
    reprints_of_reads (ConnectionLimits.decode_toValue rfl) ConnectionLimits.holdsWhole_toValue,
    reprints_of_reads (Config.decode_toValue rfl rfl) Config.holdsWhole_toValue⟩
  exact fun text envelope h _ => htimes.reprints text envelope h fun _ _ => trivial

/-- A product with a number for an increment, its fields in no order, and a key that comes twice. -/
def scatteredProduct : Value :=
  .object [("status", .string "old"), ("tickSize", .number (.integer 5)),
    ("symbol", .string "BTCUSDT"), ("status", .array [.number (.integer 1), .null])]

def scattered : Product where
  symbol := "BTCUSDT"
  baseCoin := ""
  quoteCoin := ""
  priceScale := none
  quantityScale := none
  info := ⟨none, some "5", [("status", .array [.number (.integer 1), .null])]⟩

def pongTime : Value :=
  .object [("at", .number (.integer 7))]

/-- A pong given as an array. -/
def listedPong : Value :=
  .array [.string "pong", pongTime]

theorem ofText_scatteredProduct : ofText Product.decode scatteredProduct.text = .ok scattered := by
  have hwhole : Number.IsWhole (.integer 1) ∧ Number.IsWhole (.integer 5) :=
    ⟨⟨(by decide : Number.Whole 1), trivial⟩, ⟨(by decide : Number.Whole 5), trivial⟩⟩
  rw [ofText_text Product.decode (by simp [scatteredProduct, Value.HoldsWhole, hwhole])]
  rfl

theorem ofText_listedPong :
    ofText Outbound.decode listedPong.text = .ok (.pong (some pongTime)) := by
  have hwhole : Number.IsWhole (.integer 7) := ⟨(by decide : Number.Whole 7), trivial⟩
  rw [ofText_text Outbound.decode (by simp [listedPong, pongTime, Value.HoldsWhole, hwhole])]
  rfl

theorem reprints_scatteredProduct_and_listedPong :
    ofText Product.decode scattered.toValue.text = .ok scattered ∧
      ofText Outbound.decode (Outbound.pong (some pongTime)).toValue.text =
        .ok (.pong (some pongTime)) := by
  obtain ⟨hproduct, -, -, -, houtbound, -⟩ := every_type_reprints
  refine ⟨hproduct _ _ ofText_scatteredProduct ?_, houtbound _ _ ofText_listedPong ?_⟩
  · simp [Product.HasNoReal, scattered, Value.HasNoReal, Number.IsInteger]
  · rintro _ ⟨⟩
    simp [pongTime, Value.HasNoReal, Number.IsInteger]

end SpotWire
