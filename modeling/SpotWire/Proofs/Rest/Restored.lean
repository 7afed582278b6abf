import SpotWire.Proofs.Rest.Envelope
import SpotWire.Proofs.Wire.Restored

/-!
# Envelopes, printed and read again

An envelope is read again from its printed form if its data are. The code is printed as a text,
also where it has been a number.
-/

namespace SpotWire.Envelope

open Json Wire

variable {α : Type} {decode : Decoder α} {encode : α → Value} {free : α → Prop}
  {reading inner : Reading} {root : Node} {envelope : Envelope α}

theorem decodeCode_ofValue (reading : Reading) (code : String) :
    decodeCode reading (.ofValue (.string code)) = .ok code :=
  rfl

theorem decode_toValue (hinner : reading.enter = .ok inner)
    (htime : ∀ time, envelope.requestTime = some time →
      int64 inner (.ofValue (.number (.integer time))) = .ok time)
    (hdata : ∀ data, envelope.data = some data →
      encode data ≠ .null ∧ decode inner (.ofValue (encode data)) = .ok data) :
    Envelope.decode decode reading (.ofValue (envelope.toValue encode)) = .ok envelope := by
  have htime' : optional int64 inner (.ofValue
      (.ofOption (fun time => .number (.integer time)) envelope.requestTime)) =
        .ok envelope.requestTime :=
    optional_ofOption fun time h => ⟨nofun, htime time h⟩
  have hdata' := optional_ofOption hdata
  rw [Envelope.decode, toValue, Shape.decode_ofValue_object hinner]
  simp [Node.ofMembers, fillMembers, orBroken, shape, Draft.setCode, Draft.setMessage,
    Draft.setRequestTime, Draft.setData, Draft.empty, fill, decodeCode_ofValue, htime', hdata',
    Ending.readFault?, Draft.toEnvelope, require, bind, Except.bind, Except.map]

theorem holdsWhole_toValue
    (htime : ∀ time, envelope.requestTime = some time → Value.HoldsWhole (.number (.integer time)))
    (hdata : ∀ data, envelope.data = some data → (encode data).HoldsWhole) :
    (envelope.toValue encode).HoldsWhole := by
  refine .object ?_
  simp only [List.forall_mem_cons]
  exact ⟨.string _, .string _, Value.holdsWhole_ofOption htime, Value.holdsWhole_ofOption hdata,
    nofun⟩

/-- Envelopes are read again if their data are. -/
theorem restores_decode
    (h : ∀ inner, reading.enter = .ok inner → Restores inner decode encode free) :
    Restores reading (Envelope.decode decode) (toValue encode)
      fun envelope => ∀ data, envelope.data = some data → free data where
  reread henvelope := by
    obtain ⟨inner, hinner, hread⟩ := exists_readFrom henvelope
    refine decode_toValue hinner (fun time htime => ?_) fun data hdata => ?_
    · obtain ⟨content, hcontent⟩ := hread.exists_requestTime htime
      exact (restores_int64 inner).reread hcontent
    · obtain ⟨content, -, hne, hcontent⟩ := (hread.data_eq_some_iff data).mp hdata
      exact ⟨(h inner hinner).ne_null hcontent hne, (h inner hinner).reread hcontent⟩
  ne_null _ _ := nofun
  holdsWhole henvelope hfits hfree := by
    obtain ⟨inner, hinner, hread⟩ := exists_readFrom henvelope
    refine holdsWhole_toValue (fun time htime => ?_) fun data hdata => ?_
    · obtain ⟨content, hcontent⟩ := hread.exists_requestTime htime
      exact holdsWhole_of_int64 hcontent
    · obtain ⟨content, hholds, -, hcontent⟩ := (hread.data_eq_some_iff data).mp hdata
      exact (h inner hinner).holdsWhole hcontent (hholds.allNumbers hfits) (hfree data hdata)

end SpotWire.Envelope
