import SpotWire.Proofs.Rest.Outcome
import SpotWire.Proofs.Wire.Simulation

/-!
# Replies that grant a request

A reply that is an envelope, whatever its data, with the code of granted requests gives what its
data are read as.
-/

namespace SpotWire

open Json Wire

namespace Envelope

variable {α : Type} {decode : Decoder α} {reading : Reading} {root : Node}

/-- Data of any kind. -/
def anything : Decoder Unit := fun _ _ => .ok ()

/-- A draft of an envelope with any data, and one that is filled alike. -/
structure Draft.Alike (draft : Draft Unit) (other : Draft α) : Prop where
  code : draft.code = other.code
  message : draft.message = other.message
  requestTime : draft.requestTime = other.requestTime
  data : draft.data = none → other.data = none

section Steps

variable {contents : Node → Prop}

theorem simulates_setCode : Simulates (@Draft.Alike α) contents (Draft.setCode reading)
    (Draft.setCode reading) :=
  simulates_fill "code" decodeCode reading Draft.code Draft.code
    (fun draft code => { draft with code := code }) (fun draft code => { draft with code := code })
    (fun _ _ halike => halike.code)
    fun _ _ _ halike => ⟨rfl, halike.message, halike.requestTime, halike.data⟩

theorem simulates_setMessage : Simulates (@Draft.Alike α) contents (Draft.setMessage reading)
    (Draft.setMessage reading) :=
  simulates_fill "msg" string reading Draft.message Draft.message
    (fun draft message => { draft with message := message })
    (fun draft message => { draft with message := message }) (fun _ _ halike => halike.message)
    fun _ _ _ halike => ⟨halike.code, rfl, halike.requestTime, halike.data⟩

theorem simulates_setRequestTime : Simulates (@Draft.Alike α) contents
    (Draft.setRequestTime reading) (Draft.setRequestTime reading) :=
  simulates_fill "requestTime" (optional int64) reading Draft.requestTime Draft.requestTime
    (fun draft requestTime => { draft with requestTime := requestTime })
    (fun draft requestTime => { draft with requestTime := requestTime })
    (fun _ _ halike => halike.requestTime)
    fun _ _ _ halike => ⟨halike.code, halike.message, rfl, halike.data⟩

theorem simulates_setData
    (hdata : ∀ content, contents content → ∃ data, optional decode reading content = .ok data) :
    Simulates Draft.Alike contents (Draft.setData anything reading)
      (Draft.setData decode reading) := by
  intro draft other content next halike hcontent h
  obtain ⟨hempty, found, -, rfl⟩ := bind_fill_eq_ok_iff.mp h
  obtain ⟨data, hread⟩ := hdata content hcontent
  refine ⟨{ other with data := some data }, ?_, halike.code, halike.message, halike.requestTime,
    nofun⟩
  rw [Draft.setData, fill_eq_ok_iff.mpr ⟨halike.data hempty, data, hread, rfl⟩]
  rfl

end Steps

theorem set_simulates {key : String} {contents : String → Node → Prop}
    {step : Draft Unit → Node → Except Problem (Draft Unit)}
    (hdata : ∀ content, contents "data" content →
      ∃ data, optional decode reading content = .ok data)
    (hset : (shape anything).set reading key = some step) :
    ∃ step', (shape decode).set reading key = some step' ∧
      Simulates Draft.Alike (contents key) step step' := by
  simp only [shape] at hset
  split at hset <;> cases hset
  · exact ⟨_, rfl, simulates_setCode⟩
  · exact ⟨_, rfl, simulates_setMessage⟩
  · exact ⟨_, rfl, simulates_setRequestTime⟩
  · exact ⟨_, rfl, simulates_setData hdata⟩

theorem set_eq_none_of_anything {key : String}
    (hset : (shape anything).set reading key = none) : (shape decode).set reading key = none := by
  refine set_eq_none ?_ ?_ ?_ ?_ <;> rintro rfl <;> cases hset

theorem places_simulate {place : Nat} {contents : Nat → Node → Prop} {own : Place (Draft Unit)}
    {own' : Place (Draft α)}
    (hdata : ∀ content, contents 3 content → ∃ data, optional decode reading content = .ok data)
    (hown : ((shape anything).places reading)[place]? = some own)
    (hown' : ((shape decode).places reading)[place]? = some own') :
    own.optional = own'.optional ∧ Simulates Draft.Alike (contents place) own.read own'.read := by
  rcases place with _ | _ | _ | _ | place <;> cases hown <;> cases hown'
  · exact ⟨rfl, simulates_setCode⟩
  · exact ⟨rfl, simulates_setMessage⟩
  · exact ⟨rfl, simulates_setRequestTime⟩
  · exact ⟨rfl, simulates_setData hdata⟩

theorem alike_empty : Draft.Alike (.empty : Draft Unit) (.empty : Draft α) :=
  ⟨rfl, rfl, rfl, fun _ => rfl⟩

theorem exists_draft {draft : Draft Unit}
    (h : (shape anything).decode .empty reading root = .ok draft)
    (hdata : ∀ inner, reading.enter = .ok inner → ∀ content, Holds "data" 3 root content →
      ∃ data, optional decode inner content = .ok data) :
    ∃ other, (shape decode).decode .empty reading root = .ok other ∧ draft.Alike other := by
  unfold Shape.decode at h
  split at h
  · rename_i members ending
    obtain ⟨inner, hinner, h⟩ := bind_eq_ok h
    have hsteps : ∀ key step, (shape anything).set inner key = some step →
        ∃ step', (shape decode).set inner key = some step' ∧
          Simulates Draft.Alike (fun content => (.ok key, content) ∈ members) step step' :=
      fun key step => @set_simulates α decode inner key
        (fun key content => (.ok key, content) ∈ members) step
        fun content hmem => hdata inner hinner content (.member hmem)
    obtain ⟨other, hother, halike⟩ :=
      fillMembers_simulates (fun key => set_eq_none_of_anything) hsteps alike_empty h
    refine ⟨other, ?_, halike⟩
    simp only [Shape.decode, hinner]
    exact hother
  · rename_i nodes ending
    obtain ⟨inner, hinner, h⟩ := bind_eq_ok h
    obtain ⟨⟨last, left⟩, hlast, h⟩ := bind_eq_ok h
    have hsteps : ∀ (place : Nat) own own',
        ((shape anything).places inner)[place]? = some own →
        ((shape decode).places inner)[place]? = some own' →
        own.optional = own'.optional ∧
          Simulates Draft.Alike (fun content => nodes[place]? = some content) own.read own'.read :=
      fun place own own' => @places_simulate α decode inner place
        (fun place content => nodes[place]? = some content) own own'
        fun content hitem => hdata inner hinner content (.item hitem)
    have hlength : ((shape anything).places inner).length =
        ((shape decode).places inner).length := rfl
    obtain ⟨other, hother, halike⟩ := fillPlaces_simulates
      ((shape decode).expected ++ " with " ++ elementCount ((shape decode).places inner).length)
      hlength hsteps alike_empty hlast
    simp only [Shape.decode, hinner, bind, Except.bind, hother] at h ⊢
    -- what is left of the array is the same for both
    split at h
    · rename_i hheld
      split at h
      · rename_i hempty
        cases h
        exact ⟨other, by rw [if_pos hheld, if_pos hempty], halike⟩
      · cases h
    · rename_i hheld
      cases hend : arrayEnd left ending with
      | error problem =>
          rw [hend] at h
          cases h
      | ok =>
          rw [hend] at h
          cases h
          exact ⟨other, by rw [if_neg hheld], halike⟩
  · obtain ⟨found, -, h⟩ := bind_eq_ok h
    cases h

/-- An envelope with any data is an envelope with such data as are asked for, if its data are. -/
theorem exists_decode {envelope : Envelope Unit}
    (h : Envelope.decode anything reading root = .ok envelope)
    (hdata : ∀ inner, reading.enter = .ok inner → ∀ content, Holds "data" 3 root content →
      ∃ data, optional decode inner content = .ok data) :
    ∃ other, Envelope.decode decode reading root = .ok other := by
  obtain ⟨draft, hdraft, henvelope⟩ := bind_eq_ok h
  obtain ⟨code, hcode, -⟩ := bind_eq_ok henvelope
  obtain ⟨other, hother, halike⟩ := exists_draft hdraft hdata
  rw [halike.code] at hcode
  refine ⟨⟨code, other.message.getD "", other.requestTime.join, other.data.join⟩, ?_⟩
  rw [Envelope.decode, hother]
  simp only [bind, Except.bind, Draft.toEnvelope, hcode]

end Envelope

namespace Reply

variable {α : Type} {decode : Decoder α} {reply : Reply} {node : Node}

/-- A reply is an envelope with the code of granted requests, and with certain data. -/
structure Grants (reply : Reply) (node : Node) : Prop where
  carries : ∃ envelope, reply.Carries Envelope.anything envelope
  code : reply.HasSuccessCode
  data : ∀ content, Holds "data" 3 reply.root content ↔ content = node

theorem carries_iff {envelope : Envelope α} :
    reply.Carries decode envelope ↔
      (Document.ofChars reply.body.toList).trailing = false ∧
        Envelope.decode decode .ofDocument reply.root = .ok envelope := by
  rw [Carries, ofText, ofDocument, bind_eq_ok_iff, root]
  cases (Document.ofChars reply.body.toList).trailing <;> simp

theorem grants_of_document {root : Node}
    (hbody : Document.ofChars reply.body.toList = ⟨root, false⟩)
    (hany : ∃ envelope, Envelope.decode Envelope.anything .ofDocument root = .ok envelope)
    (hcode : Holds "code" 0 root (.string (.ok Envelope.successCode)))
    (hdata : ∀ content, Holds "data" 3 root content ↔ content = node) : reply.Grants node := by
  have hroot : reply.root = root := by rw [Reply.root, hbody]
  obtain ⟨envelope, hany⟩ := hany
  refine ⟨⟨envelope, carries_iff.mpr ⟨by rw [hbody], hroot ▸ hany⟩⟩, ?_, ?_⟩
  · rw [HasSuccessCode, hroot]
    exact hcode
  · rw [hroot]
    exact hdata

theorem Grants.data_eq_ok_iff (h : reply.Grants node) {data : α} :
    reply.data decode = .ok data ↔ node ≠ .null ∧ decode rootReading node = .ok data := by
  have hholds : Holds "data" 3 reply.root node := (h.data node).mpr rfl
  rw [Reply.data_eq_ok_iff]
  constructor
  · rintro ⟨-, -, content, hcontent, hread⟩
    obtain rfl := (h.data content).mp hcontent
    exact hread
  · intro hread
    refine ⟨?_, h.code, node, hholds, hread⟩
    obtain ⟨envelope, hcarries⟩ := h.carries
    obtain ⟨htrailing, hroot⟩ := carries_iff.mp hcarries
    have hany := (readFrom_of_carries hcarries).data node hholds
    obtain ⟨other, hother⟩ :
        ∃ other, Envelope.decode decode .ofDocument reply.root = .ok other := by
      refine Envelope.exists_decode hroot fun inner hinner content hcontent => ?_
      obtain rfl : rootReading = inner := Except.ok.inj hinner
      obtain rfl := (h.data content).mp hcontent
      exact ⟨some data, by rw [optional_of_optional hany hread.1, hread.2]; rfl⟩
    exact ⟨other, carries_iff.mpr ⟨htrailing, hother⟩⟩

end Reply

end SpotWire
