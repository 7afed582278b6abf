import SpotWire.Proofs.Json.Number
import SpotWire.Proofs.Rest.Rejected
import SpotWire.Proofs.Wire.Record

/-!
# The fields of envelopes

The code of an envelope is read from what stands under `code`, or at the first place, and its data
from what stands under `data`, or at the fourth place. The code of a granted request is a text: no
number comes to it.
-/

namespace SpotWire

open Json Wire

namespace Envelope

variable {α : Type} {decode : Decoder α} {reading : Reading} {node root : Node}

/-! ### Codes -/

theorem codeText_eq_ok {found : Value} {code : String} (h : codeText found = .ok code) :
    found = .string code ∨ ∃ number, found = .number number ∧ code = String.ofList number.text := by
  cases found with
  | string text => exact .inl (congrArg Value.string (Except.ok.inj h))
  | number number => exact .inr ⟨number, rfl, (Except.ok.inj h).symm⟩
  | null | bool | array | object => cases h

/-- No number is the code of a granted request, however it is written. -/
theorem decodeCode_eq_successCode_iff :
    decodeCode reading node = .ok successCode ↔ node = .string (.ok successCode) := by
  constructor
  · intro h
    obtain ⟨found, hfound, hcode⟩ := bind_eq_ok h
    have hvalue : node.value (reading.depth.getD (node.levels + 1)) = .ok found := by
      unfold value orBroken at hfound
      split at hfound
      · rename_i hvalue
        exact hvalue.trans (congrArg Except.ok (Except.ok.inj hfound))
      · cases hfound
    rcases codeText_eq_ok hcode with rfl | ⟨number, rfl, htext⟩
    · exact Node.eq_string_of_value hvalue
    · -- a number comes to its own text, which is no row of five zeros
      have hzeros : number.text = List.replicate 5 '0' := (String.ofList_injective htext).symm
      exact absurd (Number.count_of_text_eq_zeros hzeros) (by decide)
  · rintro rfl
    rfl

/-! ### Fields -/

section Fields

variable {β : Type} {get : Draft α → Option β} (reading : Reading)

theorem fills_setCode : Fills Draft.code (decodeCode reading) (@Draft.setCode α reading) :=
  fills_fill "code" decodeCode reading
    (fun (draft : Draft α) code => { draft with code := code }) fun _ _ => rfl

theorem fills_setRequestTime :
    Fills Draft.requestTime (optional int64 reading) (@Draft.setRequestTime α reading) :=
  fills_fill "requestTime" (optional int64) reading
    (fun (draft : Draft α) requestTime => { draft with requestTime := requestTime }) fun _ _ => rfl

theorem fills_setData (decode : Decoder α) :
    Fills Draft.data (optional decode reading) (Draft.setData decode reading) :=
  fills_fill "data" (optional decode) reading
    (fun (draft : Draft α) data => { draft with data := data }) fun _ _ => rfl

theorem keeps_setCode (hget : ∀ draft code, get { draft with code := code } = get draft) :
    Keeps get (Draft.setCode reading) :=
  keeps_fill "code" Draft.code decodeCode reading (fun draft code => { draft with code := code })
    hget

theorem keeps_setMessage
    (hget : ∀ draft message, get { draft with message := message } = get draft) :
    Keeps get (Draft.setMessage reading) :=
  keeps_fill "msg" Draft.message string reading
    (fun draft message => { draft with message := message }) hget

theorem keeps_setRequestTime
    (hget : ∀ draft requestTime, get { draft with requestTime := requestTime } = get draft) :
    Keeps get (Draft.setRequestTime reading) :=
  keeps_fill "requestTime" Draft.requestTime (optional int64) reading
    (fun draft requestTime => { draft with requestTime := requestTime }) hget

theorem keeps_setData (decode : Decoder α)
    (hget : ∀ draft data, get { draft with data := data } = get draft) :
    Keeps get (Draft.setData decode reading) :=
  keeps_fill "data" Draft.data (optional decode) reading
    (fun draft data => { draft with data := data }) hget

/-- The steps of an envelope's fields by place, each with its key. -/
def fieldSteps (decode : Decoder α) : List (String × (Draft α → Node → Except Problem (Draft α))) :=
  [("code", Draft.setCode reading), ("msg", Draft.setMessage reading),
    ("requestTime", Draft.setRequestTime reading), ("data", Draft.setData decode reading)]

theorem hasField {key : String} {place : Nat} {step : Draft α → Node → Except Problem (Draft α)}
    {read : Node → Except Problem β} (decode : Decoder α)
    (hown : (fieldSteps reading decode)[place]? = some (key, step)) (hfills : Fills get read step)
    (hothers : ∀ other found, other ≠ place → (fieldSteps reading decode)[other]? = some found →
      Keeps get found.2) :
    (shape decode).HasField reading key place get read where
  member := by
    refine ⟨step, ?_, hfills⟩
    rcases place with _ | _ | _ | _ | place <;> cases hown <;> rfl
  otherMembers := by
    -- another key stands at another place
    have hplace : ∀ other name found, (fieldSteps reading decode)[other]? = some (name, found) →
        name ≠ key → other ≠ place := by
      rintro other name found hfound hne rfl
      rw [hown] at hfound
      cases hfound
      exact hne rfl
    intro other found hne hset
    simp only [shape] at hset
    split at hset <;> cases hset
    · exact hothers 0 _ (hplace 0 _ _ rfl hne) rfl
    · exact hothers 1 _ (hplace 1 _ _ rfl hne) rfl
    · exact hothers 2 _ (hplace 2 _ _ rfl hne) rfl
    · exact hothers 3 _ (hplace 3 _ _ rfl hne) rfl
  item := by
    rcases place with _ | _ | _ | _ | place <;> cases hown <;> exact ⟨_, rfl, hfills⟩
  otherItems := by
    intro other found hne hfound
    rcases other with _ | _ | _ | _ | other <;> cases hfound
    · exact hothers 0 _ hne rfl
    · exact hothers 1 _ hne rfl
    · exact hothers 2 _ hne rfl
    · exact hothers 3 _ hne rfl

theorem hasField_code (decode : Decoder α) :
    (shape decode).HasField reading "code" 0 Draft.code (decodeCode reading) := by
  refine hasField reading decode rfl (fills_setCode reading) fun other found hne hfound => ?_
  rcases other with _ | _ | _ | _ | other <;> cases hfound
  · exact absurd rfl hne
  · exact keeps_setMessage reading fun _ _ => rfl
  · exact keeps_setRequestTime reading fun _ _ => rfl
  · exact keeps_setData reading decode fun _ _ => rfl

theorem hasField_requestTime (decode : Decoder α) :
    (shape decode).HasField reading "requestTime" 2 Draft.requestTime
      (optional int64 reading) := by
  refine hasField reading decode rfl (fills_setRequestTime reading) fun other found hne hfound => ?_
  rcases other with _ | _ | _ | _ | other <;> cases hfound
  · exact keeps_setCode reading fun _ _ => rfl
  · exact keeps_setMessage reading fun _ _ => rfl
  · exact absurd rfl hne
  · exact keeps_setData reading decode fun _ _ => rfl

theorem hasField_data (decode : Decoder α) :
    (shape decode).HasField reading "data" 3 Draft.data (optional decode reading) := by
  refine hasField reading decode rfl (fills_setData reading decode) fun other found hne hfound => ?_
  rcases other with _ | _ | _ | _ | other <;> cases hfound
  · exact keeps_setCode reading fun _ _ => rfl
  · exact keeps_setMessage reading fun _ _ => rfl
  · exact keeps_setRequestTime reading fun _ _ => rfl
  · exact absurd rfl hne

end Fields

/-- What the fields of an envelope are read from, where a reading has entered. -/
structure ReadFrom (decode : Decoder α) (inner : Reading) (root : Node) (envelope : Envelope α) :
    Prop where
  hasCode : ∃ content, Holds "code" 0 root content
  code : ∀ content, Holds "code" 0 root content → decodeCode inner content = .ok envelope.code
  requestTime : ∀ content, Holds "requestTime" 2 root content →
    optional int64 inner content = .ok envelope.requestTime
  noRequestTime : (∀ content, ¬Holds "requestTime" 2 root content) → envelope.requestTime = none
  data : ∀ content, Holds "data" 3 root content → optional decode inner content = .ok envelope.data
  noData : (∀ content, ¬Holds "data" 3 root content) → envelope.data = none

theorem exists_readFrom {envelope : Envelope α}
    (h : Envelope.decode decode reading root = .ok envelope) :
    ∃ inner, reading.enter = .ok inner ∧ envelope.ReadFrom decode inner root := by
  obtain ⟨draft, hdraft, henvelope⟩ := bind_eq_ok h
  obtain ⟨inner, hinner, hfields⟩ := Shape.decode_eq_ok hdraft
  obtain ⟨code, hcode, henvelope⟩ := bind_eq_ok henvelope
  obtain rfl := Except.ok.inj henvelope
  have hfilled : draft.code = some code := by
    cases hdraftcode : draft.code with
    | none =>
        rw [hdraftcode] at hcode
        cases hcode
    | some found =>
        rw [hdraftcode] at hcode
        exact congrArg some (Except.ok.inj hcode)
  obtain ⟨hcodes, hnocode⟩ := hfields "code" 0 Draft.code _ (hasField_code inner decode)
  obtain ⟨htimes, hnotime⟩ :=
    hfields "requestTime" 2 Draft.requestTime _ (hasField_requestTime inner decode)
  obtain ⟨hdatas, hnodata⟩ := hfields "data" 3 Draft.data _ (hasField_data inner decode)
  refine ⟨inner, hinner, ?_, ?_, ?_, fun hnone => ?_, ?_, fun hnone => ?_⟩
  · by_contra hnone
    rw [hnocode fun content hholds => hnone ⟨content, hholds⟩] at hfilled
    cases hfilled
  · intro content hholds
    obtain ⟨found, hread, hfound⟩ := hcodes content hholds
    rw [hfilled] at hfound
    rw [hread, Option.some.inj hfound]
  · intro content hholds
    obtain ⟨found, hread, hfound⟩ := htimes content hholds
    rw [hread, hfound]
    rfl
  · simp only [hnotime hnone]
    rfl
  · intro content hholds
    obtain ⟨found, hread, hfound⟩ := hdatas content hholds
    rw [hread, hfound]
    rfl
  · simp only [hnodata hnone]
    rfl

theorem readFrom_of_document {envelope : Envelope α}
    (h : Envelope.decode decode .ofDocument root = .ok envelope) :
    envelope.ReadFrom decode rootReading root := by
  obtain ⟨inner, hinner, hread⟩ := exists_readFrom h
  obtain rfl : rootReading = inner := Except.ok.inj hinner
  exact hread

namespace ReadFrom

variable {inner : Reading} {envelope : Envelope α}

theorem exists_requestTime (h : envelope.ReadFrom decode inner root) {time : Int}
    (htime : envelope.requestTime = some time) : ∃ content, int64 inner content = .ok time := by
  by_cases hholds : ∃ content, Holds "requestTime" 2 root content
  · obtain ⟨content, hcontent⟩ := hholds
    exact ⟨content, ((eq_some_iff_of_optional (h.requestTime content hcontent) time).mp htime).2⟩
  · rw [h.noRequestTime fun content hcontent => hholds ⟨content, hcontent⟩] at htime
    cases htime

theorem data_eq_some_iff (h : envelope.ReadFrom decode inner root) (data : α) :
    envelope.data = some data ↔
      ∃ content, Holds "data" 3 root content ∧ content ≠ .null ∧
        decode inner content = .ok data := by
  constructor
  · intro hsome
    by_contra hlacks
    have habsent : ∀ content, ¬Holds "data" 3 root content := by
      intro content hholds
      have hread := (eq_some_iff_of_optional (h.data content hholds) data).mp hsome
      exact hlacks ⟨content, hholds, hread⟩
    rw [h.noData habsent] at hsome
    cases hsome
  · rintro ⟨content, hholds, hread⟩
    exact (eq_some_iff_of_optional (h.data content hholds) data).mpr hread

theorem data_eq_none_iff (h : envelope.ReadFrom decode inner root) :
    envelope.data = none ↔ ∀ content, Holds "data" 3 root content → content = .null := by
  constructor
  · intro hempty content hholds
    exact (eq_none_iff_of_optional (h.data content hholds)).mp hempty
  · intro hlacks
    by_cases hpresent : ∃ content, Holds "data" 3 root content
    · obtain ⟨content, hholds⟩ := hpresent
      exact (eq_none_iff_of_optional (h.data content hholds)).mpr (hlacks content hholds)
    · exact h.noData fun content hholds => hpresent ⟨content, hholds⟩

end ReadFrom

end Envelope

end SpotWire
