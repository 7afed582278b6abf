import Mathlib.Data.List.Permutation
import SpotWire.Proofs.Json.Members
import SpotWire.Proofs.Json.Reader
import SpotWire.Proofs.Wire.Partial
import SpotWire.Rest.Client

/-!
# Rejected requests

The data of a reply are read together with its envelope, before its code is looked at. So the code
and the message of a rejection reach the caller if and only if the reply has no data or its data
are such as had been asked for.
-/

namespace SpotWire

open Json Wire

/-- The fields of a well-formed reply that rejects a request with a code and a message. Its data
may be anything, and so may fields that are not known. -/
structure Rejects (code message : String) (fields : List (String × Node)) : Prop where
  nodup : (fields.map Prod.fst).Nodup
  sound : ∀ field ∈ fields, field.2.passedFault? = none
  code_mem : ("code", .string (.ok code)) ∈ fields
  code_ne : code ≠ Envelope.successCode
  message_mem : ("msg", .string (.ok message)) ∈ fields
  requestTime : ∀ node, ("requestTime", node) ∈ fields →
    node = .null ∨ ∃ n : Int, node = .number (.ok (.integer n)) ∧
      Numeric.int64Min ≤ n ∧ n ≤ Numeric.int64Max

def rootReading : Reading := ⟨some (Reading.documentDepth - 1)⟩

/-- The data of a reply are absent, `null`, or such as a request asks for. -/
def HasLegibleData {α : Type} (decode : Decoder α) (fields : List (String × Node)) : Prop :=
  ∀ node, ("data", node) ∈ fields → ∃ data, Wire.optional decode rootReading node = .ok data

namespace Envelope

variable {α : Type} {decode : Decoder α} {reading : Reading} {code message : String}

/-! ### One field -/

theorem set_eq_none {key : String} (hcode : key ≠ "code") (hmessage : key ≠ "msg")
    (htime : key ≠ "requestTime") (hdata : key ≠ "data") :
    (shape decode).set reading key = none := by
  simp only [shape]

/-- No field that is still to come has been filled. -/
structure Draft.Awaits (draft : Draft α) (fields : List (String × Node)) : Prop where
  code : "code" ∈ fields.map Prod.fst → draft.code = none
  message : "msg" ∈ fields.map Prod.fst → draft.message = none
  requestTime : "requestTime" ∈ fields.map Prod.fst → draft.requestTime = none
  data : "data" ∈ fields.map Prod.fst → draft.data = none

theorem Draft.Awaits.tail {draft : Draft α} {field : String × Node} {rest : List (String × Node)}
    (h : draft.Awaits (field :: rest)) : draft.Awaits rest where
  code hmem := h.code (List.mem_cons_of_mem _ hmem)
  message hmem := h.message (List.mem_cons_of_mem _ hmem)
  requestTime hmem := h.requestTime (List.mem_cons_of_mem _ hmem)
  data hmem := h.data (List.mem_cons_of_mem _ hmem)

/-- What fields of a rejection hold, as far as they are there. -/
structure Fits (code message : String) (fields : List (String × Node)) : Prop where
  nodup : (fields.map Prod.fst).Nodup
  sound : ∀ field ∈ fields, field.2.passedFault? = none
  code : ∀ node, ("code", node) ∈ fields → node = .string (.ok code)
  message : ∀ node, ("msg", node) ∈ fields → node = .string (.ok message)
  requestTime : ∀ node, ("requestTime", node) ∈ fields →
    node = .null ∨ ∃ n : Int, node = .number (.ok (.integer n)) ∧
      Numeric.int64Min ≤ n ∧ n ≤ Numeric.int64Max

theorem Fits.tail {field : String × Node} {rest : List (String × Node)}
    (h : Fits code message (field :: rest)) : Fits code message rest where
  nodup := (List.nodup_cons.mp h.nodup).2
  sound other hmem := h.sound other (List.mem_cons_of_mem _ hmem)
  code node hmem := h.code node (List.mem_cons_of_mem _ hmem)
  message node hmem := h.message node (List.mem_cons_of_mem _ hmem)
  requestTime node hmem := h.requestTime node (List.mem_cons_of_mem _ hmem)

theorem optional_int64_of_fits (reading : Reading) {node : Node} (h : node = .null ∨
    ∃ n : Int, node = .number (.ok (.integer n)) ∧ Numeric.int64Min ≤ n ∧ n ≤ Numeric.int64Max) :
    ∃ time, Wire.optional int64 reading node = .ok time := by
  rcases h with rfl | ⟨n, rfl, hlow, hhigh⟩
  · exact ⟨none, rfl⟩
  · refine ⟨some n, ?_⟩
    simp [Wire.optional, int64, integer, hlow, hhigh, Except.map]

section Fields

variable {draft : Draft α} {key : String} {node : Node} {rest fields : List (String × Node)}

/-- Every field but illegible data is taken in, and only its own place is filled. -/
theorem exists_next (decode : Decoder α) (reading : Reading)
    (hfits : Fits code message ((key, node) :: rest))
    (hawaits : draft.Awaits ((key, node) :: rest))
    (hdata : key = "data" → ∃ data, Wire.optional decode reading node = .ok data) :
    ∃ next : Draft α, next.Awaits rest ∧
      fillMembers ((shape decode).set reading) draft (membersOf ((key, node) :: rest)) .closed =
        fillMembers ((shape decode).set reading) next (membersOf rest) .closed ∧
      next.code = (if key = "code" then some code else draft.code) ∧
      next.message = (if key = "msg" then some message else draft.message) := by
  have hfresh : key ∉ rest.map Prod.fst := (List.nodup_cons.mp hfits.nodup).1
  have hhead : key ∈ ((key, node) :: rest).map Prod.fst := List.mem_cons_self
  have htail := hawaits.tail
  by_cases hcode : key = "code"
  · subst hcode
    obtain rfl := hfits.code node List.mem_cons_self
    refine ⟨{ draft with code := some code }, ⟨fun hmem => absurd hmem hfresh, htail.message,
      htail.requestTime, htail.data⟩, ?_, rfl, rfl⟩
    rw [fillMembers_of_set rfl]
    simp [Draft.setCode, fill, hawaits.code hhead, decodeCode, codeText, value, Node.value,
      orBroken, bind, Except.bind, Except.map]
  by_cases hmessage : key = "msg"
  · subst hmessage
    obtain rfl := hfits.message node List.mem_cons_self
    refine ⟨{ draft with message := some message }, ⟨htail.code, fun hmem => absurd hmem hfresh,
      htail.requestTime, htail.data⟩, ?_, rfl, rfl⟩
    rw [fillMembers_of_set rfl]
    simp [Draft.setMessage, fill, hawaits.message hhead, string, orBroken, bind, Except.bind,
      Except.map]
  by_cases htime : key = "requestTime"
  · subst htime
    obtain ⟨time, hread⟩ := optional_int64_of_fits reading
      (hfits.requestTime node List.mem_cons_self)
    refine ⟨{ draft with requestTime := some time }, ⟨htail.code, htail.message,
      fun hmem => absurd hmem hfresh, htail.data⟩, ?_, rfl, rfl⟩
    rw [fillMembers_of_set rfl]
    simp [Draft.setRequestTime, fill, hawaits.requestTime hhead, hread, bind, Except.bind,
      Except.map]
  by_cases hown : key = "data"
  · subst hown
    obtain ⟨data, hread⟩ := hdata rfl
    refine ⟨{ draft with data := some data }, ⟨htail.code, htail.message, htail.requestTime,
      fun hmem => absurd hmem hfresh⟩, ?_, rfl, rfl⟩
    rw [fillMembers_of_set rfl]
    simp [Draft.setData, fill, hawaits.data hhead, hread, bind, Except.bind, Except.map]
  · refine ⟨draft, htail, ?_, (if_neg hcode).symm, (if_neg hmessage).symm⟩
    exact fillMembers_of_ignore (set_eq_none hcode hmessage htime hown) draft
      (hfits.sound _ List.mem_cons_self) rest .closed

theorem fillMembers_of_legible (hfits : Fits code message fields) (hawaits : draft.Awaits fields)
    (hlegible : ∀ node, ("data", node) ∈ fields →
      ∃ data, Wire.optional decode reading node = .ok data)
    (hcode : "code" ∈ fields.map Prod.fst ∨ draft.code = some code)
    (hmessage : "msg" ∈ fields.map Prod.fst ∨ draft.message = some message) :
    ∃ last : Draft α,
      fillMembers ((shape decode).set reading) draft (membersOf fields) .closed = .ok last ∧
      last.code = some code ∧ last.message = some message := by
  induction fields generalizing draft with
  | nil =>
      refine ⟨draft, rfl, ?_, ?_⟩
      · simpa using hcode
      · simpa using hmessage
  | cons field rest ih =>
      obtain ⟨key, node⟩ := field
      obtain ⟨next, hnext, hfill, hnextcode, hnextmessage⟩ :=
        exists_next decode reading hfits hawaits fun hkey =>
          hlegible node (hkey ▸ List.mem_cons_self)
      rw [hfill]
      refine ih hfits.tail hnext (fun other hmem => hlegible other (List.mem_cons_of_mem _ hmem))
        ?_ ?_
      · by_cases hkey : key = "code"
        · exact .inr (by rw [hnextcode, if_pos hkey])
        · rw [hnextcode, if_neg hkey]
          simpa [Ne.symm hkey] using hcode
      · by_cases hkey : key = "msg"
        · exact .inr (by rw [hnextmessage, if_pos hkey])
        · rw [hnextmessage, if_neg hkey]
          simpa [Ne.symm hkey] using hmessage

theorem fillMembers_of_illegible {problem : Problem} (hfits : Fits code message fields)
    (hawaits : draft.Awaits fields) (hdata : ("data", node) ∈ fields)
    (hread : Wire.optional decode reading node = .error problem) :
    fillMembers ((shape decode).set reading) draft (membersOf fields) .closed = .error problem := by
  -- all that stands before the data is taken in, so no other problem comes first
  induction fields generalizing draft with
  | nil => cases hdata
  | cons field rest ih =>
      obtain ⟨key, content⟩ := field
      by_cases hkey : key = "data"
      · subst hkey
        obtain rfl := Members.eq_of_mem hfits.nodup hdata List.mem_cons_self
        rw [fillMembers_of_set rfl]
        simp [Draft.setData, fill, hawaits.data List.mem_cons_self, hread, bind, Except.bind,
          Except.map]
      · obtain ⟨next, hnext, hfill, -, -⟩ :=
          exists_next decode reading hfits hawaits fun heq => absurd heq hkey
        rw [hfill]
        refine ih hfits.tail hnext ?_
        rcases List.mem_cons.mp hdata with heq | hmem
        · exact absurd (congrArg Prod.fst heq).symm hkey
        · exact hmem

end Fields

theorem Draft.awaits_empty (fields : List (String × Node)) :
    (Draft.empty : Draft α).Awaits fields :=
  ⟨fun _ => rfl, fun _ => rfl, fun _ => rfl, fun _ => rfl⟩

end Envelope

theorem Rejects.fits {code message : String} {fields : List (String × Node)}
    (h : Rejects code message fields) : Envelope.Fits code message fields where
  nodup := h.nodup
  sound := h.sound
  code _ hmem := Members.eq_of_mem h.nodup hmem h.code_mem
  message _ hmem := Members.eq_of_mem h.nodup hmem h.message_mem
  requestTime := h.requestTime

namespace Reply

variable {α : Type} {decode : Decoder α} {reply : Reply} {code message : String}
  {fields : List (String × Node)}

theorem decode_root (members : List (Except Fault String × Node)) (ending : Ending) :
    Envelope.decode decode .ofDocument (.object members ending) =
      (fillMembers ((Envelope.shape decode).set rootReading) .empty members ending).bind
        Envelope.Draft.toEnvelope := by
  rfl

theorem data_of_legible
    (hbody : Document.ofChars reply.body.toList = ⟨.object (membersOf fields) .closed, false⟩)
    (hrejects : Rejects code message fields) (hlegible : HasLegibleData decode fields) :
    reply.data decode = .error (.ofRejected code message) := by
  obtain ⟨last, hfill, hcode, hmessage⟩ :=
    Envelope.fillMembers_of_legible hrejects.fits (Envelope.Draft.awaits_empty fields) hlegible
      (.inl (List.mem_map_of_mem hrejects.code_mem))
      (.inl (List.mem_map_of_mem hrejects.message_mem))
  have henvelope : ofText (Envelope.decode decode) reply.body =
      .ok ⟨code, message, last.requestTime.join, last.data.join⟩ := by
    simp [ofText, ofDocument, hbody, decode_root, hfill, Envelope.Draft.toEnvelope, hcode, hmessage,
      require, bind, Except.bind]
  rw [data, henvelope]
  simp [ofEnvelope, Envelope.isSuccess, hrejects.code_ne]

/-- What a reply comes to that is taken for no envelope. -/
def Misread {β : Type} (reply : Reply) (answer : Except Failure β) : Prop :=
  if reply.isGranted then ∃ problem, answer = .error (.unreadable problem)
  else answer = .error (.ofStatus reply.status reply.body)

theorem data_of_illegible
    (hbody : Document.ofChars reply.body.toList = ⟨.object (membersOf fields) .closed, false⟩)
    (hrejects : Rejects code message fields) (hillegible : ¬HasLegibleData decode fields) :
    reply.Misread (reply.data decode) := by
  simp only [HasLegibleData, not_forall] at hillegible
  obtain ⟨node, hmem, hread⟩ := hillegible
  cases hproblem : Wire.optional decode rootReading node with
  | ok content => exact absurd ⟨content, hproblem⟩ hread
  | error problem =>
      have hfill := Envelope.fillMembers_of_illegible hrejects.fits
        (Envelope.Draft.awaits_empty fields) hmem hproblem
      have henvelope : ofText (Envelope.decode decode) reply.body = .error problem := by
        simp [ofText, ofDocument, hbody, decode_root, hfill, bind, Except.bind]
      rw [data, henvelope, Misread]
      by_cases hgranted : reply.isGranted = true
      · simp [hgranted]
      · simp [hgranted]

/-- The failure of a status tells the body, which is longer than any message in it. -/
theorem ofStatus_ne_ofRejected
    (hbody : Document.ofChars reply.body.toList = ⟨.object (membersOf fields) .closed, false⟩)
    (hmessage : ("msg", .string (.ok message)) ∈ fields) :
    Failure.ofStatus reply.status reply.body ≠ .ofRejected code message := by
  intro heq
  unfold Failure.ofStatus Failure.ofRejected at heq
  split at heq
  · cases heq
  · have hsame : reply.body = message := (Failure.api.inj heq).2
    have hmem : (.ok "msg", .string (.ok message)) ∈ membersOf fields :=
      List.mem_map_of_mem hmessage
    have hlength := length_of_document_string hbody hmem
    rw [hsame] at hlength
    exact Nat.lt_irrefl _ hlength

theorem ne_of_misread {β : Type} {answer : Except Failure β}
    (hbody : Document.ofChars reply.body.toList = ⟨.object (membersOf fields) .closed, false⟩)
    (hmessage : ("msg", .string (.ok message)) ∈ fields) (h : reply.Misread answer) :
    answer ≠ .error (.ofRejected code message) := by
  rintro rfl
  unfold Misread at h
  split at h
  · obtain ⟨problem, hproblem⟩ := h
    unfold Failure.ofRejected at hproblem
    split at hproblem <;> cases hproblem
  · exact ofStatus_ne_ofRejected hbody hmessage (Except.error.inj h).symm

theorem misread_map {β : Type} (convert : α → β) {answer : Except Failure α}
    (h : reply.Misread answer) : reply.Misread (answer.map convert) := by
  unfold Misread at h ⊢
  split at h
  · rename_i hgranted
    obtain ⟨problem, rfl⟩ := h
    rw [if_pos hgranted]
    exact ⟨problem, rfl⟩
  · rename_i hgranted
    subst h
    rw [if_neg hgranted]
    rfl

theorem map_data_of_rejects {β : Type} (decode : Decoder α) (convert : α → β)
    (hbody : Document.ofChars reply.body.toList = ⟨.object (membersOf fields) .closed, false⟩)
    (hrejects : Rejects code message fields) :
    ((reply.data decode).map convert = .error (.ofRejected code message) ↔
        HasLegibleData decode fields) ∧
      (¬HasLegibleData decode fields → reply.Misread ((reply.data decode).map convert)) := by
  have hmisread : ¬HasLegibleData decode fields →
      reply.Misread ((reply.data decode).map convert) := fun hillegible =>
    misread_map convert (data_of_illegible hbody hrejects hillegible)
  refine ⟨⟨?_, ?_⟩, hmisread⟩
  · intro hheard
    by_contra hillegible
    exact ne_of_misread hbody hrejects.message_mem (hmisread hillegible) hheard
  · intro hlegible
    rw [data_of_legible hbody hrejects hlegible]
    rfl

end Reply

/-- **Rejections.** The three requests for market data tell the code and the message of a rejection
if and only if the data of the reply are absent, `null`, or such as had been asked for. A rejection
with other data counts as an unreadable reply where its status grants the request, and as a failure
of its status otherwise. -/
theorem rejection_is_told_iff (reply : Reply) (code message : String)
    (fields : List (String × Node))
    (hbody : Document.ofChars reply.body.toList = ⟨.object (membersOf fields) .closed, false⟩)
    (hrejects : Rejects code message fields) :
    ((Client.serverTime reply = .error (.ofRejected code message) ↔ HasLegibleData int64 fields) ∧
      (¬HasLegibleData int64 fields → reply.Misread (Client.serverTime reply))) ∧
    ((Client.markets reply = .error (.ofRejected code message) ↔
        HasLegibleData (list Product.decode) fields) ∧
      (¬HasLegibleData (list Product.decode) fields → reply.Misread (Client.markets reply))) ∧
    ((Client.market reply = .error (.ofRejected code message) ↔
        HasLegibleData Product.decode fields) ∧
      (¬HasLegibleData Product.decode fields → reply.Misread (Client.market reply))) := by
  refine ⟨?_, ?_, ?_⟩
  · have hsame : (reply.data int64).map id = Client.serverTime reply := by
      rw [Client.serverTime]
      cases reply.data int64 <;> rfl
    rw [← hsame]
    exact Reply.map_data_of_rejects int64 id hbody hrejects
  · exact Reply.map_data_of_rejects (list Product.decode) (List.map Client.marketOf) hbody hrejects
  · exact Reply.map_data_of_rejects Product.decode Client.marketOf hbody hrejects

/-! ### Two rejections -/

def rejectionFields (data : Node) : List (String × Node) :=
  [("code", .string (.ok "40006")), ("msg", .string (.ok "Invalid API Key")), ("data", data)]

theorem rejects_rejectionFields {data : Node} (h : data.passedFault? = none) :
    Rejects "40006" "Invalid API Key" (rejectionFields data) where
  nodup := by simp [rejectionFields]
  sound := by simp [rejectionFields, Node.passedFault?, h]
  code_mem := by simp [rejectionFields]
  code_ne := by decide
  message_mem := by simp [rejectionFields]
  requestTime := by simp [rejectionFields]

def nullBody : String :=
  "\x7b\"code\":\"40006\",\"msg\":\"Invalid API Key\",\"data\":null\x7d"

theorem null_rejection_is_told :
    Document.ofChars nullBody.toList =
        ⟨.object (membersOf (rejectionFields .null)) .closed, false⟩ ∧
      Client.serverTime ⟨401, nullBody⟩ =
        .error (.rejected .permissionDenied "Invalid API Key") := by
  have hbody : Document.ofChars (Reply.mk 401 nullBody).body.toList =
      ⟨.object (membersOf (rejectionFields .null)) .closed, false⟩ := by
    cbv
  refine ⟨hbody, ?_⟩
  have hrejection : Failure.ofRejected "40006" "Invalid API Key" =
      .rejected .permissionDenied "Invalid API Key" := by
    cbv
  rw [← hrejection]
  have htold := rejection_is_told_iff ⟨401, nullBody⟩ "40006" "Invalid API Key"
    (rejectionFields .null) hbody (rejects_rejectionFields rfl)
  refine htold.1.1.mpr ?_
  intro node hmem
  obtain rfl : node = .null := by simpa [rejectionFields] using hmem
  exact ⟨none, rfl⟩

def emptyObjectBody : String :=
  "\x7b\"code\":\"40006\",\"msg\":\"Invalid API Key\",\"data\":\x7b\x7d\x7d"

theorem ofChars_emptyObjectBody :
    Document.ofChars emptyObjectBody.toList =
      ⟨.object (membersOf (rejectionFields (.object [] .closed))) .closed, false⟩ := by
  cbv

theorem not_hasLegibleData_of_emptyObject {α : Type} {decode : Decoder α} {problem : Problem}
    (h : Wire.optional decode rootReading (.object [] .closed) = .error problem) :
    ¬HasLegibleData decode (rejectionFields (.object [] .closed)) := by
  intro hlegible
  obtain ⟨data, hdata⟩ := hlegible (.object [] .closed) (by simp [rejectionFields])
  rw [h] at hdata
  cases hdata

/-- No request tells a rejection with an empty object as its data, whatever its status. -/
theorem emptyObject_rejection_is_lost :
    Document.ofChars emptyObjectBody.toList =
        ⟨.object (membersOf (rejectionFields (.object [] .closed))) .closed, false⟩ ∧
      Rejects "40006" "Invalid API Key" (rejectionFields (.object [] .closed)) ∧
      (∃ problem, Client.serverTime ⟨200, emptyObjectBody⟩ = .error (.unreadable problem)) ∧
      Client.serverTime ⟨401, emptyObjectBody⟩ = .error (.api "401" emptyObjectBody) ∧
      Failure.ofRejected "40006" "Invalid API Key" =
        .rejected .permissionDenied "Invalid API Key" ∧
      ∀ status,
        Client.serverTime ⟨status, emptyObjectBody⟩ ≠
          .error (.ofRejected "40006" "Invalid API Key") ∧
        Client.markets ⟨status, emptyObjectBody⟩ ≠
          .error (.ofRejected "40006" "Invalid API Key") ∧
        Client.market ⟨status, emptyObjectBody⟩ ≠
          .error (.ofRejected "40006" "Invalid API Key") := by
  have hrejects : Rejects "40006" "Invalid API Key" (rejectionFields (.object [] .closed)) :=
    rejects_rejectionFields rfl
  have hbody (status : Nat) : Document.ofChars (Reply.mk status emptyObjectBody).body.toList =
      ⟨.object (membersOf (rejectionFields (.object [] .closed))) .closed, false⟩ :=
    ofChars_emptyObjectBody
  have htime (status : Nat) : Reply.Misread ⟨status, emptyObjectBody⟩
      (Client.serverTime ⟨status, emptyObjectBody⟩) :=
    Reply.data_of_illegible (hbody status) hrejects (not_hasLegibleData_of_emptyObject rfl)
  have hmarkets (status : Nat) : Reply.Misread ⟨status, emptyObjectBody⟩
      (Client.markets ⟨status, emptyObjectBody⟩) :=
    Reply.misread_map _ <|
      Reply.data_of_illegible (hbody status) hrejects (not_hasLegibleData_of_emptyObject rfl)
  have hmarket (status : Nat) : Reply.Misread ⟨status, emptyObjectBody⟩
      (Client.market ⟨status, emptyObjectBody⟩) :=
    Reply.misread_map _ <|
      Reply.data_of_illegible (hbody status) hrejects (not_hasLegibleData_of_emptyObject rfl)
  refine ⟨ofChars_emptyObjectBody, hrejects, htime 200, htime 401, by cbv, ?_⟩
  intro status
  exact ⟨Reply.ne_of_misread (hbody status) hrejects.message_mem (htime status),
    Reply.ne_of_misread (hbody status) hrejects.message_mem (hmarkets status),
    Reply.ne_of_misread (hbody status) hrejects.message_mem (hmarket status)⟩

end SpotWire
