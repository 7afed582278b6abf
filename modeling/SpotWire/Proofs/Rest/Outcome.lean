import SpotWire.Proofs.Rest.Envelope

/-!
# What replies come to

A reply gives data if and only if its body is an envelope whose code is the text of a granted
request and whose data are there. Everything else is one of four failures, told apart by the
envelope alone, and by the status where there is no envelope.
-/

namespace SpotWire

open Json Wire

namespace Rejection

variable {message : String}

theorem isTold_eq_true_iff {rejection : Rejection} :
    rejection.isTold message = true ↔
      ∃ pattern ∈ rejection.patterns, Text.mentions pattern message = true :=
  List.any_eq_true

/-- A missing order outranks what a message tells of permissions and authentication. -/
theorem isAuthentication_classify (message : String) :
    (classify message).any isAuthentication = true ↔
      (permissionDenied.isTold message = true ∨ authenticationFailed.isTold message = true) ∧
        ¬orderNotFound.isTold message = true := by
  unfold classify byPriority
  simp only [List.find?_cons, List.find?_nil]
  cases orderNotFound.isTold message with
  | true => simp [isAuthentication]
  | false =>
      cases permissionDenied.isTold message with
      | true => simp [isAuthentication]
      | false =>
          cases authenticationFailed.isTold message with
          | true => simp [isAuthentication]
          | false =>
              -- what is left is told of neither
              cases insufficientFunds.isTold message <;>
                cases orderUncancellable.isTold message <;> simp [isAuthentication]

end Rejection

namespace Failure

theorem isRetryable_ofRejected (code message : String) :
    (ofRejected code message).isRetryable = false := by
  unfold ofRejected
  split <;> rfl

theorem isAuthentication_ofRejected (code message : String) :
    (ofRejected code message).isAuthentication = (Rejection.classify message).any
      Rejection.isAuthentication := by
  unfold ofRejected
  split
  · rename_i rejection hclassify
    rw [hclassify]
    rfl
  · rename_i hclassify
    rw [hclassify]
    rfl

end Failure

namespace Reply

variable {α : Type} (decode : Decoder α) (reply : Reply)

/-- The body of a reply is an envelope. -/
def Carries (envelope : Envelope α) : Prop :=
  ofText (Envelope.decode decode) reply.body = .ok envelope

def root : Node :=
  (Document.ofChars reply.body.toList).root

/-- The code of a reply is the text of a granted request. -/
def HasSuccessCode : Prop :=
  Holds "code" 0 reply.root (.string (.ok Envelope.successCode))

def HasData (data : α) : Prop :=
  ∃ content, Holds "data" 3 reply.root content ∧ content ≠ .null ∧
    decode rootReading content = .ok data

/-- There are no data in a reply, or they are `null`. -/
def LacksData : Prop :=
  ∀ content, Holds "data" 3 reply.root content → content = .null

variable {decode reply}

theorem decode_of_carries {envelope : Envelope α} (h : reply.Carries decode envelope) :
    Envelope.decode decode .ofDocument reply.root = .ok envelope := by
  obtain ⟨found, hfound, htrailing⟩ := bind_eq_ok h
  split at htrailing
  · cases htrailing
  · exact hfound.trans htrailing

theorem readFrom_of_carries {envelope : Envelope α} (h : reply.Carries decode envelope) :
    envelope.ReadFrom decode rootReading reply.root :=
  Envelope.readFrom_of_document (decode_of_carries h)

theorem isSuccess_iff_of_carries {envelope : Envelope α} (h : reply.Carries decode envelope) :
    envelope.isSuccess = true ↔ reply.HasSuccessCode := by
  obtain ⟨content, hcontent⟩ := (readFrom_of_carries h).hasCode
  have hcode := (readFrom_of_carries h).code
  rw [Envelope.isSuccess, beq_iff_eq]
  constructor
  · intro hsuccess
    have hread := hcode content hcontent
    rw [hsuccess, Envelope.decodeCode_eq_successCode_iff] at hread
    rw [HasSuccessCode, ← hread]
    exact hcontent
  · intro hholds
    have hread := hcode _ hholds
    rw [Envelope.decodeCode_eq_successCode_iff.mpr rfl] at hread
    exact (Except.ok.inj hread).symm

theorem data_eq_some_iff_of_carries {envelope : Envelope α} (h : reply.Carries decode envelope)
    (data : α) : envelope.data = some data ↔ reply.HasData decode data :=
  (readFrom_of_carries h).data_eq_some_iff data

theorem data_eq_none_iff_of_carries {envelope : Envelope α} (h : reply.Carries decode envelope) :
    envelope.data = none ↔ reply.LacksData :=
  (readFrom_of_carries h).data_eq_none_iff

/-- Data beside an envelope are either there or not. -/
theorem hasData_or_lacksData {envelope : Envelope α} (h : reply.Carries decode envelope) :
    (∃ data, reply.HasData decode data) ∨ reply.LacksData := by
  cases hdata : envelope.data with
  | none => exact .inr ((data_eq_none_iff_of_carries h).mp hdata)
  | some data => exact .inl ⟨data, (data_eq_some_iff_of_carries h data).mp hdata⟩

theorem data_of_carries {envelope : Envelope α} (h : reply.Carries decode envelope) :
    reply.data decode = ofEnvelope envelope := by
  unfold data
  rw [show ofText (Envelope.decode decode) reply.body = .ok envelope from h]

theorem data_of_granted {envelope : Envelope α} {data : α} (h : reply.Carries decode envelope)
    (hcode : reply.HasSuccessCode) (hdata : envelope.data = some data) :
    reply.data decode = .ok data := by
  rw [data_of_carries h, ofEnvelope, if_pos ((isSuccess_iff_of_carries h).mpr hcode), hdata]

theorem data_of_empty {envelope : Envelope α} (h : reply.Carries decode envelope)
    (hcode : reply.HasSuccessCode) (hdata : envelope.data = none) :
    reply.data decode = .error (.invalidReply "response has no data") := by
  rw [data_of_carries h, ofEnvelope, if_pos ((isSuccess_iff_of_carries h).mpr hcode), hdata]

theorem data_of_rejected {envelope : Envelope α} (h : reply.Carries decode envelope)
    (hcode : ¬reply.HasSuccessCode) :
    reply.data decode = .error (.ofRejected envelope.code envelope.message) := by
  have hfailed : ¬envelope.isSuccess = true := fun hsuccess =>
    hcode ((isSuccess_iff_of_carries h).mp hsuccess)
  rw [data_of_carries h, ofEnvelope, if_neg hfailed]

/-- The failure of a reply whose body is no envelope. -/
def unread (reply : Reply) (problem : Problem) : Failure :=
  if reply.isGranted then .unreadable problem else .ofStatus reply.status reply.body

theorem data_of_problem {problem : Problem}
    (h : ofText (Envelope.decode decode) reply.body = .error problem) :
    reply.data decode = .error (reply.unread problem) := by
  unfold data unread
  rw [h]
  cases hgranted : reply.isGranted <;> simp

/-- The cases of a reply, each with its answer. -/
inductive Outcome (decode : Decoder α) (reply : Reply) : Prop where
  | granted {envelope : Envelope α} {data : α} (hcarries : reply.Carries decode envelope)
      (hcode : reply.HasSuccessCode) (hdata : envelope.data = some data)
      (hanswer : reply.data decode = .ok data)
  | empty {envelope : Envelope α} (hcarries : reply.Carries decode envelope)
      (hcode : reply.HasSuccessCode) (hdata : envelope.data = none)
      (hanswer : reply.data decode = .error (.invalidReply "response has no data"))
  | rejected {envelope : Envelope α} (hcarries : reply.Carries decode envelope)
      (hcode : ¬reply.HasSuccessCode)
      (hanswer : reply.data decode = .error (.ofRejected envelope.code envelope.message))
  | unread {problem : Problem}
      (hproblem : ofText (Envelope.decode decode) reply.body = .error problem)
      (hanswer : reply.data decode = .error (reply.unread problem))

theorem outcome (decode : Decoder α) (reply : Reply) : Outcome decode reply := by
  cases hbody : ofText (Envelope.decode decode) reply.body with
  | error problem => exact .unread hbody (data_of_problem hbody)
  | ok envelope =>
      by_cases hcode : reply.HasSuccessCode
      · cases hdata : envelope.data with
        | some data => exact .granted hbody hcode hdata (data_of_granted hbody hcode hdata)
        | none => exact .empty hbody hcode hdata (data_of_empty hbody hcode hdata)
      · exact .rejected hbody hcode (data_of_rejected hbody hcode)

theorem eq_of_carries {envelope other : Envelope α} (h : reply.Carries decode envelope)
    (h' : reply.Carries decode other) : envelope = other :=
  Except.ok.inj (h.symm.trans h')

theorem not_carries_of_problem {problem : Problem} {envelope : Envelope α}
    (h : ofText (Envelope.decode decode) reply.body = .error problem) :
    ¬reply.Carries decode envelope := by
  intro hcarries
  rw [Carries, h] at hcarries
  cases hcarries

theorem isRetryable_unread (problem : Problem) : (reply.unread problem).isRetryable = false := by
  unfold unread
  split <;> rfl

theorem isAuthentication_unread (problem : Problem) :
    (reply.unread problem).isAuthentication = false := by
  unfold unread
  split <;> rfl

theorem data_eq_ok_iff (data : α) :
    reply.data decode = .ok data ↔
      (∃ envelope, reply.Carries decode envelope) ∧ reply.HasSuccessCode ∧
        reply.HasData decode data := by
  constructor
  · intro h
    cases outcome decode reply with
    | granted hcarries hcode hdata hanswer =>
        obtain rfl := Except.ok.inj (h.symm.trans hanswer)
        exact ⟨⟨_, hcarries⟩, hcode, (data_eq_some_iff_of_carries hcarries data).mp hdata⟩
    | empty _ _ _ hanswer | rejected _ _ hanswer | unread _ hanswer =>
        rw [hanswer] at h
        cases h
  · rintro ⟨⟨envelope, hcarries⟩, hcode, hdata⟩
    exact data_of_granted hcarries hcode ((data_eq_some_iff_of_carries hcarries data).mpr hdata)

theorem isRetryable_iff {failure : Failure} (h : reply.data decode = .error failure) :
    failure.isRetryable = true ↔
      (∃ envelope, reply.Carries decode envelope) ∧ reply.HasSuccessCode ∧ reply.LacksData := by
  cases outcome decode reply with
  | granted _ _ _ hanswer =>
      rw [hanswer] at h
      cases h
  | empty hcarries hcode hdata hanswer =>
      obtain rfl := Except.error.inj (h.symm.trans hanswer)
      exact iff_of_true rfl
        ⟨⟨_, hcarries⟩, hcode, (data_eq_none_iff_of_carries hcarries).mp hdata⟩
  | rejected _ hcode hanswer =>
      obtain rfl := Except.error.inj (h.symm.trans hanswer)
      rw [Failure.isRetryable_ofRejected]
      exact iff_of_false Bool.false_ne_true fun hlacks => hcode hlacks.2.1
  | unread hproblem hanswer =>
      obtain rfl := Except.error.inj (h.symm.trans hanswer)
      rw [isRetryable_unread]
      refine iff_of_false Bool.false_ne_true ?_
      rintro ⟨⟨envelope, hcarries⟩, -⟩
      exact not_carries_of_problem hproblem hcarries

/-- A message that tells of permissions or of authentication, and not of a missing order. -/
def TellsAuthentication (message : String) : Prop :=
  (∃ pattern ∈ Rejection.permissionDenied.patterns ++ Rejection.authenticationFailed.patterns,
      Text.mentions pattern message = true) ∧
    ∀ pattern ∈ Rejection.orderNotFound.patterns, ¬Text.mentions pattern message = true

theorem isAuthentication_ofRejected_iff (code message : String) :
    (Failure.ofRejected code message).isAuthentication = true ↔ TellsAuthentication message := by
  rw [Failure.isAuthentication_ofRejected, Rejection.isAuthentication_classify,
    Rejection.isTold_eq_true_iff, Rejection.isTold_eq_true_iff, Rejection.isTold_eq_true_iff,
    TellsAuthentication]
  refine and_congr ?_ ?_
  · simp only [List.mem_append, or_and_right, exists_or]
  · simp only [not_exists, not_and]

theorem isAuthentication_iff {failure : Failure} (h : reply.data decode = .error failure) :
    failure.isAuthentication = true ↔
      ∃ envelope, reply.Carries decode envelope ∧ ¬reply.HasSuccessCode ∧
        TellsAuthentication envelope.message := by
  cases outcome decode reply with
  | granted _ _ _ hanswer =>
      rw [hanswer] at h
      cases h
  | empty hcarries hcode _ hanswer =>
      obtain rfl := Except.error.inj (h.symm.trans hanswer)
      refine iff_of_false Bool.false_ne_true ?_
      rintro ⟨envelope, -, hrejected, -⟩
      exact hrejected hcode
  | rejected hcarries hcode hanswer =>
      obtain rfl := Except.error.inj (h.symm.trans hanswer)
      rw [isAuthentication_ofRejected_iff]
      constructor
      · intro htells
        exact ⟨_, hcarries, hcode, htells⟩
      · rintro ⟨envelope, hother, -, htells⟩
        rw [eq_of_carries hcarries hother]
        exact htells
  | unread hproblem hanswer =>
      obtain rfl := Except.error.inj (h.symm.trans hanswer)
      rw [isAuthentication_unread]
      refine iff_of_false Bool.false_ne_true ?_
      rintro ⟨envelope, hcarries, -⟩
      exact not_carries_of_problem hproblem hcarries

/-- The log tells of a reply exactly if its envelope rejects the request, and then it tells the code
and the message of the failure. -/
theorem mem_events_iff (event : LogEvent) :
    event ∈ reply.events decode ↔
      ∃ envelope, reply.Carries decode envelope ∧ ¬reply.HasSuccessCode ∧
        event = rejectedEvent envelope.code envelope.message := by
  unfold events
  cases hbody : ofText (Envelope.decode decode) reply.body with
  | error problem =>
      refine iff_of_false List.not_mem_nil ?_
      rintro ⟨envelope, hcarries, -⟩
      exact not_carries_of_problem hbody hcarries
  | ok envelope =>
      have hcarries : reply.Carries decode envelope := hbody
      have hcode := isSuccess_iff_of_carries hcarries
      by_cases hsuccess : envelope.isSuccess = true
      · refine iff_of_false (by simp [hsuccess]) ?_
        rintro ⟨other, -, hrejected, -⟩
        exact hrejected (hcode.mp hsuccess)
      · rw [← hcode]
        simp only [hsuccess, Bool.false_eq_true, if_false, List.mem_singleton]
        constructor
        · rintro rfl
          exact ⟨envelope, hcarries, not_false, rfl⟩
        · rintro ⟨other, hother, -, rfl⟩
          rw [eq_of_carries hcarries hother]

/-- The data of a reply are never given for a code that is a number. -/
theorem data_ne_ok_of_number {number : Except Fault Number}
    (h : Holds "code" 0 reply.root (.number number)) (data : α) : reply.data decode ≠ .ok data := by
  intro hdata
  obtain ⟨⟨envelope, hcarries⟩, hcode, -⟩ := (data_eq_ok_iff data).mp hdata
  have hread := (readFrom_of_carries hcarries).code
  have hsame := (hread _ h).trans (hread _ hcode).symm
  rw [Envelope.decodeCode_eq_successCode_iff.mpr rfl,
    Envelope.decodeCode_eq_successCode_iff] at hsame
  cases hsame

end Reply

/-- **Replies.** A reply gives data if and only if its body is an envelope with the code of granted
requests, as a text, and with data, whatever its status. Without data it is invalid, and only then
worth another try; with another code it is rejected for the reason that its message tells; and
without an envelope it fails for its status, or for its text where the status grants the request. -/
theorem outcome_of_reply {α : Type} (decode : Decoder α) (reply : Reply) :
    (∀ data, reply.data decode = .ok data ↔
      (∃ envelope, reply.Carries decode envelope) ∧ reply.HasSuccessCode ∧
        reply.HasData decode data) ∧
    (∀ number data, Holds "code" 0 reply.root (.number number) →
      reply.data decode ≠ .ok data) ∧
    (∀ envelope, reply.Carries decode envelope →
      (∃ data, reply.HasData decode data) ∨ reply.LacksData) ∧
    (∀ envelope, reply.Carries decode envelope → reply.HasSuccessCode → reply.LacksData →
      reply.data decode = .error (.invalidReply "response has no data")) ∧
    (∀ envelope, reply.Carries decode envelope → ¬reply.HasSuccessCode →
      reply.data decode = .error (.ofRejected envelope.code envelope.message)) ∧
    (∀ problem, ofText (Envelope.decode decode) reply.body = .error problem →
      reply.data decode =
        .error (if 200 ≤ reply.status ∧ reply.status < 300 then .unreadable problem
          else .api (String.ofList (Nat.toDigits 10 reply.status)) reply.body)) ∧
    ∀ failure, reply.data decode = .error failure →
      (failure.isRetryable = true ↔
        (∃ envelope, reply.Carries decode envelope) ∧ reply.HasSuccessCode ∧ reply.LacksData) ∧
      (failure.isAuthentication = true ↔
        ∃ envelope, reply.Carries decode envelope ∧ ¬reply.HasSuccessCode ∧
          (∃ pattern ∈ Rejection.permissionDenied.patterns ++
              Rejection.authenticationFailed.patterns,
            Text.mentions pattern envelope.message = true) ∧
          ∀ pattern ∈ Rejection.orderNotFound.patterns,
            ¬Text.mentions pattern envelope.message = true) := by
  refine ⟨Reply.data_eq_ok_iff, fun number data h => Reply.data_ne_ok_of_number h data,
    fun envelope => Reply.hasData_or_lacksData, ?_, fun envelope => Reply.data_of_rejected, ?_, ?_⟩
  · intro envelope hcarries hcode hlacks
    exact Reply.data_of_empty hcarries hcode
      ((Reply.data_eq_none_iff_of_carries hcarries).mpr hlacks)
  · intro problem hproblem
    rw [Reply.data_of_problem hproblem, Reply.unread, Failure.ofStatus]
    simp [Reply.isGranted]
  · intro failure h
    exact ⟨Reply.isRetryable_iff h, Reply.isAuthentication_iff h⟩

def noMarketsBody : String :=
  "\x7b\"code\":\"00000\",\"data\":[]\x7d"

theorem ofChars_noMarketsBody : Document.ofChars noMarketsBody.toList =
    ⟨.object (membersOf [("code", .string (.ok "00000")), ("data", .array [] .closed)]) .closed,
      false⟩ := by
  cbv

theorem ofChars_nullBody : Document.ofChars nullBody.toList =
    ⟨.object (membersOf (rejectionFields .null)) .closed, false⟩ := by
  cbv

/-- Markets are told whatever the status, and a rejected key is no reason to try again. -/
theorem outcomes_of_noMarketsBody_and_nullBody :
    Reply.data (list Product.decode) ⟨500, noMarketsBody⟩ = .ok [] ∧
      ∃ failure, Reply.data int64 ⟨200, nullBody⟩ = .error failure ∧
        failure.isAuthentication = true ∧ failure.isRetryable = false := by
  constructor
  · have hcarries : Reply.Carries (list Product.decode) ⟨500, noMarketsBody⟩
        ⟨"00000", "", none, some []⟩ := by
      rw [Reply.Carries, ofText, ofChars_noMarketsBody]
      rfl
    refine ((outcome_of_reply (list Product.decode) ⟨500, noMarketsBody⟩).1 []).mpr
      ⟨⟨_, hcarries⟩, ?_, ?_⟩
    · rw [Reply.HasSuccessCode, Reply.root, ofChars_noMarketsBody]
      exact .member (by simp [membersOf, Envelope.successCode])
    · refine ⟨.array [] .closed, ?_, by simp, rfl⟩
      rw [Reply.root, ofChars_noMarketsBody]
      exact .member (by simp [membersOf])
  · have hcarries : Reply.Carries int64 ⟨200, nullBody⟩
        ⟨"40006", "Invalid API Key", none, none⟩ := by
      rw [Reply.Carries, ofText, ofChars_nullBody]
      rfl
    have hcode : ¬Reply.HasSuccessCode ⟨200, nullBody⟩ := by
      rw [Reply.HasSuccessCode, Reply.root, ofChars_nullBody]
      rintro ⟨hmem⟩
      simp [membersOf, rejectionFields, Envelope.successCode] at hmem
    obtain ⟨-, -, -, -, hrejected, -, hfailures⟩ := outcome_of_reply int64 ⟨200, nullBody⟩
    have hfailure := hrejected _ hcarries hcode
    obtain ⟨hretryable, hauthentication⟩ := hfailures _ hfailure
    refine ⟨_, hfailure, hauthentication.mpr ⟨_, hcarries, hcode, ?_, ?_⟩, ?_⟩
    · exact ⟨"Invalid API Key", by simp [Rejection.patterns], by decide⟩
    · simp only [Rejection.patterns, List.forall_mem_cons]
      decide
    · rw [Bool.eq_false_iff, ne_eq, hretryable]
      exact fun hlacks => hcode hlacks.2.1

end SpotWire
