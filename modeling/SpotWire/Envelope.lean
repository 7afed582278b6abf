import SpotWire.Wire.Record

/-!
The envelope around every reply of the exchange: a code, a message, the time of the request and
the data asked for.
-/

namespace SpotWire

open Json Wire

structure Envelope (α : Type) where
  code : String
  message : String
  requestTime : Option Int
  data : Option α
deriving Repr

namespace Envelope

variable {α : Type}

/-- The code of a reply to a request that was granted. -/
def successCode : String := "00000"

def isSuccess (envelope : Envelope α) : Bool :=
  envelope.code == successCode

def toValue (encode : α → Value) (envelope : Envelope α) : Value :=
  .object
    [("code", .string envelope.code), ("msg", .string envelope.message),
      ("requestTime", .ofOption (fun time => .number (.integer time)) envelope.requestTime),
      ("data", .ofOption encode envelope.data)]

/-- A code is a text, or a number by its text. -/
def codeText : Value → Except Problem String
  | .string code => .ok code
  | .number code => .ok (String.ofList code.text)
  | other => fail (.replyCode other)

def decodeCode : Decoder String := fun reading node => do
  codeText (← value reading node)

structure Draft (α : Type) where
  code : Option String
  message : Option String
  requestTime : Option (Option Int)
  data : Option (Option α)

namespace Draft

def empty : Draft α := ⟨none, none, none, none⟩

def setCode (reading : Reading) (draft : Draft α) (content : Node) :
    Except Problem (Draft α) := do
  .ok { draft with code := ← fill "code" draft.code decodeCode reading content }

def setMessage (reading : Reading) (draft : Draft α) (content : Node) :
    Except Problem (Draft α) := do
  .ok { draft with message := ← fill "msg" draft.message string reading content }

def setRequestTime (reading : Reading) (draft : Draft α) (content : Node) :
    Except Problem (Draft α) := do
  .ok { draft with
    requestTime := ← fill "requestTime" draft.requestTime (optional int64) reading content }

def setData (decode : Decoder α) (reading : Reading) (draft : Draft α) (content : Node) :
    Except Problem (Draft α) := do
  .ok { draft with data := ← fill "data" draft.data (optional decode) reading content }

def toEnvelope (draft : Draft α) : Except Problem (Envelope α) := do
  let code ← require "code" draft.code
  .ok ⟨code, draft.message.getD "", draft.requestTime.join, draft.data.join⟩

end Draft

def shape (decode : Decoder α) : Shape (Draft α) where
  name := "ApiResponse"
  set reading
    | "code" => some (Draft.setCode reading)
    | "msg" => some (Draft.setMessage reading)
    | "requestTime" => some (Draft.setRequestTime reading)
    | "data" => some (Draft.setData decode reading)
    | _ => none
  places reading :=
    [⟨Draft.setCode reading, false⟩, ⟨Draft.setMessage reading, true⟩,
      ⟨Draft.setRequestTime reading, true⟩, ⟨Draft.setData decode reading, true⟩]

def decode (content : Decoder α) : Decoder (Envelope α) := fun reading node => do
  (← (shape content).decode .empty reading node).toEnvelope

end Envelope

end SpotWire
