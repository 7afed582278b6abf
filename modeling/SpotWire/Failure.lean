import SpotWire.Channel
import SpotWire.Config
import SpotWire.Rejection
import SpotWire.Url.Fault
import SpotWire.Wire.Problem

/-!
Everything that can go wrong between a caller and the exchange.
-/

namespace SpotWire

inductive FileFault where
  | missing
  | notText
deriving DecidableEq, Repr

def FileFault.message : FileFault → String
  | .missing => "No such file or directory (os error 2)"
  | .notText => "stream did not contain valid UTF-8"

/-- What can be wrong with a stream. The words of a transport are not known. -/
inductive StreamFault where
  | alreadyConnected
  | notConnected
  | closed
  | transport
  | other (reason : String)
deriving DecidableEq, Repr

def StreamFault.message? : StreamFault → Option String
  | .alreadyConnected => some "WebSocket already connected"
  | .notConnected => some "WebSocket not connected"
  | .closed => some "WebSocket send channel closed"
  | .transport => none
  | .other reason => some reason

inductive Failure where
  | unsupportedFeed (feed : String)
  | missingSymbol (feed : String)
  | unsupportedOperation (operation : String)
  /-- The exchange rejected a request for a reason that is told. -/
  | rejected (rejection : Rejection) (message : String)
  /-- The exchange rejected a request for another reason. -/
  | api (code message : String)
  /-- A request did not get a reply. -/
  | noReply
  | unreadable (problem : Wire.Problem)
  | unreadableConfig
  | file (fault : FileFault)
  | address (fault : Url.Fault)
  | stream (fault : StreamFault)
  | invalidReply (reason : String)
  | invalidConfig (reason : String)

namespace Failure

def message? : Failure → Option String
  | .unsupportedFeed feed => some ("Unsupported feed type: " ++ feed)
  | .missingSymbol feed => some ("Feed " ++ feed ++ " requires a symbol")
  | .unsupportedOperation operation => some ("Unsupported operation: " ++ operation)
  | .rejected rejection message =>
      some ("Exchange error (" ++ rejection.description ++ "): " ++ message)
  | .api code message => some ("API error (code " ++ code ++ "): " ++ message)
  | .noReply => none
  | .unreadable problem => some ("Serialization error: " ++ problem.message)
  | .unreadableConfig => none
  | .file fault => some ("I/O error: " ++ fault.message)
  | .address fault => some ("Invalid URL: " ++ fault.message)
  | .stream fault => fault.message?.map ("WebSocket error: " ++ ·)
  | .invalidReply reason => some ("Invalid response: " ++ reason)
  | .invalidConfig reason => some ("Configuration error: " ++ reason)

/-- Whether a caller may try the same again. -/
def isRetryable : Failure → Bool
  | .noReply | .stream _ | .invalidReply _ => true
  | _ => false

def rejection? : Failure → Option Rejection
  | .rejected rejection _ => some rejection
  | _ => none

def isAuthentication (failure : Failure) : Bool :=
  failure.rejection?.any Rejection.isAuthentication

/-- The failure of a request that the exchange rejected with a code and a message. -/
def ofRejected (code message : String) : Failure :=
  match Rejection.classify message with
  | some rejection => .rejected rejection message
  | none => .api code message

/-- The failure of a request whose reply has a status and a body that is not understood. -/
def ofStatus (status : Nat) (message : String) : Failure :=
  .api (String.ofList (Nat.toDigits 10 status)) message

def ofChannel : Channel.Fault → Failure
  | .unsupportedFeed name => .unsupportedFeed name
  | .missingSymbol kind => .missingSymbol kind.name

def ofConfig (fault : Config.Fault) : Failure :=
  .invalidConfig fault.message

end Failure

end SpotWire
