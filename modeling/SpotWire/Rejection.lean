import SpotWire.Text.Search
import SpotWire.Wire.Decoder

/-!
Why the exchange rejects a request, told from the words of its message.
-/

namespace SpotWire

inductive Rejection where
  | orderNotFound
  | permissionDenied
  | authenticationFailed
  | insufficientFunds
  | orderUncancellable
deriving DecidableEq, Repr

namespace Rejection

instance : Wire.Named Rejection where
  all := [.orderNotFound, .permissionDenied, .authenticationFailed, .insufficientFunds,
    .orderUncancellable]
  name
    | .orderNotFound => "OrderNotFound"
    | .permissionDenied => "PermissionDenied"
    | .authenticationFailed => "AuthenticationFailed"
    | .insufficientFunds => "InsufficientFunds"
    | .orderUncancellable => "OrderUncancellable"

def description : Rejection → String
  | .orderNotFound => "order not found"
  | .permissionDenied => "permission denied"
  | .authenticationFailed => "authentication failed"
  | .insufficientFunds => "insufficient funds"
  | .orderUncancellable => "order uncancellable"

/-- The words by which a message tells the rejection. -/
def patterns : Rejection → List String
  | .orderNotFound => ["FAILED_ORDER_NOT_FOUND", "Order does not exist"]
  | .permissionDenied =>
      ["Invalid permissions", "Invalid API Key", "Incorrect API key/Passphrase"]
  | .authenticationFailed =>
      ["API verification failed", "Header \"ACCESS_KEY\" is required",
        "Header \"ACCESS_SIGN\" is required", "Header \"ACCESS_PASSPHRASE\" is required",
        "Request timestamp expired"]
  | .insufficientFunds => ["Account balance is insufficient", "Insufficient balance"]
  | .orderUncancellable =>
      ["Order cannot be cancelled", "Order is already filled", "Order is already cancelled"]

/-- Rejections in the order in which their patterns are looked for. -/
def byPriority : List Rejection :=
  [.orderNotFound, .permissionDenied, .authenticationFailed, .insufficientFunds,
    .orderUncancellable]

def isTold (rejection : Rejection) (message : String) : Bool :=
  rejection.patterns.any fun pattern => Text.mentions pattern message

/-- The first rejection that a message tells, letter case counting. -/
def classify (message : String) : Option Rejection :=
  byPriority.find? fun rejection => rejection.isTold message

/-- The account may not do what was asked, or is not known. -/
def isAuthentication : Rejection → Bool
  | .permissionDenied | .authenticationFailed => true
  | _ => false

end Rejection

end SpotWire
