/-!
Events that are written to the log.
-/

namespace SpotWire

inductive Severity where
  | debug
  | info
  | warn
deriving DecidableEq, Repr

/-- What an event says under a name: a text or a count. -/
inductive Detail where
  | text (value : String)
  | count (value : Nat)
deriving DecidableEq, Repr

structure LogEvent where
  severity : Severity
  message : String
  details : List (String × Detail)
deriving DecidableEq, Repr

namespace Severity

def name : Severity → String
  | .debug => "DEBUG"
  | .info => "INFO"
  | .warn => "WARN"

end Severity

end SpotWire
