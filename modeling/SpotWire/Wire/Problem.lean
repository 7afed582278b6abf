import SpotWire.Json.Node
import SpotWire.Moment

/-!
Why a document does not hold what was asked of it: its text is broken, or it holds something else.
-/

namespace SpotWire.Wire

open Json

/-- A well-formed document that does not fit. -/
inductive Mismatch where
  | missingField (name : String)
  | duplicateField (name : String)
  | unknownVariant (name : String) (known : List String)
  | type (found : Found) (expected : String)
  | value (found : Found) (expected : String)
  | length (count : Nat) (expected : String)
  /-- An increment is neither a text nor a number. -/
  | increment (found : Value)
  /-- A reply code is neither a text nor a number. -/
  | replyCode (found : Value)
  /-- A text is no date and time. -/
  | moment (fault : Moment.Fault)
deriving Repr

inductive Problem where
  | broken (fault : Fault)
  | mismatch (what : Mismatch)
deriving Repr

inductive Category where
  | incomplete
  | grammar
  | data
deriving DecidableEq, Repr

def Category.name : Category → String
  | .incomplete => "Eof"
  | .grammar => "Syntax"
  | .data => "Data"

def quoted (name : String) : String :=
  "`" ++ name ++ "`"

def describe : Found → String
  | .null => "null"
  | .bool true => "boolean `true`"
  | .bool false => "boolean `false`"
  | .number (.integer value) => "integer " ++ quoted (String.ofList (Number.integerText value))
  | .number (.real value) => "floating point " ++ quoted (String.ofList (Number.realText value))
  | .string value => "string \"" ++ value ++ "\""
  | .array => "sequence"
  | .object => "map"

/-- The known names, as they are listed after an unknown one. -/
def alternatives : List String → String
  | [] => "there are no variants"
  | [one] => "expected " ++ quoted one
  | [one, two] => "expected " ++ quoted one ++ " or " ++ quoted two
  | names => "expected one of " ++ ", ".intercalate (names.map quoted)

namespace Mismatch

def message : Mismatch → String
  | .missingField name => "missing field " ++ quoted name
  | .duplicateField name => "duplicate field " ++ quoted name
  | .unknownVariant name known => "unknown variant " ++ quoted name ++ ", " ++ alternatives known
  | .type found expected => "invalid type: " ++ describe found ++ ", expected " ++ expected
  | .value found expected => "invalid value: " ++ describe found ++ ", expected " ++ expected
  | .length count expected =>
      "invalid length " ++ String.ofList (Nat.toDigits 10 count) ++ ", expected " ++ expected
  | .increment found => "expected numeric string, got " ++ found.text
  | .replyCode found => "unexpected response code " ++ found.text
  | .moment fault => fault.message

end Mismatch

namespace Problem

def message : Problem → String
  | .broken fault => fault.message
  | .mismatch what => what.message

def category : Problem → Category
  | .broken fault => if fault.isEnd then .incomplete else .grammar
  | .mismatch _ => .data

end Problem

end SpotWire.Wire
