import SpotWire.Json.Members
import SpotWire.Json.Number

/-!
JSON values and their text: no blanks, object members in the order in which they are held, and in
strings only the quote, the backslash and the characters below U+0020 escaped.
-/

namespace SpotWire.Json

inductive Value where
  | null
  | bool (value : Bool)
  | number (value : Number)
  | string (value : String)
  | array (items : List Value)
  | object (members : List (String × Value))
deriving Repr

namespace Value

def lowerHex (digit : Nat) : Char :=
  Nat.digitChar digit

/-- A character as it stands between the quotes of a string. -/
def escape (c : Char) : List Char :=
  if c = '"' then ['\\', '"']
  else if c = '\\' then ['\\', '\\']
  else if c = '\x08' then ['\\', 'b']
  else if c = '\x0c' then ['\\', 'f']
  else if c = '\n' then ['\\', 'n']
  else if c = '\r' then ['\\', 'r']
  else if c = '\t' then ['\\', 't']
  else if c.toNat < 0x20 then
    ['\\', 'u', '0', '0', lowerHex (c.toNat / 16), lowerHex (c.toNat % 16)]
  else [c]

def quote (text : List Char) : List Char :=
  '"' :: text.flatMap escape ++ ['"']

mutual

def chars : Value → List Char
  | .null => "null".toList
  | .bool true => "true".toList
  | .bool false => "false".toList
  | .number value => value.text
  | .string value => quote value.toList
  | .array [] => ['[', ']']
  | .array (item :: rest) => '[' :: item.chars ++ itemChars rest
  | .object [] => ['{', '}']
  | .object ((key, value) :: rest) =>
      '{' :: quote key.toList ++ ':' :: value.chars ++ memberChars rest
termination_by structural value => value

def itemChars : List Value → List Char
  | [] => [']']
  | item :: rest => ',' :: item.chars ++ itemChars rest
termination_by structural items => items

def memberChars : List (String × Value) → List Char
  | [] => ['}']
  | (key, value) :: rest =>
      ',' :: quote key.toList ++ ':' :: value.chars ++ memberChars rest
termination_by structural members => members

end

def text (value : Value) : String :=
  String.ofList value.chars

/-- The member of an object; no other value has members. -/
def member? (key : String) : Value → Option Value
  | .object members => Members.find? key members
  | _ => none

def string? : Value → Option String
  | .string value => some value
  | _ => none

def ofOption {α : Type} (encode : α → Value) : Option α → Value
  | none => .null
  | some a => encode a

def ofWord (n : UInt32) : Value :=
  .number (.integer n.toNat)

end Value

end SpotWire.Json
