import SpotWire.Url.Percent

/-!
The form encoding of names and values in a query: letters, digits and `*-._` stand for themselves,
a space is a plus sign, and every other octet is percent-encoded.
-/

namespace SpotWire.Url.Form

def isPlain (c : Char) : Bool :=
  c.isAlphanum || c == '*' || c == '-' || c == '.' || c == '_'

def encodeChar (c : Char) : List Char :=
  if isPlain c then [c] else if c = ' ' then ['+'] else percentChar c

def encode (text : List Char) : List Char :=
  text.flatMap encodeChar

structure Field where
  name : String
  value : String
deriving DecidableEq, Repr

def Field.text (field : Field) : List Char :=
  encode field.name.toList ++ '=' :: encode field.value.toList

def decodeOctets (text : List Char) : List Nat :=
  percentDecode 0 (text.map fun c => if c = '+' then ' ' else c)

def decode (text : List Char) : List Char :=
  Text.ofOctets (decodeOctets text)

end SpotWire.Url.Form
