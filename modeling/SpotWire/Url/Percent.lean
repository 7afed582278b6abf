import SpotWire.Text.Octets

/-!
Percent-encoding of text inside addresses: octets as a percent sign and two hexadecimal digits.
-/

namespace SpotWire.Url

def upperHex (digit : Nat) : Char :=
  (Nat.digitChar digit).toUpper

def percentOctet (octet : Nat) : List Char :=
  ['%', upperHex (octet / 16), upperHex (octet % 16)]

def percentChar (c : Char) : List Char :=
  (Text.octets [c]).flatMap percentOctet

/-- Encodes the characters beyond ASCII, the control characters and those that `reserved` holds. -/
def percentEncode (reserved : List Char) (text : List Char) : List Char :=
  text.flatMap fun c =>
    if c.toNat < 0x20 ∨ 0x7f ≤ c.toNat ∨ reserved.contains c then percentChar c else [c]

def reservedInFragment : List Char := [' ', '"', '<', '>', '\x60']

def reservedInPath : List Char := reservedInFragment ++ ['#', '?', '{', '}']

def reservedInUser : List Char :=
  reservedInPath ++ ['/', ':', ';', '=', '@', '[', '\\', ']', '^', '|']

def reservedInQuery : List Char := [' ', '"', '#', '<', '>']

def reservedInSpecialQuery : List Char := reservedInQuery ++ ['\'']

def hexValue? (c : Char) : Option Nat :=
  if c.isDigit then some (c.toNat - '0'.toNat)
  else if 'a' ≤ c ∧ c ≤ 'f' then some (c.toNat - 'a'.toNat + 10)
  else if 'A' ≤ c ∧ c ≤ 'F' then some (c.toNat - 'A'.toNat + 10)
  else none

/-- The octet of an encoded one at the front of a text. -/
def encodedOctet? : List Char → Option Nat
  | '%' :: high :: low :: _ => do
      let high ← hexValue? high
      let low ← hexValue? low
      some (high * 16 + low)
  | _ => none

/-- The octets of a text in which some may be encoded. `skip` counts the characters of an encoded
octet that are still to be passed over. -/
def percentDecode (skip : Nat) : List Char → List Nat
  | [] => []
  | c :: rest =>
      match skip with
      | skip + 1 => percentDecode skip rest
      | 0 =>
          match encodedOctet? (c :: rest) with
          | some octet => octet :: percentDecode 2 rest
          | none => Text.octets [c] ++ percentDecode 0 rest

end SpotWire.Url
