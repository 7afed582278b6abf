/-!
Texts as octets in UTF-8: the size of a text, reading octets strictly or leniently, and the
longest start of a text that fits a number of octets.
-/

namespace SpotWire.Text

def octetCount : List Char → Nat
  | [] => 0
  | c :: rest => c.utf8Size + octetCount rest

def octets (text : List Char) : List Nat :=
  text.flatMap fun c => (String.utf8EncodeChar c).map UInt8.toNat

/-- The longest start of a text, in whole characters, that takes at most `limit` octets. -/
def fitting : Nat → List Char → List Char
  | _, [] => []
  | limit, c :: rest =>
      if c.utf8Size ≤ limit then c :: fitting (limit - c.utf8Size) rest else []

/-- What a text begins with once three dots stand for what goes beyond `limit` octets. -/
def abridge (limit : Nat) (text : List Char) : List Char :=
  if octetCount text ≤ limit then text else fitting limit text ++ ['.', '.', '.']

/-- What may follow the first octet of a character: the closed range for the second octet, how
many more octets follow it, and the bits that the first octet gives. -/
structure Lead where
  low : Nat
  high : Nat
  more : Nat
  bits : Nat

/-- The well-formed first octets of characters of two and more octets. -/
def lead? (octet : Nat) : Option Lead :=
  if 0xc2 ≤ octet ∧ octet ≤ 0xdf then some ⟨0x80, 0xbf, 0, octet - 0xc0⟩
  else if octet = 0xe0 then some ⟨0xa0, 0xbf, 1, 0⟩
  else if octet = 0xed then some ⟨0x80, 0x9f, 1, 0xd⟩
  else if 0xe1 ≤ octet ∧ octet ≤ 0xef then some ⟨0x80, 0xbf, 1, octet - 0xe0⟩
  else if octet = 0xf0 then some ⟨0x90, 0xbf, 2, 0⟩
  else if octet = 0xf4 then some ⟨0x80, 0x8f, 2, 4⟩
  else if 0xf1 ≤ octet ∧ octet ≤ 0xf3 then some ⟨0x80, 0xbf, 2, octet - 0xf0⟩
  else none

/-- How far reading has come inside a character: its bits so far, the range for the next octet
and the number of octets after that one. -/
structure Pending where
  bits : Nat
  low : Nat
  high : Nat
  more : Nat

/-- Reads octets as UTF-8; `none` in the result stands for an ill-formed part, as long as it could
still have been the start of a character. -/
def charsFrom : Option Pending → List Nat → List (Option Char)
  | none, [] => []
  | some _, [] => [none]
  | some state, octet :: rest =>
      if state.low ≤ octet ∧ octet ≤ state.high then
        let bits := state.bits * 64 + octet % 64
        match state.more with
        | 0 => some (Char.ofNat bits) :: charsFrom none rest
        | more + 1 => charsFrom (some ⟨bits, 0x80, 0xbf, more⟩) rest
      else none :: first octet rest
  | none, octet :: rest => first octet rest
where
  first (octet : Nat) (rest : List Nat) : List (Option Char) :=
    if octet < 0x80 then some (Char.ofNat octet) :: charsFrom none rest
    else
      match lead? octet with
      | some lead => charsFrom (some ⟨lead.bits, lead.low, lead.high, lead.more⟩) rest
      | none => none :: charsFrom none rest

/-- The text that octets spell, if they are well-formed throughout. -/
def ofOctets? (octets : List Nat) : Option (List Char) :=
  (charsFrom none octets).foldr (fun c rest => c.bind fun c => rest.map (c :: ·)) (some [])

/-- The text that octets spell, with U+FFFD for each ill-formed part. -/
def ofOctets (octets : List Nat) : List Char :=
  (charsFrom none octets).map (·.getD '\uFFFD')

end SpotWire.Text
