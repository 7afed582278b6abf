import SpotWire.Url.Ip
import SpotWire.Url.Punycode

/-!
Domain names in ASCII. Letters are folded to lower case, forms of width are folded to their plain
characters, and a label with characters beyond ASCII is written in its punycode form. Letters are
folded in the Latin, Greek, Cyrillic and Armenian alphabets; characters of other scripts stand for
themselves.
-/

namespace SpotWire.Url.Domain

/-- ASCII characters that no domain holds, besides control characters. -/
def forbidden : List Char :=
  [' ', '#', '/', ':', '<', '>', '?', '@', '[', '\\', ']', '^', '|', '%']

def isForbidden (c : Char) : Bool :=
  c.toNat < 0x20 || c.toNat == 0x7f || forbidden.contains c

/-- Closed ranges of code points. -/
abbrev Ranges := List (Nat × Nat)

def holds (ranges : Ranges) (code : Nat) : Bool :=
  ranges.any fun range => range.1 ≤ code && code ≤ range.2

/-- Characters without a place in a domain: controls, spaces, characters that a form of width or
an accent sets apart from a space, joiners, marks of direction and private characters. -/
def disallowed : Ranges :=
  [(0x80, 0xa0), (0xa8, 0xa8), (0xaf, 0xaf), (0xb4, 0xb4), (0xb8, 0xb8), (0x2000, 0x200a),
    (0x200c, 0x200f), (0x2028, 0x202f), (0x205f, 0x205f), (0x2061, 0x206f), (0x3000, 0x3000),
    (0xe000, 0xf8ff), (0xfdd0, 0xfdef), (0xfff0, 0xffff), (0xe0000, 0xe00ff), (0xe01f0, 0x10ffff)]

/-- Characters that are left out. -/
def ignored : Ranges :=
  [(0xad, 0xad), (0x34f, 0x34f), (0x180b, 0x180d), (0x200b, 0x200b), (0x2060, 0x2060),
    (0xfe00, 0xfe0f), (0xfeff, 0xfeff), (0xe0100, 0xe01ef)]

/-- Full stops of other widths. -/
def fullStops : Ranges := [(0x3002, 0x3002), (0xff0e, 0xff0e), (0xff61, 0xff61)]

/-- A range of capital letters and the distance to their small letters. -/
structure Shift where
  low : Nat
  high : Nat
  distance : Int

def shifts : List Shift :=
  [⟨0xc0, 0xd6, 0x20⟩, ⟨0xd8, 0xde, 0x20⟩, ⟨0x178, 0x178, -0x79⟩, ⟨0x386, 0x386, 0x26⟩,
    ⟨0x388, 0x38a, 0x25⟩, ⟨0x38c, 0x38c, 0x40⟩, ⟨0x38e, 0x38f, 0x3f⟩, ⟨0x391, 0x3a1, 0x20⟩,
    ⟨0x3a3, 0x3ab, 0x20⟩, ⟨0x400, 0x40f, 0x50⟩, ⟨0x410, 0x42f, 0x20⟩, ⟨0x4c0, 0x4c0, 0xf⟩,
    ⟨0x531, 0x556, 0x30⟩, ⟨0xff01, 0xff20, -0xfee0⟩, ⟨0xff21, 0xff3a, -0xfec0⟩,
    ⟨0xff3b, 0xff5e, -0xfee0⟩]

/-- Ranges in which a capital letter, at an even place, comes before its small letter. -/
def evenCapitals : Ranges :=
  [(0x100, 0x12f), (0x132, 0x137), (0x14a, 0x177), (0x1de, 0x1ef), (0x1f8, 0x21f),
    (0x222, 0x233), (0x370, 0x373), (0x3d8, 0x3ef), (0x460, 0x481), (0x48a, 0x4bf),
    (0x4d0, 0x52f), (0x1e00, 0x1e95), (0x1ea0, 0x1eff)]

/-- Ranges in which a capital letter, at an odd place, comes before its small letter. -/
def oddCapitals : Ranges :=
  [(0x139, 0x148), (0x179, 0x17e), (0x1cd, 0x1dc), (0x4c1, 0x4ce)]

/-- Characters that stand for others in a way of their own. -/
def exceptions : List (Nat × List Char) :=
  [(0xaa, ['a']), (0xb2, ['2']), (0xb3, ['3']), (0xb5, ['μ']), (0xb9, ['1']), (0xba, ['o']),
    (0xbc, "1⁄4".toList), (0xbd, "1⁄2".toList), (0xbe, "3⁄4".toList), (0x130, "i̇".toList),
    (0x132, "ij".toList), (0x133, "ij".toList), (0x13f, "l·".toList), (0x140, "l·".toList),
    (0x149, "ʼn".toList), (0x17f, ['s']), (0x1e9e, ['ß']), (0x2122, "tm".toList),
    (0x212a, ['k']), (0x212b, ['å'])]

def foldCode (code : Nat) : Option (List Char) :=
  match exceptions.find? fun entry => entry.1 == code with
  | some entry => some entry.2
  | none =>
      if holds disallowed code ∨ 0xfffe ≤ code % 0x10000 then none
      else if holds ignored code then some []
      else if holds fullStops code then some ['.']
      else
        match shifts.find? fun shift => shift.low ≤ code && code ≤ shift.high with
        | some shift => some [Char.ofNat (code + shift.distance).toNat]
        | none =>
            if (holds evenCapitals code && code % 2 == 0) ||
                (holds oddCapitals code && code % 2 == 1) then
              some [Char.ofNat (code + 1)]
            else some [Char.ofNat code]

def fold (c : Char) : Option (List Char) :=
  let folded := if c.toNat < 0x80 then some [c.toLower] else foldCode c.toNat
  folded.filter fun chars => !chars.any isForbidden

def foldAll (text : List Char) : Option (List Char) :=
  (text.mapM fold).map List.flatten

def isAscii (text : List Char) : Bool :=
  text.all (·.toNat < 0x80)

/-- Marks that do not start a label. -/
def startsWithMark (label : List Char) : Bool :=
  match label with
  | [] => false
  | c :: _ => 0x300 ≤ c.toNat && c.toNat ≤ 0x36f

def acePrefix : List Char := ['x', 'n', '-', '-']

/-- A label whose characters are folded, in ASCII. -/
def label? (label : List Char) : Option (List Char) :=
  if acePrefix.isPrefixOf label then
    if !isAscii label then none
    else do
      let decoded ← Punycode.decode? (label.drop 4)
      if isAscii decoded || startsWithMark decoded || decoded.contains '.' then none
      else if foldAll decoded = some decoded then some label
      else none
  else if isAscii label then some label
  else if startsWithMark label then none
  else some (acePrefix ++ Punycode.encode label)

def toAscii (text : List Char) : Except Fault (List Char) :=
  let labels := do
    let folded ← foldAll text
    (dotParts folded).mapM label?
  match labels with
  | some labels => .ok (['.'].intercalate labels)
  | none => .error .invalidDomain

end SpotWire.Url.Domain
