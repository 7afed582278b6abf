import SpotWire.Text.Octets
import SpotWire.Yaml.Scalar
import SpotWire.Yaml.Token

/-!
Reading the marks around the nodes of a YAML text: anchors and aliases, tags, and directives.
-/

namespace SpotWire.Yaml

def namesEnd : List Char := ['?', ':', ',', ']', '}', '%', '@', '\x60']

/-- The name of an anchor or an alias, after its mark. -/
def name? (cursor : Cursor) : Option (List Char × Cursor) :=
  let (name, cursor) := (cursor.advance 1).takeWhile isNameChar
  if name.isEmpty then none
  else if cursor.blankAhead 0 || cursor.rest.head?.any namesEnd.contains then some (name, cursor)
  else none

namespace Tag

def uriChars : List Char :=
  [';', '/', '?', ':', '@', '&', '=', '+', '$', '.', '%', '!', '~', '*', '\'', '(', ')']

def isUriChar (verbatim : Bool) (c : Char) : Bool :=
  isNameChar c || uriChars.contains c || (verbatim && (c == ',' || c == '[' || c == ']'))

def escapedOctet? : List Char → Option Nat
  | '%' :: high :: low :: _ => do
      some ((← Scalar.hexValue? high) * 16 + (← Scalar.hexValue? low))
  | _ => none

/-- The number of octets of a character, by its first octet. -/
def width? (octet : Nat) : Option Nat :=
  if octet < 0x80 then some 1
  else if octet / 0x20 = 6 then some 2
  else if octet / 0x10 = 14 then some 3
  else if octet / 0x8 = 30 then some 4
  else none

def escapedOctets? : Nat → List Char → Option (List Nat)
  | 0, _ => some []
  | count + 1, text => do
      let octet ← escapedOctet? text
      some (octet :: (← escapedOctets? count (text.drop 3)))

/-- The character that escapes spell, and how many octets it takes. -/
def escaped? (text : List Char) : Option (List Char × Nat) := do
  let width ← width? (← escapedOctet? text)
  let octets ← escapedOctets? width text
  if octets.tail.all fun octet => octet / 0x40 == 2 then some (Text.ofOctets octets, width)
  else none

def uri? (verbatim : Bool) : Nat → Cursor → Option (List Char × Cursor)
  | 0, _ => none
  | fuel + 1, cursor =>
      match cursor.rest with
      | [] => some ([], cursor)
      | c :: _ =>
          if !isUriChar verbatim c then some ([], cursor)
          else if c = '%' then do
            let (chars, width) ← escaped? cursor.rest
            let (more, cursor) ← uri? verbatim fuel (cursor.advance (3 * width))
            some (chars ++ more, cursor)
          else do
            let (more, cursor) ← uri? verbatim fuel (cursor.advance 1)
            some (c :: more, cursor)

def uriText? (verbatim : Bool) (cursor : Cursor) : Option (List Char × Cursor) :=
  uri? verbatim (cursor.rest.length + 1) cursor

/-- A handle: an exclamation mark, or a name between two of them. -/
def handle (cursor : Cursor) : List Char × Cursor :=
  let (name, cursor) := (cursor.advance 1).takeWhile isNameChar
  if cursor.isAt '!' then ('!' :: name ++ ['!'], cursor.advance 1) else ('!' :: name, cursor)

/-- A tag between angle brackets has no handle. -/
def verbatim? (cursor : Cursor) : Option (Token × Cursor) := do
  let (text, cursor) ← uriText? true (cursor.advance 2)
  if text.isEmpty || !cursor.isAt '>' then none else some (.tag [] text, cursor.advance 1)

/-- A tag with a handle; one that does not end its handle has the plain one. -/
def shorthand? (cursor : Cursor) : Option (Token × Cursor) := do
  let (handle, cursor) := handle cursor
  let (suffix, cursor) ← uriText? false cursor
  if 1 < handle.length && handle.getLast? == some '!' then
    if suffix.isEmpty then none else some (.tag handle suffix, cursor)
  else
    let suffix := handle.drop 1 ++ suffix
    if suffix.isEmpty then some (.tag [] ['!'], cursor) else some (.tag ['!'] suffix, cursor)

/-- A tag, which a blank follows, or a comma in a flow collection. -/
def read? (flow : Bool) (cursor : Cursor) : Option (Token × Cursor) := do
  let (tag, cursor) ←
    if cursor.ahead? 1 == some '<' then verbatim? cursor else shorthand? cursor
  if cursor.blankAhead 0 || (flow && cursor.isAt ',') then some (tag, cursor) else none

end Tag

namespace Directive

def number? (cursor : Cursor) : Option (Nat × Cursor) :=
  let (digits, cursor) := cursor.takeWhile Char.isDigit
  if digits.isEmpty || 9 < digits.length then none
  else some (Nat.ofDigitChars 10 digits 0, cursor)

def version? (cursor : Cursor) : Option (Token × Cursor) := do
  let (major, cursor) ← number? (cursor.skipWhile isBlank)
  if !cursor.isAt '.' then none
  else
    let (minor, cursor) ← number? (cursor.advance 1)
    some (.version major minor, cursor)

def tag? (cursor : Cursor) : Option (Token × Cursor) := do
  let cursor := cursor.skipWhile isBlank
  if !cursor.isAt '!' then none
  else
    let (handle, cursor) := Tag.handle cursor
    if handle ≠ ['!'] ∧ (handle.length = 1 ∨ handle.getLast? ≠ some '!') then none
    else if !cursor.atBlank then none
    else
      let (start, cursor) ← Tag.uriText? true (cursor.skipWhile isBlank)
      if start.isEmpty || !cursor.blankAhead 0 then none
      else some (.tagDirective handle start, cursor)

/-- A directive, which fills its line. -/
def read? (cursor : Cursor) : Option (Token × Cursor) := do
  let (name, cursor) := (cursor.advance 1).takeWhile isNameChar
  if !cursor.blankAhead 0 then none
  else
    let (token, cursor) ←
      if name = "YAML".toList then version? cursor
      else if name = "TAG".toList then tag? cursor
      else none
    some (token, ← cursor.finishLine?)

end Directive

end SpotWire.Yaml
