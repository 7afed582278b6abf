/-!
Places in a YAML text: what is left of it, and the line and the column reached.
-/

namespace SpotWire.Yaml

def isBreak (c : Char) : Bool :=
  c == '\n' || c == '\r' || c == '\x85' || c == '\u2028' || c == '\u2029'

def isBlank (c : Char) : Bool :=
  c == ' ' || c == '\t'

/-- Characters of names: ASCII letters and digits, the hyphen and the underscore. -/
def isNameChar (c : Char) : Bool :=
  c.isAlphanum || c == '-' || c == '_'

structure Cursor where
  rest : List Char
  line : Nat
  column : Nat
  /-- The characters passed since the start. -/
  index : Nat
deriving Repr

namespace Cursor

def start (text : List Char) : Cursor := ⟨text, 0, 0, 0⟩

def ahead? (cursor : Cursor) (distance : Nat) : Option Char :=
  cursor.rest[distance]?

def isAt (cursor : Cursor) (c : Char) : Bool :=
  cursor.rest.head? == some c

def atEnd (cursor : Cursor) : Bool :=
  cursor.rest.isEmpty

def atBlank (cursor : Cursor) : Bool :=
  cursor.rest.head?.any isBlank

def atBreak (cursor : Cursor) : Bool :=
  cursor.rest.head?.any isBreak

/-- Whether a blank, a line break or the end of the text stands some places ahead. -/
def blankAhead (cursor : Cursor) (distance : Nat) : Bool :=
  match cursor.ahead? distance with
  | none => true
  | some c => isBlank c || isBreak c

def atBreakOrEnd (cursor : Cursor) : Bool :=
  cursor.atEnd || cursor.atBreak

def advance (cursor : Cursor) (count : Nat) : Cursor :=
  { cursor with
    rest := cursor.rest.drop count
    column := cursor.column + count
    index := cursor.index + count }

/-- The characters here that have a property, and the place after them. -/
def takeWhile (cursor : Cursor) (property : Char → Bool) : List Char × Cursor :=
  let found := cursor.rest.takeWhile property
  (found, cursor.advance found.length)

def skipWhile (cursor : Cursor) (property : Char → Bool) : Cursor :=
  (cursor.takeWhile property).2

/-- Passes a line break, of one character or two, and gives what it counts as in a scalar. -/
def readBreak (cursor : Cursor) : List Char × Cursor :=
  let next (count : Nat) : Cursor :=
    ⟨cursor.rest.drop count, cursor.line + 1, 0, cursor.index + count⟩
  match cursor.rest with
  | '\r' :: '\n' :: _ => (['\n'], next 2)
  | c :: _ =>
      if c = '\u2028' ∨ c = '\u2029' then ([c], next 1)
      else if isBreak c then (['\n'], next 1)
      else ([], cursor)
  | [] => ([], cursor)

/-- Passes blanks and a comment up to the end of the line, and the line break. -/
def finishLine? (cursor : Cursor) : Option Cursor :=
  let cursor := cursor.skipWhile isBlank
  let cursor := if cursor.isAt '#' then cursor.skipWhile fun c => !isBreak c else cursor
  if cursor.atBreakOrEnd then some cursor.readBreak.2 else none

/-- Whether three dashes or three dots stand alone at the start of a line. -/
def atDocumentMark (cursor : Cursor) (mark : Char) : Bool :=
  cursor.column == 0 && cursor.rest.take 3 == [mark, mark, mark] && cursor.blankAhead 3

def atAnyDocumentMark (cursor : Cursor) : Bool :=
  cursor.atDocumentMark '-' || cursor.atDocumentMark '.'

end Cursor

end SpotWire.Yaml
