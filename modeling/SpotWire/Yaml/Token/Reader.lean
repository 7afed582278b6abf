import SpotWire.Yaml.Tag

/-!
Dividing a YAML text into tokens.

A key of a mapping shows only by the colon after it. Where a key may begin, a place is kept among
the tokens; a colon on the same line, within 1024 characters, fills it. Indentation opens and closes
block collections; inside flow collections it has no meaning.
-/

namespace SpotWire.Yaml

/-- A token, or a place where a key may turn out to begin. -/
inductive Piece where
  | token (token : Token)
  | keyPlace (number : Nat)

/-- A place where a key may begin. In a block mapping, at its indentation, it has to. -/
structure KeyPlace where
  number : Nat
  required : Bool
  cursor : Cursor

/-- A key that has turned out to be one, and whether it opens a block mapping. -/
structure FoundKey where
  number : Nat
  opensMapping : Bool

structure Scanner where
  cursor : Cursor
  /-- The pieces so far, the last one first. -/
  pieces : List Piece
  /-- The key that may have begun last, for each flow collection and for the block around them,
  the innermost first. -/
  keyPlaces : List (Option KeyPlace)
  placesKept : Nat
  found : List FoundKey
  /-- The indentation of the innermost block collection, and of those around it. -/
  indent : Int
  outer : List Int
  /-- Whether a key may begin here. -/
  keyAllowed : Bool

namespace Scanner

def start (text : List Char) : Scanner :=
  ⟨.start text, [], [none], 0, [], -1, [], true⟩

def inFlow (scanner : Scanner) : Bool :=
  1 < scanner.keyPlaces.length

def emit (scanner : Scanner) (token : Token) : Scanner :=
  { scanner with pieces := .token token :: scanner.pieces }

/-- Emits a token of some characters and passes them. -/
def emitMark (scanner : Scanner) (token : Token) (count : Nat) : Scanner :=
  { scanner.emit token with cursor := scanner.cursor.advance count }

def allowKey (scanner : Scanner) (keyAllowed : Bool) : Scanner :=
  { scanner with keyAllowed }

/-- Gives up the key that may have begun; one that had to be there may not be missing. -/
def dropKey? (scanner : Scanner) : Option Scanner :=
  match scanner.keyPlaces with
  | some place :: rest =>
      if place.required then none else some { scanner with keyPlaces := none :: rest }
  | _ => some scanner

def keepKey? (scanner : Scanner) : Option Scanner :=
  if !scanner.keyAllowed then some scanner
  else do
    let scanner ← scanner.dropKey?
    let required := !scanner.inFlow && scanner.indent == scanner.cursor.column
    some { scanner with
      keyPlaces := some ⟨scanner.placesKept, required, scanner.cursor⟩ :: scanner.keyPlaces.tail
      placesKept := scanner.placesKept + 1
      pieces := .keyPlace scanner.placesKept :: scanner.pieces }

/-- Whether a place is too far back for the key to end here. -/
def isStale (cursor : Cursor) (place : KeyPlace) : Bool :=
  place.cursor.line < cursor.line || place.cursor.index + 1024 < cursor.index

/-- Gives up all keys that are too far back. -/
def dropStale? (scanner : Scanner) : Option Scanner :=
  let stale := scanner.keyPlaces.map fun place => place.filter (isStale scanner.cursor)
  if stale.any fun place => place.any KeyPlace.required then none
  else
    some { scanner with
      keyPlaces := scanner.keyPlaces.map fun place =>
        place.filter fun place => !isStale scanner.cursor place }

/-- Opens a block collection if the column lies deeper than the one around it. -/
def openBlock (scanner : Scanner) (column : Nat) (token : Token) : Scanner :=
  if scanner.inFlow || (column : Int) ≤ scanner.indent then scanner
  else
    { scanner.emit token with indent := column, outer := scanner.indent :: scanner.outer }

/-- Closes the block collections, out of those given, that lie deeper than a column. -/
def closeFrom (column : Int) (scanner : Scanner) : List Int → Scanner
  | [] => scanner
  | indent :: outer =>
      if column < scanner.indent then
        closeFrom column { scanner.emit .blockEnd with indent, outer } outer
      else scanner

/-- Closes the block collections that lie deeper than a column. -/
def closeBlocks (scanner : Scanner) (column : Int) : Scanner :=
  if scanner.inFlow then scanner else closeFrom column scanner scanner.outer

/-- Passes blanks, comments and line breaks. After a line break a key may begin; where one may, tabs
are not passed. -/
def toNextToken : Nat → Scanner → Scanner
  | 0, scanner => scanner
  | fuel + 1, scanner =>
      let cursor := scanner.cursor
      let cursor := if cursor.column = 0 ∧ cursor.isAt '\uFEFF' then cursor.advance 1 else cursor
      let tabs := scanner.inFlow || !scanner.keyAllowed
      let cursor := cursor.skipWhile fun c => c == ' ' || (tabs && c == '\t')
      let cursor := if cursor.isAt '#' then cursor.skipWhile fun c => !isBreak c else cursor
      if cursor.atBreak then
        toNextToken fuel
          { scanner with
            cursor := cursor.readBreak.2
            keyAllowed := scanner.keyAllowed || !scanner.inFlow }
      else { scanner with cursor }

def documentMark? (scanner : Scanner) (token : Token) : Option Scanner := do
  let scanner ← (scanner.closeBlocks (-1)).dropKey?
  some ((scanner.allowKey false).emitMark token 3)

def directive? (scanner : Scanner) : Option Scanner := do
  let scanner ← (scanner.closeBlocks (-1)).dropKey?
  let (token, cursor) ← Directive.read? scanner.cursor
  some { (scanner.allowKey false).emit token with cursor }

def openFlow? (scanner : Scanner) (token : Token) : Option Scanner := do
  let scanner ← scanner.keepKey?
  let scanner := (scanner.allowKey true).emitMark token 1
  some { scanner with keyPlaces := none :: scanner.keyPlaces }

def closeFlow? (scanner : Scanner) (token : Token) : Option Scanner := do
  let scanner ← scanner.dropKey?
  let scanner := (scanner.allowKey false).emitMark token 1
  some (if scanner.inFlow then { scanner with keyPlaces := scanner.keyPlaces.tail } else scanner)

def flowEntry? (scanner : Scanner) : Option Scanner := do
  let scanner ← scanner.dropKey?
  some ((scanner.allowKey true).emitMark .flowEntry 1)

def blockEntry? (scanner : Scanner) : Option Scanner := do
  if !scanner.inFlow && !scanner.keyAllowed then none
  else
    let scanner ← (scanner.openBlock scanner.cursor.column .blockSequenceStart).dropKey?
    some ((scanner.allowKey true).emitMark .blockEntry 1)

def key? (scanner : Scanner) : Option Scanner := do
  if !scanner.inFlow && !scanner.keyAllowed then none
  else
    let scanner ← (scanner.openBlock scanner.cursor.column .blockMappingStart).dropKey?
    some ((scanner.allowKey (!scanner.inFlow)).emitMark .key 1)

def valueOf (scanner : Scanner) (place : KeyPlace) : Scanner :=
  let column : Int := place.cursor.column
  let opens := !scanner.inFlow && scanner.indent < column
  let scanner :=
    { scanner with
      found := ⟨place.number, opens⟩ :: scanner.found
      keyPlaces := none :: scanner.keyPlaces.tail
      indent := if opens then column else scanner.indent
      outer := if opens then scanner.indent :: scanner.outer else scanner.outer }
  (scanner.allowKey false).emitMark .value 1

def value? (scanner : Scanner) : Option Scanner :=
  match scanner.keyPlaces with
  | some place :: _ => some (scanner.valueOf place)
  | _ =>
      if !scanner.inFlow && !scanner.keyAllowed then none
      else
        let scanner := scanner.openBlock scanner.cursor.column .blockMappingStart
        some ((scanner.allowKey (!scanner.inFlow)).emitMark .value 1)

def node? (scanner : Scanner) (read : Cursor → Option (Token × Cursor)) : Option Scanner := do
  let scanner ← scanner.keepKey?
  let (token, cursor) ← read scanner.cursor
  some { (scanner.allowKey false).emit token with cursor }

def block? (scanner : Scanner) (literal : Bool) : Option Scanner := do
  let scanner ← scanner.dropKey?
  let (text, cursor) ← Scalar.block? literal scanner.indent scanner.cursor
  let style := if literal then Style.literal else Style.folded
  some { (scanner.allowKey true).emit (.scalar style text) with cursor }

/-- A plain scalar; when a line break ends it a key may follow. -/
def plain? (scanner : Scanner) : Option Scanner := do
  let scanner ← scanner.keepKey?
  let (text, cursor, broken) ←
    Scalar.plain? scanner.inFlow (scanner.indent + 1).toNat scanner.cursor
  some { (scanner.allowKey broken).emit (.scalar .plain text) with cursor }

def quoted? (single : Bool) (cursor : Cursor) : Option (Token × Cursor) := do
  let (text, cursor) ← Scalar.quoted? single cursor
  some (.scalar (if single then .singleQuoted else .doubleQuoted) text, cursor)

def marks : List Char :=
  ['-', '?', ':', ',', '[', ']', '{', '}', '#', '&', '*', '!', '|', '>', '\'', '"', '%', '@',
    '\x60']

def beginsPlain (scanner : Scanner) (c : Char) : Bool :=
  !(isBlank c || isBreak c || marks.contains c) ||
    (c == '-' && !(scanner.cursor.ahead? 1).any isBlank) ||
    (!scanner.inFlow && (c == '?' || c == ':') && !scanner.cursor.blankAhead 1)

def token? (scanner : Scanner) (c : Char) : Option Scanner :=
  let cursor := scanner.cursor
  let alone := cursor.blankAhead 1
  if cursor.column = 0 ∧ c = '%' then scanner.directive?
  else if cursor.atDocumentMark '-' then scanner.documentMark? .documentStart
  else if cursor.atDocumentMark '.' then scanner.documentMark? .documentEnd
  else if c = '[' then scanner.openFlow? .flowSequenceStart
  else if c = '{' then scanner.openFlow? .flowMappingStart
  else if c = ']' then scanner.closeFlow? .flowSequenceEnd
  else if c = '}' then scanner.closeFlow? .flowMappingEnd
  else if c = ',' then scanner.flowEntry?
  else if c = '-' ∧ alone then scanner.blockEntry?
  else if c = '?' ∧ (scanner.inFlow ∨ alone) then scanner.key?
  else if c = ':' ∧ (scanner.inFlow ∨ alone) then scanner.value?
  else if c = '*' then
    scanner.node? fun cursor => (name? cursor).map fun found => (.alias found.1, found.2)
  else if c = '&' then
    scanner.node? fun cursor => (name? cursor).map fun found => (.anchor found.1, found.2)
  else if c = '!' then scanner.node? (Tag.read? scanner.inFlow)
  else if c = '|' ∧ !scanner.inFlow then scanner.block? true
  else if c = '>' ∧ !scanner.inFlow then scanner.block? false
  else if c = '\'' then scanner.node? (quoted? true)
  else if c = '"' then scanner.node? (quoted? false)
  else if scanner.beginsPlain c then scanner.plain?
  else none

/-- Closes all that is open at the end of the text. -/
def finish? (scanner : Scanner) : Option Scanner := do
  let scanner ← (scanner.closeBlocks (-1)).dropKey?
  some (scanner.emit .streamEnd)

def scan? : Nat → Scanner → Option Scanner
  | 0, _ => none
  | fuel + 1, scanner => do
      let scanner := toNextToken (scanner.cursor.rest.length + 1) scanner
      let scanner ← scanner.dropStale?
      let scanner := scanner.closeBlocks scanner.cursor.column
      match scanner.cursor.rest with
      | [] => scanner.finish?
      | c :: _ => scan? fuel (← scanner.token? c)

def tokensOf (found : List FoundKey) : Piece → List Token
  | .token token => [token]
  | .keyPlace number =>
      match found.find? fun key => key.number == number with
      | none => []
      | some key => if key.opensMapping then [.blockMappingStart, .key] else [.key]

end Scanner

def Token.ofChars? (text : List Char) : Option (List Token) := do
  let scanner ← Scanner.scan? (text.length + 2) (.start text)
  some (scanner.pieces.reverse.flatMap (Scanner.tokensOf scanner.found))

end SpotWire.Yaml
