import SpotWire.Yaml.Cursor

/-!
Reading the scalars of a YAML text. Line breaks inside plain and quoted scalars are folded: one
becomes a space, of several all but the first are kept.
-/

namespace SpotWire.Yaml

/-- Blanks and line breaks that have been passed inside a scalar. -/
structure Gap where
  blanks : List Char
  firstBreak : List Char
  moreBreaks : List Char
  /-- Whether a line break has been passed. -/
  broken : Bool

namespace Gap

def empty : Gap := ⟨[], [], [], false⟩

/-- An escaped line break counts as passed but leaves nothing. -/
def escaped : Gap := ⟨[], [], [], true⟩

def text (gap : Gap) : List Char :=
  if !gap.broken then gap.blanks
  else if gap.firstBreak = ['\n'] then
    if gap.moreBreaks.isEmpty then [' '] else gap.moreBreaks
  else gap.firstBreak ++ gap.moreBreaks

/-- Passes blanks and line breaks. A tab in front of the column `indent` is refused at the start of
a line. -/
def read? (indent : Nat) : Nat → Gap → Cursor → Option (Gap × Cursor)
  | 0, _, _ => none
  | fuel + 1, gap, cursor =>
      match cursor.rest with
      | [] => some (gap, cursor)
      | c :: _ =>
          if isBlank c then
            if gap.broken && cursor.column < indent && c == '\t' then none
            else
              let gap := if gap.broken then gap else { gap with blanks := gap.blanks ++ [c] }
              read? indent fuel gap (cursor.advance 1)
          else if isBreak c then
            let (kept, cursor) := cursor.readBreak
            let gap :=
              if gap.broken then { gap with moreBreaks := gap.moreBreaks ++ kept }
              else { gap with blanks := [], firstBreak := kept, broken := true }
            read? indent fuel gap cursor
          else some (gap, cursor)

end Gap

namespace Scalar

/-! ### Plain scalars -/

def isFlowMark (c : Char) : Bool :=
  c == ',' || c == '[' || c == ']' || c == '{' || c == '}'

/-- Whether a plain scalar ends at a place: before a colon with a blank after it, and in a flow
collection before a mark of such collections. -/
def endsPlain (flow : Bool) (cursor : Cursor) : Bool :=
  (cursor.isAt ':' && cursor.blankAhead 1) || (flow && cursor.rest.head?.any isFlowMark)

/-- A colon in front of a mark of a flow collection is refused. -/
def strayColon (flow : Bool) (cursor : Cursor) : Bool :=
  flow && cursor.isAt ':' && (cursor.ahead? 1).any fun c => isFlowMark c || c == '?'

/-- The characters of a plain scalar up to a blank, a line break or its end. -/
def plainRun? (flow : Bool) : Nat → Cursor → Option (List Char × Cursor)
  | 0, _ => none
  | fuel + 1, cursor =>
      match cursor.rest with
      | [] => some ([], cursor)
      | c :: _ =>
          if isBlank c || isBreak c then some ([], cursor)
          else if strayColon flow cursor then none
          else if endsPlain flow cursor then some ([], cursor)
          else do
            let (run, cursor) ← plainRun? flow fuel (cursor.advance 1)
            some (c :: run, cursor)

/-- A plain scalar after a gap; the text, the place after it and whether the last gap had a line
break. -/
def plainFrom? (flow : Bool) (indent : Nat) : Nat → Gap → Cursor →
    Option (List Char × Cursor × Bool)
  | 0, _, _ => none
  | fuel + 1, gap, cursor =>
      if cursor.atAnyDocumentMark || cursor.isAt '#' then some ([], cursor, gap.broken)
      else do
        let (run, cursor) ← plainRun? flow (cursor.rest.length + 1) cursor
        let joined := if run.isEmpty then [] else gap.text ++ run
        let gap := if run.isEmpty then gap else .empty
        if !(cursor.atBlank || cursor.atBreak) then some (joined, cursor, gap.broken)
        else
          let (gap, cursor) ← gap.read? indent (cursor.rest.length + 1) cursor
          if !flow && cursor.column < indent then some (joined, cursor, gap.broken)
          else
            let (more, cursor, broken) ← plainFrom? flow indent fuel gap cursor
            some (joined ++ more, cursor, broken)

def plain? (flow : Bool) (indent : Nat) (cursor : Cursor) : Option (List Char × Cursor × Bool) :=
  plainFrom? flow indent (cursor.rest.length + 1) .empty cursor

/-! ### Quoted scalars -/

def escapes : List (Char × Char) :=
  [('0', '\x00'), ('a', '\x07'), ('b', '\x08'), ('t', '\t'), ('\t', '\t'), ('n', '\n'),
    ('v', '\x0b'), ('f', '\x0c'), ('r', '\r'), ('e', '\x1b'), (' ', ' '), ('"', '"'), ('/', '/'),
    ('\\', '\\'), ('N', '\x85'), ('_', '\xa0'), ('L', '\u2028'), ('P', '\u2029')]

/-- The number of hexadecimal digits after an escape. -/
def escapeDigits? (c : Char) : Option Nat :=
  if c = 'x' then some 2 else if c = 'u' then some 4 else if c = 'U' then some 8 else none

def hexValue? (c : Char) : Option Nat :=
  if c.isDigit then some (c.toNat - '0'.toNat)
  else if 'a' ≤ c ∧ c ≤ 'f' then some (c.toNat - 'a'.toNat + 10)
  else if 'A' ≤ c ∧ c ≤ 'F' then some (c.toNat - 'A'.toNat + 10)
  else none

def hexNumber? (digits : List Char) : Option Nat :=
  digits.foldl (fun n c => do some ((← n) * 16 + (← hexValue? c))) (some 0)

/-- The character for the letters after a backslash, and how many letters they are. -/
def escape? : List Char → Option (Char × Nat)
  | [] => none
  | c :: rest =>
      match escapes.find? fun entry => entry.1 == c with
      | some entry => some (entry.2, 1)
      | none => do
          let count ← escapeDigits? c
          let digits := rest.take count
          if digits.length < count then none
          else
            let code ← hexNumber? digits
            if (0xd800 ≤ code ∧ code ≤ 0xdfff) ∨ 0x10ffff < code then none
            else some (Char.ofNat code, count + 1)

/-- How a run of characters of a quoted scalar ends. -/
inductive RunEnd where
  | quote
  | gap
  | escapedBreak

/-- The characters of a quoted scalar up to a blank, a line break or the quote. -/
def quotedRun? (single : Bool) : Nat → Cursor → Option (List Char × Cursor × RunEnd)
  | 0, _ => none
  | fuel + 1, cursor =>
      match cursor.rest with
      | [] => some ([], cursor, .gap)
      | c :: rest =>
          if isBlank c || isBreak c then some ([], cursor, .gap)
          else if single && c == '\'' && rest.head? == some '\'' then do
            let (run, cursor, ending) ← quotedRun? single fuel (cursor.advance 2)
            some ('\'' :: run, cursor, ending)
          else if c = (if single then '\'' else '"') then some ([], cursor, .quote)
          else if !single && c == '\\' then
            if rest.head?.any isBreak then
              some ([], (cursor.advance 1).readBreak.2, .escapedBreak)
            else do
              let (escaped, count) ← escape? rest
              let (run, cursor, ending) ← quotedRun? single fuel (cursor.advance (count + 1))
              some (escaped :: run, cursor, ending)
          else do
            let (run, cursor, ending) ← quotedRun? single fuel (cursor.advance 1)
            some (c :: run, cursor, ending)

/-- A quoted scalar after its opening quote, and the place after the closing one. -/
def quotedFrom? (single : Bool) : Nat → Cursor → Option (List Char × Cursor)
  | 0, _ => none
  | fuel + 1, cursor =>
      if cursor.atAnyDocumentMark || cursor.atEnd then none
      else do
        let (run, cursor, ending) ← quotedRun? single (cursor.rest.length + 1) cursor
        if cursor.isAt (if single then '\'' else '"') then some (run, cursor.advance 1)
        else
          let start :=
            match ending with
            | .escapedBreak => Gap.escaped
            | _ => Gap.empty
          let (gap, cursor) ← start.read? 0 (cursor.rest.length + 1) cursor
          let (more, cursor) ← quotedFrom? single fuel cursor
          some (run ++ gap.text ++ more, cursor)

def quoted? (single : Bool) (cursor : Cursor) : Option (List Char × Cursor) :=
  quotedFrom? single (cursor.rest.length + 2) (cursor.advance 1)

/-! ### Block scalars -/

/-- What becomes of the line breaks at the end of a block scalar. -/
inductive Chomping where
  | strip
  | clip
  | keep
deriving DecidableEq, Repr

def chomping? (c : Char) : Option Chomping :=
  if c = '+' then some .keep else if c = '-' then some .strip else none

/-- The marks after the start of a block scalar: the chomping and the indentation, in any order. -/
def blockHeader? (cursor : Cursor) : Option (Chomping × Option Nat × Cursor) :=
  let digit? (c : Char) : Option Nat := if c.isDigit then some (c.toNat - '0'.toNat) else none
  let first := cursor.rest.head?
  let second := cursor.ahead? 1
  match first.bind chomping?, first.bind digit? with
  | some chomping, _ =>
      match second.bind digit? with
      | some 0 => none
      | some indent => some (chomping, some indent, cursor.advance 2)
      | none => some (chomping, none, cursor.advance 1)
  | none, some 0 => none
  | none, some indent =>
      match second.bind chomping? with
      | some chomping => some (chomping, some indent, cursor.advance 2)
      | none => some (.clip, some indent, cursor.advance 1)
  | none, none => some (.clip, none, cursor)

/-- Empty lines and indentation in front of a line of a block scalar. -/
structure Indentation where
  breaks : List Char
  /-- The greatest column reached. -/
  widest : Nat
  cursor : Cursor

/-- Passes empty lines and indentation up to the column `indent`, or any indentation. -/
def indentation? (indent : Option Nat) : Nat → Indentation → Option Indentation
  | 0, _ => none
  | fuel + 1, state =>
      let spaces := (state.cursor.rest.takeWhile (· == ' ')).length
      let count :=
        match indent with
        | none => spaces
        | some indent => min spaces (indent - state.cursor.column)
      let cursor := state.cursor.advance count
      let widest := max state.widest cursor.column
      if indent.all (cursor.column < ·) && cursor.isAt '\t' then none
      else if cursor.atBreak then
        let (kept, cursor) := cursor.readBreak
        indentation? indent fuel ⟨state.breaks ++ kept, widest, cursor⟩
      else some ⟨state.breaks, widest, cursor⟩

/-- Reads the lines of a block scalar. `pending` is the break of the line before, with whether that
line started with a blank. -/
def blockLines? (literal : Bool) (indent : Nat) : Nat → List Char → Bool → List Char → Cursor →
    Option (List Char × List Char × List Char × Cursor)
  | 0, _, _, _, _ => none
  | fuel + 1, lineBreak, afterBlank, breaks, cursor =>
      if cursor.column ≠ indent ∨ cursor.atEnd then some ([], lineBreak, breaks, cursor)
      else do
        let blank := cursor.atBlank
        let join :=
          if !literal && lineBreak == ['\n'] && !afterBlank && !blank then
            if breaks.isEmpty then [' '] else []
          else lineBreak
        let (line, cursor) := cursor.takeWhile fun c => !isBreak c
        let (lineBreak, cursor) := cursor.readBreak
        let next ← indentation? (some indent) (cursor.rest.length + 1) ⟨[], 0, cursor⟩
        let (text, lineBreak, lastBreaks, cursor) ←
          blockLines? literal indent fuel lineBreak blank next.breaks next.cursor
        some (join ++ breaks ++ line ++ text, lineBreak, lastBreaks, cursor)

/-- A block scalar. Its indentation is stated, relative to the collection around it, or that of its
first line. -/
def block? (literal : Bool) (outer : Int) (cursor : Cursor) : Option (List Char × Cursor) := do
  let (chomping, stated, cursor) ← blockHeader? (cursor.advance 1)
  let cursor ← cursor.finishLine?
  let stated := stated.map fun indent => (max outer 0).toNat + indent
  let first ← indentation? stated (cursor.rest.length + 1) ⟨[], 0, cursor⟩
  let indent := stated.getD (max first.widest (max (outer + 1) 1).toNat)
  let (text, lineBreak, breaks, cursor) ←
    blockLines? literal indent (first.cursor.rest.length + 1) [] false first.breaks first.cursor
  let tail :=
    match chomping with
    | .strip => []
    | .clip => lineBreak
    | .keep => lineBreak ++ breaks
  some (text ++ tail, cursor)

end Scalar

end SpotWire.Yaml
