import SpotWire.Json.Numeral
import SpotWire.Text.Octets

/-!
From the text of a document to its nodes. Every function returns what is left of the text, or
nothing once the grammar is broken.
-/

namespace SpotWire.Json

namespace Reader

def isBlank (c : Char) : Bool :=
  c == ' ' || c == '\n' || c == '\t' || c == '\r'

def skipBlank (text : List Char) : List Char :=
  text.dropWhile isBlank

/-! ### Strings -/

/-- A part of a string between its quotes: a character, written as it is or with a short escape,
or a unit of 16 bits written in hexadecimal. -/
inductive Piece where
  | char (c : Char)
  | unit (code : Nat)
deriving DecidableEq, Repr

inductive Stop where
  | closed
  | endOfText
  | control
  | badEscape
  | badHex
deriving DecidableEq, Repr

def Stop.passedFault? : Stop → Option Fault
  | .closed => none
  | .endOfText => some .endInString
  | .control => some .controlCharacter
  | .badEscape | .badHex => some .badEscape

def hexDigit? (c : Char) : Option Nat :=
  if c.isDigit then some (c.toNat - '0'.toNat)
  else if 'a' ≤ c ∧ c ≤ 'f' then some (c.toNat - 'a'.toNat + 10)
  else if 'A' ≤ c ∧ c ≤ 'F' then some (c.toNat - 'A'.toNat + 10)
  else none

def hexUnit? (a b c d : Char) : Option Nat := do
  some ((((← hexDigit? a) * 16 + (← hexDigit? b)) * 16 + (← hexDigit? c)) * 16 + (← hexDigit? d))

def shortEscape? : Char → Option Char
  | '"' => some '"'
  | '\\' => some '\\'
  | '/' => some '/'
  | 'b' => some '\x08'
  | 'f' => some '\x0c'
  | 'n' => some '\n'
  | 'r' => some '\r'
  | 't' => some '\t'
  | _ => none

/-- The parts of a string whose opening quote has been read, and what is left after its closing
quote. -/
def pieces : List Char → List Piece × Stop × List Char
  | [] => ([], .endOfText, [])
  | c :: rest =>
      if c = '"' then ([], .closed, rest)
      else if c = '\\' then
        match rest with
        | [] => ([], .endOfText, [])
        | mark :: after =>
            if mark = 'u' then
              match after with
              | h₁ :: h₂ :: h₃ :: h₄ :: rest =>
                  match hexUnit? h₁ h₂ h₃ h₄ with
                  | some code =>
                      let (found, stop, left) := pieces rest
                      (.unit code :: found, stop, left)
                  | none => ([], .badHex, [])
              | short =>
                  ([], if 4 ≤ Text.octetCount short then .badHex else .endOfText, [])
            else
              match shortEscape? mark with
              | some c =>
                  let (found, stop, left) := pieces after
                  (.char c :: found, stop, left)
              | none => ([], .badEscape, [])
      else if c.toNat < 0x20 then ([], .control, [])
      else
        let (found, stop, left) := pieces rest
        (.char c :: found, stop, left)

def isHighSurrogate (code : Nat) : Bool :=
  0xd800 ≤ code && code ≤ 0xdbff

def isLowSurrogate (code : Nat) : Bool :=
  0xdc00 ≤ code && code ≤ 0xdfff

/-- The fault of a high surrogate with no further unit before the string's end. -/
def Stop.afterHighSurrogate : Stop → Fault
  | .endOfText => .endInString
  | .badHex => .badEscape
  | .closed | .control | .badEscape => .endOfHexEscape

/-- The text that parts spell. A surrogate stands for half of a character and has to be paired. -/
def spell (stop : Stop) : List Piece → Except Fault (List Char)
  | [] =>
      match stop.passedFault? with
      | none => .ok []
      | some fault => .error fault
  | .char c :: rest => (spell stop rest).map (c :: ·)
  | .unit code :: rest =>
      if isLowSurrogate code then .error .loneSurrogate
      else if isHighSurrogate code then
        match rest with
        | [] => .error stop.afterHighSurrogate
        | .char _ :: _ => .error .endOfHexEscape
        | .unit low :: rest =>
            if isLowSurrogate low then
              let point := 0x10000 + (code - 0xd800) * 0x400 + (low - 0xdc00)
              (spell stop rest).map (Char.ofNat point :: ·)
            else .error .loneSurrogate
      else (spell stop rest).map (Char.ofNat code :: ·)

/-- A string whose opening quote has been read. -/
def string (text : List Char) : Except Fault String × Except Breach (List Char) :=
  let (found, stop, left) := pieces text
  let value := (spell stop found).map String.ofList
  match stop.passedFault?, value with
  | none, value => (value, .ok left)
  | some passed, .error read => (.error read, .error ⟨read, passed⟩)
  | some passed, .ok _ => (.error passed, .error (.plain passed))

/-! ### Numerals -/

def exponentDigits (numeral : Numeral) (lowered : Bool) (text : List Char) :
    Except Breach (Numeral × List Char) :=
  match text with
  | [] => .error ⟨.endInValue, .badNumber⟩
  | c :: _ =>
      if c.isDigit then
        .ok ({ numeral with exponent := some (lowered, text.takeWhile Char.isDigit) },
          text.dropWhile Char.isDigit)
      else .error (.plain .badNumber)

def exponent (numeral : Numeral) (text : List Char) : Except Breach (Numeral × List Char) :=
  match text with
  | c :: rest =>
      if c = 'e' ∨ c = 'E' then
        match rest with
        | '-' :: digits => exponentDigits numeral true digits
        | '+' :: digits => exponentDigits numeral false digits
        | digits => exponentDigits numeral false digits
      else .ok (numeral, text)
  | [] => .ok (numeral, [])

def fraction (numeral : Numeral) (text : List Char) : Except Breach (Numeral × List Char) :=
  match text with
  | '.' :: rest =>
      match rest with
      | [] => .error ⟨.endInValue, .badNumber⟩
      | c :: _ =>
          if c.isDigit then
            exponent { numeral with fraction := some (rest.takeWhile Char.isDigit) }
              (rest.dropWhile Char.isDigit)
          else .error (.plain .badNumber)
  | _ => exponent numeral text

/-- A numeral whose sign has been read. -/
def numeral (negative : Bool) (text : List Char) : Except Breach (Numeral × List Char) :=
  match text with
  | [] => .error ⟨.endInValue, .badNumber⟩
  | '0' :: rest =>
      match rest with
      | c :: _ =>
          if c.isDigit then .error (.plain .badNumber)
          else fraction ⟨negative, ['0'], none, none⟩ rest
      | [] => .ok (⟨negative, ['0'], none, none⟩, [])
  | c :: _ =>
      if c.isDigit then
        fraction ⟨negative, text.takeWhile Char.isDigit, none, none⟩ (text.dropWhile Char.isDigit)
      else .error (.plain .badNumber)

def number (negative : Bool) (text : List Char) : Node × Option (List Char) :=
  match numeral negative text with
  | .ok (found, left) => (.number found.number, some left)
  | .error breach => (.broken .other breach, none)

/-! ### Words -/

/-- The rest of a word whose first letter has been read. -/
def word (node : Node) (opening : Opening) : List Char → List Char → Node × Option (List Char)
  | [], text => (node, some text)
  | _ :: _, [] => (.broken opening (.plain .endInValue), none)
  | expected :: word', c :: text =>
      if c = expected then word node opening word' text
      else (.broken opening (.plain .expectedWord), none)

/-! ### Values -/

/-- What stands in place of a key. -/
def strayKey (text : List Char) : Except Fault Found :=
  let ofNumber (negative : Bool) (text : List Char) : Except Fault Found :=
    match numeral negative text with
    | .ok (found, _) => found.number.map .number
    | .error breach => .error breach.read
  let ofWord (found : Found) (letters text : List Char) : Except Fault Found :=
    match word .null .other letters text with
    | (.broken _ breach, _) => .error breach.read
    | _ => .ok found
  match text with
  | '[' :: _ => .ok .array
  | '{' :: _ => .ok .object
  | 'n' :: rest => ofWord .null "ull".toList rest
  | 't' :: rest => ofWord (.bool true) "rue".toList rest
  | 'f' :: rest => ofWord (.bool false) "alse".toList rest
  | '-' :: rest => ofNumber true rest
  | c :: _ => if c.isDigit then ofNumber false text else .error .expectedValue
  | [] => .error .endInValue

mutual

/-- The value at the start of a text. `fuel` bounds the number of steps. -/
def node : Nat → List Char → Node × Option (List Char)
  | 0, _ => (.broken .nothing (.plain .endInValue), none)
  | fuel + 1, text =>
      match skipBlank text with
      | [] => (.broken .nothing (.plain .endInValue), none)
      | c :: rest =>
          if c = 'n' then word .null .nullWord "ull".toList rest
          else if c = 't' then word (.bool true) .other "rue".toList rest
          else if c = 'f' then word (.bool false) .other "alse".toList rest
          else if c = '"' then
            match string rest with
            | (value, .ok left) => (.string value, some left)
            | (_, .error breach) => (.broken .string breach, none)
          else if c = '[' then
            let (items, ending, left) := firstItem fuel rest
            (.array items ending, left)
          else if c = '{' then
            let (members, ending, left) := firstMember fuel rest
            (.object members ending, left)
          else if c = '-' then number true rest
          else if c.isDigit then number false (c :: rest)
          else (.broken .other (.plain .expectedValue), none)

def firstItem : Nat → List Char → List Node × Ending × Option (List Char)
  | 0, _ => ([], .broken (.plain .endInArray), none)
  | fuel + 1, text =>
      match skipBlank text with
      | [] => ([], .broken (.plain .endInArray), none)
      | c :: rest => if c = ']' then ([], .closed, some rest) else item fuel (c :: rest)

def item : Nat → List Char → List Node × Ending × Option (List Char)
  | 0, _ => ([], .broken (.plain .endInArray), none)
  | fuel + 1, text =>
      match node fuel text with
      | (value, none) => ([value], .broken (.plain .endInArray), none)
      | (value, some left) =>
          let (items, ending, left) := furtherItem fuel left
          (value :: items, ending, left)

def furtherItem : Nat → List Char → List Node × Ending × Option (List Char)
  | 0, _ => ([], .broken (.plain .endInArray), none)
  | fuel + 1, text =>
      match skipBlank text with
      | [] => ([], .broken (.plain .endInArray), none)
      | c :: rest =>
          if c = ']' then ([], .closed, some rest)
          else if c = ',' then
            match skipBlank rest with
            | [] => ([], .broken (.plain .endInValue), none)
            | c :: rest =>
                if c = ']' then ([], .broken ⟨.trailingComma, .expectedValue⟩, none)
                else item fuel (c :: rest)
          else ([], .broken (.plain .expectedCommaOrBracket), none)

def firstMember : Nat → List Char →
    List (Except Fault String × Node) × Ending × Option (List Char)
  | 0, _ => ([], .broken (.plain .endInObject), none)
  | fuel + 1, text =>
      match skipBlank text with
      | [] => ([], .broken (.plain .endInObject), none)
      | c :: rest =>
          if c = '}' then ([], .closed, some rest)
          else if c = '"' then member fuel rest
          else ([], .strayKey (strayKey (c :: rest)), none)

/-- A member whose key's opening quote has been read. -/
def member : Nat → List Char → List (Except Fault String × Node) × Ending × Option (List Char)
  | 0, _ => ([], .broken (.plain .endInObject), none)
  | fuel + 1, text =>
      match string text with
      | (_, .error breach) => ([], .broken breach, none)
      | (key, .ok left) =>
          match skipBlank left with
          | [] => ([(key, .broken .nothing (.plain .endInObject))], .closed, none)
          | c :: rest =>
              if c = ':' then
                match node fuel rest with
                | (value, none) => ([(key, value)], .broken (.plain .endInObject), none)
                | (value, some left) =>
                    let (members, ending, left) := furtherMember fuel left
                    ((key, value) :: members, ending, left)
              else ([(key, .broken .nothing (.plain .expectedColon))], .closed, none)

def furtherMember : Nat → List Char →
    List (Except Fault String × Node) × Ending × Option (List Char)
  | 0, _ => ([], .broken (.plain .endInObject), none)
  | fuel + 1, text =>
      match skipBlank text with
      | [] => ([], .broken (.plain .endInObject), none)
      | c :: rest =>
          if c = '}' then ([], .closed, some rest)
          else if c = ',' then
            match skipBlank rest with
            | [] => ([], .broken ⟨.endInValue, .endInObject⟩, none)
            | c :: rest =>
                if c = '"' then member fuel rest
                else if c = '}' then ([], .broken ⟨.trailingComma, .keyNotString⟩, none)
                else ([], .broken (.plain .keyNotString), none)
          else ([], .broken (.plain .expectedCommaOrBrace), none)

end

end Reader

def Document.ofChars (text : List Char) : Document :=
  let (root, left) := Reader.node (3 * text.length + 3) text
  ⟨root, !(Reader.skipBlank (left.getD [])).isEmpty⟩

end SpotWire.Json
