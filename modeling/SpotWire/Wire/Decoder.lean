import SpotWire.Json.Reader
import SpotWire.Wire.Problem

/-!
Reading typed data from the nodes of a document. The problem reported is the first one in the
order of the document; what comes after it plays no part.
-/

namespace SpotWire.Wire

open Json

structure Reading where
  /-- How many further levels of arrays and objects may be entered; no bound for a value that is
  already held. -/
  depth : Option Nat
deriving DecidableEq, Repr

namespace Reading

/-- The levels that a document may have: the last one may not be entered. -/
def documentDepth : Nat := 128

def ofDocument : Reading := ⟨some documentDepth⟩

/-- Reading from a value that is held, not from a text. -/
def ofHeld : Reading := ⟨none⟩

def isHeld (reading : Reading) : Bool :=
  reading.depth.isNone

def enter (reading : Reading) : Except Problem Reading :=
  match reading.depth with
  | none => .ok reading
  | some depth => if depth ≤ 1 then .error (.broken .tooDeep) else .ok ⟨some (depth - 1)⟩

end Reading

abbrev Decoder (α : Type) := Reading → Node → Except Problem α

def fail {α : Type} (what : Mismatch) : Except Problem α :=
  .error (.mismatch what)

def orBroken {α : Type} : Except Fault α → Except Problem α
  | .ok a => .ok a
  | .error fault => .error (.broken fault)

/-- What a node is, where something else was wanted. -/
def found : Node → Except Fault Found
  | .null => .ok .null
  | .bool value => .ok (.bool value)
  | .number value => value.map .number
  | .string value => value.map .string
  | .array _ _ => .ok .array
  | .object _ _ => .ok .object
  | .broken _ breach => .error breach.read

/-- The problem of a node that is not what was wanted. -/
def unexpected {α : Type} (node : Node) (expected : String) : Except Problem α := do
  fail (.type (← orBroken (found node)) expected)

def ofDocument {α : Type} (decode : Decoder α) (document : Document) : Except Problem α := do
  let a ← decode .ofDocument document.root
  if document.trailing then .error (.broken .trailingCharacters) else .ok a

def ofText {α : Type} (decode : Decoder α) (text : String) : Except Problem α :=
  ofDocument decode (Document.ofChars text.toList)

def ofHeld {α : Type} (decode : Decoder α) (value : Value) : Except Problem α :=
  decode .ofHeld (Node.ofValue value)

/-! ### Simple data -/

def value : Decoder Value := fun reading node =>
  orBroken (node.value (reading.depth.getD (node.levels + 1)))

def string : Decoder String := fun _ node =>
  match node with
  | .string value => orBroken value
  | node => unexpected node "a string"

def integer (low high : Int) (expected : String) : Decoder Int := fun _ node =>
  match node with
  | .number (.ok (.integer n)) =>
      if low ≤ n ∧ n ≤ high then .ok n
      else fail (.value (.number (.integer n)) expected)
  | node => unexpected node expected

def word : Decoder UInt32 := fun reading node =>
  (integer 0 Numeric.word32Max "u32" reading node).map fun n => n.toNat.toUInt32

def int64 : Decoder Int :=
  integer Numeric.int64Min Numeric.int64Max "i64"

def optional {α : Type} (decode : Decoder α) : Decoder (Option α) := fun reading node =>
  match node with
  | .null => .ok none
  | .broken .nullWord breach => .error (.broken breach.read)
  | node => (decode reading node).map some

def ignore (node : Node) : Except Problem Unit :=
  match node.passedFault? with
  | none => .ok ()
  | some fault => .error (.broken fault)

/-! ### Named variants -/

class Named (α : Type) where
  all : List α
  name : α → String

namespace Named

variable {α : Type} [Named α]

def names (α : Type) [Named α] : List String :=
  (all : List α).map name

def ofName? (text : String) : Option α :=
  (all : List α).find? fun a => name a == text

def ofName (text : String) : Except Problem α :=
  match ofName? text with
  | some a => .ok a
  | none => fail (.unknownVariant text (names α))

end Named

def identifierText : String := "variant identifier"

def variantKey : List (Except Fault String × Node) → Ending →
    Except Problem (String × Option Node)
  | (key, content) :: _, _ => do .ok (← orBroken key, some content)
  | [], .closed => .error (.broken .expectedValue)
  | [], .strayKey key => do fail (.type (← orBroken key) identifierText)
  | [], .broken breach =>
      .error (.broken (if breach.read = .endInObject then .endInValue else breach.read))

def variantEnd (further : List (Except Fault String × Node)) (ending : Ending) :
    Except Problem Unit :=
  match further, ending with
  | [], .closed => .ok ()
  | [], .broken ⟨.endInObject, _⟩ => .error (.broken .endInObject)
  | _, _ => .error (.broken .expectedValue)

/-- A variant without content, in a text: its name, or an object with its name as the one key and
`null` as the value. -/
def writtenVariant {α : Type} [Named α] (reading : Reading) :
    Node → Except Problem α
  | .string name => do Named.ofName (← orBroken name)
  | .object members ending => do
      let _ ← reading.enter
      let (name, content) ← variantKey members ending
      let a ← Named.ofName name
      match content with
      | none => .ok a
      | some .null => do
          variantEnd members.tail ending
          .ok a
      | some content => unexpected content "unit"
  | .broken .nothing breach => .error (.broken breach.read)
  | .broken .string breach => .error (.broken breach.read)
  | _ => .error (.broken .expectedValue)

/-- A variant without content, in a value that is held. -/
def heldVariant {α : Type} [Named α] : Node → Except Problem α
  | .string name => do Named.ofName (← orBroken name)
  | .object [(name, content)] _ => do
      let a ← Named.ofName (← orBroken name)
      match content with
      | .null => .ok a
      | content => unexpected content "unit"
  | .object _ _ => fail (.value .object "map with a single key")
  | node => unexpected node "string or map"

def variant {α : Type} [Named α] : Decoder α := fun reading node =>
  if reading.isHeld then heldVariant node else writtenVariant reading node

/-! ### Objects with free keys -/

/-- The entries of an object, in the order of the document. -/
def entries {α : Type} (decode : Decoder α) (reading : Reading) :
    List (Except Fault String × Node) → Ending → Except Problem (List (String × α))
  | [], ending =>
      match ending.readFault? with
      | none => .ok []
      | some fault => .error (.broken fault)
  | (key, content) :: rest, ending => do
      let key ← orBroken key
      let content ← decode reading content
      let rest ← entries decode reading rest ending
      .ok ((key, content) :: rest)

def map {α : Type} (decode : Decoder α) : Decoder (List (String × α)) := fun reading node =>
  match node with
  | .object members ending => do
      let reading ← reading.enter
      entries decode reading members ending
  | node => unexpected node "a map"

/-! ### Lists -/

def items {α : Type} (decode : Decoder α) (reading : Reading) :
    List Node → Ending → Except Problem (List α)
  | [], ending =>
      match ending.readFault? with
      | none => .ok []
      | some fault => .error (.broken fault)
  | item :: rest, ending => do
      let item ← decode reading item
      let rest ← items decode reading rest ending
      .ok (item :: rest)

def list {α : Type} (decode : Decoder α) : Decoder (List α) := fun reading node =>
  match node with
  | .array nodes ending => do
      let reading ← reading.enter
      items decode reading nodes ending
  | node => unexpected node "a sequence"

end SpotWire.Wire
