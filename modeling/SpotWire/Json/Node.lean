import SpotWire.Json.Fault
import SpotWire.Json.Value

/-!
A JSON document as it stands in its text, up to the first place where its grammar is broken.

Members keep their order and their repetitions. A document may be used in two ways, and what is
wrong with it depends on the way: a part that is *read* has to make sense throughout, while a part
that is *passed over* only has to follow the grammar. Each breach of the grammar therefore carries
two faults. Strings and numbers that follow the grammar and have no value (a lone surrogate, a
number beyond the largest one) carry the fault of reading them.
-/

namespace SpotWire.Json

/-- What a value is told to be when something else was wanted. -/
inductive Found where
  | null
  | bool (value : Bool)
  | number (value : Number)
  | string (value : String)
  | array
  | object
deriving DecidableEq, Repr

/-- A breach of the grammar: the fault when the part is read and when it is passed over. -/
structure Breach where
  read : Fault
  passed : Fault
deriving DecidableEq, Repr

/-- A breach that is the same in both ways. -/
def Breach.plain (fault : Fault) : Breach :=
  ⟨fault, fault⟩

/-- What a broken value starts like. -/
inductive Opening where
  /-- There is no value at all. -/
  | nothing
  /-- The first letter of `null`. -/
  | nullWord
  | string
  | other
deriving DecidableEq, Repr

inductive Ending where
  | closed
  | broken (breach : Breach)
  /-- Something that is not a string stands where a key should. -/
  | strayKey (key : Except Fault Found)

inductive Node where
  | null
  | bool (value : Bool)
  | number (value : Except Fault Number)
  | string (value : Except Fault String)
  | array (items : List Node) (ending : Ending)
  | object (members : List (Except Fault String × Node)) (ending : Ending)
  | broken (opening : Opening) (breach : Breach)

/-- A whole text: its value, and whether more follows it. -/
structure Document where
  root : Node
  trailing : Bool

namespace Ending

def readFault? : Ending → Option Fault
  | .closed => none
  | .broken breach => some breach.read
  | .strayKey _ => some .keyNotString

def passedFault? : Ending → Option Fault
  | .closed => none
  | .broken breach => some breach.passed
  | .strayKey _ => some .keyNotString

end Ending

namespace Node

mutual

/-- The first fault met when the node is passed over. -/
def passedFault? : Node → Option Fault
  | .array items ending => itemsPassedFault? items ending
  | .object members ending => membersPassedFault? members ending
  | .broken _ breach => some breach.passed
  | _ => none
termination_by structural node => node

def itemsPassedFault? : List Node → Ending → Option Fault
  | [], ending => ending.passedFault?
  | item :: rest, ending => item.passedFault? <|> itemsPassedFault? rest ending
termination_by structural items => items

def membersPassedFault? : List (Except Fault String × Node) → Ending → Option Fault
  | [], ending => ending.passedFault?
  | (_, value) :: rest, ending => value.passedFault? <|> membersPassedFault? rest ending
termination_by structural members => members

end

mutual

/-- How deep arrays and objects stand in each other. -/
def levels : Node → Nat
  | .array items _ => itemLevels items + 1
  | .object members _ => memberLevels members + 1
  | _ => 0
termination_by structural node => node

def itemLevels : List Node → Nat
  | [] => 0
  | item :: rest => max item.levels (itemLevels rest)
termination_by structural items => items

def memberLevels : List (Except Fault String × Node) → Nat
  | [] => 0
  | (_, value) :: rest => max value.levels (memberLevels rest)
termination_by structural members => members

end

mutual

/-- The value that a node holds, for a number of further levels of arrays and objects. -/
def value (depth : Nat) : Node → Except Fault Value
  | .null => .ok .null
  | .bool value => .ok (.bool value)
  | .number value => value.map .number
  | .string value => value.map .string
  | .array items ending =>
      if depth ≤ 1 then .error .tooDeep
      else (itemValues (depth - 1) items ending).map .array
  | .object members ending =>
      if depth ≤ 1 then .error .tooDeep
      else (memberValues (depth - 1) members ending).map fun members =>
        .object (Members.ofList members)
  | .broken _ breach => .error breach.read
termination_by structural node => node

def itemValues (depth : Nat) : List Node → Ending → Except Fault (List Value)
  | [], ending =>
      match ending.readFault? with
      | none => .ok []
      | some fault => .error fault
  | item :: rest, ending => do
      let item ← item.value depth
      let rest ← itemValues depth rest ending
      .ok (item :: rest)
termination_by structural items => items

def memberValues (depth : Nat) :
    List (Except Fault String × Node) → Ending → Except Fault (List (String × Value))
  | [], ending =>
      match ending.readFault? with
      | none => .ok []
      | some fault => .error fault
  | (key, value) :: rest, ending => do
      let key ← key
      let value ← value.value depth
      let rest ← memberValues depth rest ending
      .ok ((key, value) :: rest)
termination_by structural members => members

end

mutual

def ofValue : Value → Node
  | .null => .null
  | .bool value => .bool value
  | .number value => .number (.ok value)
  | .string value => .string (.ok value)
  | .array items => .array (ofItems items) .closed
  | .object members => .object (ofMembers members) .closed
termination_by structural value => value

def ofItems : List Value → List Node
  | [] => []
  | item :: rest => ofValue item :: ofItems rest
termination_by structural items => items

def ofMembers : List (String × Value) → List (Except Fault String × Node)
  | [] => []
  | (key, value) :: rest => (.ok key, ofValue value) :: ofMembers rest
termination_by structural members => members

end

end Node

end SpotWire.Json
