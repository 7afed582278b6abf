import SpotWire.Wire.Decoder

/-!
Reading records: objects whose keys are known fields, or arrays of the fields in their order.

A record is filled field by field. A `Draft` holds what has been read; `set` reads the content of
a key into it, and gives nothing for a key that is no field.
-/

namespace SpotWire.Wire

open Json

/-- Fills a field that is still empty. -/
def fill {α : Type} (name : String) (held : Option α) (decode : Decoder α) (reading : Reading)
    (content : Node) : Except Problem (Option α) :=
  match held with
  | some _ => fail (.duplicateField name)
  | none => (decode reading content).map some

def require {α : Type} (name : String) : Option α → Except Problem α
  | some a => .ok a
  | none => fail (.missingField name)

/-- Reads the members of an object into a draft. Content of unknown keys is passed over. -/
def fillMembers {δ : Type} (set : String → Option (δ → Node → Except Problem δ)) (draft : δ) :
    List (Except Fault String × Node) → Ending → Except Problem δ
  | [], ending =>
      match ending.readFault? with
      | none => .ok draft
      | some fault => .error (.broken fault)
  | (key, content) :: rest, ending => do
      let key ← orBroken key
      match set key with
      | some read =>
          let draft ← read draft content
          fillMembers set draft rest ending
      | none =>
          ignore content
          fillMembers set draft rest ending

/-- "1 element", "2 elements" and so on. -/
def elementCount (count : Nat) : String :=
  if count = 1 then "1 element" else String.ofList (Nat.toDigits 10 count) ++ " elements"

/-- A place in an array of fields. A field with a default may be left out at the array's end. -/
structure Place (δ : Type) where
  read : δ → Node → Except Problem δ
  optional : Bool

/-- Reads the items of an array into a draft, one for each place, and gives the items left. -/
def fillPlaces {δ : Type} (expected : String) (index : Nat) (draft : δ) :
    List (Place δ) → List Node → Ending → Except Problem (δ × List Node)
  | [], items, _ => .ok (draft, items)
  | place :: places, item :: items, ending => do
      let draft ← place.read draft item
      fillPlaces expected (index + 1) draft places items ending
  | place :: places, [], ending =>
      match ending.readFault? with
      | some fault => .error (.broken fault)
      | none =>
          if place.optional then fillPlaces expected (index + 1) draft places [] ending
          else fail (.length index expected)

/-- What has to follow the last field in an array of a document. -/
def arrayEnd : List Node → Ending → Except Problem Unit
  | [], .closed => .ok ()
  | [], .broken ⟨.trailingComma, _⟩ => .error (.broken .trailingComma)
  | [], .broken ⟨.endInArray, _⟩ => .error (.broken .endInArray)
  | _, _ => .error (.broken .trailingCharacters)

/-- A record of a type `δ` of drafts: its name, its fields by key and by place. -/
structure Shape (δ : Type) where
  name : String
  set : Reading → String → Option (δ → Node → Except Problem δ)
  places : Reading → List (Place δ)

namespace Shape

variable {δ : Type}

def expected (shape : Shape δ) : String :=
  "struct " ++ shape.name

def decode (shape : Shape δ) (empty : δ) : Decoder δ := fun reading node =>
  match node with
  | .object members ending => do
      let reading ← reading.enter
      fillMembers (shape.set reading) empty members ending
  | .array nodes ending => do
      let inner ← reading.enter
      let places := shape.places inner
      let (draft, left) ←
        fillPlaces (shape.expected ++ " with " ++ elementCount places.length) 0 empty places nodes
          ending
      if reading.isHeld then
        if left.isEmpty then .ok draft
        else fail (.length nodes.length "fewer elements in array")
      else
        arrayEnd left ending
        .ok draft
  | node => unexpected node shape.expected

end Shape

end SpotWire.Wire
