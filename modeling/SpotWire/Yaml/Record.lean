import SpotWire.Yaml.Document

/-!
Records in YAML documents: mappings whose keys are texts, and the texts and whole numbers that are
their values. An alias counts as the node that it stands for.
-/

namespace SpotWire.Yaml

/-- The entries of a mapping, by the texts of their keys. -/
abbrev Fields := List (String × Node Nat)

namespace Scalar

/-- The number that at least one digit of a base spells. -/
def natural? (base : Nat) (digits : List Char) : Option Nat :=
  if digits.isEmpty then none
  else
    digits.foldlM
      (fun n c => do
        let digit ← hexValue? c
        if digit < base then some (n * base + digit) else none)
      0

/-- A whole number without a sign or with a plus sign: decimal without a zero in front, or in the
base that `0x`, `0o` or `0b` tells. -/
def unsigned? (text : List Char) : Option Nat :=
  let text := if text.head? = some '+' then text.drop 1 else text
  match text with
  | '0' :: 'x' :: digits => natural? 16 digits
  | '0' :: 'o' :: digits => natural? 8 digits
  | '0' :: 'b' :: digits => natural? 2 digits
  | '0' :: _ :: _ => none
  | digits => natural? 10 digits

def integerTag : List Char := "tag:yaml.org,2002:int".toList

/-- Whether a scalar may be a number: a plain one, or a literal one that is marked as a whole
number. -/
def mayBeNumber (properties : Properties Nat) : Style → Bool
  | .plain => true
  | .literal => properties.tag == some integerTag
  | _ => false

end Scalar

namespace Document

def text? (document : Document) (node : Node Nat) : Option String :=
  match document.resolve? node with
  | some (.scalar _ _ text) => some (String.ofList text)
  | _ => none

def word? (document : Document) (node : Node Nat) : Option UInt32 :=
  match document.resolve? node with
  | some (.scalar properties style text) => do
      let n ← if Scalar.mayBeNumber properties style then Scalar.unsigned? text else none
      if n < UInt32.size then some (UInt32.ofNat n) else none
  | _ => none

/-- The fields of a record. A scalar that is not written is a record without fields. -/
def fields? (document : Document) (node : Node Nat) : Option Fields :=
  match document.resolve? node with
  | some (.mapping _ entries) =>
      entries.mapM fun entry => do some (← document.text? entry.1, entry.2)
  | some (.scalar _ .plain []) => some []
  | _ => none

end Document

namespace Fields

/-- The content of a field, read with `read?`; nothing if the field is missing. A field that is
there twice or cannot be read makes the record unreadable. -/
def read? {α : Type} (fields : Fields) (name : String) (read? : Node Nat → Option α) :
    Option (Option α) :=
  match fields.filter fun field => field.1 == name with
  | [] => some none
  | [field] => (read? field.2).map some
  | _ => none

end Fields

end SpotWire.Yaml
