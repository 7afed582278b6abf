import SpotWire.Yaml.Token

/-!
The nodes of a YAML document. Anchors and aliases are known by names of some type.
-/

namespace SpotWire.Yaml

structure Properties (ν : Type) where
  anchor : Option ν
  tag : Option (List Char)
deriving DecidableEq, Repr

inductive Node (ν : Type) where
  | alias (name : ν)
  | scalar (properties : Properties ν) (style : Style) (text : List Char)
  | sequence (properties : Properties ν) (items : List (Node ν))
  | mapping (properties : Properties ν) (entries : List (Node ν × Node ν))
deriving Repr

namespace Properties

variable {ν : Type}

def none : Properties ν := ⟨.none, .none⟩

def areNone (properties : Properties ν) : Bool :=
  properties.anchor.isNone && properties.tag.isNone

end Properties

namespace Node

variable {ν : Type}

/-- The scalar of a node that is not written. -/
def empty (properties : Properties ν) : Node ν :=
  .scalar properties .plain []

def anchor? : Node ν → Option ν
  | .alias _ => none
  | .scalar properties _ _ => properties.anchor
  | .sequence properties _ => properties.anchor
  | .mapping properties _ => properties.anchor

mutual

/-- A node and all nodes in it, in the order of the text. -/
def nodes (node : Node ν) : List (Node ν) :=
  match node with
  | .sequence properties items => .sequence properties items :: itemNodes items
  | .mapping properties entries => .mapping properties entries :: entryNodes entries
  | node => [node]
termination_by structural node

def itemNodes (items : List (Node ν)) : List (Node ν) :=
  match items with
  | [] => []
  | item :: rest => item.nodes ++ itemNodes rest
termination_by structural items

def entryNodes (entries : List (Node ν × Node ν)) : List (Node ν) :=
  match entries with
  | [] => []
  | (key, value) :: rest => key.nodes ++ value.nodes ++ entryNodes rest
termination_by structural entries

end

end Node

end SpotWire.Yaml
