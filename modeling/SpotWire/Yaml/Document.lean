import SpotWire.Yaml.Node.Reader
import SpotWire.Yaml.Token.Reader

/-!
YAML texts of one document, and what their aliases stand for.
-/

namespace SpotWire.Yaml

/-- The numbers of the names that anchors have given so far. A new anchor has the count of the
names before it as its number; a name that is given again gets a number that way as well, which the
next new name then shares with it. -/
abbrev Numbers := List (Name × Nat)

namespace Numbers

def find? (numbers : Numbers) (name : Name) : Option Nat :=
  (List.find? (fun entry => entry.1 == name) numbers).map Prod.snd

def give (numbers : Numbers) (name : Name) : Numbers :=
  (name, numbers.length) :: List.filter (fun entry => entry.1 != name) numbers

/-- Gives the name of an anchor, if there is one, and replaces it by its number. -/
def enter (numbers : Numbers) (properties : Properties Name) : Properties Nat × Numbers :=
  match properties.anchor with
  | none => (⟨none, properties.tag⟩, numbers)
  | some name => (⟨some numbers.length, properties.tag⟩, numbers.give name)

end Numbers

namespace Node

mutual

/-- Replaces names by numbers, in the order of the text; `none` when an alias has no anchor before
it. -/
def numbered? (numbers : Numbers) (node : Node Name) : Option (Node Nat × Numbers) :=
  match node with
  | .alias name => do some (.alias (← numbers.find? name), numbers)
  | .scalar properties style text =>
      let (properties, numbers) := numbers.enter properties
      some (.scalar properties style text, numbers)
  | .sequence properties items => do
      let (properties, numbers) := numbers.enter properties
      let (items, numbers) ← itemsNumbered? numbers items
      some (.sequence properties items, numbers)
  | .mapping properties entries => do
      let (properties, numbers) := numbers.enter properties
      let (entries, numbers) ← entriesNumbered? numbers entries
      some (.mapping properties entries, numbers)
termination_by structural node

def itemsNumbered? (numbers : Numbers) (items : List (Node Name)) :
    Option (List (Node Nat) × Numbers) :=
  match items with
  | [] => some ([], numbers)
  | item :: rest => do
      let (item, numbers) ← item.numbered? numbers
      let (rest, numbers) ← itemsNumbered? numbers rest
      some (item :: rest, numbers)
termination_by structural items

def entriesNumbered? (numbers : Numbers) (entries : List (Node Name × Node Name)) :
    Option (List (Node Nat × Node Nat) × Numbers) :=
  match entries with
  | [] => some ([], numbers)
  | (key, value) :: rest => do
      let (key, numbers) ← key.numbered? numbers
      let (value, numbers) ← value.numbered? numbers
      let (rest, numbers) ← entriesNumbered? numbers rest
      some ((key, value) :: rest, numbers)
termination_by structural entries

end

end Node

/-- The one document of a text: its node, if there is one. -/
structure Document where
  root : Option (Node Nat)

namespace Document

/-- The node that a number stands for: the last one with that number. An alias stands for it. -/
def target? (document : Document) (number : Nat) : Option (Node Nat) := do
  let root ← document.root
  root.nodes.reverse.find? fun node => node.anchor? == some number

/-- A node itself, or what it is an alias for. -/
def resolve? (document : Document) : Node Nat → Option (Node Nat)
  | .alias number => document.target? number
  | node => some node

/-- Directives in front of a document: at most one version, and one tag handle for each name. -/
def directives? (version : Bool) (handles : TagHandles) :
    List Token → Option (TagHandles × List Token)
  | .version major minor :: rest =>
      if version ∨ major ≠ 1 ∨ (minor ≠ 1 ∧ minor ≠ 2) then none
      else directives? true handles rest
  | .tagDirective handle start :: rest =>
      if handles.any fun entry => entry.1 == handle then none
      else directives? version (handles ++ [(handle, start)]) rest
  | tokens => some (handles ++ TagHandles.standard, tokens)

/-- Whether a token cannot begin the content of a document that is marked. -/
def endsContent : Token → Bool
  | .version _ _ | .tagDirective _ _ | .documentStart | .documentEnd | .streamEnd => true
  | _ => false

/-- The content of the first document, and the tokens after it. -/
def content? (tokens : List Token) : Option (Node Name × List Token) :=
  let fuel := Node.fuelFor tokens
  match tokens with
  | .version _ _ :: _ | .tagDirective _ _ :: _ | .documentStart :: _ => do
      let (handles, tokens) ← directives? false [] tokens
      match tokens with
      | .documentStart :: rest => Node.readUnless? handles fuel Node.inBlock endsContent rest
      | _ => none
  | _ => Node.read? TagHandles.standard fuel Node.inBlock tokens

/-- Whether nothing but marks of ends is left. -/
def isFinished (tokens : List Token) : Bool :=
  tokens.dropWhile (· == .documentEnd) == [.streamEnd]

def ofTokens? (tokens : List Token) : Option Document :=
  if tokens = [.streamEnd] then some ⟨none⟩
  else do
    let (root, rest) ← content? tokens
    let (root, _) ← root.numbered? []
    if isFinished rest then some ⟨some root⟩ else none

def isAllowed (c : Char) : Bool :=
  let code := c.toNat
  c == '\t' || c == '\n' || c == '\r' || c == '\x85' || (0x20 ≤ code && code ≤ 0x7e) ||
    (0xa0 ≤ code && code ≤ 0xfffd) || 0x10000 ≤ code

/-- The one document of a text; a byte order mark may stand in front of it. -/
def ofChars? (text : List Char) : Option Document := do
  let text :=
    match text with
    | '\uFEFF' :: rest => rest
    | text => text
  if text.all isAllowed then ofTokens? (← Token.ofChars? text) else none

end Document

end SpotWire.Yaml
