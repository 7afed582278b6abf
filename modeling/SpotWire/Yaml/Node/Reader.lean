import SpotWire.Yaml.Node

/-!
Reading nodes from tokens. Each reader gives what it has read and the tokens left; `fuel` bounds
the number of readers that stand in each other or follow each other.
-/

namespace SpotWire.Yaml

abbrev TagHandles := List (List Char × List Char)

namespace TagHandles

def standard : TagHandles :=
  [(['!'], ['!']), (['!', '!'], "tag:yaml.org,2002:".toList)]

def resolve? (handles : TagHandles) (handle suffix : List Char) : Option (List Char) :=
  if handle.isEmpty then some suffix
  else (handles.find? fun entry => entry.1 == handle).map fun entry => entry.2 ++ suffix

end TagHandles

/-- Names as they stand in the text. -/
abbrev Name := List Char

namespace Node

/-- The anchor and the tag in front of a node, in any order. -/
def properties? (handles : TagHandles) : List Token → Option (Properties Name × List Token)
  | .anchor name :: .tag handle suffix :: rest => do
      some (⟨some name, ← handles.resolve? handle suffix⟩, rest)
  | .tag handle suffix :: .anchor name :: rest => do
      some (⟨some name, ← handles.resolve? handle suffix⟩, rest)
  | .anchor name :: rest => some (⟨some name, none⟩, rest)
  | .tag handle suffix :: rest => do
      some (⟨none, ← handles.resolve? handle suffix⟩, rest)
  | tokens => some (.none, tokens)

structure Place where
  /-- Block collections may begin here. -/
  block : Bool
  /-- A sequence may begin here without an indentation of its own. -/
  indentless : Bool

def inBlock : Place := ⟨true, false⟩

def inBlockMapping : Place := ⟨true, true⟩

def inFlow : Place := ⟨false, false⟩

/-- Whether a token cannot begin the content of an entry in a block mapping. -/
def endsMappingEntry : Token → Bool
  | .key | .value | .blockEnd => true
  | _ => false

def endsSequenceEntry : Token → Bool
  | .blockEntry | .blockEnd => true
  | _ => false

def endsIndentlessEntry : Token → Bool
  | .blockEntry | .key | .value | .blockEnd => true
  | _ => false

def endsFlowMappingKey : Token → Bool
  | .value | .flowEntry | .flowMappingEnd => true
  | _ => false

def endsFlowMappingValue : Token → Bool
  | .flowEntry | .flowMappingEnd => true
  | _ => false

def endsFlowPairKey : Token → Bool
  | .value | .flowEntry | .flowSequenceEnd => true
  | _ => false

def endsFlowPairValue : Token → Bool
  | .flowEntry | .flowSequenceEnd => true
  | _ => false

mutual

def read? (handles : TagHandles) : Nat → Place → List Token → Option (Node Name × List Token)
  | 0, _, _ => none
  | fuel + 1, place, tokens =>
      match tokens with
      | .alias name :: rest => some (.alias name, rest)
      | _ => do
          let (properties, tokens) ← properties? handles tokens
          match tokens with
          | .scalar style text :: rest => some (.scalar properties style text, rest)
          | .flowSequenceStart :: rest => do
              let (items, rest) ← flowSequence? handles fuel true rest
              some (.sequence properties items, rest)
          | .flowMappingStart :: rest => do
              let (entries, rest) ← flowMapping? handles fuel true rest
              some (.mapping properties entries, rest)
          | .blockEntry :: _ =>
              if place.indentless then do
                let (items, rest) ← indentlessSequence? handles fuel tokens
                some (.sequence properties items, rest)
              else if properties.areNone then none
              else some (empty properties, tokens)
          | .blockSequenceStart :: rest =>
              if place.block then do
                let (items, rest) ← blockSequence? handles fuel rest
                some (.sequence properties items, rest)
              else if properties.areNone then none
              else some (empty properties, tokens)
          | .blockMappingStart :: rest =>
              if place.block then do
                let (entries, rest) ← blockMapping? handles fuel rest
                some (.mapping properties entries, rest)
              else if properties.areNone then none
              else some (empty properties, tokens)
          | _ => if properties.areNone then none else some (empty properties, tokens)
termination_by structural fuel => fuel

/-- A node, unless the next token shows that it is not written. -/
def readUnless? (handles : TagHandles) : Nat → Place → (Token → Bool) → List Token →
    Option (Node Name × List Token)
  | 0, _, _, _ => none
  | fuel + 1, place, ends, tokens =>
      if tokens.head?.any ends then some (empty .none, tokens)
      else read? handles fuel place tokens
termination_by structural fuel => fuel

def blockSequence? (handles : TagHandles) : Nat → List Token → Option (List (Node Name) × List Token)
  | 0, _ => none
  | fuel + 1, tokens =>
      match tokens with
      | .blockEntry :: rest => do
          let (item, rest) ← readUnless? handles fuel inBlock endsSequenceEntry rest
          let (items, rest) ← blockSequence? handles fuel rest
          some (item :: items, rest)
      | .blockEnd :: rest => some ([], rest)
      | _ => none
termination_by structural fuel => fuel

def indentlessSequence? (handles : TagHandles) : Nat → List Token →
    Option (List (Node Name) × List Token)
  | 0, _ => none
  | fuel + 1, tokens =>
      match tokens with
      | .blockEntry :: rest => do
          let (item, rest) ← readUnless? handles fuel inBlock endsIndentlessEntry rest
          let (items, rest) ← indentlessSequence? handles fuel rest
          some (item :: items, rest)
      | _ => some ([], tokens)
termination_by structural fuel => fuel

def blockMapping? (handles : TagHandles) : Nat → List Token →
    Option (List (Node Name × Node Name) × List Token)
  | 0, _ => none
  | fuel + 1, tokens =>
      match tokens with
      | .key :: rest => do
          let (key, rest) ← readUnless? handles fuel inBlockMapping endsMappingEntry rest
          let (value, rest) ← blockValue? handles fuel rest
          let (entries, rest) ← blockMapping? handles fuel rest
          some ((key, value) :: entries, rest)
      | .blockEnd :: rest => some ([], rest)
      | _ => none
termination_by structural fuel => fuel

def blockValue? (handles : TagHandles) : Nat → List Token → Option (Node Name × List Token)
  | 0, _ => none
  | fuel + 1, tokens =>
      match tokens with
      | .value :: rest => readUnless? handles fuel inBlockMapping endsMappingEntry rest
      | _ => some (empty .none, tokens)
termination_by structural fuel => fuel

def flowSequence? (handles : TagHandles) : Nat → Bool → List Token →
    Option (List (Node Name) × List Token)
  | 0, _, _ => none
  | fuel + 1, first, tokens =>
      match tokens with
      | .flowSequenceEnd :: rest => some ([], rest)
      | _ => do
          let tokens ←
            match first, tokens with
            | true, tokens => some tokens
            | false, .flowEntry :: rest => some rest
            | false, _ => none
          match tokens with
          | .flowSequenceEnd :: rest => some ([], rest)
          | .key :: rest => do
              let (entry, rest) ← flowPair? handles fuel rest
              let (items, rest) ← flowSequence? handles fuel false rest
              some (.mapping .none [entry] :: items, rest)
          | _ => do
              let (item, rest) ← read? handles fuel inFlow tokens
              let (items, rest) ← flowSequence? handles fuel false rest
              some (item :: items, rest)
termination_by structural fuel => fuel

/-- An entry of a mapping in a flow sequence. Where its key is not written, the token in its place
is passed over. -/
def flowPair? (handles : TagHandles) : Nat → List Token → Option ((Node Name × Node Name) × List Token)
  | 0, _ => none
  | fuel + 1, tokens => do
      let (key, rest) ←
        if tokens.head?.any endsFlowPairKey then some (empty .none, tokens.tail)
        else read? handles fuel inFlow tokens
      let (value, rest) ←
        match rest with
        | .value :: rest => readUnless? handles fuel inFlow endsFlowPairValue rest
        | rest => some (empty .none, rest)
      some ((key, value), rest)
termination_by structural fuel => fuel

def flowMapping? (handles : TagHandles) : Nat → Bool → List Token →
    Option (List (Node Name × Node Name) × List Token)
  | 0, _, _ => none
  | fuel + 1, first, tokens =>
      match tokens with
      | .flowMappingEnd :: rest => some ([], rest)
      | _ => do
          let tokens ←
            match first, tokens with
            | true, tokens => some tokens
            | false, .flowEntry :: rest => some rest
            | false, _ => none
          match tokens with
          | .flowMappingEnd :: rest => some ([], rest)
          | .key :: rest => do
              let (key, rest) ← readUnless? handles fuel inFlow endsFlowMappingKey rest
              let (value, rest) ←
                match rest with
                | .value :: rest => readUnless? handles fuel inFlow endsFlowMappingValue rest
                | rest => some (empty .none, rest)
              let (entries, rest) ← flowMapping? handles fuel false rest
              some ((key, value) :: entries, rest)
          | _ => do
              let (key, rest) ← read? handles fuel inFlow tokens
              let (entries, rest) ← flowMapping? handles fuel false rest
              some ((key, empty .none) :: entries, rest)
termination_by structural fuel => fuel

end

/-- Readers that stand in each other or follow each other for one token are at most four. -/
def fuelFor (tokens : List Token) : Nat :=
  4 * tokens.length + 8

end Node

end SpotWire.Yaml
