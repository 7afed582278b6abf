/-!
Labels of domain names in which characters beyond ASCII are written as differences, in a number
system of base 36 whose digits' weights adapt to the differences so far.
-/

namespace SpotWire.Url.Punycode

def base : Nat := 36

def leastThreshold : Nat := 1

def greatestThreshold : Nat := 26

def firstBias : Nat := 72

def firstCode : Nat := 128

/-- Divides a difference until it is small, counting how often. -/
def shrink : Nat → Nat → Nat → Nat × Nat
  | 0, delta, count => (delta, count)
  | fuel + 1, delta, count =>
      if (base - leastThreshold) * greatestThreshold / 2 < delta then
        shrink fuel (delta / (base - leastThreshold)) (count + 1)
      else (delta, count)

/-- The bias after a difference, where `points` characters are there with it. -/
def adapt (delta points : Nat) (first : Bool) : Nat :=
  let delta := if first then delta / 700 else delta / 2
  let (delta, count) := shrink delta (delta + delta / points) 0
  base * count + (base - leastThreshold + 1) * delta / (delta + 38)

def threshold (bias place : Nat) : Nat :=
  if place ≤ bias then leastThreshold
  else if bias + greatestThreshold ≤ place then greatestThreshold
  else place - bias

def digit (value : Nat) : Char :=
  if value < 26 then Char.ofNat ('a'.toNat + value) else Char.ofNat ('0'.toNat + value - 26)

def digitValue? (c : Char) : Option Nat :=
  if 'a' ≤ c ∧ c ≤ 'z' then some (c.toNat - 'a'.toNat)
  else if 'A' ≤ c ∧ c ≤ 'Z' then some (c.toNat - 'A'.toNat)
  else if c.isDigit then some (c.toNat - '0'.toNat + 26)
  else none

/-- The digits of a difference, the one of the least weight first. -/
def digits (bias : Nat) : Nat → Nat → Nat → List Char
  | 0, _, delta => [digit delta]
  | fuel + 1, place, delta =>
      let limit := threshold bias place
      if delta < limit then [digit delta]
      else
        digit (limit + (delta - limit) % (base - limit)) ::
          digits bias fuel (place + base) ((delta - limit) / (base - limit))

/-- What an encoder holds while it goes through a label for one code after another. -/
structure Encoder where
  delta : Nat
  bias : Nat
  handled : Nat
  output : List Char

/-- Goes through a label for the characters with one code. -/
def encodeCode (basic : Nat) (code : Nat) (encoder : Encoder) : List Char → Encoder
  | [] => encoder
  | c :: rest =>
      if c.toNat < code then
        encodeCode basic code { encoder with delta := encoder.delta + 1 } rest
      else if c.toNat = code then
        encodeCode basic code
          { delta := 0
            bias := adapt encoder.delta (encoder.handled + 1) (encoder.handled == basic)
            handled := encoder.handled + 1
            output := encoder.output ++ digits encoder.bias encoder.delta base encoder.delta }
          rest
      else encodeCode basic code encoder rest

/-- The least code of a label that is not below a bound. -/
def leastCode? (bound : Nat) (label : List Char) : Option Nat :=
  ((label.map Char.toNat).filter (bound ≤ ·)).min?

def encodeFrom (label : List Char) (basic : Nat) : Nat → Nat → Encoder → Encoder
  | 0, _, encoder => encoder
  | fuel + 1, bound, encoder =>
      match leastCode? bound label with
      | none => encoder
      | some code =>
          let encoder :=
            { encoder with delta := encoder.delta + (code - bound) * (encoder.handled + 1) }
          let encoder := encodeCode basic code encoder label
          encodeFrom label basic fuel (code + 1) { encoder with delta := encoder.delta + 1 }

/-- The ASCII characters of a label, and after a hyphen the places of all others. -/
def encode (label : List Char) : List Char :=
  let ascii := label.filter (·.toNat < firstCode)
  let start := if ascii.isEmpty then [] else ascii ++ ['-']
  (encodeFrom label ascii.length (label.length + 1) firstCode
    ⟨0, firstBias, ascii.length, start⟩).output

def difference? (bias : Nat) : Nat → Nat → List Char → Option (Nat × List Char)
  | _, _, [] => none
  | place, weight, c :: rest => do
      let value ← digitValue? c
      let limit := threshold bias place
      if value < limit then some (value * weight, rest)
      else
        let (more, left) ← difference? bias (place + base) (weight * (base - limit)) rest
        some (value * weight + more, left)

def insertAt (index : Nat) (c : Char) (text : List Char) : List Char :=
  text.take index ++ c :: text.drop index

def decodeFrom? : Nat → Nat → Nat → Nat → List Char → List Char → Option (List Char)
  | 0, _, _, _, _, _ => none
  | _ + 1, _, _, _, output, [] => some output
  | fuel + 1, code, index, bias, output, text => do
      let (delta, left) ← difference? bias base 1 text
      let points := output.length + 1
      let total := index + delta
      let code := code + total / points
      if code < 0x110000 ∧ ¬(0xd800 ≤ code ∧ code ≤ 0xdfff) then
        let place := total % points
        decodeFrom? fuel code (place + 1) (adapt delta points (index == 0))
          (insertAt place (Char.ofNat code) output) left
      else none

def decode? (text : List Char) : Option (List Char) :=
  let tail := (text.reverse.takeWhile (· != '-')).reverse
  let ascii := (text.take (text.length - tail.length)).dropLast
  decodeFrom? (text.length + 1) firstCode 0 firstBias ascii
    (if tail.length = text.length then text else tail)

end SpotWire.Url.Punycode
