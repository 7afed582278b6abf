import SpotWire.Url.Fault
import SpotWire.Url.Percent

/-!
Hosts that are numbers: addresses of 32 bits in up to four parts, and of 128 bits in eight pieces.
-/

namespace SpotWire.Url

def dotParts : List Char → List (List Char)
  | [] => [[]]
  | c :: rest =>
      match dotParts rest with
      | [] => [[]]
      | part :: parts => if c = '.' then [] :: part :: parts else (c :: part) :: parts

def numberInBase? (base : Nat) (digits : List Char) : Option Nat :=
  digits.foldl
    (fun number c => do
      let number ← number
      let digit ← hexValue? c
      if digit < base then some (number * base + digit) else none)
    (some 0)

namespace Ipv4

/-- A part in decimal, in octal after `0`, or in hexadecimal after `0x`. -/
def part? : List Char → Option Nat
  | [] => none
  | ['0'] => some 0
  | '0' :: 'x' :: digits => numberInBase? 16 digits
  | '0' :: 'X' :: digits => numberInBase? 16 digits
  | '0' :: digits => numberInBase? 8 digits
  | digits => numberInBase? 10 digits

/-- The parts without an empty last one. -/
def partsOf (text : List Char) : List (List Char) :=
  let parts := dotParts text
  if parts.getLast? = some [] then parts.dropLast else parts

def endsInNumber (text : List Char) : Bool :=
  match (partsOf text).getLast? with
  | none => false
  | some last => (!last.isEmpty && last.all Char.isDigit) || (part? last).isSome

/-- The address whose last part fills the places that the others leave. -/
def ofText (text : List Char) : Except Fault Nat :=
  match (partsOf text).mapM part? with
  | none => .error .invalidIpv4
  | some numbers =>
      let leading := numbers.dropLast
      match numbers.getLast? with
      | none => .error .invalidIpv4
      | some last =>
          if 4 < numbers.length ∨ 1 <<< (8 * (4 - leading.length)) ≤ last ∨ leading.any (255 < ·) then
            .error .invalidIpv4
          else
            let high := leading.foldl (fun high n => high * 256 + n) 0
            .ok ((high <<< (8 * (4 - leading.length))) + last)

def text (address : Nat) : List Char :=
  let part (place : Nat) := Nat.toDigits 10 (address >>> (8 * place) % 256)
  part 3 ++ '.' :: part 2 ++ '.' :: part 1 ++ '.' :: part 0

end Ipv4

namespace Ipv6

/-- What has been read of an address: the pieces, the last one first, and how many of them stand
before the gap. -/
structure Progress where
  pieces : List Nat
  gap : Option Nat

/-- The four decimal numbers at the end of an address. -/
def embedded? (text : List Char) : Option (List Nat) :=
  let parts := dotParts text
  let number? (part : List Char) : Option Nat :=
    if part.isEmpty ∨ (part.head? = some '0' ∧ part ≠ ['0']) ∨ 3 < part.length then none
    else (numberInBase? 10 part).filter (· ≤ 255)
  match parts.mapM number? with
  | some [a, b, c, d] => some [a * 256 + b, c * 256 + d]
  | _ => none

/-- Reads the pieces from a text; each call takes one piece, or the gap, off its front. -/
def read? : Nat → Progress → List Char → Option Progress
  | 0, _, _ => none
  | _ + 1, progress, [] => some progress
  | fuel + 1, progress, c :: rest =>
      let text := c :: rest
      if progress.pieces.length = 8 then none
      else if c = ':' then
        if progress.gap.isSome then none
        else read? fuel ⟨0 :: progress.pieces, some (progress.pieces.length + 1)⟩ rest
      else
        let digits := (text.take 4).takeWhile fun c => (hexValue? c).isSome
        let number := (numberInBase? 16 digits).getD 0
        match text.drop digits.length with
        | [] => some { progress with pieces := number :: progress.pieces }
        | '.' :: _ =>
            if digits.isEmpty ∨ 6 < progress.pieces.length then none
            else
              (embedded? text).map fun numbers =>
                { progress with pieces := numbers.reverse ++ progress.pieces }
        | ':' :: more =>
            if more.isEmpty then none
            else read? fuel { progress with pieces := number :: progress.pieces } more
        | _ => none

/-- The eight pieces: the gap stretches to fill them. -/
def fill? (progress : Progress) : Option (List Nat) :=
  let pieces := progress.pieces.reverse
  match progress.gap with
  | none => if pieces.length = 8 then some pieces else none
  | some before =>
      some (pieces.take before ++ List.replicate (8 - pieces.length) 0 ++ pieces.drop before)

def ofText (text : List Char) : Except Fault (List Nat) :=
  let read :=
    match text with
    | ':' :: ':' :: rest => read? (text.length + 1) ⟨[0], some 1⟩ rest
    | ':' :: _ => none
    | _ => if text.length < 2 then none else read? (text.length + 1) ⟨[], none⟩ text
  match read.bind fill? with
  | some pieces => .ok pieces
  | none => .error .invalidIpv6

def zeros (pieces : List Nat) : Nat :=
  (pieces.takeWhile (· == 0)).length

/-- The longest run of zeros, of two or more: where it starts and how long it is. -/
def longestRun (pieces : List Nat) : Option (Nat × Nat) :=
  (List.range 8).foldl
    (fun best start =>
      let length := zeros (pieces.drop start)
      if length < 2 then best
      else
        match best with
        | none => some (start, length)
        | some (_, held) => if held < length then some (start, length) else best)
    none

def piecesText (pieces : List Nat) : List Char :=
  [':'].intercalate (pieces.map (Nat.toDigits 16))

/-- The text of an address, its longest run of zeros as two colons. -/
def text (pieces : List Nat) : List Char :=
  match longestRun pieces with
  | none => piecesText pieces
  | some (start, length) =>
      piecesText (pieces.take start) ++ [':', ':'] ++ piecesText (pieces.drop (start + length))

end Ipv6

end SpotWire.Url
