import SpotWire.Moment
import SpotWire.Numeric.Width
import SpotWire.Text.Blank

/-!
Reading a date and a time of day with an offset from universal time.

Blank characters may stand before each number and before the marks between numbers. The time of
day follows the date after the letter `T` or a blank, and the offset follows the time: `Z`, `UTC`,
or a sign with hours and minutes.
-/

namespace SpotWire.Moment

/-- Reads from the front of what is left of a text. -/
abbrev Scan := StateT (List Char) (Except Fault)

namespace Scan

def blanks : Scan Unit :=
  modify Text.trimStart

def mark (expected : Char) : Scan Unit := do
  match ← get with
  | [] => throw .tooShort
  | c :: rest => if c = expected then set rest else throw .invalidCharacter

/-- A number of at most `width` digits. -/
def digits (width : Nat) : Scan Nat := do
  let text ← get
  let found := (text.take width).takeWhile Char.isDigit
  if text.isEmpty then throw .tooShort
  else if found.isEmpty then throw .invalidCharacter
  else
    let number := Nat.ofDigitChars 10 found 0
    if Numeric.int64Max < number then throw .outOfRange
    else
      set (text.drop found.length)
      return number

def part (low high : Nat) : Scan Nat := do
  blanks
  let number ← digits 2
  if low ≤ number ∧ number ≤ high then return number else throw .outOfRange

/-- A year has at most four digits, or a sign and any number of digits. -/
def year : Scan Int := do
  blanks
  let year : Int ←
    match ← get with
    | '-' :: rest => do
        set rest
        let size ← digits rest.length
        pure (-(size : Int))
    | '+' :: rest => do
        set rest
        let size ← digits rest.length
        pure (size : Int)
    | _ => do
        let size ← digits 4
        pure (size : Int)
  if Numeric.int32Min ≤ year ∧ year ≤ Numeric.int32Max then return year else throw .outOfRange

def dateTimeMark : Scan Unit := do
  match ← get with
  | [] => throw .tooShort
  | c :: rest => if c = 'T' ∨ c = 't' ∨ c = ' ' then set rest else throw .invalidCharacter

/-- The fraction of a second, in nanoseconds; digits after the ninth have no effect. -/
def fraction : Scan Nat := do
  match ← get with
  | '.' :: rest => do
      let found := (rest.take 9).takeWhile Char.isDigit
      if rest.isEmpty then throw .tooShort
      else if found.isEmpty then throw .invalidCharacter
      else
        set (rest.dropWhile Char.isDigit)
        return Nat.ofDigitChars 10 (found ++ List.replicate (9 - found.length) '0') 0
  | _ => return 0

/-- Two characters of the text, where it has at least two octets left. -/
def pair : Scan (Char × Char) := do
  match ← get with
  | [] => throw .tooShort
  | [c] => if c.utf8Size < 2 then throw .tooShort else throw .invalidCharacter
  | c :: d :: rest =>
      set rest
      return (c, d)

def digitValue (c : Char) : Nat :=
  c.toNat - '0'.toNat

def offsetHours : Scan Nat := do
  let (c, d) ← pair
  if c.isDigit ∧ d.isDigit then return digitValue c * 10 + digitValue d
  else throw .invalidCharacter

def offsetMinutes : Scan Nat := do
  let (c, d) ← pair
  if c.isDigit ∧ d.isDigit then
    if digitValue c < 6 then return digitValue c * 10 + digitValue d else throw .outOfRange
  else throw .invalidCharacter

def offset : Scan Int := do
  match ← get with
  | [] => throw .tooShort
  | c :: rest =>
      if ((c :: rest).take 3).map Char.toUpper = ['U', 'T', 'C'] then
        set (rest.drop 2)
        return 0
      else if c = 'Z' ∨ c = 'z' then
        set rest
        return 0
      else if c = '+' ∨ c = '-' ∨ c = '−' then
        set rest
        let hours ← offsetHours
        modify (List.dropWhile fun c => c == ':' || Text.isBlank c)
        let minutes ← offsetMinutes
        let size : Int := hours * 60 + minutes
        return if c = '+' then size else -size
      else throw .invalidCharacter

end Scan

/-- A date and a time of day as they are written, with their offset in minutes. -/
structure Written where
  year : Int
  month : Nat
  day : Nat
  hour : Nat
  minute : Nat
  second : Nat
  nanosecond : Nat
  offset : Int

def Written.scan : Scan Written := do
  let year ← Scan.year
  Scan.blanks
  Scan.mark '-'
  let month ← Scan.part 1 12
  Scan.blanks
  Scan.mark '-'
  let day ← Scan.part 1 31
  Scan.dateTimeMark
  let hour ← Scan.part 0 23
  Scan.blanks
  Scan.mark ':'
  let minute ← Scan.part 0 59
  Scan.blanks
  Scan.mark ':'
  let second ← Scan.part 0 60
  let nanosecond ← Scan.fraction
  Scan.blanks
  let offset ← Scan.offset
  Scan.blanks
  return ⟨year, month, day, hour, minute, second, nanosecond, offset⟩

def minutesInDay : Int := 1440

/-- The date some days, at most one, away. -/
def shiftDate? (date : Date) (days : Int) : Option Date :=
  if days < 0 then date.previous? else if 0 < days then date.next? else some date

/-- Takes a written date and time to universal time. -/
def Written.toMoment (written : Written) : Except Fault Moment :=
  match Date.ofParts? written.year written.month written.day with
  | none => .error .outOfRange
  | some date =>
      if minutesInDay ≤ written.offset.natAbs then .error .outOfRange
      else
        let minutes := written.hour * 60 + written.minute - written.offset
        match shiftDate? date (Int.fdiv minutes minutesInDay) with
        | none => .error .impossible
        | some date =>
            let minutes := (Int.fmod minutes minutesInDay).toNat
            .ok ⟨date, minutes / 60, minutes % 60, written.second, written.nanosecond⟩

def ofText (text : List Char) : Except Fault Moment := do
  let (written, left) ← Written.scan text
  if left.isEmpty then written.toMoment else .error .trailing

end SpotWire.Moment
