/-!
Moments of universal time in the Gregorian calendar, and their text.
-/

namespace SpotWire

structure Date where
  year : Int
  month : Nat
  day : Nat
deriving DecidableEq, Repr

namespace Date

def minYear : Int := -262143

def maxYear : Int := 262142

def isLeapYear (year : Int) : Bool :=
  year % 4 == 0 && (year % 100 != 0 || year % 400 == 0)

def daysInMonth (year : Int) (month : Nat) : Nat :=
  match month with
  | 2 => if isLeapYear year then 29 else 28
  | 4 | 6 | 9 | 11 => 30
  | _ => 31

def ofParts? (year : Int) (month day : Nat) : Option Date :=
  if minYear ≤ year ∧ year ≤ maxYear ∧ 1 ≤ month ∧ month ≤ 12 ∧ 1 ≤ day ∧
      day ≤ daysInMonth year month then
    some ⟨year, month, day⟩
  else none

/-- The day after, unless the calendar ends. -/
def next? (date : Date) : Option Date :=
  if date.day < daysInMonth date.year date.month then some { date with day := date.day + 1 }
  else if date.month < 12 then some ⟨date.year, date.month + 1, 1⟩
  else if date.year < maxYear then some ⟨date.year + 1, 1, 1⟩
  else none

/-- The day before, unless the calendar ends. -/
def previous? (date : Date) : Option Date :=
  if 1 < date.day then some { date with day := date.day - 1 }
  else if 1 < date.month then
    some ⟨date.year, date.month - 1, daysInMonth date.year (date.month - 1)⟩
  else if minYear < date.year then some ⟨date.year - 1, 12, 31⟩
  else none

end Date

/-- A moment of universal time. The second 60 is a leap second. -/
structure Moment where
  date : Date
  hour : Nat
  minute : Nat
  second : Nat
  nanosecond : Nat
deriving DecidableEq, Repr

namespace Moment

inductive Fault where
  | invalidCharacter
  | tooShort
  | outOfRange
  | trailing
  /-- The moment lies beyond the calendar once it is taken to universal time. -/
  | impossible
deriving DecidableEq, Repr

def Fault.message : Fault → String
  | .invalidCharacter => "input contains invalid characters"
  | .tooShort => "premature end of input"
  | .outOfRange => "input is out of range"
  | .trailing => "trailing input"
  | .impossible => "no possible date and time matching input"

/-- A number with at least `width` digits. -/
def padded (width n : Nat) : List Char :=
  let digits := Nat.toDigits 10 n
  List.replicate (width - digits.length) '0' ++ digits

/-- Years of four digits have no sign, all others have one. -/
def yearText (year : Int) : List Char :=
  if 0 ≤ year ∧ year ≤ 9999 then padded 4 year.toNat
  else (if year < 0 then '-' else '+') :: padded 4 year.natAbs

/-- A fraction has three, six or nine digits, the fewest that hold it. -/
def fractionText (nanosecond : Nat) : List Char :=
  if nanosecond = 0 then []
  else if nanosecond % 1000000 = 0 then '.' :: padded 3 (nanosecond / 1000000)
  else if nanosecond % 1000 = 0 then '.' :: padded 6 (nanosecond / 1000)
  else '.' :: padded 9 nanosecond

def text (moment : Moment) : String :=
  String.ofList <|
    yearText moment.date.year ++ '-' :: padded 2 moment.date.month ++
      '-' :: padded 2 moment.date.day ++ 'T' :: padded 2 moment.hour ++
      ':' :: padded 2 moment.minute ++ ':' :: padded 2 moment.second ++
      fractionText moment.nanosecond ++ ['Z']

end Moment

end SpotWire
