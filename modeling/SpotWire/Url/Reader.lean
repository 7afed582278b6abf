import SpotWire.Url

/-!
Reading addresses.

An address starts with a scheme. Special schemes have a host and a divided path, and their slashes
may be written as backslashes; other schemes may have a host, and a path of any kind.
-/

namespace SpotWire.Url

def isControlOrSpace (c : Char) : Bool :=
  c.toNat ≤ 0x20

/-- The text without controls and spaces at its ends, and without tabs and line ends. -/
def clean (text : List Char) : List Char :=
  ((text.dropWhile isControlOrSpace).reverse.dropWhile isControlOrSpace).reverse.filter
    fun c => c != '\t' && c != '\n' && c != '\r'

def isSchemeChar (c : Char) : Bool :=
  c.isAlphanum || c == '+' || c == '-' || c == '.'

/-- The scheme in lower case, and what follows its colon. -/
def scheme? (text : List Char) : Option (List Char × List Char) :=
  if !(text.head?.any Char.isAlpha) then none
  else
    match text.dropWhile isSchemeChar with
    | ':' :: rest => some ((text.takeWhile isSchemeChar).map Char.toLower, rest)
    | _ => none

/-- Whether a character ends the part of an address in front of the path. -/
def endsAuthority (special : Bool) (c : Char) : Bool :=
  c == '/' || c == '?' || c == '#' || (special && c == '\\')

def isSlash (special : Bool) (c : Char) : Bool :=
  c == '/' || (special && c == '\\')

/-- The user and the password in front of the last at sign, encoded, and what follows it. -/
def readUser (special : Bool) (text : List Char) : Except Fault (List Char × List Char) :=
  let part := text.takeWhile fun c => !endsAuthority special c
  if !part.contains '@' then .ok ([], text)
  else
    let after := (part.reverse.takeWhile (· != '@')).length
    let before := part.take (part.length - after - 1)
    let left := text.drop (before.length + 1)
    if before.isEmpty then
      if left.head?.any (endsAuthority special) then .error .emptyHost else .ok ([], left)
    else
      let name := before.takeWhile (· != ':')
      let password := (before.dropWhile (· != ':')).drop 1
      let encoded := percentEncode reservedInUser name ++
        if password.isEmpty then [] else ':' :: percentEncode reservedInUser password
      .ok (encoded, left)

/-- The characters of a host, and what follows them. A colon between brackets belongs to it. -/
def hostChars (special bracketed : Bool) : List Char → List Char × List Char
  | [] => ([], [])
  | c :: rest =>
      if (c == ':' && !bracketed) || endsAuthority special c then ([], c :: rest)
      else
        let bracketed := if c = '[' then true else if c = ']' then false else bracketed
        let (host, left) := hostChars special bracketed rest
        (c :: host, left)

def readHost (special : Bool) (text : List Char) : Except Fault (Host × List Char) := do
  let (chars, left) := hostChars special false text
  if special then
    if chars.isEmpty then .error .emptyHost else .ok (← Host.ofText chars, left)
  else .ok (← Host.ofOpaque chars, left)

def portFrom (number : Option Nat) : List Char → Except Fault (Option Nat × List Char)
  | [] => .ok (number, [])
  | c :: rest =>
      if c.isDigit then
        let next := number.getD 0 * 10 + (c.toNat - '0'.toNat)
        if next ≤ 65535 then portFrom (some next) rest else .error .invalidPort
      else if c = '/' ∨ c = '\\' ∨ c = '?' ∨ c = '#' then .ok (number, c :: rest)
      else .error .invalidPort

/-- The port after a colon; the standard port of the scheme is left out. -/
def readPort (scheme : List Char) : List Char → Except Fault (Option Nat × List Char)
  | ':' :: rest => do
      let (number, left) ← portFrom none rest
      .ok (if number = standardPort? scheme then none else number, left)
  | text => .ok (none, text)

def readAuthority (scheme text : List Char) : Except Fault (Authority × List Char) := do
  let (user, left) ← readUser (isSpecial scheme) text
  let (host, left) ← readHost (isSpecial scheme) left
  if host = .domain [] ∧ left.head? = some ':' then .error .emptyHost
  else
    let (port, left) ← readPort scheme left
    if host = .domain [] ∧ !user.isEmpty then .error .emptyHost
    else .ok (⟨user, host, port⟩, left)

/-- The text with its encoded dots plain. -/
def plainDots : List Char → List Char
  | '%' :: '2' :: 'e' :: rest => '.' :: plainDots rest
  | '%' :: '2' :: 'E' :: rest => '.' :: plainDots rest
  | c :: rest => c :: plainDots rest
  | [] => []

def isDriveLetter (segment : List Char) : Bool :=
  match segment with
  | [letter, mark] => letter.isAlpha && (mark == ':' || mark == '|')
  | _ => false

/-- Adds a segment, the last one of its path or not, to the segments before it, the last of which
comes first. Dots go up, or stay. -/
def addSegment (file last : Bool) (before : List (List Char)) (segment : List Char) :
    List (List Char) :=
  if plainDots segment = ['.', '.'] then
    let shortened :=
      match before with
      | [drive] => if file && isDriveLetter drive then [drive] else []
      | _ => before.drop 1
    if last then [] :: shortened else shortened
  else if plainDots segment = ['.'] then
    if last then [] :: before else before
  else if file && before.isEmpty && isDriveLetter segment then
    (segment.take 1 ++ [':']) :: before
  else segment :: before

def slashParts (special : Bool) : List Char → List (List Char)
  | [] => [[]]
  | c :: rest =>
      match slashParts special rest with
      | [] => [[]]
      | part :: parts => if isSlash special c then [] :: part :: parts else (c :: part) :: parts

def addSegments (file : Bool) (before : List (List Char)) : List (List Char) → List (List Char)
  | [] => before
  | [segment] => addSegment file true before segment
  | segment :: rest => addSegments file (addSegment file false before segment) rest

def endsPath (c : Char) : Bool :=
  c == '?' || c == '#'

def segments (scheme text : List Char) : List (List Char) :=
  let parts := (slashParts (isSpecial scheme) text).map (percentEncode reservedInPath)
  (addSegments (scheme == "file".toList) [] parts).reverse

/-- A path after the host. Special schemes have at least the empty segment. -/
def pathAfterHost (scheme text : List Char) : Path :=
  match text with
  | [] => .segments (if isSpecial scheme then [[]] else [])
  | c :: rest =>
      .segments (segments scheme (if isSlash (isSpecial scheme) c then rest else text))

def pathAlone (scheme : List Char) : List Char → Path
  | '/' :: rest => .segments (segments scheme rest)
  | text => .plain (percentEncode [] text)

def queryAndFragment (special : Bool) (text : List Char) :
    Option (List Char) × Option (List Char) :=
  let reserved := if special then reservedInSpecialQuery else reservedInQuery
  let fragment :=
    match text.dropWhile (· != '#') with
    | '#' :: fragment => some (percentEncode reservedInFragment fragment)
    | _ => none
  match text with
  | '?' :: rest => (some (percentEncode reserved (rest.takeWhile (· != '#'))), fragment)
  | _ => (none, fragment)

def assemble (scheme : List Char) (authority : Option Authority) (path : Path)
    (afterPath : List Char) : Url :=
  let (query, fragment) := queryAndFragment (isSpecial scheme) afterPath
  ⟨scheme, authority, path, query, fragment⟩

def withAuthority (scheme text : List Char) : Except Fault Url := do
  let (authority, left) ← readAuthority scheme text
  let path := pathAfterHost scheme (left.takeWhile fun c => !endsPath c)
  .ok (assemble scheme (some authority) path (left.dropWhile fun c => !endsPath c))

/-- The host of a file, if it is not this one. -/
def fileHost (chars : List Char) : Except Fault Host := do
  if chars.isEmpty then .ok (.domain [])
  else
    let host ← Host.ofText chars
    .ok (if host = .domain "localhost".toList then .domain [] else host)

def ofFile (text : List Char) : Except Fault Url := do
  let scheme := "file".toList
  let afterPath := text.dropWhile fun c => !endsPath c
  let path := text.takeWhile fun c => !endsPath c
  let noHost : Authority := ⟨[], .domain [], none⟩
  match path with
  | first :: second :: rest =>
      if isSlash true first && isSlash true second then
        let chars := rest.takeWhile fun c => !isSlash true c
        if isDriveLetter chars then
          .ok (assemble scheme (some noHost) (.segments (segments scheme rest)) afterPath)
        else
          let host ← fileHost chars
          .ok (assemble scheme (some ⟨[], host, none⟩)
            (pathAfterHost scheme (rest.drop chars.length)) afterPath)
      else
        .ok (assemble scheme (some noHost) (pathAfterHost scheme path) afterPath)
  | _ => .ok (assemble scheme (some noHost) (pathAfterHost scheme path) afterPath)

def ofText (text : String) : Except Fault Url :=
  match scheme? (clean text.toList) with
  | none => .error .relative
  | some (scheme, rest) =>
      if scheme = "file".toList then ofFile rest
      else if isSpecial scheme then
        withAuthority scheme (rest.dropWhile fun c => isSlash true c)
      else
        match rest with
        | '/' :: '/' :: rest => withAuthority scheme rest
        | _ =>
            let path := pathAlone scheme (rest.takeWhile fun c => !endsPath c)
            .ok (assemble scheme none path (rest.dropWhile fun c => !endsPath c))

end SpotWire.Url
