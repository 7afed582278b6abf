import SpotWire.Url.Host

/-!
Addresses, and their text in the form in which each address has one text.
-/

namespace SpotWire

structure Url.Authority where
  /-- The user and perhaps the password, encoded. -/
  user : List Char
  host : Url.Host
  port : Option Nat
deriving DecidableEq, Repr

/-- A path is a list of encoded segments, or text that is not divided. -/
inductive Url.Path where
  | segments (segments : List (List Char))
  | plain (text : List Char)
deriving DecidableEq, Repr

structure Url where
  scheme : List Char
  authority : Option Url.Authority
  path : Url.Path
  query : Option (List Char)
  fragment : Option (List Char)
deriving DecidableEq, Repr

namespace Url

/-- Schemes with rules of their own, and their standard ports. -/
def specialSchemes : List (List Char × Option Nat) :=
  [("http".toList, some 80), ("https".toList, some 443), ("ws".toList, some 80),
    ("wss".toList, some 443), ("ftp".toList, some 21), ("file".toList, none)]

def isSpecial (scheme : List Char) : Bool :=
  specialSchemes.any fun entry => entry.1 == scheme

def standardPort? (scheme : List Char) : Option Nat :=
  (specialSchemes.find? fun entry => entry.1 == scheme).bind Prod.snd

def Authority.text (authority : Authority) : List Char :=
  '/' :: '/' :: (if authority.user.isEmpty then [] else authority.user ++ ['@']) ++
    authority.host.text ++
    match authority.port with
    | none => []
    | some port => ':' :: Nat.toDigits 10 port

def segmentsText (segments : List (List Char)) : List Char :=
  segments.flatMap fun segment => '/' :: segment

/-- A path that starts with an empty segment has a dot before it where it could be taken for an
authority. -/
def pathText (authority : Option Authority) : Path → List Char
  | .plain text => text
  | .segments ([] :: second :: rest) =>
      (if authority.isNone then ['/', '.'] else []) ++ segmentsText ([] :: second :: rest)
  | .segments segments => segmentsText segments

def pathOf (url : Url) : List Char :=
  pathText url.authority url.path

def text (url : Url) : String :=
  String.ofList <|
    url.scheme ++ ':' :: (match url.authority with
      | none => []
      | some authority => authority.text) ++
    pathText url.authority url.path ++
    (match url.query with
      | none => []
      | some query => '?' :: query) ++
    (match url.fragment with
      | none => []
      | some fragment => '#' :: fragment)

def isOnWeb (url : Url) : Bool :=
  url.scheme == "http".toList || url.scheme == "https".toList

/-- The address of an absolute path on the same host. -/
def withPath (url : Url) (segments : List (List Char)) (query : Option (List Char)) : Url :=
  { url with path := .segments segments, query, fragment := none }

end Url

end SpotWire
