import SpotWire.Url.Domain

/-!
Hosts of addresses.
-/

namespace SpotWire.Url

inductive Host where
  | domain (name : List Char)
  | ipv4 (address : Nat)
  | ipv6 (pieces : List Nat)
deriving DecidableEq, Repr

namespace Host

def text : Host → List Char
  | .domain name => name
  | .ipv4 address => Ipv4.text address
  | .ipv6 pieces => '[' :: Ipv6.text pieces ++ [']']

/-- Characters that no host of a free scheme holds. -/
def forbidden : List Char :=
  ['\x00', '\t', '\n', '\r', ' ', '#', '/', ':', '<', '>', '?', '@', '[', '\\', ']', '^', '|']

def bracketed (text : List Char) : Except Fault Host :=
  if text.getLast? = some ']' then (Ipv6.ofText (text.drop 1).dropLast).map .ipv6
  else .error .invalidIpv6

/-- The host of an address with a free scheme: any text. -/
def ofOpaque (text : List Char) : Except Fault Host :=
  if text.head? = some '[' then bracketed text
  else if text.any forbidden.contains then .error .invalidDomainCharacter
  else .ok (.domain (percentEncode [] text))

/-- The host of an address with a special scheme: a number or a domain name. -/
def ofText (text : List Char) : Except Fault Host :=
  if text.head? = some '[' then bracketed text
  else
    match Text.ofOctets? (percentDecode 0 text) with
    | none => .error .invalidDomain
    | some decoded => do
        let domain ← Domain.toAscii decoded
        if domain.isEmpty then .error .emptyHost
        else if Ipv4.endsInNumber domain then (Ipv4.ofText domain).map .ipv4
        else .ok (.domain domain)

end Host

end SpotWire.Url
