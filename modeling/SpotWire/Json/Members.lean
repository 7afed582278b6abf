/-!
Members of objects: values under keys, each key once, in the order of the keys' characters.
-/

namespace SpotWire.Json.Members

variable {α : Type}

/-- Sets a key in members that are in key order. -/
def put (key : String) (value : α) : List (String × α) → List (String × α)
  | [] => [(key, value)]
  | (other, held) :: rest =>
      if key < other then (key, value) :: (other, held) :: rest
      else if key = other then (key, value) :: rest
      else (other, held) :: put key value rest

/-- The members that the given ones leave, the last one of each key, in key order. -/
def ofList (members : List (String × α)) : List (String × α) :=
  members.foldl (fun held member => put member.1 member.2 held) []

def find? (key : String) : List (String × α) → Option α
  | [] => none
  | (other, held) :: rest => if other = key then some held else find? key rest

end SpotWire.Json.Members
