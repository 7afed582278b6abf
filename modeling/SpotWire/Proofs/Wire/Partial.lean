import Mathlib.Data.List.Nodup
import SpotWire.Wire.Record

/-!
# Objects with members left out

A record whose fields all have defaults may be given by an object without some of its members, with
the others in any order and members of other keys between them. What has been read of such an
object depends on the keys that have come, and not on their order.
-/

namespace SpotWire

open Json Wire

def membersOf (fields : List (String × Node)) : List (Except Fault String × Node) :=
  fields.map fun field => (.ok field.1, field.2)

namespace Wire

variable {α δ : Type} {set : String → Option (δ → Node → Except Problem δ)} {key : String}
  {own members : List (String × Node)} {dropped : List String}

/-! ### One member -/

theorem fillMembers_of_set {read : δ → Node → Except Problem δ} (hset : set key = some read)
    (draft : δ) (node : Node) (rest : List (String × Node)) (ending : Ending) :
    fillMembers set draft (membersOf ((key, node) :: rest)) ending =
      (read draft node).bind fun next => fillMembers set next (membersOf rest) ending := by
  simp only [membersOf, List.map_cons, fillMembers, orBroken, bind, Except.bind, hset]

theorem fillMembers_of_ignore (hset : set key = none) (draft : δ) {node : Node}
    (hsound : node.passedFault? = none) (rest : List (String × Node)) (ending : Ending) :
    fillMembers set draft (membersOf ((key, node) :: rest)) ending =
      fillMembers set draft (membersOf rest) ending := by
  simp only [membersOf, List.map_cons, fillMembers, orBroken, bind, Except.bind, hset, ignore,
    hsound]

/-! ### Members left out -/

/-- The members of an object, each as the node of its value. -/
def fieldsOf : Value → List (String × Node)
  | .object members => members.map fun member => (member.1, .ofValue member.2)
  | _ => []

/-- A record's own members but those of some keys, in any order, and between them any members with
keys that the record does not know. -/
def IsPart (own : List (String × Node)) (dropped : List String)
    (members : List (String × Node)) : Prop :=
  ∃ others : List (String × Node),
    (∀ member ∈ others, member.1 ∉ own.map Prod.fst ∧ member.2.passedFault? = none) ∧
      members.Perm (own.filter (fun member => member.1 ∉ dropped) ++ others)

theorem IsPart.mem_cases {member : String × Node} (h : IsPart own dropped members)
    (hmem : member ∈ members) :
    member ∈ own ∨ (member.1 ∉ own.map Prod.fst ∧ member.2.passedFault? = none) := by
  obtain ⟨others, hothers, hperm⟩ := h
  rcases List.mem_append.mp (hperm.mem_iff.mp hmem) with hkept | hother
  · exact .inl (List.mem_filter.mp hkept).1
  · exact .inr (hothers member hother)

/-- The keys of a record's own members, in the order in which they come. -/
def knownKeys (own members : List (String × Node)) : List String :=
  (members.map Prod.fst).filter fun key => key ∈ own.map Prod.fst

theorem IsPart.perm_knownKeys (h : IsPart own dropped members) :
    (knownKeys own members).Perm ((own.map Prod.fst).filter fun key => key ∉ dropped) := by
  obtain ⟨others, hothers, hperm⟩ := h
  have hnone : knownKeys own others = [] := by
    apply List.filter_eq_nil_iff.mpr
    intro key hkey hknown
    obtain ⟨member, hmem, rfl⟩ := List.mem_map.mp hkey
    exact (hothers member hmem).1 (of_decide_eq_true hknown)
  have hkept : knownKeys own (own.filter fun member => member.1 ∉ dropped) =
      (own.map Prod.fst).filter fun key => key ∉ dropped := by
    rw [List.filter_map]
    apply List.filter_eq_self.mpr
    intro key hkey
    obtain ⟨member, hmem, rfl⟩ := List.mem_map.mp hkey
    exact decide_eq_true (List.mem_map_of_mem (List.mem_filter.mp hmem).1)
  calc (knownKeys own members).Perm
          (knownKeys own ((own.filter fun member => member.1 ∉ dropped) ++ others)) :=
        (hperm.map Prod.fst).filter _
    _ = knownKeys own (own.filter fun member => member.1 ∉ dropped) ++ knownKeys own others := by
        simp only [knownKeys, List.map_append, List.filter_append]
    _ = (own.map Prod.fst).filter fun key => key ∉ dropped := by
        rw [hnone, hkept, List.append_nil]

/-! ### What has been read -/

/-- A draft that is told by the keys that have come: each own member of a record adds its key. -/
def Gathers (set : String → Option (δ → Node → Except Problem δ)) (own : List (String × Node))
    (holding : List String → δ) : Prop :=
  ∀ member ∈ own, ∀ keys, member.1 ∉ keys →
    ∃ step, set member.1 = some step ∧
      step (holding keys) member.2 = .ok (holding (member.1 :: keys))

section Gathers

variable {holding : List String → δ}

theorem Gathers.fillMembers (h : Gathers set own holding)
    (hset : ∀ key, key ∉ own.map Prod.fst → set key = none) {keys : List String}
    (hmembers : ∀ member ∈ members,
      member ∈ own ∨ (member.1 ∉ own.map Prod.fst ∧ member.2.passedFault? = none))
    (hnodup : (knownKeys own members ++ keys).Nodup) :
    fillMembers set (holding keys) (membersOf members) .closed =
      .ok (holding ((knownKeys own members).reverse ++ keys)) := by
  induction members generalizing keys with
  | nil => rfl
  | cons member rest ih =>
      obtain ⟨key, content⟩ := member
      obtain ⟨hmember, hrest⟩ := List.forall_mem_cons.mp hmembers
      rcases hmember with hown | ⟨hunknown, hsound⟩
      · have hknown : knownKeys own ((key, content) :: rest) = key :: knownKeys own rest :=
          List.filter_cons_of_pos (decide_eq_true (List.mem_map_of_mem hown))
        rw [hknown, List.cons_append] at hnodup
        have hfresh : key ∉ keys := by
          intro hmem
          exact (List.nodup_cons.mp hnodup).1 (List.mem_append_right _ hmem)
        obtain ⟨step, hstep, hread⟩ := h (key, content) hown keys hfresh
        rw [fillMembers_of_set hstep, hread, Except.bind, ih hrest (List.nodup_middle.mpr hnodup),
          hknown, List.reverse_cons, List.append_assoc, List.singleton_append]
      · have hknown : knownKeys own ((key, content) :: rest) = knownKeys own rest :=
          List.filter_cons_of_neg (by simpa using hunknown)
        rw [hknown] at hnodup
        rw [fillMembers_of_ignore (hset key hunknown) _ hsound, ih hrest hnodup, hknown]

/-- An object with members left out is read, and its draft holds the members that are there. -/
theorem Gathers.decode {shape : Shape δ} {reading inner : Reading}
    (h : Gathers (shape.set inner) own holding)
    (hset : ∀ key, key ∉ own.map Prod.fst → shape.set inner key = none)
    (hinner : reading.enter = .ok inner) (hown : (own.map Prod.fst).Nodup)
    (hpart : IsPart own dropped members) :
    ∃ keys, (∀ key ∈ own.map Prod.fst, key ∈ keys ↔ key ∉ dropped) ∧
      shape.decode (holding []) reading (.object (membersOf members) .closed) =
        .ok (holding keys) := by
  have hperm := hpart.perm_knownKeys
  have hnodup : (knownKeys own members ++ []).Nodup := by
    rw [List.append_nil, hperm.nodup_iff]
    exact hown.filter _
  refine ⟨(knownKeys own members).reverse ++ [], ?_, ?_⟩
  · intro key hkey
    rw [List.append_nil, List.mem_reverse, hperm.mem_iff, List.mem_filter, decide_eq_true_iff]
    exact and_iff_right hkey
  · rw [Shape.decode, hinner]
    exact h.fillMembers hset (fun member hmem => hpart.mem_cases hmem) hnodup

end Gathers

/-! ### Fields with defaults -/

/-- What a field holds that is filled when its key comes. -/
def held? (keys : List String) (key : String) (own : α) : Option α :=
  if key ∈ keys then some own else none

/-- A field of which the default is left if its key is dropped. -/
def kept (dropped : List String) (key : String) (own standard : α) : α :=
  if key ∈ dropped then standard else own

theorem getD_held? {keys : List String} (h : key ∈ keys ↔ key ∉ dropped) (own standard : α) :
    (held? keys key own).getD standard = kept dropped key own standard := by
  unfold held? kept
  by_cases hdropped : key ∈ dropped
  · rw [if_neg fun hkey => h.mp hkey hdropped, if_pos hdropped, Option.getD_none]
  · rw [if_pos (h.mpr hdropped), if_neg hdropped, Option.getD_some]

end Wire

end SpotWire
