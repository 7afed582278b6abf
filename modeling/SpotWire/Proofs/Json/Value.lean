import SpotWire.Json.Node
import SpotWire.Proofs.Json.Members

/-!
# The values of nodes

A node has the same value for every number of levels that is more than its own, and no value for
a smaller one. The objects of a value have their members in key order, and such a value is the
value of its own node.
-/

namespace SpotWire.Json

/-! ### Answers that may fail -/

section Answers

variable {ε α β : Type}

theorem bind_eq_ok_iff {first : Except ε α} {next : α → Except ε β} {b : β} :
    (first >>= next) = .ok b ↔ ∃ a, first = .ok a ∧ next a = .ok b := by
  constructor
  · intro h
    cases first with
    | error fault => cases h
    | ok a => exact ⟨a, rfl, h⟩
  · rintro ⟨a, rfl, h⟩
    exact h

theorem bind_eq_ok {first : Except ε α} {next : α → Except ε β} {b : β}
    (h : (first >>= next) = .ok b) : ∃ a, first = .ok a ∧ next a = .ok b :=
  bind_eq_ok_iff.mp h

theorem map_eq_ok {first : Except ε α} {wrap : α → β} {b : β} (h : first.map wrap = .ok b) :
    ∃ a, first = .ok a ∧ b = wrap a := by
  cases first with
  | error fault => cases h
  | ok a => exact ⟨a, rfl, (Except.ok.inj h).symm⟩

end Answers

/-! ### Values -/

namespace Number

/-- A number that is kept as a whole number fits 64 bits. -/
def Fits : Number → Prop
  | .integer n => Whole n
  | .real _ => True

def IsInteger : Number → Prop
  | .integer _ => True
  | .real _ => False

def IsWhole (number : Number) : Prop :=
  number.Fits ∧ number.IsInteger

end Number

namespace Value

theorem induction {P : Value → Prop} (null : P .null) (bool : ∀ value, P (.bool value))
    (number : ∀ number, P (.number number)) (string : ∀ text, P (.string text))
    (array : ∀ items, (∀ item ∈ items, P item) → P (.array items))
    (object : ∀ members, (∀ member ∈ members, P member.2) → P (.object members))
    (value : Value) : P value := by
  refine Value.rec (motive_1 := P) (motive_2 := fun items => ∀ item ∈ items, P item)
    (motive_3 := fun members => ∀ member ∈ members, P member.2)
    (motive_4 := fun member => P member.2) null bool number string array object
    ?_ ?_ ?_ ?_ ?_ value
  · exact List.forall_mem_nil _
  · intro item items hitem hitems
    exact List.forall_mem_cons.mpr ⟨hitem, hitems⟩
  · exact List.forall_mem_nil _
  · intro member members hmember hmembers
    exact List.forall_mem_cons.mpr ⟨hmember, hmembers⟩
  · intro key value hvalue
    exact hvalue

/-- Every number in a value has a property. -/
inductive AllNumbers (P : Number → Prop) : Value → Prop where
  | null : AllNumbers P .null
  | bool (value : Bool) : AllNumbers P (.bool value)
  | number {number : Number} (h : P number) : AllNumbers P (.number number)
  | string (text : String) : AllNumbers P (.string text)
  | array {items : List Value} (h : ∀ item ∈ items, AllNumbers P item) :
      AllNumbers P (.array items)
  | object {members : List (String × Value)} (h : ∀ member ∈ members, AllNumbers P member.2) :
      AllNumbers P (.object members)

section AllNumbers

variable {P : Number → Prop}

@[simp]
theorem allNumbers_null : AllNumbers P .null :=
  .null

@[simp]
theorem allNumbers_bool (value : Bool) : AllNumbers P (.bool value) :=
  .bool value

@[simp]
theorem allNumbers_string (text : String) : AllNumbers P (.string text) :=
  .string text

@[simp]
theorem allNumbers_number {number : Number} : AllNumbers P (.number number) ↔ P number :=
  ⟨fun h => by cases h; assumption, .number⟩

@[simp]
theorem allNumbers_array {items : List Value} :
    AllNumbers P (.array items) ↔ ∀ item ∈ items, item.AllNumbers P :=
  ⟨fun h => by cases h; assumption, .array⟩

@[simp]
theorem allNumbers_object {members : List (String × Value)} :
    AllNumbers P (.object members) ↔ ∀ member ∈ members, member.2.AllNumbers P :=
  ⟨fun h => by cases h; assumption, .object⟩

end AllNumbers

/-- No number in a value is of the binary format. -/
def HasNoReal (value : Value) : Prop :=
  value.AllNumbers Number.IsInteger

/-- Objects hold each key once, in key order. -/
inductive Ordered : Value → Prop where
  | null : Ordered .null
  | bool (value : Bool) : Ordered (.bool value)
  | number (number : Number) : Ordered (.number number)
  | string (text : String) : Ordered (.string text)
  | array {items : List Value} (h : ∀ item ∈ items, Ordered item) : Ordered (.array items)
  | object {members : List (String × Value)} (hkeys : Members.Ordered members)
      (h : ∀ member ∈ members, Ordered member.2) : Ordered (.object members)

/-- What every value is that a program holds: its whole numbers fit 64 bits, and its objects have
each key once. -/
structure WellFormed (value : Value) : Prop where
  fits : value.AllNumbers Number.Fits
  ordered : value.Ordered

/-- All numbers of a value are kept as whole numbers. -/
def HoldsWhole (value : Value) : Prop :=
  value.AllNumbers Number.IsWhole

theorem AllNumbers.holdsWhole {value : Value} (h : value.AllNumbers Number.Fits)
    (h' : value.HasNoReal) : value.HoldsWhole := by
  unfold HasNoReal at h'
  unfold HoldsWhole
  induction value using Value.induction with
  | null | bool | string => simp
  | number number =>
      rw [allNumbers_number] at h h' ⊢
      exact ⟨h, h'⟩
  | array items ih =>
      rw [allNumbers_array] at h h' ⊢
      exact fun item hmem => ih item hmem (h item hmem) (h' item hmem)
  | object members ih =>
      rw [allNumbers_object] at h h' ⊢
      exact fun member hmem => ih member hmem (h member hmem) (h' member hmem)

theorem holdsWhole_ofWord (n : UInt32) : (ofWord n).HoldsWhole := by
  have hlt := n.toNat_lt
  refine .number ⟨⟨?_, ?_⟩, trivial⟩
  · unfold Numeric.int64Min
    omega
  · unfold Numeric.word64Max
    omega

theorem holdsWhole_ofOption {α : Type} {encode : α → Value} {data : Option α}
    (h : ∀ a, data = some a → (encode a).HoldsWhole) : (ofOption encode data).HoldsWhole := by
  cases data with
  | none => exact .null
  | some a => exact h a rfl

theorem holdsWhole_optionalWord (n : Option UInt32) : (ofOption ofWord n).HoldsWhole :=
  holdsWhole_ofOption fun n _ => holdsWhole_ofWord n

/-- How deep arrays and objects stand in each other. -/
def levels (value : Value) : Nat :=
  (Node.ofValue value).levels

end Value

namespace Node

theorem ofItems_eq_map (items : List Value) : ofItems items = items.map ofValue := by
  induction items with
  | nil => rfl
  | cons item rest ih => rw [ofItems, ih, List.map_cons]

theorem ofMembers_eq_map (members : List (String × Value)) :
    ofMembers members = members.map fun member => (.ok member.1, ofValue member.2) := by
  induction members with
  | nil => rfl
  | cons member rest ih => rw [ofMembers, ih, List.map_cons]

theorem induction {P : Node → Prop} (null : P .null) (bool : ∀ value, P (.bool value))
    (number : ∀ number, P (.number number)) (string : ∀ text, P (.string text))
    (array : ∀ items ending, (∀ item ∈ items, P item) → P (.array items ending))
    (object : ∀ members ending, (∀ member ∈ members, P member.2) → P (.object members ending))
    (broken : ∀ opening breach, P (.broken opening breach)) (node : Node) : P node := by
  refine Node.rec (motive_1 := P) (motive_2 := fun items => ∀ item ∈ items, P item)
    (motive_3 := fun members => ∀ member ∈ members, P member.2)
    (motive_4 := fun member => P member.2) null bool number string
    (fun items ending h => array items ending h)
    (fun members ending h => object members ending h) broken ?_ ?_ ?_ ?_ ?_ node
  · exact List.forall_mem_nil _
  · intro item items hitem hitems
    exact List.forall_mem_cons.mpr ⟨hitem, hitems⟩
  · exact List.forall_mem_nil _
  · intro member members hmember hmembers
    exact List.forall_mem_cons.mpr ⟨hmember, hmembers⟩
  · intro key node hnode
    exact hnode

/-- Every number in a node has a property. -/
inductive AllNumbers (P : Number → Prop) : Node → Prop where
  | null : AllNumbers P .null
  | bool (value : Bool) : AllNumbers P (.bool value)
  | number {read : Except Fault Number} (h : ∀ number, read = .ok number → P number) :
      AllNumbers P (.number read)
  | string (read : Except Fault String) : AllNumbers P (.string read)
  | array {items : List Node} (ending : Ending) (h : ∀ item ∈ items, AllNumbers P item) :
      AllNumbers P (.array items ending)
  | object {members : List (Except Fault String × Node)} (ending : Ending)
      (h : ∀ member ∈ members, AllNumbers P member.2) : AllNumbers P (.object members ending)
  | broken (opening : Opening) (breach : Breach) : AllNumbers P (.broken opening breach)

/-! ### Levels -/

section Levels

variable {node : Node} {items : List Node} {members : List (Except Fault String × Node)}
  {bound : Nat}

theorem itemLevels_le_iff : itemLevels items ≤ bound ↔ ∀ item ∈ items, item.levels ≤ bound := by
  induction items with
  | nil => simp [itemLevels]
  | cons item rest ih => rw [itemLevels, Nat.max_le, ih, List.forall_mem_cons]

theorem memberLevels_le_iff :
    memberLevels members ≤ bound ↔ ∀ member ∈ members, member.2.levels ≤ bound := by
  induction members with
  | nil => simp [memberLevels]
  | cons member rest ih => rw [memberLevels, Nat.max_le, ih, List.forall_mem_cons]

theorem le_itemLevels {item : Node} (hmem : item ∈ items) : item.levels ≤ itemLevels items :=
  itemLevels_le_iff.mp (Nat.le_refl _) item hmem

theorem le_memberLevels {member : Except Fault String × Node} (hmem : member ∈ members) :
    member.2.levels ≤ memberLevels members :=
  memberLevels_le_iff.mp (Nat.le_refl _) member hmem

theorem levels_lt_array {value : Value} {values : List Value} (hmem : value ∈ values) :
    value.levels < (Value.array values).levels := by
  rw [Value.levels, Value.levels, ofValue, levels, ofItems_eq_map]
  exact Nat.lt_succ_of_le (le_itemLevels (List.mem_map_of_mem hmem))

theorem levels_lt_object {member : String × Value} {values : List (String × Value)}
    (hmem : member ∈ values) : member.2.levels < (Value.object values).levels := by
  rw [Value.levels, Value.levels, ofValue, levels, ofMembers_eq_map]
  have hnode : (.ok member.1, ofValue member.2) ∈
      values.map fun member => ((.ok member.1 : Except Fault String), ofValue member.2) :=
    List.mem_map.mpr ⟨member, hmem, rfl⟩
  exact Nat.lt_succ_of_le (le_memberLevels hnode)

theorem levels_array_pos (values : List Value) : 0 < (Value.array values).levels := by
  rw [Value.levels, ofValue, levels]
  exact Nat.succ_pos _

theorem levels_object_pos (values : List (String × Value)) :
    0 < (Value.object values).levels := by
  rw [Value.levels, ofValue, levels]
  exact Nat.succ_pos _

end Levels

/-! ### Values of nodes -/

section Values

variable {node : Node} {items : List Node} {members : List (Except Fault String × Node)}
  {ending : Ending} {depth : Nat} {value : Value}

theorem itemValues_eq_ok {values : List Value} (h : itemValues depth items ending = .ok values) :
    (∀ item ∈ items, ∃ value, item.value depth = .ok value) ∧
      ∀ value ∈ values, ∃ item ∈ items, item.value depth = .ok value := by
  induction items generalizing values with
  | nil =>
      rw [itemValues] at h
      split at h
      · cases h
        simp
      · cases h
  | cons item rest ih =>
      obtain ⟨value, hvalue, h⟩ := bind_eq_ok h
      obtain ⟨others, hothers, h⟩ := bind_eq_ok h
      cases h
      obtain ⟨hread, hfound⟩ := ih hothers
      refine ⟨List.forall_mem_cons.mpr ⟨⟨value, hvalue⟩, hread⟩, List.forall_mem_cons.mpr ⟨?_, ?_⟩⟩
      · exact ⟨item, List.mem_cons_self, hvalue⟩
      · intro other hmem
        obtain ⟨own, hown, hvalue⟩ := hfound other hmem
        exact ⟨own, List.mem_cons_of_mem item hown, hvalue⟩

theorem memberValues_eq_ok {values : List (String × Value)}
    (h : memberValues depth members ending = .ok values) :
    (∀ member ∈ members, ∃ value, member.2.value depth = .ok value) ∧
      ∀ found ∈ values, ∃ node, (.ok found.1, node) ∈ members ∧
        node.value depth = .ok found.2 := by
  induction members generalizing values with
  | nil =>
      rw [memberValues] at h
      split at h
      · cases h
        simp
      · cases h
  | cons member rest ih =>
      obtain ⟨name, node⟩ := member
      obtain ⟨key, hkey, h⟩ := bind_eq_ok h
      obtain ⟨value, hvalue, h⟩ := bind_eq_ok h
      obtain ⟨others, hothers, h⟩ := bind_eq_ok h
      cases h
      obtain ⟨hread, hfound⟩ := ih hothers
      refine ⟨List.forall_mem_cons.mpr ⟨⟨value, hvalue⟩, hread⟩, List.forall_mem_cons.mpr ⟨?_, ?_⟩⟩
      · exact ⟨node, hkey ▸ List.mem_cons_self, hvalue⟩
      · intro other hmem
        obtain ⟨own, hown, hvalue⟩ := hfound other hmem
        exact ⟨own, List.mem_cons_of_mem _ hown, hvalue⟩

theorem value_array_eq_ok (h : (Node.array items ending).value depth = .ok value) :
    1 < depth ∧ (∀ item ∈ items, ∃ value, item.value (depth - 1) = .ok value) ∧
      ∃ values, value = .array values ∧
        ∀ value ∈ values, ∃ item ∈ items, item.value (depth - 1) = .ok value := by
  rw [Node.value] at h
  split at h
  · cases h
  · obtain ⟨values, hvalues, rfl⟩ := map_eq_ok h
    obtain ⟨hread, hfound⟩ := itemValues_eq_ok hvalues
    exact ⟨by omega, hread, values, rfl, hfound⟩

theorem value_object_eq_ok (h : (Node.object members ending).value depth = .ok value) :
    1 < depth ∧ (∀ member ∈ members, ∃ value, member.2.value (depth - 1) = .ok value) ∧
      ∃ found, value = .object found ∧ Members.Ordered found ∧
        ∀ member ∈ found, ∃ node, (.ok member.1, node) ∈ members ∧
          node.value (depth - 1) = .ok member.2 := by
  rw [Node.value] at h
  split at h
  · cases h
  · obtain ⟨values, hvalues, rfl⟩ := map_eq_ok h
    obtain ⟨hread, hfound⟩ := memberValues_eq_ok hvalues
    exact ⟨by omega, hread, _, rfl, Members.ordered_ofList values,
      fun member hmem => hfound member (Members.mem_of_mem_ofList hmem)⟩

theorem eq_null_of_value (h : node.value depth = .ok .null) : node = .null := by
  cases node with
  | null => rfl
  | bool | broken => cases h
  | number read =>
      obtain ⟨number, -, hvalue⟩ := map_eq_ok h
      cases hvalue
  | string read =>
      obtain ⟨text, -, hvalue⟩ := map_eq_ok h
      cases hvalue
  | array items ending =>
      obtain ⟨-, -, values, hvalue, -⟩ := value_array_eq_ok h
      cases hvalue
  | object members ending =>
      obtain ⟨-, -, found, hvalue, -⟩ := value_object_eq_ok h
      cases hvalue

/-- Only a text is read as a text. -/
theorem eq_string_of_value {text : String} (h : node.value depth = .ok (.string text)) :
    node = .string (.ok text) := by
  cases node with
  | null | bool | broken => cases h
  | number content =>
      obtain ⟨number, -, hfound⟩ := map_eq_ok h
      cases hfound
  | string content =>
      obtain ⟨found, rfl, hfound⟩ := map_eq_ok h
      rw [Value.string.inj hfound]
  | array items ending =>
      obtain ⟨-, -, values, hfound, -⟩ := value_array_eq_ok h
      cases hfound
  | object members ending =>
      obtain ⟨-, -, members, hfound, -⟩ := value_object_eq_ok h
      cases hfound

/-- What the value of a node is like that is read with a number of levels. -/
structure HasValue (node : Node) (depth : Nat) (value : Value) : Prop where
  levels_lt : node.levels < depth
  levels_le : value.levels ≤ node.levels
  ordered : value.Ordered
  allNumbers : ∀ P, node.AllNumbers P → value.AllNumbers P

theorem hasValue_array {values : List Value} (hdepth : 1 < depth)
    (hitems : ∀ item ∈ items, item.levels < depth - 1)
    (h : ∀ value ∈ values, ∃ item ∈ items, item.HasValue (depth - 1) value) :
    (Node.array items ending).HasValue depth (.array values) where
  levels_lt := by
    have hlevels : itemLevels items ≤ depth - 2 := itemLevels_le_iff.mpr fun item hmem => by
      have hitem := hitems item hmem
      omega
    rw [levels]
    omega
  levels_le := by
    rw [Value.levels, ofValue, levels, levels, ofItems_eq_map]
    refine Nat.succ_le_succ (itemLevels_le_iff.mpr ?_)
    intro other hmem
    obtain ⟨value, hvalue, rfl⟩ := List.mem_map.mp hmem
    obtain ⟨item, hitem, hread⟩ := h value hvalue
    exact Nat.le_trans hread.levels_le (le_itemLevels hitem)
  ordered := .array fun value hvalue => by
    obtain ⟨item, -, hread⟩ := h value hvalue
    exact hread.ordered
  allNumbers P hnumbers := .array fun value hvalue => by
    obtain ⟨item, hitem, hread⟩ := h value hvalue
    cases hnumbers with
    | array _ hitems => exact hread.allNumbers P (hitems item hitem)

theorem hasValue_object {found : List (String × Value)} (hdepth : 1 < depth)
    (hmembers : ∀ member ∈ members, member.2.levels < depth - 1) (hkeys : Members.Ordered found)
    (h : ∀ member ∈ found, ∃ node, (.ok member.1, node) ∈ members ∧
      node.HasValue (depth - 1) member.2) :
    (Node.object members ending).HasValue depth (.object found) where
  levels_lt := by
    have hlevels : memberLevels members ≤ depth - 2 :=
      memberLevels_le_iff.mpr fun member hmem => by
        have hmember := hmembers member hmem
        omega
    rw [levels]
    omega
  levels_le := by
    rw [Value.levels, ofValue, levels, levels, ofMembers_eq_map]
    refine Nat.succ_le_succ (memberLevels_le_iff.mpr ?_)
    intro other hmem
    obtain ⟨member, hmember, rfl⟩ := List.mem_map.mp hmem
    obtain ⟨node, hnode, hread⟩ := h member hmember
    exact Nat.le_trans hread.levels_le (le_memberLevels hnode)
  ordered := .object hkeys fun member hmember => by
    obtain ⟨node, -, hread⟩ := h member hmember
    exact hread.ordered
  allNumbers P hnumbers := .object fun member hmember => by
    obtain ⟨node, hnode, hread⟩ := h member hmember
    cases hnumbers with
    | object _ hmembers => exact hread.allNumbers P (hmembers _ hnode)

theorem hasValue_of_value (hdepth : 0 < depth) (h : node.value depth = .ok value) :
    node.HasValue depth value := by
  induction node using Node.induction generalizing depth value with
  | null =>
      cases h
      exact ⟨hdepth, Nat.le_refl _, .null, fun _ _ => .null⟩
  | bool content =>
      cases h
      exact ⟨hdepth, Nat.le_refl _, .bool content, fun _ _ => .bool content⟩
  | number read =>
      obtain ⟨number, rfl, rfl⟩ := map_eq_ok h
      refine ⟨hdepth, Nat.le_refl _, .number number, fun P hnumbers => ?_⟩
      cases hnumbers with
      | number hread => exact .number (hread number rfl)
  | string read =>
      obtain ⟨text, rfl, rfl⟩ := map_eq_ok h
      exact ⟨hdepth, Nat.le_refl _, .string text, fun _ _ => .string text⟩
  | array items ending ih =>
      obtain ⟨hlt, hread, values, rfl, hfound⟩ := value_array_eq_ok h
      refine hasValue_array hlt (fun item hmem => ?_) fun value hvalue => ?_
      · obtain ⟨value, hvalue⟩ := hread item hmem
        exact (ih item hmem (by omega) hvalue).levels_lt
      · obtain ⟨item, hmem, hvalue⟩ := hfound value hvalue
        exact ⟨item, hmem, ih item hmem (by omega) hvalue⟩
  | object members ending ih =>
      obtain ⟨hlt, hread, found, rfl, hkeys, hfound⟩ := value_object_eq_ok h
      refine hasValue_object hlt (fun member hmem => ?_) hkeys fun member hmem => ?_
      · obtain ⟨value, hvalue⟩ := hread member hmem
        exact (ih member hmem (by omega) hvalue).levels_lt
      · obtain ⟨node, hnode, hvalue⟩ := hfound member hmem
        exact ⟨node, hnode, ih _ hnode (by omega) hvalue⟩
  | broken => cases h

/-! ### Depths -/

theorem itemValues_congr {other : Nat}
    (h : ∀ item ∈ items, item.value depth = item.value other) :
    itemValues depth items ending = itemValues other items ending := by
  induction items with
  | nil => rfl
  | cons item rest ih =>
      obtain ⟨hitem, hrest⟩ := List.forall_mem_cons.mp h
      rw [itemValues, itemValues, hitem, ih hrest]

theorem memberValues_congr {other : Nat}
    (h : ∀ member ∈ members, member.2.value depth = member.2.value other) :
    memberValues depth members ending = memberValues other members ending := by
  induction members with
  | nil => rfl
  | cons member rest ih =>
      obtain ⟨name, node⟩ := member
      obtain ⟨hmember, hrest⟩ := List.forall_mem_cons.mp h
      rw [memberValues, memberValues, show node.value depth = node.value other from hmember,
        ih hrest]

/-- Levels that a node does not need play no part. -/
theorem value_eq_of_levels_lt {other : Nat} (h : node.levels < depth) (h' : node.levels < other) :
    node.value depth = node.value other := by
  induction node using Node.induction generalizing depth other with
  | array items ending ih =>
      rw [levels] at h h'
      rw [Node.value, Node.value, if_neg (by omega), if_neg (by omega)]
      refine congrArg _ (itemValues_congr fun item hmem => ?_)
      have hitem := le_itemLevels hmem
      exact ih item hmem (by omega) (by omega)
  | object members ending ih =>
      rw [levels] at h h'
      rw [Node.value, Node.value, if_neg (by omega), if_neg (by omega)]
      refine congrArg _ (memberValues_congr fun member hmem => ?_)
      have hmember := le_memberLevels hmem
      exact ih member hmem (by omega) (by omega)
  | null | bool | number | string | broken => rfl

theorem value_unique {other : Nat} {value' : Value} (hdepth : 0 < depth) (hother : 0 < other)
    (h : node.value depth = .ok value) (h' : node.value other = .ok value') : value = value' := by
  have hsame := value_eq_of_levels_lt (hasValue_of_value hdepth h).levels_lt
    (hasValue_of_value hother h').levels_lt
  rw [hsame, h'] at h
  exact (Except.ok.inj h).symm

/-! ### Nodes of values -/

theorem itemValues_ofItems {values : List Value}
    (h : ∀ value ∈ values, (ofValue value).value depth = .ok value) :
    itemValues depth (ofItems values) .closed = .ok values := by
  induction values with
  | nil => rfl
  | cons value rest ih =>
      obtain ⟨hvalue, hrest⟩ := List.forall_mem_cons.mp h
      rw [ofItems, itemValues, hvalue, ih hrest]
      rfl

theorem memberValues_ofMembers {values : List (String × Value)}
    (h : ∀ member ∈ values, (ofValue member.2).value depth = .ok member.2) :
    memberValues depth (ofMembers values) .closed = .ok values := by
  induction values with
  | nil => rfl
  | cons member rest ih =>
      obtain ⟨key, value⟩ := member
      obtain ⟨hvalue, hrest⟩ := List.forall_mem_cons.mp h
      rw [ofMembers, memberValues, show (ofValue value).value depth = .ok value from hvalue,
        ih hrest]
      rfl

/-- A value is the value of its own node, if there are levels enough. -/
theorem value_ofValue (hordered : value.Ordered) (h : value.levels < depth) :
    (ofValue value).value depth = .ok value := by
  induction value using Value.induction generalizing depth with
  | array values ih =>
      have hpos := levels_array_pos values
      cases hordered with
      | array hordered =>
          rw [ofValue, Node.value, if_neg (by omega), itemValues_ofItems]
          · rfl
          · intro value hmem
            have hvalue := levels_lt_array hmem
            exact ih value hmem (hordered value hmem) (by omega)
  | object members ih =>
      have hpos := levels_object_pos members
      cases hordered with
      | object hkeys hordered =>
          rw [ofValue, Node.value, if_neg (by omega), memberValues_ofMembers]
          · rw [Except.map, Members.ofList_of_ordered hkeys]
          · intro member hmem
            have hmember := levels_lt_object hmem
            exact ih member hmem (hordered member hmem) (by omega)
  | null | bool | number | string => rfl

end Values

end Node

end SpotWire.Json
