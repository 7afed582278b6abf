import SpotWire.Proofs.Json.Fits
import SpotWire.Proofs.Json.Printed
import SpotWire.Proofs.Wire.Record

/-!
# Data read from printed values

The text of a value is decoded as the node of this value is. What has been read from a text holds
well-formed values, with fewer levels than the text may have, and these are read again from their
own text.
-/

namespace SpotWire.Wire

open Json

variable {α δ : Type} {decode : Decoder α} {reading : Reading} {node : Node} {value : Value}

/-! ### Texts -/

theorem ofText_text (decode : Decoder α) (h : value.HoldsWhole) :
    ofText decode value.text = decode .ofDocument (.ofValue value) := by
  rw [ofText, Document.ofChars_text h, ofDocument]
  cases decode .ofDocument (.ofValue value) <;> rfl

theorem ofDocument_eq_ok_iff {document : Document} {a : α} :
    ofDocument decode document = .ok a ↔
      decode .ofDocument document.root = .ok a ∧ document.trailing = false := by
  rw [ofDocument, bind_eq_ok_iff]
  cases document.trailing <;> simp

theorem ofText_eq_ok {text : String} {a : α} (h : ofText decode text = .ok a) :
    ∃ root, root.AllNumbers Number.Fits ∧ decode .ofDocument root = .ok a :=
  ⟨_, Document.allNumbers_ofChars text.toList, (ofDocument_eq_ok_iff.mp h).1⟩

/-! ### Levels -/

namespace Reading

/-- A number of levels is less than what a reading may enter. -/
def Admits (reading : Reading) (levels : Nat) : Prop :=
  ∀ depth, reading.depth = some depth → levels < depth

theorem admits_ofHeld (levels : Nat) : ofHeld.Admits levels :=
  nofun

theorem admits_ofDocument {levels : Nat} (h : levels < documentDepth) :
    ofDocument.Admits levels := by
  rintro depth ⟨⟩
  exact h

theorem Admits.mono {levels fewer : Nat} (h : reading.Admits levels) (hle : fewer ≤ levels) :
    reading.Admits fewer :=
  fun depth hdepth => Nat.lt_of_le_of_lt hle (h depth hdepth)

theorem Admits.depth_pos (h : reading.Admits 0) (levels : Nat) :
    0 < reading.depth.getD (levels + 1) := by
  rcases reading with ⟨_ | depth⟩
  · exact Nat.succ_pos levels
  · exact h depth rfl

theorem Admits.enter {levels : Nat} (h : reading.Admits (levels + 1)) :
    ∃ inner, reading.enter = .ok inner ∧ inner.Admits levels := by
  rcases reading with ⟨_ | depth⟩
  · exact ⟨ofHeld, rfl, admits_ofHeld levels⟩
  · have hlt := h depth rfl
    refine ⟨⟨some (depth - 1)⟩, ?_, ?_⟩
    · simp only [Reading.enter]
      rw [if_neg (by omega)]
    · rintro _ ⟨⟩
      omega

/-- What admits an object may be entered, and then admits the object's members. -/
theorem Admits.enter_object {members : List (String × Value)}
    (h : reading.Admits (Value.object members).levels) :
    ∃ inner, reading.enter = .ok inner ∧ ∀ member ∈ members, inner.Admits member.2.levels := by
  rw [← Nat.sub_add_cancel (Node.levels_object_pos members)] at h
  obtain ⟨inner, hinner, hadmits⟩ := h.enter
  exact ⟨inner, hinner, fun member hmem =>
    hadmits.mono (Nat.le_pred_of_lt (Node.levels_lt_object hmem))⟩

theorem admits_zero_of_enter {inner : Reading} (h : reading.enter = .ok inner) :
    inner.Admits 0 := by
  rcases reading with ⟨_ | depth⟩
  · cases h
    exact nofun
  · simp only [Reading.enter] at h
    split at h
    · cases h
    · cases h
      rintro _ ⟨⟩
      omega

end Reading

/-! ### Free data -/

theorem value_ofValue (hordered : value.Ordered) (h : reading.Admits value.levels) :
    Wire.value reading (.ofValue value) = .ok value := by
  rw [Wire.value, Node.value_ofValue hordered]
  · rfl
  · rcases reading with ⟨_ | depth⟩
    · exact Nat.lt_succ_self _
    · exact h depth rfl

theorem orBroken_eq_ok {read : Except Fault α} {a : α} (h : orBroken read = .ok a) :
    read = .ok a := by
  cases read with
  | error fault => cases h
  | ok found => exact congrArg Except.ok (Except.ok.inj h)

theorem hasValue_of_value (hreading : reading.Admits 0) (h : Wire.value reading node = .ok value) :
    node.HasValue (reading.depth.getD (node.levels + 1)) value :=
  Node.hasValue_of_value (hreading.depth_pos node.levels) (orBroken_eq_ok h)

theorem admits_of_value (hreading : reading.Admits 0) (h : Wire.value reading node = .ok value) :
    reading.Admits value.levels := by
  have hvalue := hasValue_of_value hreading h
  intro depth hdepth
  have hlt := hvalue.levels_lt
  rw [hdepth, Option.getD_some] at hlt
  exact Nat.lt_of_le_of_lt hvalue.levels_le hlt

theorem wellFormed_of_value (hreading : reading.Admits 0) (hfits : node.AllNumbers Number.Fits)
    (h : Wire.value reading node = .ok value) : value.WellFormed :=
  ⟨(hasValue_of_value hreading h).allNumbers _ hfits, (hasValue_of_value hreading h).ordered⟩

theorem value_unique {other : Reading} {value' : Value} (hreading : reading.Admits 0)
    (hother : other.Admits 0) (h : Wire.value reading node = .ok value)
    (h' : Wire.value other node = .ok value') : value = value' :=
  Node.value_unique (hreading.depth_pos node.levels) (hother.depth_pos node.levels)
    (orBroken_eq_ok h) (orBroken_eq_ok h')

/-- What has been read has no need of a bound on its levels. -/
theorem value_ofHeld_of_value (hreading : reading.Admits 0)
    (h : Wire.value reading node = .ok value) : Wire.value .ofHeld node = .ok value := by
  have hlevels := (hasValue_of_value hreading h).levels_lt
  rw [Wire.value, Node.value_eq_of_levels_lt hlevels (Nat.lt_succ_self _)] at h
  exact h

/-- Levels that data do not need play no part. -/
theorem value_eq_of_levels_lt {depth other : Nat} (h : node.levels < depth)
    (h' : node.levels < other) : Wire.value ⟨some depth⟩ node = Wire.value ⟨some other⟩ node := by
  simp only [Wire.value, Option.getD_some, Node.value_eq_of_levels_lt h h']

/-! ### Simple data -/

@[simp]
theorem string_ofValue (reading : Reading) (text : String) :
    string reading (.ofValue (.string text)) = .ok text :=
  rfl

@[simp]
theorem word_ofWord (reading : Reading) (n : UInt32) :
    word reading (.ofValue (.ofWord n)) = .ok n := by
  have hmax : (n.toNat : Int) ≤ Numeric.word32Max := by
    have hlt := n.toNat_lt
    unfold Numeric.word32Max
    omega
  simp [word, Value.ofWord, Node.ofValue, integer, hmax, Except.map, Nat.toUInt32]

theorem integer_ofValue {low high n : Int} (hlow : low ≤ n) (hhigh : n ≤ high) (expected : String)
    (reading : Reading) :
    integer low high expected reading (.ofValue (.number (.integer n))) = .ok n := by
  simp [integer, Node.ofValue, hlow, hhigh]

theorem ofValue_eq_null_iff : Node.ofValue value = .null ↔ value = .null := by
  cases value <;> simp [Node.ofValue]

theorem optional_ofValue (hne : value ≠ .null) :
    optional decode reading (.ofValue value) = (decode reading (.ofValue value)).map some := by
  unfold optional
  split
  · rename_i hnull
    exact absurd (ofValue_eq_null_iff.mp hnull) hne
  · rename_i hbroken
    cases value <;> cases hbroken
  · rfl

/-- Data that may be missing are read again if the data themselves are. -/
theorem optional_ofOption {encode : α → Value} {data : Option α}
    (h : ∀ a, data = some a → encode a ≠ .null ∧ decode reading (.ofValue (encode a)) = .ok a) :
    optional decode reading (.ofValue (.ofOption encode data)) = .ok data := by
  cases data with
  | none => rfl
  | some a =>
      obtain ⟨hne, hdecode⟩ := h a rfl
      rw [Value.ofOption, optional_ofValue hne, hdecode]
      rfl

@[simp]
theorem optionalWord_ofOption (reading : Reading) (n : Option UInt32) :
    optional word reading (.ofValue (.ofOption .ofWord n)) = .ok n :=
  optional_ofOption fun n _ => ⟨nofun, word_ofWord reading n⟩

/-- A text is the variant that it names. -/
theorem variant_string {α : Type} [Named α] (reading : Reading) (name : String) :
    (variant reading (.string (.ok name)) : Except Problem α) = Named.ofName name := by
  unfold variant
  split <;> rfl

/-! ### Members -/

section Members

variable {set : String → Option (δ → Node → Except Problem δ)} {draft next : δ} {key : String}
  {step : δ → Node → Except Problem δ} {rest : List (String × Value)}

theorem fillMembers_cons (hset : set key = some step)
    (hstep : step draft (.ofValue value) = .ok next) :
    fillMembers set draft (Node.ofMembers ((key, value) :: rest)) .closed =
      fillMembers set next (Node.ofMembers rest) .closed := by
  rw [Node.ofMembers, fillMembers]
  simp only [orBroken, hset, hstep, bind, Except.bind]

/-- A member that may be left out. -/
theorem fillMembers_append_toList {encode : α → Value} {part : Option α}
    (hset : set key = some step) (hnone : part = none → next = draft)
    (hsome : ∀ a, part = some a → step draft (.ofValue (encode a)) = .ok next) :
    fillMembers set draft
        (Node.ofMembers ((part.map fun a => (key, encode a)).toList ++ rest)) .closed =
      fillMembers set next (Node.ofMembers rest) .closed := by
  cases part with
  | none =>
      rw [hnone rfl]
      rfl
  | some a => exact fillMembers_cons hset (hsome a rfl)

end Members

/-- Where every key has a field, members are read one after another. -/
theorem fillMembers_ofMembers (add : δ → String → Node → Except Problem δ) (draft : δ)
    (members : List (String × Value)) :
    fillMembers (fun key => some fun draft content => add draft key content) draft
        (Node.ofMembers members) .closed =
      members.foldlM (fun draft member => add draft member.1 (.ofValue member.2)) draft := by
  induction members generalizing draft with
  | nil => rfl
  | cons member rest ih =>
      obtain ⟨key, value⟩ := member
      rw [Node.ofMembers, fillMembers, List.foldlM_cons]
      simp only [orBroken, ih]
      rfl

theorem Shape.decode_ofValue_object {shape : Shape δ} {empty : δ} {inner : Reading}
    {members : List (String × Value)} (hinner : reading.enter = .ok inner) :
    shape.decode empty reading (.ofValue (.object members)) =
      fillMembers (shape.set inner) empty (Node.ofMembers members) .closed := by
  simp only [Node.ofValue, Shape.decode, hinner]
  rfl

theorem fillMembers_congr {add add' : δ → String → Node → Except Problem δ} {draft : δ}
    {members : List (Except Fault String × Node)} {ending : Ending}
    (h : ∀ member ∈ members, ∀ draft key, add draft key member.2 = add' draft key member.2) :
    fillMembers (fun key => some fun draft content => add draft key content) draft members ending =
      fillMembers (fun key => some fun draft content => add' draft key content) draft members
        ending := by
  induction members generalizing draft with
  | nil => rfl
  | cons member rest ih =>
      obtain ⟨name, content⟩ := member
      obtain ⟨hmember, hrest⟩ := List.forall_mem_cons.mp h
      rw [fillMembers, fillMembers]
      refine bind_congr fun key => ?_
      simp only [hmember]
      exact bind_congr fun next => ih hrest

/-- What every step keeps, all members keep. -/
theorem fillMembers_induction {P : δ → Prop} {set : String → Option (δ → Node → Except Problem δ)}
    {members : List (Except Fault String × Node)} {ending : Ending} {draft last : δ}
    (hstep : ∀ key step draft content next, set key = some step → (.ok key, content) ∈ members →
      P draft → step draft content = .ok next → P next)
    (hdraft : P draft) (h : fillMembers set draft members ending = .ok last) : P last := by
  induction members generalizing draft with
  | nil =>
      rw [fillMembers] at h
      split at h
      · cases h
        exact hdraft
      · cases h
  | cons member rest ih =>
      obtain ⟨name, content⟩ := member
      obtain ⟨key, next, rfl, hrest, hnext⟩ := fillMembers_cons_eq_ok h
      refine ih (fun other step draft content next hset hmem => ?_) ?_ hrest
      · exact hstep other step draft content next hset (List.mem_cons_of_mem _ hmem)
      · rcases hnext with ⟨step, hset, hread⟩ | ⟨-, rfl⟩
        · exact hstep key step draft content next hset List.mem_cons_self hdraft hread
        · exact hdraft

end SpotWire.Wire
