import Mathlib.Data.List.Forall2
import SpotWire.Proofs.Json.Value
import SpotWire.Wire.Record

/-!
# The fields of records

A record that is read holds in each of its fields what stands under the field's key, or at the
field's place where the record is given as an array. A field is filled at most once, and reading
one field leaves the others alone.
-/

namespace SpotWire.Wire

open Json

variable {α β δ : Type}

theorem fill_eq_ok_iff {name : String} {held filled : Option α} {decode : Decoder α}
    {reading : Reading} {content : Node} :
    fill name held decode reading content = .ok filled ↔
      held = none ∧ ∃ a, decode reading content = .ok a ∧ filled = some a := by
  cases held with
  | some a => simp [fill, fail]
  | none => cases hread : decode reading content <;> simp [fill, hread, Except.map, eq_comm]

theorem fill_eq_ok {name : String} {held filled : Option α} {decode : Decoder α}
    {reading : Reading} {content : Node} (h : fill name held decode reading content = .ok filled) :
    held = none ∧ ∃ a, decode reading content = .ok a ∧ filled = some a :=
  fill_eq_ok_iff.mp h

theorem bind_fill_eq_ok_iff {name : String} {held : Option α} {decode : Decoder α}
    {reading : Reading} {content : Node} {put : Option α → δ} {next : δ} :
    (fill name held decode reading content >>= fun filled => .ok (put filled)) = .ok next ↔
      held = none ∧ ∃ a, decode reading content = .ok a ∧ next = put (some a) := by
  simp only [bind_eq_ok_iff, fill_eq_ok_iff, Except.ok.injEq]
  constructor
  · rintro ⟨_, ⟨hempty, a, hread, rfl⟩, rfl⟩
    exact ⟨hempty, a, hread, rfl⟩
  · rintro ⟨hempty, a, hread, rfl⟩
    exact ⟨_, ⟨hempty, a, hread, rfl⟩, rfl⟩

section Optional

variable {decode : Decoder α} {reading : Reading} {node : Node}

theorem optional_eq_ok {found : Option α} (h : optional decode reading node = .ok found) :
    (node = .null ∧ found = none) ∨
      (node ≠ .null ∧ ∃ data, decode reading node = .ok data ∧ found = some data) := by
  unfold optional at h
  split at h
  · exact .inl ⟨rfl, (Except.ok.inj h).symm⟩
  · cases h
  · rename_i hnull _
    cases hread : decode reading node with
    | error problem =>
        rw [hread] at h
        cases h
    | ok data =>
        rw [hread] at h
        exact .inr ⟨hnull, data, rfl, (Except.ok.inj h).symm⟩

theorem eq_none_iff_of_optional {found : Option α}
    (h : optional decode reading node = .ok found) : found = none ↔ node = .null := by
  rcases optional_eq_ok h with ⟨hnull, rfl⟩ | ⟨hne, data, -, rfl⟩
  · exact iff_of_true rfl hnull
  · exact iff_of_false nofun hne

theorem eq_some_iff_of_optional {found : Option α}
    (h : optional decode reading node = .ok found) (data : α) :
    found = some data ↔ node ≠ .null ∧ decode reading node = .ok data := by
  rcases optional_eq_ok h with ⟨hnull, rfl⟩ | ⟨hne, own, hread, rfl⟩
  · exact iff_of_false nofun fun hdata => hdata.1 hnull
  · rw [hread, Option.some_inj, Except.ok.injEq]
    exact ⟨fun heq => ⟨hne, heq⟩, And.right⟩

/-- Whether data may be missing does not depend on what they are. -/
theorem optional_of_optional {other : Decoder β} {found : Option β}
    (h : optional other reading node = .ok found) (hne : node ≠ .null) :
    optional decode reading node = (decode reading node).map some := by
  unfold optional at h
  split at h
  · exact absurd rfl hne
  · cases h
  · rename_i hbroken
    unfold optional
    split
    · exact absurd rfl hne
    · exact absurd rfl (hbroken _)
    · rfl

end Optional

/-! ### Lists -/

section Lists

variable {decode : Decoder α} {reading : Reading} {nodes : List Node} {ending : Ending}
  {as : List α}

theorem items_eq_ok_iff :
    items decode reading nodes ending = .ok as ↔
      ending.readFault? = none ∧
        List.Forall₂ (fun node a => decode reading node = .ok a) nodes as := by
  induction nodes generalizing as with
  | nil => cases hending : ending.readFault? <;> simp [items, hending, eq_comm]
  | cons node rest ih =>
      rw [items, bind_eq_ok_iff, List.forall₂_cons_left_iff]
      constructor
      · rintro ⟨a, hnode, h⟩
        obtain ⟨others, hothers, h⟩ := bind_eq_ok h
        obtain rfl := Except.ok.inj h
        obtain ⟨hending, hothers⟩ := ih.mp hothers
        exact ⟨hending, a, others, hnode, hothers, rfl⟩
      · rintro ⟨hending, a, others, hnode, hothers, rfl⟩
        refine ⟨a, hnode, ?_⟩
        rw [ih.mpr ⟨hending, hothers⟩]
        rfl

theorem exists_forall₂_iff {R : α → β → Prop} :
    (∃ bs, List.Forall₂ R as bs) ↔ ∀ a ∈ as, ∃ b, R a b := by
  induction as with
  | nil => simp
  | cons a as ih =>
      rw [List.forall_mem_cons, ← ih]
      constructor
      · rintro ⟨bs, h⟩
        obtain ⟨b, rest, hhead, htail, rfl⟩ := List.forall₂_cons_left_iff.mp h
        exact ⟨⟨b, hhead⟩, ⟨rest, htail⟩⟩
      · rintro ⟨⟨b, hhead⟩, ⟨bs, htail⟩⟩
        exact ⟨b :: bs, .cons hhead htail⟩

end Lists

/-- What stands in a field of a record: under its key in an object, at its place in an array. -/
inductive Holds (key : String) (place : Nat) : Node → Node → Prop where
  | member {members : List (Except Fault String × Node)} {ending : Ending} {content : Node}
      (hmem : (.ok key, content) ∈ members) : Holds key place (.object members ending) content
  | item {items : List Node} {ending : Ending} {content : Node}
      (hitem : items[place]? = some content) : Holds key place (.array items ending) content

@[simp]
theorem holds_object_iff {key : String} {place : Nat} {ending : Ending} {content : Node}
    {members : List (Except Fault String × Node)} :
    Holds key place (.object members ending) content ↔ (.ok key, content) ∈ members :=
  ⟨fun h => by cases h; assumption, .member⟩

@[simp]
theorem holds_array_iff {key : String} {place : Nat} {ending : Ending} {content : Node}
    {items : List Node} :
    Holds key place (.array items ending) content ↔ items[place]? = some content :=
  ⟨fun h => by cases h; assumption, .item⟩

/-! ### Steps -/

section Steps

variable (get : δ → Option β) (read : Node → Except Problem β)

/-- A step that fills a field, which has been empty, with what its content is read as. -/
def Fills (step : δ → Node → Except Problem δ) : Prop :=
  ∀ draft content next, step draft content = .ok next →
    get draft = none ∧ ∃ b, read content = .ok b ∧ get next = some b

/-- A step that leaves a field as it is. -/
def Keeps (step : δ → Node → Except Problem δ) : Prop :=
  ∀ draft content next, step draft content = .ok next → get next = get draft

end Steps

variable {get : δ → Option β} {read : Node → Except Problem β}

theorem fills_fill (name : String) (decode : Decoder β) (reading : Reading)
    (put : δ → Option β → δ) (hput : ∀ draft filled, get (put draft filled) = filled) :
    Fills get (decode reading) fun draft content =>
      (fill name (get draft) decode reading content).bind fun filled =>
        .ok (put draft filled) := by
  intro draft content next h
  obtain ⟨filled, hfilled, h⟩ := bind_eq_ok h
  obtain ⟨hempty, b, hread, rfl⟩ := fill_eq_ok hfilled
  obtain rfl := Except.ok.inj h
  exact ⟨hempty, b, hread, hput draft (some b)⟩

theorem keeps_fill (name : String) (held : δ → Option α) (decode : Decoder α) (reading : Reading)
    (put : δ → Option α → δ) (hput : ∀ draft filled, get (put draft filled) = get draft) :
    Keeps get fun draft content =>
      (fill name (held draft) decode reading content).bind fun filled =>
        .ok (put draft filled) := by
  intro draft content next h
  obtain ⟨filled, -, h⟩ := bind_eq_ok h
  obtain rfl := Except.ok.inj h
  exact hput draft filled

/-! ### Objects -/

section Objects

variable {set : String → Option (δ → Node → Except Problem δ)} {key : String}
  {step : δ → Node → Except Problem δ} {draft last : δ} {ending : Ending}

theorem fillMembers_cons_eq_ok {name : Except Fault String} {content : Node}
    {rest : List (Except Fault String × Node)}
    (h : fillMembers set draft ((name, content) :: rest) ending = .ok last) :
    ∃ known next, name = .ok known ∧ fillMembers set next rest ending = .ok last ∧
      ((∃ step, set known = some step ∧ step draft content = .ok next) ∨
        (set known = none ∧ next = draft)) := by
  rw [fillMembers] at h
  obtain ⟨known, hknown, h⟩ := bind_eq_ok h
  have hname : name = .ok known := by
    cases name with
    | error fault => cases hknown
    | ok text => exact congrArg Except.ok (Except.ok.inj hknown)
  cases hset : set known with
  | none =>
      simp only [hset] at h
      obtain ⟨-, -, h⟩ := bind_eq_ok h
      exact ⟨known, draft, hname, h, .inr ⟨hset, rfl⟩⟩
  | some step =>
      simp only [hset] at h
      obtain ⟨next, hnext, h⟩ := bind_eq_ok h
      exact ⟨known, next, hname, h, .inl ⟨step, hset, hnext⟩⟩

/-- Every member of a known key has been read. -/
theorem exists_step_of_mem (hset : set key = some step)
    {members : List (Except Fault String × Node)} {content : Node}
    (hmem : (.ok key, content) ∈ members)
    (h : fillMembers set draft members ending = .ok last) :
    ∃ before after, step before content = .ok after := by
  induction members generalizing draft with
  | nil => cases hmem
  | cons member rest ih =>
      obtain ⟨name, found⟩ := member
      obtain ⟨known, next, rfl, hrest, hnext⟩ := fillMembers_cons_eq_ok h
      rcases List.mem_cons.mp hmem with heq | hmem
      · obtain ⟨hkey, rfl⟩ := Prod.ext_iff.mp heq
        obtain rfl : key = known := Except.ok.inj hkey
        rcases hnext with ⟨own, hown, hstep⟩ | ⟨hnone, -⟩
        · obtain rfl : step = own := Option.some.inj (hset.symm.trans hown)
          exact ⟨draft, next, hstep⟩
        · rw [hset] at hnone
          cases hnone
      · exact ih hmem hrest

/-- Members without a key leave its field as it is. -/
theorem get_fillMembers_of_not_mem (hset : set key = some step)
    (hothers : ∀ other step, other ≠ key → set other = some step → Keeps get step)
    {members : List (Except Fault String × Node)}
    (hnot : ∀ content, (.ok key, content) ∉ members)
    (h : fillMembers set draft members ending = .ok last) : get last = get draft := by
  induction members generalizing draft with
  | nil =>
      rw [fillMembers] at h
      split at h
      · cases h
        rfl
      · cases h
  | cons member rest ih =>
      obtain ⟨name, content⟩ := member
      obtain ⟨known, next, rfl, hrest, hnext⟩ := fillMembers_cons_eq_ok h
      have hne : known ≠ key := by
        rintro rfl
        exact hnot content List.mem_cons_self
      have hlast := ih (fun other hmem => hnot other (List.mem_cons_of_mem _ hmem)) hrest
      rcases hnext with ⟨other, hother, hstep⟩ | ⟨-, rfl⟩
      · rw [hlast]
        exact hothers known other hne hother draft content next hstep
      · exact hlast

/-- Members with a key fill its field, which has been empty. -/
theorem get_fillMembers_of_mem (hset : set key = some step) (hfills : Fills get read step)
    (hothers : ∀ other step, other ≠ key → set other = some step → Keeps get step)
    {members : List (Except Fault String × Node)} {content : Node}
    (hmem : (.ok key, content) ∈ members)
    (h : fillMembers set draft members ending = .ok last) :
    get draft = none ∧ ∃ b, read content = .ok b ∧ get last = some b := by
  induction members generalizing draft content with
  | nil => cases hmem
  | cons member rest ih =>
      obtain ⟨name, found⟩ := member
      obtain ⟨known, next, rfl, hrest, hnext⟩ := fillMembers_cons_eq_ok h
      by_cases hkey : known = key
      · subst hkey
        rcases hnext with ⟨own, hown, hstep⟩ | ⟨hnone, -⟩
        · obtain rfl : step = own := Option.some.inj (hset.symm.trans hown)
          obtain ⟨hempty, b, hread, hget⟩ := hfills draft found next hstep
          -- the field is full now, so the key does not come again
          have hnot : ∀ other, (.ok known, other) ∉ rest := by
            intro other hother
            have hnone := (ih hother hrest).1
            rw [hget] at hnone
            cases hnone
          rcases List.mem_cons.mp hmem with heq | hmem
          · obtain ⟨-, rfl⟩ := Prod.ext_iff.mp heq
            refine ⟨hempty, b, hread, ?_⟩
            rw [get_fillMembers_of_not_mem hset hothers hnot hrest, hget]
          · exact absurd hmem (hnot content)
        · rw [hset] at hnone
          cases hnone
      · have hrestmem : (.ok key, content) ∈ rest := by
          rcases List.mem_cons.mp hmem with heq | hmem
          · exact absurd (Except.ok.inj (Prod.ext_iff.mp heq).1).symm hkey
          · exact hmem
        obtain ⟨hempty, hlast⟩ := ih hrestmem hrest
        refine ⟨?_, hlast⟩
        rcases hnext with ⟨other, hother, hstep⟩ | ⟨-, rfl⟩
        · rw [← hothers known other hkey hother draft found next hstep]
          exact hempty
        · exact hempty

end Objects

/-! ### Arrays -/

section Arrays

variable {expected : String} {index place : Nat} {own : Place δ} {places : List (Place δ)}
  {draft last : δ} {items left : List Node} {ending : Ending}

theorem get_fillPlaces_of_keeps (hkeeps : ∀ other ∈ places, Keeps get other.read)
    (h : fillPlaces expected index draft places items ending = .ok (last, left)) :
    get last = get draft := by
  induction places generalizing index draft items with
  | nil =>
      cases h
      rfl
  | cons first places ih =>
      have hrest := fun other hmem => hkeeps other (List.mem_cons_of_mem first hmem)
      cases items with
      | nil =>
          rw [fillPlaces] at h
          split at h
          · cases h
          split at h
          · exact ih hrest h
          · cases h
      | cons item items =>
          rw [fillPlaces] at h
          obtain ⟨next, hnext, h⟩ := bind_eq_ok h
          rw [ih hrest h]
          exact hkeeps first List.mem_cons_self draft item next hnext

/-- Places beyond the end of an array leave their fields empty. -/
theorem eq_of_fillPlaces_nil
    (h : fillPlaces expected index draft places [] ending = .ok (last, left)) : last = draft := by
  induction places generalizing index with
  | nil =>
      cases h
      rfl
  | cons first places ih =>
      rw [fillPlaces] at h
      split at h
      · cases h
      split at h
      · exact ih h
      · cases h

theorem get_fillPlaces (hown : places[place]? = some own) (hfills : Fills get read own.read)
    (hothers : ∀ other found, other ≠ place → places[other]? = some found → Keeps get found.read)
    (h : fillPlaces expected index draft places items ending = .ok (last, left)) :
    (∀ content, items[place]? = some content → ∃ b, read content = .ok b ∧ get last = some b) ∧
      (items[place]? = none → get last = get draft) := by
  induction places generalizing index place draft items with
  | nil => cases hown
  | cons first places ih =>
      cases items with
      | nil =>
          refine ⟨fun content hitem => by simp at hitem, fun _ => ?_⟩
          rw [eq_of_fillPlaces_nil h]
      | cons item items =>
          rw [fillPlaces] at h
          obtain ⟨next, hnext, h⟩ := bind_eq_ok h
          cases place with
          | zero =>
              obtain rfl : first = own := by simpa using hown
              obtain ⟨-, b, hread, hget⟩ := hfills draft item next hnext
              have hkeeps : ∀ other ∈ places, Keeps get other.read := by
                intro other hmem
                obtain ⟨found, hfound⟩ := List.mem_iff_getElem?.mp hmem
                exact hothers (found + 1) other (Nat.succ_ne_zero found) (by simpa using hfound)
              refine ⟨?_, fun hnone => by simp at hnone⟩
              intro content hitem
              obtain rfl : item = content := by simpa using hitem
              exact ⟨b, hread, by rw [get_fillPlaces_of_keeps hkeeps h, hget]⟩
          | succ place =>
              have hkept : get next = get draft :=
                hothers 0 first (Nat.succ_ne_zero place).symm (by simp) draft item next hnext
              have hothers' : ∀ other found, other ≠ place → places[other]? = some found →
                  Keeps get found.read := by
                intro other found hne hfound
                refine hothers (other + 1) found (fun heq => hne (Nat.succ.inj heq)) ?_
                simpa using hfound
              have hrest := ih (by simpa using hown) hothers' h
              rw [hkept] at hrest
              simpa using hrest

end Arrays

/-! ### Records -/

/-- A field of a record by its key, its place, what it is in a draft and how its content is read. -/
structure Shape.HasField (shape : Shape δ) (reading : Reading) (key : String) (place : Nat)
    (get : δ → Option β) (read : Node → Except Problem β) : Prop where
  member : ∃ step, shape.set reading key = some step ∧ Fills get read step
  otherMembers : ∀ other step, other ≠ key → shape.set reading other = some step → Keeps get step
  item : ∃ own, (shape.places reading)[place]? = some own ∧ Fills get read own.read
  otherItems : ∀ other found, other ≠ place → (shape.places reading)[other]? = some found →
    Keeps get found.read

theorem Shape.decode_eq_ok {shape : Shape δ} {empty last : δ} {reading : Reading} {root : Node}
    (h : shape.decode empty reading root = .ok last) :
    ∃ inner, reading.enter = .ok inner ∧
      ∀ {β : Type} (key : String) (place : Nat) (get : δ → Option β)
        (read : Node → Except Problem β), shape.HasField inner key place get read →
        (∀ content, Holds key place root content →
          ∃ b, read content = .ok b ∧ get last = some b) ∧
        ((∀ content, ¬Holds key place root content) → get last = get empty) := by
  unfold Shape.decode at h
  split at h
  · rename_i members ending
    obtain ⟨inner, hinner, h⟩ := bind_eq_ok h
    refine ⟨inner, hinner, ?_⟩
    intro β key place get read hfield
    obtain ⟨step, hset, hfills⟩ := hfield.member
    refine ⟨?_, fun hnone => ?_⟩
    · rintro content ⟨hmem⟩
      exact (get_fillMembers_of_mem hset hfills hfield.otherMembers hmem h).2
    · exact get_fillMembers_of_not_mem hset hfield.otherMembers
        (fun content hmem => hnone content (.member hmem)) h
  · rename_i nodes ending
    obtain ⟨inner, hinner, h⟩ := bind_eq_ok h
    obtain ⟨⟨draft, left⟩, hplaces, h⟩ := bind_eq_ok h
    have hdraft : draft = last := by
      simp only at h
      split at h
      · split at h
        · exact Except.ok.inj h
        · cases h
      · obtain ⟨-, -, h⟩ := bind_eq_ok h
        exact Except.ok.inj h
    subst hdraft
    refine ⟨inner, hinner, ?_⟩
    intro β key place get read hfield
    obtain ⟨own, hown, hfills⟩ := hfield.item
    have hget := get_fillPlaces hown hfills hfield.otherItems hplaces
    refine ⟨?_, fun hnone => ?_⟩
    · rintro content ⟨⟩
      rename_i hitem
      exact hget.1 content hitem
    · refine hget.2 ?_
      rw [Option.eq_none_iff_forall_ne_some]
      exact fun content hitem => hnone content (.item hitem)
  · obtain ⟨found, -, h⟩ := bind_eq_ok h
    cases h

end SpotWire.Wire
