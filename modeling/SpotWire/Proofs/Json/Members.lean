import Mathlib.Data.List.Nodup
import SpotWire.Json.Members

/-!
# Members in key order

Members that are set one after another end up in key order, each key once. Setting members that
are in order already, one after another, gives the same members.
-/

namespace SpotWire.Json.Members

variable {α : Type} {key : String} {value : α} {members held : List (String × α)}

/-- A key that comes once has one value. -/
theorem eq_of_mem {κ : Type} {members : List (κ × α)} {key : κ} {other : α}
    (hnodup : (members.map Prod.fst).Nodup) (hvalue : (key, value) ∈ members)
    (hother : (key, other) ∈ members) : value = other := by
  have heq := List.inj_on_of_nodup_map hnodup hvalue hother rfl
  exact (Prod.ext_iff.mp heq).2

/-- Each key once, in key order. -/
def Ordered (members : List (String × α)) : Prop :=
  members.Pairwise fun first second => first.1 < second.1

theorem ordered_nil : Ordered ([] : List (String × α)) :=
  List.Pairwise.nil

theorem Ordered.filter (h : Ordered members) (keep : String × α → Bool) :
    Ordered (members.filter keep) :=
  List.Pairwise.filter keep h

theorem Ordered.not_mem_tail {rest : List (String × α)} (h : Ordered ((key, value) :: rest)) :
    key ∉ rest.map Prod.fst := by
  intro hmem
  obtain ⟨member, hmember, rfl⟩ := List.mem_map.mp hmem
  exact String.lt_irrefl _ ((List.pairwise_cons.mp h).1 member hmember)

theorem find?_eq_none_iff : find? key members = none ↔ key ∉ members.map Prod.fst := by
  induction members with
  | nil => simp [find?]
  | cons member rest ih =>
      obtain ⟨other, own⟩ := member
      rw [find?, List.map_cons, List.mem_cons, not_or]
      split
      · rename_i heq
        simp [heq]
      · rename_i hne
        rw [ih]
        exact ⟨fun hrest => ⟨Ne.symm hne, hrest⟩, And.right⟩

theorem find?_eq_some_iff (h : Ordered members) :
    find? key members = some value ↔ (key, value) ∈ members := by
  induction members with
  | nil => simp [find?]
  | cons member rest ih =>
      obtain ⟨other, own⟩ := member
      have hfresh := h.not_mem_tail
      rw [find?, List.mem_cons]
      split
      · rename_i heq
        subst heq
        have hrest : (other, value) ∉ rest := fun hmem => hfresh (List.mem_map_of_mem hmem)
        simp [hrest, eq_comm]
      · rename_i hne
        rw [ih (List.pairwise_cons.mp h).2]
        simp [Ne.symm hne]

/-- Members in key order are told by what they are, wherever it stands. -/
theorem eq_of_perm {other : List (String × α)} (h : Ordered members) (hother : Ordered other)
    (hperm : members.Perm other) : members = other := by
  apply List.Perm.eq_of_pairwise ?_ h hother hperm
  intro first second _ _ hfirst hsecond
  exact absurd hsecond (String.lt_asymm hfirst)

/-! ### Setting members -/

theorem mem_put {member : String × α} (h : member ∈ put key value members) :
    member = (key, value) ∨ member ∈ members := by
  induction members with
  | nil => exact .inl (List.mem_singleton.mp h)
  | cons first rest ih =>
      obtain ⟨other, own⟩ := first
      rw [put] at h
      split at h
      · exact List.mem_cons.mp h
      split at h
      · rcases List.mem_cons.mp h with heq | hmem
        · exact .inl heq
        · exact .inr (List.mem_cons_of_mem _ hmem)
      · rcases List.mem_cons.mp h with rfl | hmem
        · exact .inr List.mem_cons_self
        · exact (ih hmem).imp_right (List.mem_cons_of_mem _)

/-- A new key joins the others. -/
theorem perm_put (value : α) (h : key ∉ members.map Prod.fst) :
    (put key value members).Perm ((key, value) :: members) := by
  induction members with
  | nil => exact List.Perm.refl _
  | cons first rest ih =>
      obtain ⟨other, own⟩ := first
      rw [List.map_cons, List.mem_cons, not_or] at h
      rw [put]
      split
      · exact List.Perm.refl _
      · rw [if_neg h.1]
        exact ((ih h.2).cons (other, own)).trans (List.Perm.swap _ _ rest)

theorem mem_keys_put {other : String} :
    key ∈ (put other value members).map Prod.fst ↔ key = other ∨ key ∈ members.map Prod.fst := by
  induction members with
  | nil => simp [put]
  | cons first rest ih =>
      obtain ⟨held, own⟩ := first
      rw [put]
      split
      · simp only [List.map_cons, List.mem_cons]
      split
      · rename_i heq
        simp only [List.map_cons, List.mem_cons, heq, or_self_left]
      · simp only [List.map_cons, List.mem_cons, ih]
        exact or_left_comm

theorem ordered_put (key : String) (value : α) (h : Ordered members) :
    Ordered (put key value members) := by
  induction members with
  | nil => exact List.pairwise_singleton _ _
  | cons first rest ih =>
      obtain ⟨other, own⟩ := first
      obtain ⟨hhead, hrest⟩ := List.pairwise_cons.mp h
      rw [put]
      split
      · rename_i hlt
        refine List.pairwise_cons.mpr ⟨?_, h⟩
        intro member hmem
        rcases List.mem_cons.mp hmem with rfl | hmem
        · exact hlt
        · exact String.lt_trans hlt (hhead member hmem)
      split
      · rename_i heq
        subst heq
        exact List.pairwise_cons.mpr ⟨hhead, hrest⟩
      · rename_i hnot hne
        refine List.pairwise_cons.mpr ⟨?_, ih hrest⟩
        intro member hmem
        rcases mem_put hmem with rfl | hmem
        · -- the key is neither less than the other one nor the same
          exact String.not_le.mp fun hle => hne (String.le_antisymm hle (String.not_lt.mp hnot))
        · exact hhead member hmem

theorem ordered_foldl_put (members : List (String × α)) (h : Ordered held) :
    Ordered (members.foldl (fun held member => put member.1 member.2 held) held) := by
  induction members generalizing held with
  | nil => exact h
  | cons member rest ih => exact ih (ordered_put member.1 member.2 h)

theorem ordered_ofList (members : List (String × α)) : Ordered (ofList members) :=
  ordered_foldl_put members ordered_nil

theorem mem_foldl_put {member : String × α}
    (h : member ∈ members.foldl (fun held member => put member.1 member.2 held) held) :
    member ∈ held ∨ member ∈ members := by
  induction members generalizing held with
  | nil => exact .inl h
  | cons first rest ih =>
      rcases ih h with hmem | hmem
      · rcases mem_put hmem with rfl | hmem
        · exact .inr List.mem_cons_self
        · exact .inl hmem
      · exact .inr (List.mem_cons_of_mem first hmem)

theorem mem_of_mem_ofList {member : String × α} (h : member ∈ ofList members) :
    member ∈ members :=
  (mem_foldl_put h).resolve_left List.not_mem_nil

theorem mem_keys_foldl_put :
    key ∈ (members.foldl (fun held member => put member.1 member.2 held) held).map Prod.fst ↔
      key ∈ members.map Prod.fst ∨ key ∈ held.map Prod.fst := by
  induction members generalizing held with
  | nil => simp
  | cons first rest ih =>
      rw [List.foldl_cons, ih, mem_keys_put, List.map_cons, List.mem_cons]
      exact or_left_comm.trans or_assoc.symm

/-- A key that has one value keeps it. -/
theorem mem_ofList_iff
    (h : ∀ first second, (key, first) ∈ members → (key, second) ∈ members → first = second) :
    (key, value) ∈ ofList members ↔ (key, value) ∈ members := by
  constructor
  · exact mem_of_mem_ofList
  · intro hmem
    have hkey : key ∈ (ofList members).map Prod.fst :=
      mem_keys_foldl_put.mpr (.inl (List.mem_map_of_mem hmem))
    obtain ⟨⟨own, other⟩, hother, rfl⟩ := List.mem_map.mp hkey
    obtain rfl := h value other hmem (mem_of_mem_ofList hother)
    exact hother

theorem put_of_greatest (key : String) (value : α) (h : ∀ member ∈ held, member.1 < key) :
    put key value held = held ++ [(key, value)] := by
  induction held with
  | nil => rfl
  | cons first rest ih =>
      obtain ⟨other, own⟩ := first
      have hlt : other < key := h _ List.mem_cons_self
      have hne : key ≠ other := by
        rintro rfl
        exact String.lt_irrefl key hlt
      rw [put, if_neg (String.lt_asymm hlt), if_neg hne,
        ih fun member hmem => h member (List.mem_cons_of_mem _ hmem), List.cons_append]

theorem foldl_put_of_ordered (h : Ordered (held ++ members)) :
    members.foldl (fun held member => put member.1 member.2 held) held = held ++ members := by
  induction members generalizing held with
  | nil => exact (List.append_nil held).symm
  | cons member rest ih =>
      have hgreatest : ∀ other ∈ held, other.1 < member.1 := fun other hmem =>
        (List.pairwise_append.mp h).2.2 other hmem member List.mem_cons_self
      rw [List.foldl_cons, put_of_greatest _ _ hgreatest]
      have hsplit : held ++ member :: rest = (held ++ [member]) ++ rest := by simp
      rw [hsplit] at h ⊢
      exact ih h

theorem ofList_of_ordered (h : Ordered members) : ofList members = members :=
  @foldl_put_of_ordered _ members [] h

end SpotWire.Json.Members
