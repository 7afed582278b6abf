import SpotWire.Proofs.Wire.Record

/-!
# Records that are filled alike

Two drafts of a record that are filled side by side stay related, if each step of the one has a
step of the other that goes on wherever the first one does. Only what stands in a field of the
record matters for the field's steps.
-/

namespace SpotWire.Wire

open Json

variable {δ ε : Type} {R : δ → ε → Prop} {draft last : δ} {draft' : ε} {ending : Ending}

/-- Where a step reads one of certain contents and goes on, another step goes on, and what they come
to is related again. -/
def Simulates (R : δ → ε → Prop) (contents : Node → Prop) (step : δ → Node → Except Problem δ)
    (step' : ε → Node → Except Problem ε) : Prop :=
  ∀ draft draft' content next, R draft draft' → contents content →
    step draft content = .ok next → ∃ next', step' draft' content = .ok next' ∧ R next next'

theorem Simulates.mono {contents fewer : Node → Prop} {step : δ → Node → Except Problem δ}
    {step' : ε → Node → Except Problem ε} (h : Simulates R contents step step')
    (hfewer : ∀ content, fewer content → contents content) : Simulates R fewer step step' :=
  fun draft draft' content next hR hcontent =>
    h draft draft' content next hR (hfewer content hcontent)

/-- Steps that fill the same field of both drafts. -/
theorem simulates_fill {α : Type} {contents : Node → Prop} (name : String) (decode : Decoder α)
    (reading : Reading) (get : δ → Option α) (get' : ε → Option α) (put : δ → Option α → δ)
    (put' : ε → Option α → ε) (hget : ∀ draft draft', R draft draft' → get draft = get' draft')
    (hput : ∀ draft draft' filled, R draft draft' → R (put draft filled) (put' draft' filled)) :
    Simulates R contents
      (fun draft content => (fill name (get draft) decode reading content).bind fun filled =>
        .ok (put draft filled))
      fun draft content => (fill name (get' draft) decode reading content).bind fun filled =>
        .ok (put' draft filled) := by
  intro draft draft' content next hR _ h
  obtain ⟨filled, hfilled, h⟩ := bind_eq_ok h
  obtain rfl := Except.ok.inj h
  refine ⟨put' draft' filled, ?_, hput draft draft' filled hR⟩
  simp only [← hget draft draft' hR, hfilled]
  rfl

theorem fillMembers_simulates {set : String → Option (δ → Node → Except Problem δ)}
    {set' : String → Option (ε → Node → Except Problem ε)}
    {members : List (Except Fault String × Node)}
    (hnone : ∀ key, set key = none → set' key = none)
    (hsome : ∀ key step, set key = some step → ∃ step', set' key = some step' ∧
      Simulates R (fun content => (.ok key, content) ∈ members) step step')
    (hR : R draft draft') (h : fillMembers set draft members ending = .ok last) :
    ∃ last', fillMembers set' draft' members ending = .ok last' ∧ R last last' := by
  induction members generalizing draft draft' with
  | nil =>
      rw [fillMembers] at h
      split at h
      · rename_i hclosed
        cases h
        refine ⟨draft', ?_, hR⟩
        rw [fillMembers, hclosed]
      · cases h
  | cons member rest ih =>
      obtain ⟨name, content⟩ := member
      have hrest : ∀ key step, set key = some step → ∃ step', set' key = some step' ∧
          Simulates R (fun content => (.ok key, content) ∈ rest) step step' := by
        intro key step hset
        obtain ⟨step', hset', hstep⟩ := hsome key step hset
        exact ⟨step', hset', hstep.mono fun content => List.mem_cons_of_mem _⟩
      rw [fillMembers] at h ⊢
      obtain ⟨key, hkey, hread⟩ := bind_eq_ok h
      simp only [hkey, bind, Except.bind]
      have hname : name = .ok key := by
        cases name with
        | error fault => cases hkey
        | ok text => exact congrArg Except.ok (Except.ok.inj hkey)
      cases hset : set key with
      | none =>
          simp only [hset] at hread
          obtain ⟨_, hignore, hread⟩ := bind_eq_ok hread
          simp only [hnone key hset, hignore]
          exact ih hrest hR hread
      | some step =>
          simp only [hset] at hread
          obtain ⟨next, hnext, hread⟩ := bind_eq_ok hread
          obtain ⟨step', hset', hstep⟩ := hsome key step hset
          obtain ⟨next', hnext', hR'⟩ :=
            hstep draft draft' content next hR (hname ▸ List.mem_cons_self) hnext
          simp only [hset', hnext']
          exact ih hrest hR' hread

theorem fillPlaces_simulates {expected : String} (expected' : String) {index : Nat}
    {places : List (Place δ)} {places' : List (Place ε)} {items left : List Node}
    (hlength : places.length = places'.length)
    (hplaces : ∀ (i : Nat) place place', places[i]? = some place → places'[i]? = some place' →
      place.optional = place'.optional ∧
        Simulates R (fun content => items[i]? = some content) place.read place'.read)
    (hR : R draft draft')
    (h : fillPlaces expected index draft places items ending = .ok (last, left)) :
    ∃ last', fillPlaces expected' index draft' places' items ending = .ok (last', left) ∧
      R last last' := by
  induction places generalizing places' index draft draft' items with
  | nil =>
      obtain rfl : places' = [] := List.length_eq_zero_iff.mp hlength.symm
      cases h
      exact ⟨draft', rfl, hR⟩
  | cons place places ih =>
      obtain ⟨place', places', rfl⟩ := List.exists_cons_of_length_eq_add_one hlength.symm
      have hlength' : places.length = places'.length := Nat.succ.inj hlength
      obtain ⟨hoptional, hread⟩ := hplaces 0 place place' rfl rfl
      cases items with
      | nil =>
          rw [fillPlaces] at h ⊢
          split at h
          · cases h
          · rw [← hoptional]
            split at h
            · rename_i hdefault
              rw [if_pos hdefault]
              refine ih hlength' (fun i place place' hplace hplace' => ?_) hR h
              obtain ⟨hoptional, hread⟩ := hplaces (i + 1) place place' hplace hplace'
              exact ⟨hoptional, hread.mono fun content hcontent => by simp at hcontent⟩
            · cases h
      | cons item items =>
          rw [fillPlaces] at h ⊢
          obtain ⟨next, hnext, h⟩ := bind_eq_ok h
          obtain ⟨next', hnext', hR'⟩ := hread draft draft' item next hR rfl hnext
          simp only [hnext', bind, Except.bind]
          refine ih hlength' (fun i place place' hplace hplace' => ?_) hR' h
          obtain ⟨hoptional, hread⟩ := hplaces (i + 1) place place' hplace hplace'
          exact ⟨hoptional, hread.mono fun content hcontent => hcontent⟩

end SpotWire.Wire
