import SpotWire.Market
import SpotWire.Proofs.Wire.Printed

/-!
# The details of a market, read again

Increments stand among the other details under keys of their own. When details are printed and
read again, an increment meets whatever the other details have under its key: if both are there
the key comes twice and reading fails, and if only the other one is there it is taken for the
increment.
-/

namespace SpotWire.MarketInfo

open Json Wire

/-- A member that is no increment. -/
def isOther (member : String × Value) : Bool :=
  member.1 ≠ "stepSize" ∧ member.1 ≠ "tickSize"

/-- An increment and what has been found under its key come to another increment. -/
def Takes (held : Option (Option String)) (found : Option Value)
    (next : Option (Option String)) : Prop :=
  match found with
  | none => next = held
  | some value => held = none ∧ ∃ size, increment value = .ok size ∧ next = some size

variable {reading : Reading} {draft last : Draft} {key : String} {value : Value}
  {members : List (String × Value)}

theorem decodeIncrement_ofValue (hordered : value.Ordered) (h : reading.Admits value.levels) :
    decodeIncrement reading (.ofValue value) = increment value := by
  unfold decodeIncrement
  split
  · rename_i hnull
    rw [ofValue_eq_null_iff.mp hnull]
    rfl
  · rw [value_ofValue hordered h]
    rfl

/-! ### One member -/

namespace Draft

theorem add_stepSize (hordered : value.Ordered) (h : reading.Admits value.levels) :
    draft.add reading "stepSize" (.ofValue value) = .ok last ↔
      draft.stepSize = none ∧
        ∃ size, increment value = .ok size ∧ last = { draft with stepSize := some size } := by
  rw [add, if_pos rfl, bind_fill_eq_ok_iff, decodeIncrement_ofValue hordered h]

theorem add_tickSize (hordered : value.Ordered) (h : reading.Admits value.levels) :
    draft.add reading "tickSize" (.ofValue value) = .ok last ↔
      draft.tickSize = none ∧
        ∃ size, increment value = .ok size ∧ last = { draft with tickSize := some size } := by
  rw [add, if_neg (by decide), if_pos rfl, bind_fill_eq_ok_iff,
    decodeIncrement_ofValue hordered h]

theorem add_other (hordered : value.Ordered) (h : reading.Admits value.levels)
    (hother : isOther (key, value) = true) :
    draft.add reading key (.ofValue value) =
      .ok { draft with others := (key, value) :: draft.others } := by
  obtain ⟨hstep, htick⟩ : key ≠ "stepSize" ∧ key ≠ "tickSize" := by simpa [isOther] using hother
  rw [add, if_neg hstep, if_neg htick, value_ofValue hordered h]
  rfl

/-! ### All members -/

/-- Reads members one after another. -/
def addAll (reading : Reading) (draft : Draft) (members : List (String × Value)) :
    Except Problem Draft :=
  members.foldlM (fun draft member => draft.add reading member.1 (.ofValue member.2)) draft

theorem addAll_cons (reading : Reading) (draft : Draft) (member : String × Value)
    (rest : List (String × Value)) :
    addAll reading draft (member :: rest) =
      draft.add reading member.1 (.ofValue member.2) >>= fun next => addAll reading next rest :=
  List.foldlM_cons

/-- Members in key order leave the increments to what stands under their keys, and the others in
their order. -/
theorem addAll_eq_ok_iff (hkeys : Members.Ordered members)
    (hvalues : ∀ member ∈ members, member.2.Ordered ∧ reading.Admits member.2.levels) :
    addAll reading draft members = .ok last ↔
      Takes draft.stepSize (Members.find? "stepSize" members) last.stepSize ∧
        Takes draft.tickSize (Members.find? "tickSize" members) last.tickSize ∧
          last.others = (members.filter isOther).reverse ++ draft.others := by
  induction members generalizing draft with
  | nil =>
      obtain ⟨step, tick, others⟩ := last
      obtain ⟨step', tick', others'⟩ := draft
      simp [addAll, Takes, Members.find?, pure, Except.pure, eq_comm]
  | cons member rest ih =>
      obtain ⟨key, value⟩ := member
      obtain ⟨⟨hordered, hadmits⟩, hrest⟩ := List.forall_mem_cons.mp hvalues
      have hfresh : Members.find? key rest = none :=
        Members.find?_eq_none_iff.mpr hkeys.not_mem_tail
      replace ih := fun next => @ih next (List.pairwise_cons.mp hkeys).2 hrest
      rw [addAll_cons, bind_eq_ok_iff]
      simp only [ih]
      by_cases hstep : key = "stepSize"
      · subst hstep
        rw [List.filter_cons_of_neg (by simp [isOther])]
        simp only [add_stepSize hordered hadmits, Members.find?, hfresh]
        constructor
        · rintro ⟨_, ⟨hnone, size, hsize, rfl⟩, hlast, hrest⟩
          exact ⟨⟨hnone, size, hsize, hlast⟩, hrest⟩
        · rintro ⟨⟨hnone, size, hsize, hlast⟩, hrest⟩
          exact ⟨_, ⟨hnone, size, hsize, rfl⟩, hlast, hrest⟩
      by_cases htick : key = "tickSize"
      · subst htick
        rw [List.filter_cons_of_neg (by simp [isOther])]
        simp only [add_tickSize hordered hadmits, Members.find?, hfresh]
        constructor
        · rintro ⟨_, ⟨hnone, size, hsize, rfl⟩, hkept, hlast, hrest⟩
          exact ⟨hkept, ⟨hnone, size, hsize, hlast⟩, hrest⟩
        · rintro ⟨hkept, ⟨hnone, size, hsize, hlast⟩, hrest⟩
          exact ⟨_, ⟨hnone, size, hsize, rfl⟩, hkept, hlast, hrest⟩
      · have hother : isOther (key, value) = true := by simp [isOther, hstep, htick]
        rw [List.filter_cons_of_pos hother]
        simp only [add_other hordered hadmits hother, Members.find?, if_neg hstep, if_neg htick,
          Except.ok.injEq, exists_eq_left', List.reverse_cons, List.append_assoc,
          List.singleton_append]

/-- The increments of details, as they are printed, are read into an empty draft. -/
theorem addAll_toMembers (reading : Reading) (info : MarketInfo) :
    addAll reading empty info.toMembers =
      addAll reading ⟨info.stepSize.map some, info.tickSize.map some, []⟩ info.extra := by
  obtain ⟨stepSize, tickSize, extra⟩ := info
  cases stepSize <;> cases tickSize <;> rfl

end Draft

/-! ### Printed details -/

/-- What holds of increments and of the other details holds of all members. -/
theorem forall_mem_toMembers {info : MarketInfo} {P : String × Value → Prop}
    (hstep : ∀ size, P ("stepSize", .string size)) (htick : ∀ size, P ("tickSize", .string size))
    (hextra : ∀ member ∈ info.extra, P member) : ∀ member ∈ info.toMembers, P member := by
  simp only [toMembers, List.forall_mem_append]
  refine ⟨⟨?_, ?_⟩, hextra⟩
  · cases info.stepSize <;> simp [hstep]
  · cases info.tickSize <;> simp [htick]

/-- A printed increment and what the other details have under its key come to another increment. -/
def Rereads (held : Option String) (found : Option Value) (reread : Option String) : Prop :=
  match found with
  | none => reread = held
  | some value => held = none ∧ increment value = .ok reread

theorem exists_takes_iff {held reread : Option String} {found : Option Value} :
    (∃ next, Takes (held.map some) found next ∧ next.join = reread) ↔
      Rereads held found reread := by
  cases found with
  | none => cases held <;> simp [Takes, Rereads, eq_comm]
  | some value =>
      constructor
      · rintro ⟨_, ⟨hnone, size, hsize, rfl⟩, rfl⟩
        exact ⟨Option.map_eq_none_iff.mp hnone, hsize⟩
      · rintro ⟨rfl, hsize⟩
        exact ⟨some reread, ⟨rfl, reread, hsize, rfl⟩, rfl⟩

theorem draft_toMembers_eq_ok_iff {info reloaded : MarketInfo}
    (hkeys : Members.Ordered info.extra)
    (hvalues : ∀ member ∈ info.extra, member.2.Ordered ∧ reading.Admits member.2.levels) :
    (Draft.addAll reading .empty info.toMembers).map Draft.toInfo = .ok reloaded ↔
      Rereads info.stepSize (Members.find? "stepSize" info.extra) reloaded.stepSize ∧
        Rereads info.tickSize (Members.find? "tickSize" info.extra) reloaded.tickSize ∧
          reloaded.extra = info.extra.filter isOther := by
  rw [Draft.addAll_toMembers, ← exists_takes_iff, ← exists_takes_iff]
  constructor
  · intro h
    obtain ⟨last, hlast, rfl⟩ := map_eq_ok h
    obtain ⟨hstep, htick, hothers⟩ := (Draft.addAll_eq_ok_iff hkeys hvalues).mp hlast
    refine ⟨⟨_, hstep, rfl⟩, ⟨_, htick, rfl⟩, ?_⟩
    simp only [Draft.toInfo, hothers, List.append_nil, List.reverse_reverse]
    exact Members.ofList_of_ordered (hkeys.filter isOther)
  · rintro ⟨⟨step, hstep, hjoinstep⟩, ⟨tick, htick, hjointick⟩, hextra⟩
    have hlast : Draft.addAll reading ⟨info.stepSize.map some, info.tickSize.map some, []⟩
        info.extra = .ok ⟨step, tick, (info.extra.filter isOther).reverse⟩ :=
      (Draft.addAll_eq_ok_iff hkeys hvalues).mpr ⟨hstep, htick, (List.append_nil _).symm⟩
    obtain ⟨stepSize, tickSize, extra⟩ := reloaded
    obtain ⟨rfl, rfl, rfl⟩ : step.join = stepSize ∧ tick.join = tickSize ∧
      extra = info.extra.filter isOther := ⟨hjoinstep, hjointick, hextra⟩
    rw [hlast, Except.map, Draft.toInfo, List.reverse_reverse,
      Members.ofList_of_ordered (hkeys.filter isOther)]

/-- Details that are printed and read again have the increments that the printed ones and the other
details come to, and the other details without what stands under the increments' keys. -/
theorem decode_toValue_eq_ok_iff {info reloaded : MarketInfo}
    (hkeys : Members.Ordered info.extra) (hvalues : ∀ member ∈ info.extra, member.2.Ordered)
    (h : reading.Admits info.toValue.levels) :
    decode reading (.ofValue info.toValue) = .ok reloaded ↔
      Rereads info.stepSize (Members.find? "stepSize" info.extra) reloaded.stepSize ∧
        Rereads info.tickSize (Members.find? "tickSize" info.extra) reloaded.tickSize ∧
          reloaded.extra = info.extra.filter isOther := by
  obtain ⟨inner, hinner, hadmits⟩ := h.enter_object
  have hadmitted : ∀ member ∈ info.extra, member.2.Ordered ∧ inner.Admits member.2.levels :=
    fun member hmem => ⟨hvalues member hmem, hadmits member (List.mem_append_right _ hmem)⟩
  rw [← draft_toMembers_eq_ok_iff hkeys hadmitted, toValue, Node.ofValue, decode]
  simp only [hinner, fillMembers_ofMembers]
  rfl

/-! ### Details of members that are held -/

/-- What one member does to the other details. -/
theorem Draft.others_of_add {next : Draft} (hordered : value.Ordered)
    (h : draft.add .ofHeld key (.ofValue value) = .ok next) :
    next.others = [(key, value)].filter isOther ++ draft.others := by
  by_cases hother : isOther (key, value) = true
  · rw [add_other hordered (Reading.admits_ofHeld _) hother] at h
    rw [List.filter_cons_of_pos hother]
    exact congrArg Draft.others (Except.ok.inj h).symm
  · rw [List.filter_cons_of_neg hother]
    unfold add at h
    split at h
    · obtain ⟨size, -, h⟩ := bind_eq_ok h
      obtain rfl := Except.ok.inj h
      rfl
    split at h
    · obtain ⟨size, -, h⟩ := bind_eq_ok h
      obtain rfl := Except.ok.inj h
      rfl
    · rename_i hstep htick
      simp [isOther, hstep, htick] at hother

theorem Draft.others_of_addAll (hordered : ∀ member ∈ members, member.2.Ordered)
    (h : addAll .ofHeld draft members = .ok last) :
    last.others = (members.filter isOther).reverse ++ draft.others := by
  induction members generalizing draft with
  | nil =>
      obtain rfl : draft = last := Except.ok.inj h
      rfl
  | cons first rest ih =>
      obtain ⟨hfirst, hrest⟩ := List.forall_mem_cons.mp hordered
      rw [addAll_cons] at h
      obtain ⟨next, hnext, h⟩ := bind_eq_ok h
      have hboth : (first :: rest).filter isOther =
          [first].filter isOther ++ rest.filter isOther := List.filter_append [first] rest
      have hself : ([first].filter isOther).reverse = [first].filter isOther := by
        cases hother : isOther first <;> simp [hother]
      rw [ih hrest h, others_of_add hfirst hnext, hboth, List.reverse_append, hself,
        List.append_assoc]

theorem ofMembers_eq_map (members : List (String × Value)) :
    ofMembers members = (Draft.addAll .ofHeld .empty members).map Draft.toInfo :=
  rfl

/-- The other details are all members that are no increments, the last one of each key. -/
theorem extra_of_ofMembers {info : MarketInfo} (hordered : ∀ member ∈ members, member.2.Ordered)
    (h : ofMembers members = .ok info) :
    info.extra = Members.ofList (members.filter isOther) := by
  rw [ofMembers_eq_map] at h
  obtain ⟨last, hlast, rfl⟩ := map_eq_ok h
  have hothers := Draft.others_of_addAll hordered hlast
  rw [show (Draft.empty : Draft).others = [] from rfl, List.append_nil] at hothers
  rw [Draft.toInfo, hothers, List.reverse_reverse]

theorem ofMembers_eq_ok {info : MarketInfo} (hordered : ∀ member ∈ members, member.2.Ordered)
    (h : ofMembers members = .ok info) :
    Members.Ordered info.extra ∧
      ∀ member ∈ info.extra, member ∈ members ∧ isOther member = true := by
  rw [extra_of_ofMembers hordered h]
  refine ⟨Members.ordered_ofList _, ?_⟩
  intro member hmem
  exact List.mem_filter.mp (Members.mem_of_mem_ofList hmem)

/-- Details without an increment among the others come from their own members. -/
theorem ofMembers_toMembers {info : MarketInfo} (hkeys : Members.Ordered info.extra)
    (hordered : ∀ member ∈ info.extra, member.2.Ordered)
    (hothers : ∀ member ∈ info.extra, isOther member = true) :
    ofMembers info.toMembers = .ok info := by
  have hfree : ∀ key, key = "stepSize" ∨ key = "tickSize" →
      Members.find? key info.extra = none := by
    intro key hkey
    rw [Members.find?_eq_none_iff]
    intro hmem
    obtain ⟨member, hmember, rfl⟩ := List.mem_map.mp hmem
    have hother := hothers member hmember
    simp only [isOther, decide_eq_true_eq] at hother
    exact hkey.elim hother.1 hother.2
  rw [ofMembers_eq_map, draft_toMembers_eq_ok_iff hkeys fun member hmem =>
    ⟨hordered member hmem, Reading.admits_ofHeld _⟩, hfree _ (.inl rfl), hfree _ (.inr rfl)]
  exact ⟨rfl, rfl, (List.filter_eq_self.mpr hothers).symm⟩

end SpotWire.MarketInfo
