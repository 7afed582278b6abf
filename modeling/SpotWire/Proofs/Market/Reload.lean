import SpotWire.Proofs.Market.Details

/-!
# A market, printed and read again

The increments of a market share an object with its other details. Printed and read again, a market
is the same exactly if no other detail stands under an increment's key. One that does makes the
reading fail where the increment is there as well, or where it is no increment, and is else taken
for the increment; so an increment that is there is never changed.
-/

namespace SpotWire

open Json Wire

variable {reading : Reading}

theorem MarketPrecision.decode_toValue {precision : MarketPrecision}
    (h : reading.Admits precision.toValue.levels) :
    decode reading (.ofValue precision.toValue) = .ok precision := by
  obtain ⟨inner, hinner, -⟩ := h.enter_object
  rw [decode, toValue, Shape.decode_ofValue_object hinner]
  simp [Node.ofMembers, fillMembers, orBroken, shape, Draft.setAmount, Draft.setPrice, Draft.empty,
    fill, bind, Except.bind, Except.map, Ending.readFault?]

namespace MarketStatus

/-- All but the details are read again as they are. -/
theorem decode_toValue_eq_map {status : MarketStatus} {inner : Reading}
    (hinner : reading.enter = .ok inner) (h : inner.Admits status.precision.toValue.levels) :
    decode reading (.ofValue status.toValue) =
      (MarketInfo.decode inner (.ofValue status.info.toValue)).map fun info =>
        { status with info := info } := by
  rw [decode, toValue, Shape.decode_ofValue_object hinner]
  cases hinfo : MarketInfo.decode inner (.ofValue status.info.toValue) <;>
    simp [Node.ofMembers, fillMembers, orBroken, shape, Draft.setSymbol, Draft.setInfo,
      Draft.setPrecision, Draft.empty, fill, hinfo, MarketPrecision.decode_toValue h,
      Ending.readFault?, Draft.toStatus, require, bind, Except.bind, Except.map]

theorem holdsWhole_toValue {status : MarketStatus}
    (h : ∀ member ∈ status.info.extra, member.2.HoldsWhole) : status.toValue.HoldsWhole := by
  refine .object ?_
  simp only [List.forall_mem_cons]
  refine ⟨.string _, .object (MarketInfo.forall_mem_toMembers .string .string h),
    .object ?_, nofun⟩
  simp only [List.forall_mem_cons]
  exact ⟨Value.holdsWhole_optionalWord _, Value.holdsWhole_optionalWord _, nofun⟩

/-- A market read from its own text. -/
def reload (status : MarketStatus) : Except Problem MarketStatus :=
  ofText decode status.toValue.text

/-- The increments of details, each with its key. -/
def increments : List (String × (MarketInfo → Option String)) :=
  [("stepSize", MarketInfo.stepSize), ("tickSize", MarketInfo.tickSize)]

/-- Values that are no increments. -/
def IsNoIncrement : Value → Prop
  | .bool _ | .array _ | .object _ => True
  | .null | .number _ | .string _ => False

/-- What a value without numbers of the binary format is as an increment: a text itself, and the
decimal digits of a whole number. -/
def incrementText : Value → Option String
  | .string text => some text
  | .number (.integer n) => some (String.ofList (Number.integerText n))
  | _ => none

theorem increment_eq_ok_iff {value : Value} (h : value.HasNoReal) {size : Option String} :
    MarketInfo.increment value = .ok size ↔ ¬IsNoIncrement value ∧ size = incrementText value := by
  cases value with
  | number number =>
      cases h with
      | number h =>
          cases number with
          | integer n =>
              simp [MarketInfo.increment, IsNoIncrement, incrementText, Number.text, eq_comm]
          | real x => exact h.elim
  | null | bool | string | array | object =>
      simp [MarketInfo.increment, IsNoIncrement, incrementText, fail, eq_comm]

/-- What stands under the key of an increment that is missing is an increment, and nothing stands
under the key of one that is there. -/
def IncrementsFit (info : MarketInfo) : Prop :=
  ∀ field ∈ increments, ∀ value, Members.find? field.1 info.extra = some value →
    field.2 info = none ∧ ¬IsNoIncrement value

/-- An increment as it is read again: what stands under its key is taken for it. -/
def rereadIncrement (info : MarketInfo) (field : String × (MarketInfo → Option String)) :
    Option String :=
  (Members.find? field.1 info.extra).elim (field.2 info) incrementText

/-- Details as they are read again. -/
def rereadInfo (info : MarketInfo) : MarketInfo where
  stepSize := rereadIncrement info ("stepSize", MarketInfo.stepSize)
  tickSize := rereadIncrement info ("tickSize", MarketInfo.tickSize)
  extra := info.extra.filter MarketInfo.isOther

variable {status reloaded : MarketStatus} {info : MarketInfo}

/-- An increment is read again unless it is there twice or no increment stands under its key. -/
theorem rereads_iff {held reread : Option String} {found : Option Value}
    (h : ∀ value, found = some value → value.HasNoReal) :
    MarketInfo.Rereads held found reread ↔
      (∀ value, found = some value → held = none ∧ ¬IsNoIncrement value) ∧
        reread = found.elim held incrementText := by
  cases found with
  | none => simp [MarketInfo.Rereads]
  | some value => simp [MarketInfo.Rereads, increment_eq_ok_iff (h value rfl), and_assoc]

theorem filter_isOther_eq_self_iff {extra : List (String × Value)} :
    extra.filter MarketInfo.isOther = extra ↔
      ∀ field ∈ increments, Members.find? field.1 extra = none := by
  simp only [List.filter_eq_self, increments, List.forall_mem_cons, Members.find?_eq_none_iff,
    List.mem_map, not_exists, not_and, MarketInfo.isOther, decide_eq_true_eq]
  constructor
  · intro h
    exact ⟨fun member hmem => (h member hmem).1, fun member hmem => (h member hmem).2,
      List.forall_mem_nil _⟩
  · rintro ⟨hstep, htick, -⟩ member hmem
    exact ⟨hstep member hmem, htick member hmem⟩

theorem field_rereadInfo (info : MarketInfo) :
    ∀ field ∈ increments, field.2 (rereadInfo info) = rereadIncrement info field := by
  simp only [increments, List.forall_mem_cons]
  exact ⟨rfl, rfl, List.forall_mem_nil _⟩

/-- An increment that is there is read again as it is. -/
theorem rereadIncrement_of_fit (hfit : IncrementsFit info)
    {field : String × (MarketInfo → Option String)} (hfield : field ∈ increments) {size : String}
    (hsize : field.2 info = some size) : rereadIncrement info field = some size := by
  unfold rereadIncrement
  cases hfind : Members.find? field.1 info.extra with
  | none => exact hsize
  | some value =>
      obtain ⟨hnone, -⟩ := hfit field hfield value hfind
      rw [hnone] at hsize
      cases hsize

/-- Details are the same when they are read again if nothing stands under an increment's key. -/
theorem rereadInfo_eq_self_iff :
    rereadInfo info = info ↔ ∀ field ∈ increments, Members.find? field.1 info.extra = none := by
  constructor
  · intro h
    exact filter_isOther_eq_self_iff.mp (congrArg MarketInfo.extra h)
  · intro hfree
    obtain ⟨stepSize, tickSize, extra⟩ := info
    have hextra := filter_isOther_eq_self_iff.mpr hfree
    simp only [increments, List.forall_mem_cons] at hfree hextra
    obtain ⟨hstep, htick, -⟩ := hfree
    simp only [rereadInfo, rereadIncrement, hstep, htick, hextra, Option.elim_none]

/-- Details that are printed can be read if their increments fit, and in one way. -/
theorem decode_info_eq_ok_iff {reloaded : MarketInfo} (hkeys : Members.Ordered info.extra)
    (hvalues : ∀ member ∈ info.extra, member.2.WellFormed ∧ member.2.HasNoReal)
    (hlevels : reading.Admits info.toValue.levels) :
    MarketInfo.decode reading (.ofValue info.toValue) = .ok reloaded ↔
      IncrementsFit info ∧ reloaded = rereadInfo info := by
  have hreal : ∀ key value, Members.find? key info.extra = some value → value.HasNoReal :=
    fun key value hfind => (hvalues _ ((Members.find?_eq_some_iff hkeys).mp hfind)).2
  rw [MarketInfo.decode_toValue_eq_ok_iff hkeys (fun member hmem => (hvalues member hmem).1.ordered)
    hlevels, rereads_iff (hreal _), rereads_iff (hreal _)]
  simp only [IncrementsFit, increments, List.forall_mem_cons]
  constructor
  · rintro ⟨⟨hstep, hstepSize⟩, ⟨htick, htickSize⟩, hextra⟩
    obtain ⟨stepSize, tickSize, extra⟩ := reloaded
    obtain ⟨rfl, rfl, rfl⟩ : _ = stepSize ∧ _ = tickSize ∧ _ = extra :=
      ⟨hstepSize.symm, htickSize.symm, hextra.symm⟩
    exact ⟨⟨hstep, htick, nofun⟩, rfl⟩
  · rintro ⟨⟨hstep, htick, -⟩, rfl⟩
    exact ⟨⟨hstep, rfl⟩, ⟨htick, rfl⟩, rfl⟩

/-- A market that is printed can be read if its increments fit, and all but its details are as they
were. -/
theorem reload_eq_ok_iff (hkeys : Members.Ordered status.info.extra)
    (hvalues : ∀ member ∈ status.info.extra, member.2.WellFormed ∧ member.2.HasNoReal)
    (hlevels : status.toValue.levels < Reading.documentDepth) :
    status.reload = .ok reloaded ↔
      IncrementsFit status.info ∧ reloaded = { status with info := rereadInfo status.info } := by
  have hwhole : status.toValue.HoldsWhole :=
    holdsWhole_toValue fun member hmem =>
      (hvalues member hmem).1.fits.holdsWhole (hvalues member hmem).2
  obtain ⟨inner, hinner, hadmits⟩ := (Reading.admits_ofDocument hlevels).enter_object
  simp only [List.forall_mem_cons] at hadmits
  obtain ⟨-, hinfo, hprecision, -⟩ := hadmits
  have hread := fun info => @decode_info_eq_ok_iff inner status.info info hkeys hvalues hinfo
  rw [reload, ofText_text decode hwhole, decode_toValue_eq_map hinner hprecision]
  constructor
  · intro h
    obtain ⟨info, hdecode, rfl⟩ := map_eq_ok h
    obtain ⟨hfit, rfl⟩ := (hread info).mp hdecode
    exact ⟨hfit, rfl⟩
  · rintro ⟨hfit, rfl⟩
    rw [(hread _).mpr ⟨hfit, rfl⟩]
    rfl

/-- **Reloading.** A market that is printed and read again is the same exactly if its other details
have neither key of an increment. A key that comes twice or has no increment under it is an error;
else what stands under it is taken for the increment. -/
theorem reload_of_details (hkeys : Members.Ordered status.info.extra)
    (hvalues : ∀ member ∈ status.info.extra, member.2.WellFormed ∧ member.2.HasNoReal)
    (hlevels : status.toValue.levels < Reading.documentDepth) :
    (status.reload = .ok status ↔
        ∀ field ∈ increments, Members.find? field.1 status.info.extra = none) ∧
      (∀ field ∈ increments, ∀ value, Members.find? field.1 status.info.extra = some value →
        (field.2 status.info).isSome ∨ IsNoIncrement value →
          ∃ problem, status.reload = .error problem) ∧
      ((∀ field ∈ increments, ∀ value, Members.find? field.1 status.info.extra = some value →
          field.2 status.info = none ∧ ¬IsNoIncrement value) →
        ∃ reloaded, status.reload = .ok reloaded ∧ reloaded.symbol = status.symbol ∧
          reloaded.precision = status.precision ∧
          reloaded.info.extra = status.info.extra.filter MarketInfo.isOther ∧
          ∀ field ∈ increments, field.2 reloaded.info =
            (Members.find? field.1 status.info.extra).elim (field.2 status.info) incrementText) ∧
      ∀ reloaded, status.reload = .ok reloaded → ∀ field ∈ increments, ∀ size,
        field.2 status.info = some size → field.2 reloaded.info = some size := by
  have hreload := fun reloaded => @reload_eq_ok_iff status reloaded hkeys hvalues hlevels
  refine ⟨?_, ?_, ?_, ?_⟩
  · rw [hreload, ← rereadInfo_eq_self_iff]
    constructor
    · rintro ⟨-, hsame⟩
      exact (congrArg MarketStatus.info hsame).symm
    · intro hsame
      refine ⟨fun field hfield value hfind => ?_, by rw [hsame]⟩
      rw [rereadInfo_eq_self_iff.mp hsame field hfield] at hfind
      cases hfind
  · intro field hfield value hfind hclash
    cases hresult : status.reload with
    | error problem => exact ⟨problem, rfl⟩
    | ok reloaded =>
        obtain ⟨hfit, -⟩ := (hreload reloaded).mp hresult
        obtain ⟨hnone, hsome⟩ := hfit field hfield value hfind
        rcases hclash with hheld | hno
        · rw [hnone] at hheld
          cases hheld
        · exact absurd hno hsome
  · intro hfit
    exact ⟨_, (hreload _).mpr ⟨hfit, rfl⟩, rfl, rfl, rfl, field_rereadInfo status.info⟩
  · intro reloaded hresult field hfield size hsize
    obtain ⟨hfit, rfl⟩ := (hreload reloaded).mp hresult
    exact (field_rereadInfo status.info field hfield).trans
      (rereadIncrement_of_fit hfit hfield hsize)

/-- A market with the price increment among its other details. -/
def mislaidTickSize : MarketStatus where
  symbol := "BTCUSDT"
  info :=
    { stepSize := some "0.001"
      tickSize := none
      extra := [("limits", .array [.null, .number (.integer (-5))]),
        ("tickSize", .number (.integer 5))] }
  precision := ⟨some 3, none⟩

theorem ordered_mislaidTickSize : Members.Ordered mislaidTickSize.info.extra := by
  unfold Members.Ordered
  decide

theorem values_mislaidTickSize : ∀ member ∈ mislaidTickSize.info.extra,
    member.2.WellFormed ∧ member.2.HasNoReal := by
  have hfits : Number.Whole (-5) ∧ Number.Whole 5 := by decide
  simp only [mislaidTickSize, List.forall_mem_cons]
  refine ⟨⟨⟨?_, ?_⟩, ?_⟩, ⟨⟨?_, .number _⟩, ?_⟩, nofun⟩
  · simp [Number.Fits, hfits]
  · exact .array (by simp only [List.forall_mem_cons]; exact ⟨.null, .number _, nofun⟩)
  · simp [Value.HasNoReal, Number.IsInteger]
  · simp [Number.Fits, hfits]
  · simp [Value.HasNoReal, Number.IsInteger]

/-- The mislaid increment is found, and the other one is kept. -/
theorem reload_of_mislaidTickSize :
    mislaidTickSize.reload ≠ .ok mislaidTickSize ∧
      ∃ reloaded, mislaidTickSize.reload = .ok reloaded ∧
        reloaded.info.stepSize = some "0.001" ∧ reloaded.info.tickSize = some "5" ∧
        reloaded.info.extra = [("limits", .array [.null, .number (.integer (-5))])] := by
  obtain ⟨hsame, -, htaken, hkept⟩ := reload_of_details ordered_mislaidTickSize
    values_mislaidTickSize (by decide)
  have hstep : Members.find? "stepSize" mislaidTickSize.info.extra = none := by decide
  have htick : Members.find? "tickSize" mislaidTickSize.info.extra =
      some (.number (.integer 5)) := rfl
  obtain ⟨reloaded, hreload, -, -, hextra, hfields⟩ := htaken (by
    simp only [increments, List.forall_mem_cons, hstep, htick]
    refine ⟨nofun, ?_, nofun⟩
    rintro _ ⟨⟩
    exact ⟨rfl, id⟩)
  refine ⟨fun hreloaded => ?_, reloaded, hreload, ?_, ?_, ?_⟩
  · have hnone := hsame.mp hreloaded ("tickSize", MarketInfo.tickSize) (by simp [increments])
    rw [htick] at hnone
    cases hnone
  · exact hkept reloaded hreload _ List.mem_cons_self "0.001" rfl
  · have htaken := hfields ("tickSize", MarketInfo.tickSize) (by simp [increments])
    rw [htick] at htaken
    exact htaken
  · rw [hextra]
    rfl

end MarketStatus

end SpotWire
