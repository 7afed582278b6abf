import SpotWire.Proofs.Market.Increment

/-!
# The correction of a market's precision

Correcting a market touches nothing but its precision, and of that a part only if the increment of
that part is above zero (`isCorrected_correct`). What has been done to the increments before does
not count: a correction goes by those in force, and by the precision that they leave as it is
(`correct_touches_only_precision`).
-/

namespace SpotWire

variable {size : Option String} {before earlier after other : Option UInt32} {text : String}

/-! ### What is derived -/

/-- No precision is derived: there is no increment, or none that is understood and above zero. -/
def Increment.ImpliesNothing (size : Option String) : Prop :=
  ∀ text increment, size = some text → ofText? text = some increment → ¬increment.IsAboveZero

/-- A part of the precision is what an increment above zero implies, never more than ten places,
and stays as it is otherwise. -/
structure IsDerived (size : Option String) (before after : Option UInt32) : Prop where
  derived : ∀ text increment, size = some text → Increment.ofText? text = some increment →
    increment.IsAboveZero →
      (Increment.placesOf text).1 ≤ 10 ∧
        after.map UInt32.toNat = some (Increment.placesOf text).1
  kept : Increment.ImpliesNothing size → after = before

theorem isDerived_of_positive?_eq_none (h : Increment.positive? size = none) :
    IsDerived size before before := by
  refine ⟨fun text increment hsize htext habove => ?_, fun _ => rfl⟩
  exact absurd habove (Increment.positive?_eq_none_iff.mp h text increment hsize htext)

/-- A text that precision is derived from is understood, and nothing is said of it. -/
theorem placesOf_of_positive? (h : Increment.positive? size = some text) :
    (Increment.placesOf text).1 ≤ 10 ∧ (Increment.placesOf text).2 = [] := by
  obtain ⟨-, increment, htext, -⟩ := Increment.positive?_eq_some_iff.mp h
  rw [Increment.placesOf_of_ofText? htext]
  exact ⟨increment.places_le_ten, rfl⟩

theorem isDerived_of_positive?_eq_some (h : Increment.positive? size = some text) :
    IsDerived size before (some (Increment.placesOf text).1.toUInt32) := by
  obtain ⟨hsize, increment, htext, habove⟩ := Increment.positive?_eq_some_iff.mp h
  obtain ⟨hten, -⟩ := placesOf_of_positive? h
  constructor
  · intro other _ hother _ _
    obtain rfl : text = other := Option.some.inj (hsize.symm.trans hother)
    have hwidth : (Increment.placesOf text).1 < 2 ^ 32 := by omega
    exact ⟨hten, by rw [Option.map_some, Nat.toUInt32_eq, UInt32.toNat_ofNat_of_lt' hwidth]⟩
  · intro hnothing
    exact absurd habove (hnothing text increment hsize htext)

/-- What is derived depends on what was there before only where the increment implies nothing. -/
theorem IsDerived.unique (h : IsDerived size before after) (hother : IsDerived size earlier other)
    (hsame : Increment.ImpliesNothing size → before = earlier) : after = other := by
  cases hpositive : Increment.positive? size with
  | none =>
      have hnothing := Increment.positive?_eq_none_iff.mp hpositive
      rw [h.kept hnothing, hother.kept hnothing, hsame hnothing]
  | some text =>
      obtain ⟨hsize, increment, htext, habove⟩ := Increment.positive?_eq_some_iff.mp hpositive
      have hafter := (h.derived text increment hsize htext habove).2
      have hagain := (hother.derived text increment hsize htext habove).2
      exact Option.map_injective (fun _ _ => UInt32.toNat.inj) (hafter.trans hagain.symm)

theorem IsDerived.again (h : IsDerived size before after) : IsDerived size after after :=
  ⟨h.derived, fun _ => rfl⟩

/-- A part of the precision has been derived, or it has always been there. -/
def IsBounded (start now : Option UInt32) : Prop :=
  now = start ∨ ∃ places, now = some places ∧ places ≤ 10

theorem IsDerived.isBounded {start : Option UInt32} (h : IsDerived size before after)
    (hbefore : IsBounded start before) : IsBounded start after := by
  by_cases hnothing : Increment.ImpliesNothing size
  · rwa [h.kept hnothing]
  · unfold Increment.ImpliesNothing at hnothing
    push Not at hnothing
    obtain ⟨text, increment, hsize, htext, habove⟩ := hnothing
    obtain ⟨hten, hafter⟩ := h.derived text increment hsize htext habove
    obtain ⟨places, hplaces, hnat⟩ := Option.map_eq_some_iff.mp hafter
    refine .inr ⟨places, hplaces, ?_⟩
    rw [UInt32.le_iff_toNat_le, hnat]
    exact hten

namespace MarketStatus

variable {status result : MarketStatus}

/-! ### One correction -/

/-- A market is another one corrected: symbol and details are the same, and each part of the
precision is derived from its own increment. -/
structure IsCorrected (status result : MarketStatus) : Prop where
  symbol : result.symbol = status.symbol
  info : result.info = status.info
  amount : IsDerived status.info.stepSize status.precision.amount result.precision.amount
  price : IsDerived status.info.tickSize status.precision.price result.precision.price

theorem correctAmount_spec (status : MarketStatus) :
    (∃ amount, IsDerived status.info.stepSize status.precision.amount amount ∧
      status.correctAmount.1 =
        { status with precision := { status.precision with amount } }) ∧
    ∀ event ∈ status.correctAmount.2, event.severity = .debug := by
  unfold correctAmount
  split
  · rename_i hpositive
    exact ⟨⟨_, isDerived_of_positive?_eq_none hpositive, rfl⟩, fun _ h => absurd h List.not_mem_nil⟩
  · rename_i text hpositive
    refine ⟨⟨_, isDerived_of_positive?_eq_some hpositive, rfl⟩, fun event hevent => ?_⟩
    dsimp only at hevent
    rw [(placesOf_of_positive? hpositive).2, List.nil_append, List.mem_singleton] at hevent
    rw [hevent]
    rfl

theorem correctPrice_spec (status : MarketStatus) :
    (∃ price, IsDerived status.info.tickSize status.precision.price price ∧
      status.correctPrice.1 =
        { status with precision := { status.precision with price } }) ∧
    ∀ event ∈ status.correctPrice.2, event.severity = .debug := by
  unfold correctPrice
  split
  · rename_i hpositive
    exact ⟨⟨_, isDerived_of_positive?_eq_none hpositive, rfl⟩, fun _ h => absurd h List.not_mem_nil⟩
  · rename_i text hpositive
    refine ⟨⟨_, isDerived_of_positive?_eq_some hpositive, rfl⟩, fun event hevent => ?_⟩
    dsimp only at hevent
    rw [(placesOf_of_positive? hpositive).2, List.nil_append, List.mem_singleton] at hevent
    rw [hevent]
    rfl

theorem isCorrected_correct (status : MarketStatus) : IsCorrected status status.correct.1 := by
  obtain ⟨⟨amount, hamount, hfirst⟩, -⟩ := status.correctAmount_spec
  obtain ⟨⟨price, hprice, hsecond⟩, -⟩ := status.correctAmount.1.correctPrice_spec
  have hboth : status.correct.1 = status.correctAmount.1.correctPrice.1 := rfl
  rw [hfirst] at hprice
  rw [hboth, hsecond, hfirst]
  exact ⟨rfl, rfl, hamount, hprice⟩

/-- The events of a correction are about what it derives. -/
theorem severity_of_mem_correct {event : LogEvent} (h : event ∈ status.correct.2) :
    event.severity = .debug := by
  rcases List.mem_append.mp h with hfirst | hsecond
  · exact status.correctAmount_spec.2 event hfirst
  · exact status.correctAmount.1.correctPrice_spec.2 event hsecond

theorem IsCorrected.unique {other : MarketStatus} (h : IsCorrected status result)
    (hother : IsCorrected status other) : result = other := by
  have hamount := h.amount.unique hother.amount fun _ => rfl
  have hprice := h.price.unique hother.price fun _ => rfl
  obtain ⟨symbol, info, amount, price⟩ := result
  obtain ⟨othersSymbol, othersInfo, othersAmount, othersPrice⟩ := other
  have hsymbol : symbol = othersSymbol := h.symbol.trans hother.symbol.symm
  have hinfo : info = othersInfo := h.info.trans hother.info.symm
  dsimp only at hamount hprice
  rw [hsymbol, hinfo, hamount, hprice]

theorem IsCorrected.again (h : IsCorrected status result) : IsCorrected result result := by
  refine ⟨rfl, rfl, ?_, ?_⟩
  · rw [h.info]
    exact h.amount.again
  · rw [h.info]
    exact h.price.again

/-! ### Histories -/

/-- What happens to a market: an increment is set or taken away, or the precision is corrected. -/
inductive Edit where
  | stepSize (size : Option String)
  | tickSize (size : Option String)
  | correct

namespace Edit

def stepSize? : Edit → Option (Option String)
  | stepSize size => some size
  | _ => none

def tickSize? : Edit → Option (Option String)
  | tickSize size => some size
  | _ => none

end Edit

def edit (status : MarketStatus) : Edit → MarketStatus
  | .stepSize size => { status with info := { status.info with stepSize := size } }
  | .tickSize size => { status with info := { status.info with tickSize := size } }
  | .correct => status.correct.1

def edits (status : MarketStatus) (history : List Edit) : MarketStatus :=
  history.foldl edit status

/-- The increments in force at the corrections of a history, where an edit may set another one. -/
def inForce (set? : Edit → Option (Option String)) :
    Option String → List Edit → List (Option String)
  | _, [] => []
  | size, .correct :: history => size :: inForce set? size history
  | size, next :: history => inForce set? ((set? next).getD size) history

/-- A part of the precision has been derived from one increment after another. -/
inductive IsDerivedInTurn : List (Option String) → Option UInt32 → Option UInt32 → Prop
  | none (before : Option UInt32) : IsDerivedInTurn [] before before
  | next {size : Option String} {sizes : List (Option String)} {before now after : Option UInt32}
      (h : IsDerived size before now) (hrest : IsDerivedInTurn sizes now after) :
      IsDerivedInTurn (size :: sizes) before after

theorem IsDerivedInTurn.unique {sizes : List (Option String)}
    (h : IsDerivedInTurn sizes before after) (hother : IsDerivedInTurn sizes before other) :
    after = other := by
  induction h with
  | none =>
      cases hother
      rfl
  | next hsize _ ih =>
      cases hother with
      | next hothers hrest =>
          rw [hothers.unique hsize fun _ => rfl] at hrest
          exact ih hrest

theorem IsDerivedInTurn.isBounded {sizes : List (Option String)} {start : Option UInt32}
    (h : IsDerivedInTurn sizes before after) (hbefore : IsBounded start before) :
    IsBounded start after := by
  induction h with
  | none => exact hbefore
  | next hsize _ ih => exact ih (hsize.isBounded hbefore)

/-- What a history makes of the market it starts with. -/
structure Follows (history : List Edit) (start now : MarketStatus) : Prop where
  symbol : now.symbol = start.symbol
  extra : now.info.extra = start.info.extra
  amount : IsDerivedInTurn (inForce Edit.stepSize? start.info.stepSize history)
    start.precision.amount now.precision.amount
  price : IsDerivedInTurn (inForce Edit.tickSize? start.info.tickSize history)
    start.precision.price now.precision.price

theorem Follows.step {history : List Edit} {start now : MarketStatus} {next : Edit}
    (h : Follows history (start.edit next) now) : Follows (next :: history) start now := by
  cases next with
  | stepSize | tickSize => exact ⟨h.symbol, h.extra, h.amount, h.price⟩
  | correct =>
      have hcorrected := isCorrected_correct start
      have hinfo : (start.edit .correct).info = start.info := hcorrected.info
      obtain ⟨hsymbol, hextra, hamount, hprice⟩ := h
      rw [hinfo] at hextra hamount hprice
      exact ⟨hsymbol.trans hcorrected.symbol, hextra, .next hcorrected.amount hamount,
        .next hcorrected.price hprice⟩

theorem follows_edits (history : List Edit) (start : MarketStatus) :
    Follows history start (start.edits history) := by
  induction history generalizing start with
  | nil => exact ⟨rfl, rfl, .none _, .none _⟩
  | cons next history ih => exact (ih (start.edit next)).step

/-- **The correction touches derived precision only.**

* Symbol and details stay as they are. The amount is what the step size implies if that is there
  and understood as a number above zero, and stays as it is otherwise; the price likewise goes by
  the tick size alone. What is derived is never more than ten places.
* Nothing but what is derived is told to the log, so that no increment that counts as positive is
  one that is not understood.
* To correct twice is to correct once.
* Whatever has happened to two markets, their corrected amounts are the same if their step sizes
  are, and, where these imply nothing, their amounts; likewise for prices.
* A history of edits and corrections leaves the symbol and the other details. The amount it ends
  with is derived in turn from the step sizes in force at its corrections, and it is the first
  amount or has at most ten places; likewise for prices.
* Two histories end with the same amount if they have the same step sizes in force at their
  corrections, and the same first amount; likewise for prices. -/
theorem correct_touches_only_precision :
    (∀ status : MarketStatus, IsCorrected status status.correct.1) ∧
    (∀ status : MarketStatus, ∀ event ∈ status.correct.2, event.severity = .debug) ∧
    (∀ status : MarketStatus, status.correct.1.correct.1 = status.correct.1) ∧
    (∀ now other : MarketStatus,
      (now.info.stepSize = other.info.stepSize →
        (Increment.ImpliesNothing now.info.stepSize →
          now.precision.amount = other.precision.amount) →
        now.correct.1.precision.amount = other.correct.1.precision.amount) ∧
      (now.info.tickSize = other.info.tickSize →
        (Increment.ImpliesNothing now.info.tickSize →
          now.precision.price = other.precision.price) →
        now.correct.1.precision.price = other.correct.1.precision.price)) ∧
    (∀ (history : List Edit) (start : MarketStatus), Follows history start (start.edits history) ∧
      IsBounded start.precision.amount (start.edits history).precision.amount ∧
      IsBounded start.precision.price (start.edits history).precision.price) ∧
    ∀ (history another : List Edit) (start other : MarketStatus),
      (inForce Edit.stepSize? start.info.stepSize history =
          inForce Edit.stepSize? other.info.stepSize another →
        start.precision.amount = other.precision.amount →
        (start.edits history).precision.amount = (other.edits another).precision.amount) ∧
      (inForce Edit.tickSize? start.info.tickSize history =
          inForce Edit.tickSize? other.info.tickSize another →
        start.precision.price = other.precision.price →
        (start.edits history).precision.price = (other.edits another).precision.price) := by
  refine ⟨isCorrected_correct, fun status event => severity_of_mem_correct, ?_, ?_, ?_, ?_⟩
  · intro status
    have honce := (isCorrected_correct status).again
    exact (isCorrected_correct status.correct.1).unique honce
  · intro now other
    have hnow := isCorrected_correct now
    have hother := isCorrected_correct other
    constructor
    · intro hsize hsame
      have hamount := hnow.amount
      rw [hsize] at hamount hsame
      exact hamount.unique hother.amount hsame
    · intro hsize hsame
      have hprice := hnow.price
      rw [hsize] at hprice hsame
      exact hprice.unique hother.price hsame
  · intro history start
    have hfollows := follows_edits history start
    exact ⟨hfollows, hfollows.amount.isBounded (.inl rfl), hfollows.price.isBounded (.inl rfl)⟩
  · intro history another start other
    have hfollows := follows_edits history start
    have hothers := follows_edits another other
    constructor
    · intro hsizes hamount
      refine hfollows.amount.unique ?_
      rw [hsizes, hamount]
      exact hothers.amount
    · intro hsizes hprice
      refine hfollows.price.unique ?_
      rw [hsizes, hprice]
      exact hothers.price

def largeStep : MarketStatus :=
  ⟨"BTCUSDT_SPBL", ⟨some " 1e30 ", some "-0.01", []⟩, ⟨none, some 7⟩⟩

/-- A step size beyond the decimal numbers is a whole one, whatever the amount was before, and a
negative tick size leaves the price as it is. -/
theorem correction_of_largeStep :
    largeStep.correct.1.precision = ⟨some 0, some 7⟩ ∧
      largeStep.correct.1.correct.1 = largeStep.correct.1 ∧
      (∀ event ∈ largeStep.correct.2, event.severity = .debug) ∧
      ∀ other : MarketStatus, other.info.stepSize = some " 1e30 " →
        other.correct.1.precision.amount = some 0 := by
  obtain ⟨hcorrected, hsilent, htwice, hsame, -⟩ := correct_touches_only_precision
  have hplaces : (Increment.placesOf " 1e30 ").1 = 0 := by decide
  have hpositive : (Increment.ofText? " 1e30 ").any Increment.isPositive = true := by decide
  obtain ⟨increment, htext, habove⟩ := (Option.any_eq_true _ _).mp hpositive
  have hderived := (hcorrected largeStep).amount.derived " 1e30 " increment rfl htext
    (Increment.isPositive_iff.mp habove)
  have hamount : largeStep.correct.1.precision.amount = some 0 := by
    refine Option.map_injective (fun _ _ => UInt32.toNat.inj) (hderived.2.trans ?_)
    rw [hplaces]
    rfl
  have hprice : largeStep.correct.1.precision.price = some 7 := by
    refine (hcorrected largeStep).price.kept (Increment.positive?_eq_none_iff.mp ?_)
    decide
  refine ⟨?_, htwice largeStep, hsilent largeStep, fun other hsize => ?_⟩
  · rw [← hamount, ← hprice]
  · have hnothing : ¬Increment.ImpliesNothing other.info.stepSize := by
      intro h
      exact h " 1e30 " increment hsize htext (Increment.isPositive_iff.mp habove)
    exact ((hsame other largeStep).1 hsize fun h => absurd h hnothing).trans hamount

end MarketStatus

end SpotWire
