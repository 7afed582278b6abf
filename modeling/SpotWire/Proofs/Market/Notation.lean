import SpotWire.Proofs.Market.Correction

/-!
# The notations of increments

A literal is rounded to what a decimal number holds, or to the binary format, and which of these
depends on how it is written. Either way what is read is near to the value (`IsReadFor`), so that
the notation does not count for values whose tenth place no such rounding can change (`IsSettled`,
`exists_represents`). Literals of one value that take the same way are read alike whatever the value
(`notations_are_handled_alike`).
-/

namespace SpotWire

open Numeric

variable {v w : ℚ} {places : ℕ} {text otherText : String} {literal another : Literal}
  {increment other : Increment}

/-! ### Numbers that are read for a value -/

/-- What is known of a number that is read for a value: it is near to the value, either in the last
place of a decimal number or in the last bit of a binary one. -/
structure IsReadFor (w v : ℚ) : Prop where
  close : |w - v| ≤ max (1 / (2 * 10 ^ 28)) (|v| / 2 ^ 53)
  one_le : 1 ≤ v → 1 ≤ w
  pos : 1 / (2 * 10 ^ 28) ≤ v → 0 < w
  nonpos : v ≤ 0 → w ≤ 0

theorem isReadFor_of_held? (h : Decimal.held? v = some w) : IsReadFor w v := by
  obtain ⟨places, rfl, hplaces⟩ := Decimal.exists_rounded_of_held? h
  have hpow : (0 : ℚ) < 10 ^ places := by positivity
  have hnearest := isNearest_nearestWhole (v * 10 ^ places)
  refine ⟨le_trans (abs_rounded_sub_le places v) ?_, fun hone => ?_, fun hpos => ?_,
    fun hnonpos => ?_⟩
  · rcases hplaces with rfl | hlarge
    · exact le_max_left _ _
    · refine le_max_of_le_right ?_
      rw [div_le_div_iff₀ (by positivity) (by positivity)]
      nlinarith
  · have hwhole : (10 ^ places : ℤ) ≤ nearestWhole (v * 10 ^ places) := by
      refine hnearest.le ?_
      push_cast
      nlinarith
    rw [rounded, le_div_iff₀ hpow, one_mul]
    exact_mod_cast hwhole
  · have hhalf : 1 / 2 ≤ v * 10 ^ places := by
      have hv : 0 < v := lt_of_lt_of_le (by norm_num) hpos
      rcases hplaces with rfl | hlarge
      · calc
          (1 / 2 : ℚ) = 1 / (2 * 10 ^ 28) * 10 ^ 28 := by norm_num
          _ ≤ v * 10 ^ Decimal.maxScale := by
            refine mul_le_mul_of_nonneg_right hpos (by norm_num)
      · rw [abs_of_pos hv] at hlarge
        exact le_trans (by norm_num) hlarge
    rw [rounded, nearestWhole, if_pos (by linarith)]
    have hwhole : 1 ≤ ⌊v * 10 ^ places + 1 / 2⌋ := Int.le_floor.mpr (by push_cast; linarith)
    have hcast : (0 : ℚ) < ⌊v * 10 ^ places + 1 / 2⌋ := by exact_mod_cast hwhole
    positivity
  · have hwhole : nearestWhole (v * 10 ^ places) ≤ 0 := by
      refine hnearest.ge ?_
      rw [Int.cast_zero]
      exact mul_nonpos_of_nonpos_of_nonneg hnonpos hpow.le
    rw [rounded]
    exact div_nonpos_of_nonpos_of_nonneg (by exact_mod_cast hwhole) hpow.le

theorem isReadFor_of_isNear {x : Binary} {negative : Bool} {q : ℚ} (hq : 0 ≤ q)
    (h : x.IsNear negative q) : IsReadFor x.value (Decimal.sign negative * q) := by
  have hleast : (1 / 2 ^ 1075 : ℚ) < 1 / (2 * 10 ^ 28) :=
    one_div_lt_one_div_of_lt (by positivity)
      (lt_of_lt_of_le (by norm_num) (pow_le_pow_right₀ one_le_two (by norm_num : 200 ≤ 1075)))
  have hclose : |x.size - q| ≤ max (1 / (2 * 10 ^ 28)) (q / 2 ^ 53) :=
    le_trans h.close (max_le (le_max_right _ _) (le_max_of_le_left hleast.le))
  have hvalue : x.value = Decimal.sign negative * x.size := by rw [Binary.value, h.negative]
  have hsize := x.size_nonneg
  rw [hvalue]
  cases negative with
  | false =>
      simp only [Decimal.sign, Bool.false_eq_true, if_false, Int.cast_one, one_mul]
      refine ⟨by rwa [abs_of_nonneg hq], h.one_le, fun hpos => ?_, fun hnonpos => ?_⟩
      · have hq : 0 < q := lt_of_lt_of_le (by norm_num) hpos
        have hless : |x.size - q| < q :=
          lt_of_le_of_lt h.close (max_lt (div_lt_self hq (by norm_num)) (hleast.trans_le hpos))
        linarith [(abs_lt.mp hless).1]
      · rw [h.zero (le_antisymm hnonpos hq)]
  | true =>
      simp only [Decimal.sign, if_true, Int.cast_neg, Int.cast_one, neg_mul, one_mul]
      refine ⟨?_, fun hone => by linarith, fun hpos => ?_, fun _ => by linarith⟩
      · rw [abs_neg, abs_of_nonneg hq, neg_sub_neg, abs_sub_comm]
        exact hclose
      · exact absurd hpos (not_le.mpr (lt_of_le_of_lt (by linarith) (by norm_num : (0 : ℚ) < _)))

/-! ### Values whose places are settled -/

/-- Every notation settles the places of a value and whether it is above zero: if the value is not
zero, it is no less than half of the last place of a decimal number, and if it is below one, its
tenth place is farther from a half than the binary format can tell. -/
structure IsSettled (v : ℚ) : Prop where
  size : v = 0 ∨ 1 / (2 * 10 ^ 28) ≤ |v|
  tenth : 1 ≤ v ∨ IsOffHalves (|v| * 10 ^ 10 / 2 ^ 53) (v * 10 ^ 10)

/-- No half is near to a value that is small, so that the last place of a decimal number cannot
tell its side either. -/
theorem isOffHalves_max (h : IsOffHalves (|v| * 10 ^ 10 / 2 ^ 53) (v * 10 ^ 10)) :
    IsOffHalves (max (1 / (2 * 10 ^ 28)) (|v| / 2 ^ 53) * 10 ^ 10) (v * 10 ^ 10) := by
  rcases le_total (1 / (2 * 10 ^ 28)) (|v| / 2 ^ 53) with hlarge | hsmall
  · rwa [max_eq_right hlarge, div_mul_eq_mul_div]
  · rw [max_eq_left hsmall]
    intro n
    have hless : |v * 10 ^ 10| ≤ 1 / 4 := by
      rw [div_le_iff₀ (by positivity)] at hsmall
      rw [abs_mul, abs_of_pos (by positivity : (0 : ℚ) < 10 ^ 10)]
      linarith
    have hhalf : (1 / 2 : ℚ) ≤ |(n : ℚ) + 1 / 2| := by
      rcases le_or_gt 0 n with hnonneg | hnegative
      · have hcast : (0 : ℚ) ≤ n := by exact_mod_cast hnonneg
        rw [abs_of_nonneg (by linarith)]
        linarith
      · have hcast : (n : ℚ) ≤ -1 := by exact_mod_cast Int.le_sub_one_of_lt hnegative
        rw [abs_of_nonpos (by linarith)]
        linarith
    have hdistance := abs_sub_abs_le_abs_sub ((n : ℚ) + 1 / 2) (v * 10 ^ 10)
    rw [abs_sub_comm] at hdistance
    linarith

/-- The places of a number that is read for a settled value are those of the value, whatever the
rule for halves. -/
theorem isPlacesOf_of_isReadFor {n : ℤ} (hread : IsReadFor w v) (hsettled : IsSettled v)
    (hnearest : IsNearest (w * 10 ^ 10) n) (hwhole : 1 ≤ w → places = 0)
    (hleast : w < 1 → IsLeast {places | HasPlaces (n / 10 ^ 10) places} places) :
    IsPlacesOf v places := by
  refine ⟨fun hone => hwhole (hread.one_le hone), fun hless => ?_⟩
  have hoff := isOffHalves_max (hsettled.tenth.resolve_left (not_le.mpr hless))
  have hclose : |w * 10 ^ 10 - v * 10 ^ 10| ≤
      max (1 / (2 * 10 ^ 28)) (|v| / 2 ^ 53) * 10 ^ 10 := by
    rw [← sub_mul, abs_mul, abs_of_pos (by positivity : (0 : ℚ) < 10 ^ 10)]
    exact mul_le_mul_of_nonneg_right hread.close (by positivity)
  have hsame : n = nearestWhole (v * 10 ^ 10) :=
    hnearest.unique (isNearest_nearestWhole _) hoff hclose
  rw [rounded, ← hsame]
  rcases lt_or_ge w 1 with hbelow | habove
  · exact hleast hbelow
  · -- the value has been rounded up to one
    have hlow : (10 ^ 10 : ℤ) ≤ n := hnearest.le (by push_cast; linarith)
    have hhigh : n ≤ 10 ^ 10 := by
      rw [hsame]
      refine (isNearest_nearestWhole _).ge ?_
      push_cast
      linarith
    rw [hwhole habove, le_antisymm hhigh hlow]
    exact ⟨⟨1, by norm_num⟩, fun _ _ => Nat.zero_le _⟩

/-! ### Increments that represent values -/

/-- An increment has the places of a value, and is above zero if the value is. -/
structure Represents (increment : Increment) (v : ℚ) : Prop where
  places : IsPlacesOf v increment.places
  above : increment.IsAboveZero ↔ 0 < v

theorem IsReadFor.pos_iff (h : IsReadFor w v) (hsettled : IsSettled v) : 0 < w ↔ 0 < v := by
  constructor
  · intro hw
    by_contra hv
    exact absurd (h.nonpos (not_lt.mp hv)) (not_le.mpr hw)
  · intro hv
    have hsize := hsettled.size.resolve_left hv.ne'
    rw [abs_of_pos hv] at hsize
    exact h.pos hsize

theorem represents_value (x : Decimal) : Represents (.exact x) x.value :=
  ⟨isPlacesOf_exactPlaces x, Iff.rfl⟩

theorem represents_exact {x : Decimal} (h : IsReadFor x.value v) (hsettled : IsSettled v) :
    Represents (.exact x) v := by
  have hplaces := isPlacesOf_exactPlaces x
  exact ⟨isPlacesOf_of_isReadFor h hsettled (isNearest_nearestWhole _) hplaces.whole hplaces.least,
    h.pos_iff hsettled⟩

theorem represents_ofSize {negative : Bool} {q : ℚ} (hq : 0 ≤ q)
    (hsettled : IsSettled (Decimal.sign negative * q)) :
    Represents (.approximate (Binary.ofSize negative q)) (Decimal.sign negative * q) := by
  rcases Binary.isNear_or_infinite negative hq with ⟨x, hx, hnear⟩ | ⟨hinfinite, hlarge⟩
  · have hread := isReadFor_of_isNear hq hnear
    rw [hx]
    exact ⟨isPlacesOf_of_isReadFor hread hsettled (Increment.isNearest_tenth x)
      Increment.approximatePlaces_of_one_le Increment.isLeast_approximatePlaces,
      hread.pos_iff hsettled⟩
  · rw [hinfinite]
    have hone : (2 : ℚ) ^ 53 ≤ q :=
      le_trans (pow_le_pow_right₀ one_le_two (by norm_num)) hlarge
    clear hlarge
    cases negative with
    | false =>
        simp only [Decimal.sign, Bool.false_eq_true, if_false, Int.cast_one, one_mul]
        exact ⟨⟨fun _ => rfl, fun hless => absurd hless (by linarith)⟩,
          iff_of_true rfl (by linarith)⟩
    | true =>
        -- the places of so large a value are not settled
        simp only [Decimal.sign, if_true, Int.cast_neg, Int.cast_one, neg_mul, one_mul] at hsettled
        rcases hsettled.tenth with habove | hoff
        · linarith
        · have hdistance := hoff.distance_lt
          rw [abs_neg, abs_of_nonneg hq, div_lt_iff₀ (by positivity)] at hdistance
          linarith

/-! ### Literals -/

/-- All of a literal counts: it is plain, or its digits fit a decimal number, or the reader of
decimal numbers makes nothing of it. -/
def IsLegible (literal : Literal) : Prop :=
  literal.exponent = none ∨ literal.DigitsFit ∨ Decimal.ofText? literal.chars = none

/-- The reader of decimal numbers takes in all of a legible literal, or nothing. -/
theorem IsLegible.isInReach_or_ofText?_eq_none (h : IsLegible literal) :
    literal.IsInReach ∨ Decimal.ofText? literal.chars = none := by
  rcases h with hplain | hfits | hnone
  · exact .inl (.inl hplain)
  · exact hfits.isInReach_or_ofText?_eq_none
  · exact .inr hnone

/-- A literal that is no decimal number for the reader is the number of the binary format nearest
to its value. -/
theorem Increment.ofText?_of_none (h : Spells text literal)
    (hnone : Decimal.ofText? literal.chars = none) :
    ofText? text =
      some (.approximate (Binary.ofSize literal.sign.isMinus |literal.value|)) := by
  rw [ofText?_of_spells h, hnone, literal.binary_ofText?, Binary.nearest_eq_ofSize,
    Literal.abs_value]
  rfl

/-- A legible literal of a settled value is understood, with the places of its value. -/
theorem exists_represents (h : Spells text literal) (hlegible : IsLegible literal)
    (hsettled : IsSettled literal.value) :
    ∃ increment, Increment.ofText? text = some increment ∧ Represents increment literal.value := by
  have hunread : Decimal.ofText? literal.chars = none → ∃ increment,
      Increment.ofText? text = some increment ∧ Represents increment literal.value := by
    intro hnone
    refine ⟨_, Increment.ofText?_of_none h hnone, ?_⟩
    have hsame := hsettled
    rw [literal.value_eq_sign_mul] at hsame
    have hrepresents := represents_ofSize (abs_nonneg literal.value) hsame
    rwa [← literal.value_eq_sign_mul] at hrepresents
  rcases hlegible.isInReach_or_ofText?_eq_none with hreach | hnone
  · cases hread : Decimal.ofText? literal.chars with
    | none => exact hunread hread
    | some x =>
        have hheld := Literal.ofText?_of_isInReach hreach
        rw [hread, Option.map_some] at hheld
        exact ⟨.exact x, Increment.ofText?_of_some h hread,
          represents_exact (isReadFor_of_held? hheld.symm) hsettled⟩
  · exact hunread hnone

/-! ### Notations of one value -/

/-- Two texts are the same to whatever looks at increments. -/
structure HandledAlike (text other : String) : Prop where
  places : Increment.placesOf text = Increment.placesOf other
  amount : ∀ status : MarketStatus,
    (status.edit (.stepSize (some text))).correct.1.precision =
      (status.edit (.stepSize (some other))).correct.1.precision
  price : ∀ status : MarketStatus,
    (status.edit (.tickSize (some text))).correct.1.precision =
      (status.edit (.tickSize (some other))).correct.1.precision

/-- Two increments imply the same precision. -/
structure Agrees (increment another : Increment) : Prop where
  places : increment.places = another.places
  above : increment.IsAboveZero ↔ another.IsAboveZero

theorem Represents.agrees (h : Represents increment v) (hother : Represents other v) :
    Agrees increment other :=
  ⟨h.places.unique hother.places, h.above.trans hother.above.symm⟩

theorem Agrees.placesOf_eq (h : Agrees increment other)
    (htext : Increment.ofText? text = some increment)
    (hother : Increment.ofText? otherText = some other) :
    Increment.placesOf text = Increment.placesOf otherText := by
  rw [Increment.placesOf_of_ofText? htext, Increment.placesOf_of_ofText? hother, h.places]

theorem IsDerived.of_agrees {before after : Option UInt32}
    (htext : Increment.ofText? text = some increment)
    (hother : Increment.ofText? otherText = some other) (h : Agrees increment other)
    (hderived : IsDerived (some text) before after) : IsDerived (some otherText) before after := by
  constructor
  · rintro _ found ⟨⟩ hfound habove
    obtain rfl : other = found := Option.some.inj (hother.symm.trans hfound)
    rw [← h.placesOf_eq htext hother]
    exact hderived.derived text increment rfl htext (h.above.mpr habove)
  · intro hnothing
    refine hderived.kept ?_
    rintro _ found ⟨⟩ hfound habove
    obtain rfl : increment = found := Option.some.inj (htext.symm.trans hfound)
    exact hnothing otherText other rfl hother (h.above.mp habove)

theorem handledAlike_of_agrees (htext : Increment.ofText? text = some increment)
    (hother : Increment.ofText? otherText = some other) (h : Agrees increment other) :
    HandledAlike text otherText := by
  have hprecision : ∀ {precision found : MarketPrecision}, precision.amount = found.amount →
      precision.price = found.price → precision = found := by
    rintro ⟨amount, price⟩ ⟨_, _⟩ rfl rfl
    rfl
  refine ⟨h.placesOf_eq htext hother, fun status => ?_, fun status => ?_⟩
  · have hfirst := MarketStatus.isCorrected_correct (status.edit (.stepSize (some text)))
    have hsecond := MarketStatus.isCorrected_correct (status.edit (.stepSize (some otherText)))
    exact hprecision
      ((hfirst.amount.of_agrees htext hother h).unique hsecond.amount fun _ => rfl)
      (hfirst.price.unique hsecond.price fun _ => rfl)
  · have hfirst := MarketStatus.isCorrected_correct (status.edit (.tickSize (some text)))
    have hsecond := MarketStatus.isCorrected_correct (status.edit (.tickSize (some otherText)))
    exact hprecision (hfirst.amount.unique hsecond.amount fun _ => rfl)
      ((hfirst.price.of_agrees htext hother h).unique hsecond.price fun _ => rfl)

theorem isSettled_zero : IsSettled 0 := by
  refine ⟨.inl rfl, .inr fun n => ?_⟩
  have hodd : (2 * n + 1 : ℚ) ≠ 0 := by
    have hwhole : 2 * n + 1 ≠ 0 := by omega
    exact_mod_cast hwhole
  rw [abs_zero, zero_mul, zero_div, abs_pos, zero_sub, neg_ne_zero]
  intro hhalf
  exact hodd (by linarith)

/-- Literals of one value that the reader of decimal numbers makes nothing of are the same number
of the binary format, the sign of a zero aside. -/
theorem agrees_ofSize (hvalue : literal.value = another.value) :
    Agrees (.approximate (Binary.ofSize literal.sign.isMinus |literal.value|))
      (.approximate (Binary.ofSize another.sign.isMinus |another.value|)) := by
  by_cases hzero : literal.value = 0
  · have hrepresents : ∀ negative : Bool,
        Represents (.approximate (Binary.ofSize negative 0)) (0 : ℚ) := by
      intro negative
      have hsettled : IsSettled (Decimal.sign negative * 0) := by
        rw [mul_zero]
        exact isSettled_zero
      have h := represents_ofSize le_rfl hsettled
      rwa [mul_zero] at h
    rw [← hvalue, hzero, abs_zero]
    exact (hrepresents _).agrees (hrepresents _)
  · have hsign : literal.sign.isMinus = another.sign.isMinus := by
      rw [Bool.eq_iff_iff, Literal.isMinus_iff hzero, hvalue,
        ← Literal.isMinus_iff (hvalue ▸ hzero)]
    rw [hsign, hvalue]
    exact ⟨rfl, Iff.rfl⟩

/-- The program treats two literals alike if they have one value: both are taken in by the reader of
decimal numbers, or both are read exactly, or both are left to the binary format, or both are
legible and their value is settled. -/
def IsComparable (literal another : Literal) : Prop :=
  (literal.IsInReach ∧ another.IsInReach) ∨
    (literal.IsReadExactly ∧ another.IsReadExactly) ∨
    (Decimal.ofText? literal.chars = none ∧ Decimal.ofText? another.chars = none) ∨
    (IsLegible literal ∧ IsLegible another ∧ IsSettled literal.value)

theorem exists_agrees (h : Spells text literal)
    (hother : Spells otherText another) (hvalue : literal.value = another.value)
    (hcomparable : IsComparable literal another) :
    ∃ increment other, Increment.ofText? text = some increment ∧
      Increment.ofText? otherText = some other ∧ Agrees increment other := by
  have hunread : Decimal.ofText? literal.chars = none → Decimal.ofText? another.chars = none →
      ∃ increment other, Increment.ofText? text = some increment ∧
        Increment.ofText? otherText = some other ∧ Agrees increment other := by
    intro hnone hnothing
    exact ⟨_, _, Increment.ofText?_of_none h hnone, Increment.ofText?_of_none hother hnothing,
      agrees_ofSize hvalue⟩
  have hread : ∀ x y, Decimal.ofText? literal.chars = some x →
      Decimal.ofText? another.chars = some y → x.value = y.value →
      ∃ increment other, Increment.ofText? text = some increment ∧
        Increment.ofText? otherText = some other ∧ Agrees increment other := by
    intro x y hx hy hsame
    refine ⟨_, _, Increment.ofText?_of_some h hx, Increment.ofText?_of_some hother hy, ?_⟩
    have hrepresents := represents_value y
    rw [← hsame] at hrepresents
    exact (represents_value x).agrees hrepresents
  rcases hcomparable with ⟨hreach, hreachOther⟩ | ⟨⟨x, hx, hxvalue⟩, ⟨y, hy, hyvalue⟩⟩ |
    ⟨hnone, hnothing⟩ | ⟨hlegible, hlegibleOther, hsettled⟩
  · -- the value decides what is read
    have hheld := Literal.ofText?_of_isInReach hreach
    have hheldOther := Literal.ofText?_of_isInReach hreachOther
    rw [← hvalue, ← hheld] at hheldOther
    cases hx : Decimal.ofText? literal.chars with
    | none =>
        rw [hx, Option.map_none, Option.map_eq_none_iff] at hheldOther
        exact hunread hx hheldOther
    | some x =>
        rw [hx, Option.map_some, Option.map_eq_some_iff] at hheldOther
        obtain ⟨y, hy, hsame⟩ := hheldOther
        exact hread x y hx hy hsame.symm
  · exact hread x y hx hy ((hxvalue.trans hvalue).trans hyvalue.symm)
  · exact hunread hnone hnothing
  · obtain ⟨increment, htext, hrepresents⟩ := exists_represents h hlegible hsettled
    rw [hvalue] at hsettled hrepresents
    obtain ⟨other, hothers, hrepresentsOther⟩ := exists_represents hother hlegibleOther hsettled
    exact ⟨increment, other, htext, hothers, hrepresents.agrees hrepresentsOther⟩

/-- **The notations of increments.** A text that is a literal, blank characters around it aside,
is handled like any other text that is a literal of the same value: both tell the same places, and
every market is corrected in the same way with either as its step size or as its tick size,

* where the reader of decimal numbers takes in all of both, whatever their value: they are plain,
  however many digits they have, or have digits that fit and an exponent that is applied to them;
* where it gives the value of both, or makes nothing of either;
* where it takes in the one and makes nothing of the other, if the value is settled.

If the literal is legible and its value is settled, the text tells the places of that value, and
counts as positive exactly if the value is above zero. -/
theorem notations_are_handled_alike (h : Spells text literal) :
    (∀ otherText another, Spells otherText another → literal.value = another.value →
      IsComparable literal another → HandledAlike text otherText) ∧
    (IsLegible literal → IsSettled literal.value →
      TellsPlacesOf text literal.value ∧
        ∀ increment, Increment.ofText? text = some increment →
          (increment.IsAboveZero ↔ 0 < literal.value)) := by
  constructor
  · intro otherText another hother hvalue hcomparable
    obtain ⟨increment, found, htext, hfound, hagrees⟩ := exists_agrees h hother hvalue hcomparable
    exact handledAlike_of_agrees htext hfound hagrees
  · intro hlegible hsettled
    obtain ⟨increment, htext, hrepresents⟩ := exists_represents h hlegible hsettled
    refine ⟨.of_ofText? htext hrepresents.places, fun found hfound => ?_⟩
    obtain rfl : increment = found := Option.some.inj (htext.symm.trans hfound)
    exact hrepresents.above

/-! ### Texts of one value -/

def longPlain : Literal :=
  unsigned "0".toList (some "000000000123456789012345678901234".toList) none rfl rfl rfl

def longScientific : Literal :=
  powered "123456789012345678901234".toList (power .minus "33".toList rfl rfl) rfl rfl

theorem value_longPlain : longPlain.value = 123456789012345678901234 / 10 ^ 33 := by
  have hunits : longPlain.units = 123456789012345678901234 := by decide
  have hplaces : longPlain.places = 33 := rfl
  have hpower : longPlain.power = 0 := rfl
  rw [Literal.value_of_unsigned rfl, hunits, hplaces, hpower]
  norm_num

theorem value_longScientific : longScientific.value = 123456789012345678901234 / 10 ^ 33 := by
  have hunits : longScientific.units = 123456789012345678901234 := by decide
  have hplaces : longScientific.places = 0 := rfl
  have hpower : longScientific.power = -33 := by decide
  rw [Literal.value_of_unsigned rfl, hunits, hplaces, hpower]
  norm_num

theorem isSettled_longPlain : IsSettled longPlain.value := by
  rw [value_longPlain]
  refine ⟨.inr ?_, .inr fun n => ?_⟩
  · rw [abs_of_pos (by norm_num)]
    norm_num
  · rw [abs_of_pos (by norm_num : (0 : ℚ) < 123456789012345678901234 / 10 ^ 33)]
    rcases le_or_gt n 0 with hlow | hhigh
    · have hcast : (n : ℚ) ≤ 0 := by exact_mod_cast hlow
      rw [abs_of_pos (by norm_num; linarith)]
      norm_num
      linarith
    · have hcast : (1 : ℚ) ≤ n := by exact_mod_cast hhigh
      rw [abs_of_neg (by norm_num; linarith)]
      norm_num
      linarith

/-- Thirty-three places are rounded to a decimal number where they are written out, and go to the
binary format where they stand in an exponent; either way there are ten. -/
theorem longPlain_and_longScientific_are_alike :
    HandledAlike "0.000000000123456789012345678901234" " 123456789012345678901234e-33\n" ∧
      TellsPlacesOf "0.000000000123456789012345678901234" longPlain.value ∧
      (Increment.placesOf " 123456789012345678901234e-33\n").1 = 10 := by
  have hspells : Spells "0.000000000123456789012345678901234" longPlain := rfl
  obtain ⟨halike, htells⟩ := notations_are_handled_alike hspells
  have hsame : longPlain.value = longScientific.value :=
    value_longPlain.trans value_longScientific.symm
  have hfits : longScientific.DigitsFit := ⟨by decide, by decide⟩
  exact ⟨halike _ longScientific rfl hsame
      (.inr (.inr (.inr ⟨.inl rfl, .inr (.inl hfits), isSettled_longPlain⟩))),
    (htells (.inl rfl) isSettled_longPlain).1, by decide⟩

def shortMidpoint : Literal :=
  unsigned "2".toList (some "95".toList) (some (power .minus "9".toList rfl rfl)) rfl rfl rfl

def longMidpoint : Literal :=
  powered "295000000000000000000".toList (power .minus "29".toList rfl rfl) rfl rfl

def plainSpeck : Literal :=
  unsigned "0".toList (some "00000000000000000000000000001".toList) none rfl rfl rfl

def scientificSpeck : Literal :=
  powered "1".toList (power .minus "29".toList rfl rfl) rfl rfl

/-- Texts of one value that are told apart, as an exponent of more places than a decimal number can
have leaves them to the binary format: at a half of the tenth place, for which that format has no
number, and below half of the last place of a decimal number, where one notation is above zero and
the other is zero. -/
theorem notations_are_told_apart :
    (Spells "2.95e-9" shortMidpoint ∧ Spells "295000000000000000000e-29" longMidpoint ∧
      shortMidpoint.value = longMidpoint.value ∧
      Increment.placesOf "2.95e-9" = (9, []) ∧
      Increment.placesOf "295000000000000000000e-29" = (10, [])) ∧
    (Spells "0.00000000000000000000000000001" plainSpeck ∧ Spells "1e-29" scientificSpeck ∧
      plainSpeck.value = scientificSpeck.value ∧
      ((MarketStatus.ofSymbol "BTCUSDT_SPBL").edit
        (.stepSize (some "0.00000000000000000000000000001"))).correct.1.precision = ⟨none, none⟩ ∧
      ((MarketStatus.ofSymbol "BTCUSDT_SPBL").edit
        (.stepSize (some "1e-29"))).correct.1.precision = ⟨some 0, none⟩) := by
  have hvalue : ∀ (literal : Literal) (units places : ℕ) (power : ℤ),
      literal.sign.isMinus = false → literal.units = units → literal.places = places →
        literal.power = power → literal.value = units / 10 ^ places * 10 ^ power := by
    rintro literal _ _ _ hsign rfl rfl rfl
    exact Literal.value_of_unsigned hsign
  refine ⟨⟨rfl, rfl, ?_, by decide, by decide⟩, ⟨rfl, rfl, ?_, by decide, by decide +kernel⟩⟩
  · rw [hvalue shortMidpoint 295 2 (-9) rfl (by decide) rfl (by decide),
      hvalue longMidpoint 295000000000000000000 0 (-29) rfl (by decide) rfl (by decide)]
    norm_num
  · rw [hvalue plainSpeck 1 29 0 rfl (by decide) rfl (by decide),
      hvalue scientificSpeck 1 0 (-29) rfl (by decide) rfl (by decide)]
    norm_num

end SpotWire
