import SpotWire.Proofs.Numeric.Binary

/-!
# The places of increments

An increment that is a decimal literal tells a number of places by its value alone: none from one
upwards, and below one the fewest places in which the value can be written once it is rounded to ten
of them (`placesOf_literal`). That needs its value to be read exactly. It is for plain literals of a
value that some decimal number has, and with an exponent if the digits fit and no more places are
added than there can be. A literal raised out of what a decimal number holds is a whole number in
the binary format, and has no places there either.
-/

namespace SpotWire

open Numeric

variable {v : ℚ} {places : ℕ} {text : String} {literal : Literal}

/-! ### Places of values -/

/-- The places that an increment of a value is to have. -/
structure IsPlacesOf (v : ℚ) (places : ℕ) : Prop where
  whole : 1 ≤ v → places = 0
  least : v < 1 → IsLeast {places | HasPlaces (rounded 10 v) places} places

theorem IsPlacesOf.unique {other : ℕ} (h : IsPlacesOf v places) (hother : IsPlacesOf v other) :
    places = other := by
  rcases lt_or_ge v 1 with hless | hmore
  · exact (h.least hless).unique (hother.least hless)
  · rw [h.whole hmore, hother.whole hmore]

theorem IsPlacesOf.le_of_hasPlaces {other : ℕ} (h : IsPlacesOf v places)
    (hother : HasPlaces (rounded 10 v) other) : places ≤ other := by
  rcases lt_or_ge v 1 with hless | hmore
  · exact (h.least hless).2 hother
  · rw [h.whole hmore]
    exact Nat.zero_le other

theorem IsPlacesOf.le_ten (h : IsPlacesOf v places) : places ≤ 10 :=
  h.le_of_hasPlaces (hasPlaces_rounded 10 v)

theorem IsPlacesOf.eq_zero {n : ℤ} (h : IsPlacesOf v places) (hwhole : rounded 10 v = n) :
    places = 0 := by
  have hnone : HasPlaces (rounded 10 v) 0 := ⟨n, by rw [hwhole, pow_zero, mul_one]⟩
  exact Nat.le_zero.mp (h.le_of_hasPlaces hnone)

theorem rounded_eq_zero (h : |v| < 5 / 10 ^ 11) : rounded 10 v = 0 := by
  have hscaled : |v * 10 ^ 10| < 1 / 2 := by
    rw [abs_mul, abs_of_pos (show (0 : ℚ) < 10 ^ 10 by positivity)]
    calc
      |v| * 10 ^ 10 < 5 / 10 ^ 11 * 10 ^ 10 := mul_lt_mul_of_pos_right h (by positivity)
      _ = 1 / 2 := by norm_num
  obtain ⟨hlow, hhigh⟩ := abs_lt.mp hscaled
  have hnearest : nearestWhole (v * 10 ^ 10) = 0 := by
    unfold nearestWhole
    split
    · exact Int.floor_eq_zero_iff.mpr ⟨by linarith, by linarith⟩
    · rw [neg_eq_zero]
      exact Int.floor_eq_zero_iff.mpr ⟨by linarith, by linarith⟩
  rw [rounded, hnearest, Int.cast_zero, zero_div]

theorem isPlacesOf_of_hasPlaces_zero (h : HasPlaces v 0) : IsPlacesOf v 0 := by
  obtain ⟨n, hn⟩ := h
  rw [pow_zero, mul_one] at hn
  have hten : HasPlaces v 10 := ⟨n * 10 ^ 10, by rw [hn]; push_cast; rfl⟩
  have hnone : HasPlaces (rounded 10 v) 0 := ⟨n, by rw [hten.rounded_eq, hn, pow_zero, mul_one]⟩
  exact ⟨fun _ => rfl, fun _ => ⟨hnone, fun _ _ => Nat.zero_le _⟩⟩

/-- The places of a decimal number are those of its value. -/
theorem isPlacesOf_exactPlaces (x : Decimal) : IsPlacesOf x.value (Increment.exactPlaces x) := by
  rcases lt_or_ge x.value 1 with hless | hmore
  · have hbelow : x.isOneOrMore = false := by
      rw [Bool.eq_false_iff]
      intro h
      exact absurd (Decimal.isOneOrMore_eq_true_iff.mp h) (not_le.mpr hless)
    have hleast := Decimal.isLeast_scale_normalize (x.roundTo Increment.maxPlaces)
    rw [Decimal.value_roundTo] at hleast
    refine ⟨fun h => absurd h (not_le.mpr hless), fun _ => ?_⟩
    rw [Increment.exactPlaces, hbelow]
    exact hleast
  · refine ⟨fun _ => ?_, fun h => absurd h (not_lt.mpr hmore)⟩
    rw [Increment.exactPlaces, if_pos (Decimal.isOneOrMore_eq_true_iff.mpr hmore)]

/-! ### Places of texts -/

/-- A text is a literal, blank characters around it aside. -/
def Spells (text : String) (literal : Literal) : Prop :=
  Text.trim text.toList = literal.chars

/-- A text is understood as an increment, and tells the places of a value. -/
structure TellsPlacesOf (text : String) (v : ℚ) : Prop where
  silent : (Increment.placesOf text).2 = []
  places : IsPlacesOf v (Increment.placesOf text).1

theorem Increment.placesOf_of_ofText? {increment : Increment} (h : ofText? text = some increment) :
    placesOf text = (increment.places, []) := by
  rw [placesOf, h]

theorem TellsPlacesOf.of_ofText? {increment : Increment}
    (h : Increment.ofText? text = some increment) (hplaces : IsPlacesOf v increment.places) :
    TellsPlacesOf text v := by
  have hplacesOf := Increment.placesOf_of_ofText? h
  constructor
  · rw [hplacesOf]
  · rw [hplacesOf]
    exact hplaces

theorem Increment.ofText?_of_spells (h : Spells text literal) :
    Increment.ofText? text =
      ((Decimal.ofText? literal.chars).map exact <|>
        (Binary.ofText? literal.chars).map approximate) := by
  have hchars : literal.chars.isEmpty = false := by
    rw [List.isEmpty_eq_false_iff]
    intro hempty
    exact literal.body_ne_nil (List.append_eq_nil_iff.mp (List.append_eq_nil_iff.mp hempty).2).1
  rw [ofText?, h, hchars, if_neg Bool.false_ne_true]

theorem Increment.ofText?_of_some {x : Decimal} (h : Spells text literal)
    (hx : Decimal.ofText? literal.chars = some x) : ofText? text = some (.exact x) := by
  rw [ofText?_of_spells h, hx]
  rfl

theorem tellsPlacesOf_of_isReadExactly (h : Spells text literal) (hread : literal.IsReadExactly) :
    TellsPlacesOf text literal.value := by
  obtain ⟨x, hx, hvalue⟩ := hread
  refine .of_ofText? (Increment.ofText?_of_some h hx) ?_
  rw [← hvalue]
  exact isPlacesOf_exactPlaces x

/-- A literal that is raised out of what a decimal number holds is a whole number. -/
theorem tellsPlacesOf_of_not_canRaise {exponent : Exponent} (h : Spells text literal)
    (hexponent : literal.exponent = some exponent) (hfits : literal.DigitsFit)
    (hplus : exponent.sign.isMinus = false) (hraise : ¬literal.CanRaise exponent.size) :
    TellsPlacesOf text literal.value := by
  obtain ⟨more, hmore⟩ := Nat.exists_eq_add_of_le (Nat.le_of_not_le fun hle => hraise (.inl hle))
  have hpower : literal.power = exponent.size := by
    rw [Literal.power, hexponent]
    simp [Exponent.power, hplus, Decimal.sign]
  have hshift : literal.power - literal.places = (more : ℤ) := by
    rw [hpower, hmore]
    push_cast
    ring
  have hcannot : ¬literal.CanShift exponent := by
    rwa [Literal.CanShift, if_neg (Bool.eq_false_iff.mp hplus)]
  have hincrement : Increment.ofText? text =
      some (.approximate (Binary.nearest literal.sign.isMinus literal.units more)) := by
    have hnone := Literal.ofText?_eq_none hexponent hfits hcannot
    rw [Increment.ofText?_of_spells h, hnone, literal.binary_ofText?, hshift]
    rfl
  refine .of_ofText? hincrement ?_
  rw [Increment.places, approximatePlaces_nearest]
  refine isPlacesOf_of_hasPlaces_zero
    ⟨Decimal.sign literal.sign.isMinus * (literal.units * 10 ^ more : ℕ), ?_⟩
  rw [Literal.value, hpower, hmore, zpow_natCast, pow_add]
  push_cast
  field_simp

theorem tellsPlacesOf_of_digitsFit (h : Spells text literal) (hfits : literal.DigitsFit)
    (hpower : -28 ≤ literal.power) (hplaces : HasPlaces literal.value 28) :
    TellsPlacesOf text literal.value := by
  cases hexponent : literal.exponent with
  | none =>
      exact tellsPlacesOf_of_isReadExactly h (Literal.isReadExactly_of_plain hexponent
        ⟨hfits.units, hfits.places⟩ (Literal.value_of_plain hexponent).symm)
  | some exponent =>
      by_cases hshift : literal.CanShift exponent
      · exact tellsPlacesOf_of_isReadExactly h
          (Literal.isReadExactly_of_canShift hexponent hfits hshift hplaces)
      cases hminus : exponent.sign.isMinus with
      | false =>
          rw [Literal.CanShift, if_neg (Bool.eq_false_iff.mp hminus)] at hshift
          exact tellsPlacesOf_of_not_canRaise h hexponent hfits hminus hshift
      | true =>
          have hlower : literal.power = -(exponent.size : ℤ) := by
            rw [Literal.power, hexponent]
            simp [Exponent.power, hminus, Decimal.sign]
          rw [Literal.CanShift, if_pos hminus] at hshift
          have hmost : Decimal.maxScale = 28 := rfl
          omega

/-- **The places of a decimal literal.** A text that is a decimal literal, blank characters around
it aside, is understood as an increment, and tells the places of its value,

* where the reader of decimal numbers gives the value of the literal;
* where some decimal number has its value, and the literal has no exponent, or its digits fit and
  its exponent is no less than -28;
* where its digits fit, its exponent is no less than -28, and its value can be written in 28 places,
  however large it is.

The value alone decides: two texts that tell the places of one value tell the same. There are never
more than ten places, and none if the value is rounded up to one or is so small that it is rounded
to zero. -/
theorem placesOf_literal :
    (∀ text literal, Spells text literal → literal.IsReadExactly →
      TellsPlacesOf text literal.value) ∧
    (∀ text literal, Spells text literal →
      literal.exponent = none ∨ literal.DigitsFit ∧ -28 ≤ literal.power →
      ∀ x : Decimal, x.Representable → x.value = literal.value →
        TellsPlacesOf text literal.value) ∧
    (∀ text literal, Spells text literal → literal.units < 2 ^ 96 → literal.places ≤ 28 →
      -28 ≤ literal.power → HasPlaces literal.value 28 → TellsPlacesOf text literal.value) ∧
    (∀ text other v, TellsPlacesOf text v → TellsPlacesOf other v →
      Increment.placesOf text = Increment.placesOf other) ∧
    ∀ text v, TellsPlacesOf text v → (Increment.placesOf text).1 ≤ 10 ∧
      (rounded 10 v = 1 ∨ |v| < 5 / 10 ^ 11 → (Increment.placesOf text).1 = 0) := by
  refine ⟨fun text literal => tellsPlacesOf_of_isReadExactly, ?_, ?_, ?_, ?_⟩
  · rintro text literal h (hplain | ⟨hfits, hpower⟩) x hx hvalue
    · exact tellsPlacesOf_of_isReadExactly h (Literal.isReadExactly_of_plain hplain hx hvalue)
    · refine tellsPlacesOf_of_digitsFit h hfits hpower ?_
      rw [← hvalue]
      exact Decimal.hasPlaces_value hx.2
  · intro text literal h hunits hplaces hpower hvalue
    exact tellsPlacesOf_of_digitsFit h ⟨hunits, hplaces⟩ hpower hvalue
  · intro text other v h hother
    exact Prod.ext (h.places.unique hother.places) (h.silent.trans hother.silent.symm)
  · intro text v h
    refine ⟨h.places.le_ten, ?_⟩
    rintro (hone | hsmall)
    · exact h.places.eq_zero (hone.trans Int.cast_one.symm)
    · exact h.places.eq_zero ((rounded_eq_zero hsmall).trans Int.cast_zero.symm)

theorem Literal.value_of_unsigned (h : literal.sign.isMinus = false) :
    literal.value = literal.units / 10 ^ literal.places * 10 ^ literal.power := by
  simp [Literal.value, h, Decimal.sign]

/-- A power of ten behind the letter for it. -/
def power (sign : Sign) (digits : List Char) (hdigits : digits.all Char.isDigit = true)
    (hne : digits.isEmpty = false) : Exponent :=
  ⟨'e', sign, digits, rfl, List.all_eq_true.mp hdigits, List.isEmpty_eq_false_iff.mp hne⟩

/-- A literal without a sign. -/
def unsigned (whole : List Char) (fraction : Option (List Char)) (exponent : Option Exponent)
    (hwhole : whole.all Char.isDigit = true)
    (hfraction : (fraction.getD []).all Char.isDigit = true)
    (hne : (whole ++ fraction.getD []).isEmpty = false) : Literal :=
  ⟨.none, whole, fraction, exponent, List.all_eq_true.mp hwhole, List.all_eq_true.mp hfraction,
    List.isEmpty_eq_false_iff.mp hne⟩

/-- A literal without a sign and without a fraction, and a power of ten. -/
def powered (digits : List Char) (exponent : Exponent) (hdigits : digits.all Char.isDigit = true)
    (hne : digits.isEmpty = false) : Literal :=
  unsigned digits none (some exponent) hdigits rfl (by simpa using hne)

def nearlyOne : Literal :=
  unsigned ['0'] (some "99999999999".toList) none rfl rfl rfl

def plainMillionth : Literal :=
  { unsigned [] (some "00000100".toList) none rfl rfl rfl with sign := .plus }

def scientificMillionth : Literal :=
  powered ['1'] (power .minus ['6'] rfl rfl) rfl rfl

/-- The zeros make more places than a decimal number can have. -/
def paddedMidpoint : Literal :=
  unsigned ['2', '9'] (some "5000000000000000000".toList)
    (some (power .minus ['1', '0'] rfl rfl)) rfl rfl rfl

theorem value_nearlyOne : nearlyOne.value = 99999999999 / 10 ^ 11 := by
  have hunits : nearlyOne.units = 99999999999 := by decide
  have hplaces : nearlyOne.places = 11 := rfl
  have hpower : nearlyOne.power = 0 := rfl
  rw [Literal.value_of_unsigned rfl, hunits, hplaces, hpower]
  norm_num

theorem value_plainMillionth : plainMillionth.value = 1 / 10 ^ 6 := by
  have hunits : plainMillionth.units = 100 := by decide
  have hplaces : plainMillionth.places = 8 := rfl
  have hpower : plainMillionth.power = 0 := rfl
  rw [Literal.value_of_unsigned rfl, hunits, hplaces, hpower]
  norm_num

theorem value_scientificMillionth : scientificMillionth.value = 1 / 10 ^ 6 := by
  have hunits : scientificMillionth.units = 1 := by decide
  have hplaces : scientificMillionth.places = 0 := rfl
  have hpower : scientificMillionth.power = -6 := by decide
  rw [Literal.value_of_unsigned rfl, hunits, hplaces, hpower]
  norm_num

theorem value_paddedMidpoint : paddedMidpoint.value = 295 / 10 ^ 11 := by
  have hunits : paddedMidpoint.units = 295000000000000000000 := by decide
  have hplaces : paddedMidpoint.places = 19 := rfl
  have hpower : paddedMidpoint.power = -10 := by decide
  rw [Literal.value_of_unsigned rfl, hunits, hplaces, hpower]
  norm_num

/-- A number just below one is rounded up to it, a millionth has six places however it is written,
and trailing zeros do not count, however many places they make. -/
theorem placesOf_millionth :
    (Spells " 0.99999999999\n" nearlyOne ∧ nearlyOne.IsReadExactly ∧
      rounded 10 nearlyOne.value = 1 ∧ (Increment.placesOf " 0.99999999999\n").1 = 0) ∧
    (Spells "+.00000100" plainMillionth ∧ Spells "1e-6" scientificMillionth ∧
      plainMillionth.value = scientificMillionth.value ∧
      Increment.placesOf "+.00000100" = Increment.placesOf "1e-6" ∧
      Increment.placesOf "1e-6" = (6, [])) ∧
    (Spells "29.5000000000000000000e-10" paddedMidpoint ∧
      paddedMidpoint.value = (⟨false, 295, 11⟩ : Decimal).value ∧
      TellsPlacesOf "29.5000000000000000000e-10" (⟨false, 295, 11⟩ : Decimal).value ∧
      Increment.placesOf "29.5000000000000000000e-10" = (9, [])) := by
  obtain ⟨hread, hrepresentable, hfits, hsame, hbounds⟩ := placesOf_literal
  have hnear : nearlyOne.IsReadExactly := by
    refine ⟨⟨false, 99999999999, 11⟩, by rfl, ?_⟩
    norm_num [value_nearlyOne, Decimal.value, Decimal.sign]
  have hround : rounded 10 nearlyOne.value = 1 := by
    norm_num [value_nearlyOne, rounded, nearestWhole]
  have hvalue : (⟨false, 1, 6⟩ : Decimal).value = plainMillionth.value := by
    norm_num [value_plainMillionth, Decimal.value, Decimal.sign]
  have hequal : plainMillionth.value = scientificMillionth.value :=
    value_plainMillionth.trans value_scientificMillionth.symm
  have hmidpoint : (⟨false, 295, 11⟩ : Decimal).value = paddedMidpoint.value := by
    norm_num [value_paddedMidpoint, Decimal.value, Decimal.sign]
  have hplaces : HasPlaces scientificMillionth.value 28 := by
    refine ⟨10 ^ 22, ?_⟩
    norm_num [value_scientificMillionth]
  have htells := hread " 0.99999999999\n" nearlyOne rfl hnear
  have htellsPlain := hrepresentable "+.00000100" plainMillionth rfl (.inl rfl) ⟨false, 1, 6⟩
    ⟨by decide, by decide⟩ hvalue
  have htellsScientific := hfits "1e-6" scientificMillionth rfl (by decide) (by decide) (by decide)
    hplaces
  have htellsMidpoint := hrepresentable "29.5000000000000000000e-10" paddedMidpoint rfl
    (.inr ⟨⟨by decide, by decide⟩, by decide⟩) ⟨false, 295, 11⟩ ⟨by decide, by decide⟩ hmidpoint
  rw [hequal] at htellsPlain
  rw [← hmidpoint] at htellsMidpoint
  exact ⟨⟨rfl, hnear, hround, (hbounds _ _ htells).2 (.inl hround)⟩,
    ⟨rfl, rfl, hequal, hsame _ _ _ htellsPlain htellsScientific, by decide⟩,
    rfl, hmidpoint.symm, htellsMidpoint, by decide⟩

end SpotWire
