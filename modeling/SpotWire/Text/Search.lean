/-!
Finding and replacing one text inside another, by characters. `Occurs` says that a text stands
somewhere inside another one; `occurs` decides it (`occurs_eq_true_iff`).
-/

namespace SpotWire.Text

/-- One text stands somewhere inside another one. -/
def Occurs (needle text : List Char) : Prop :=
  ∃ before after, text = before ++ needle ++ after

def occurs (needle : List Char) : List Char → Bool
  | [] => needle.isEmpty
  | c :: rest => needle.isPrefixOf (c :: rest) || occurs needle rest

theorem occurs_eq_true_iff {needle text : List Char} :
    occurs needle text = true ↔ Occurs needle text := by
  induction text with
  | nil =>
      simp [occurs, Occurs, List.isEmpty_iff]
  | cons c rest ih =>
      rw [occurs, Bool.or_eq_true, ih, List.isPrefixOf_iff_prefix]
      constructor
      · rintro (⟨after, h⟩ | ⟨before, after, h⟩)
        · exact ⟨[], after, by simp [h]⟩
        · exact ⟨c :: before, after, by simp [h]⟩
      · rintro ⟨before, after, h⟩
        cases before with
        | nil => exact .inl ⟨after, by simpa using h.symm⟩
        | cons b before =>
            simp only [List.cons_append, List.cons.injEq] at h
            exact .inr ⟨before, after, h.2⟩

/-- Whether a pattern stands somewhere inside a string, letter case counting. -/
def mentions (pattern text : String) : Bool :=
  occurs pattern.toList text.toList

/-- Every occurrence of `needle`, found from left to right without overlap, gives way to
`value`. What has been put in is not searched again. `skip` counts the characters of an
occurrence that are still to be passed over. -/
def replaceFrom (needle value : List Char) (skip : Nat) : List Char → List Char
  | [] => []
  | c :: rest =>
      match skip with
      | skip + 1 => replaceFrom needle value skip rest
      | 0 =>
          if needle.isPrefixOf (c :: rest) then
            value ++ replaceFrom needle value (needle.length - 1) rest
          else
            c :: replaceFrom needle value 0 rest

/-- Every occurrence of a non-empty `needle` gives way to `value`. -/
def replaceAll (needle value text : List Char) : List Char :=
  replaceFrom needle value 0 text

end SpotWire.Text
