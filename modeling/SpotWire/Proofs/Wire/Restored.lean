import SpotWire.Proofs.Wire.Printed

/-!
# Printing what has been read

Data that have been read come out the same when their printed form is read. Of a decoder and a
printer this is stated on nodes and values, so that the data of a part carry over to the whole;
texts follow.
-/

namespace SpotWire.Wire

open Json

variable {α : Type} {decode : Decoder α} {encode : α → Value} {free : α → Prop}
  {reading : Reading}

/-- Data that are read come out the same when their printed form is read, and the printed form has
no numbers of the binary format if the parts of the data that are free have none. -/
structure Restores (reading : Reading) (decode : Decoder α) (encode : α → Value)
    (free : α → Prop) : Prop where
  reread {node : Node} {a : α} (h : decode reading node = .ok a) :
    decode reading (.ofValue (encode a)) = .ok a
  ne_null {node : Node} {a : α} (h : decode reading node = .ok a) (hne : node ≠ .null) :
    encode a ≠ .null
  holdsWhole {node : Node} {a : α} (h : decode reading node = .ok a)
    (hfits : node.AllNumbers Number.Fits) (hfree : free a) : (encode a).HoldsWhole

/-- Data that are read from a text are read again from their own text. -/
def Reprints (decode : Decoder α) (encode : α → Value) (free : α → Prop) : Prop :=
  ∀ text a, ofText decode text = .ok a → free a → ofText decode (encode a).text = .ok a

theorem Restores.reprints (h : Restores .ofDocument decode encode free) :
    Reprints decode encode free := by
  intro text a hread hfree
  obtain ⟨root, hfits, hroot⟩ := ofText_eq_ok hread
  rw [ofText_text decode (h.holdsWhole hroot hfits hfree)]
  exact h.reread hroot

/-- Data without free parts. -/
theorem reprints_of_reads (hread : ∀ a, decode .ofDocument (.ofValue (encode a)) = .ok a)
    (hwhole : ∀ a, (encode a).HoldsWhole) : Reprints decode encode fun _ => True := by
  intro text a _ _
  rw [ofText_text decode (hwhole a)]
  exact hread a

theorem restores_value (hreading : reading.Admits 0) :
    Restores reading value id Value.HasNoReal where
  reread h := value_ofValue (hasValue_of_value hreading h).ordered (admits_of_value hreading h)
  ne_null h hne := by
    rintro rfl
    exact hne (Node.eq_null_of_value (orBroken_eq_ok h))
  holdsWhole h hfits hfree := (wellFormed_of_value hreading hfits h).fits.holdsWhole hfree

theorem integer_eq_ok {low high n : Int} {expected : String} {node : Node}
    (h : integer low high expected reading node = .ok n) : low ≤ n ∧ n ≤ high := by
  unfold integer at h
  split at h
  · split at h
    · rename_i hin
      rwa [← Except.ok.inj h]
    · cases h
  · obtain ⟨found, -, h⟩ := bind_eq_ok h
    cases h

theorem holdsWhole_of_int64 {node : Node} {n : Int} (h : int64 reading node = .ok n) :
    Value.HoldsWhole (.number (.integer n)) := by
  obtain ⟨hlow, hhigh⟩ := integer_eq_ok h
  refine .number ⟨⟨hlow, Int.le_trans hhigh ?_⟩, trivial⟩
  decide

theorem restores_int64 (reading : Reading) :
    Restores reading int64 (fun n => .number (.integer n)) fun _ => True where
  reread h := integer_ofValue (integer_eq_ok h).1 (integer_eq_ok h).2 "i64" reading
  ne_null _ _ := nofun
  holdsWhole h _ _ := holdsWhole_of_int64 h

theorem Holds.allNumbers {key : String} {place : Nat} {root content : Node} {P : Number → Prop}
    (h : Holds key place root content) (hroot : root.AllNumbers P) : content.AllNumbers P := by
  cases h with
  | member hmem =>
      cases hroot with
      | object _ hmembers => exact hmembers _ hmem
  | item hitem =>
      cases hroot with
      | array _ hitems => exact hitems _ (List.mem_of_getElem? hitem)

end SpotWire.Wire
