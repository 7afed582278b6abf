import Mathlib.Tactic.IntervalCases
import SpotWire.Text.Octets

/-!
# Octets in UTF-8

Reading octets is the inverse of spelling a text in octets: every text is read back from its
octets (`ofOctets?_octets`), and what is read has been spelled so (`ofOctets?_eq_some_iff`).
-/

namespace SpotWire.Text

def spelling (n : Nat) : List Nat :=
  if n < 0x80 then [n]
  else if n < 0x800 then [n / 64 + 0xc0, n % 64 + 0x80]
  else if n < 0x10000 then [n / 4096 + 0xe0, n / 64 % 64 + 0x80, n % 64 + 0x80]
  else [n / 262144 + 0xf0, n / 4096 % 64 + 0x80, n / 64 % 64 + 0x80, n % 64 + 0x80]

theorem toNat_lt (c : Char) : c.toNat < 0x110000 := by
  rcases c.valid with hlow | ⟨-, hhigh⟩
  · exact Nat.lt_trans (show c.toNat < 0xd800 from hlow) (by decide)
  · exact hhigh

theorem not_surrogate (c : Char) : c.toNat < 0xd800 ∨ 0xdfff < c.toNat :=
  c.valid.imp_right And.left

theorem toNat_ofNat {n : Nat} (h : n.isValidChar) : (Char.ofNat n).toNat = n := by
  rw [Char.ofNat, dif_pos h]
  rfl

theorem map_toNat_utf8EncodeChar (c : Char) :
    (String.utf8EncodeChar c).map UInt8.toNat = spelling c.toNat := by
  have hlt := toNat_lt c
  simp only [String.utf8EncodeChar, spelling, Char.toNat_val]
  by_cases hone : c.toNat < 0x80
  · rw [if_pos (by omega), if_pos hone]
    simp only [List.map_cons, List.map_nil, UInt8.toNat_ofNat', List.cons.injEq, and_true]
    omega
  rw [if_neg (by omega), if_neg hone]
  by_cases htwo : c.toNat < 0x800
  · rw [if_pos (by omega), if_pos htwo]
    simp only [List.map_cons, List.map_nil, UInt8.toNat_ofNat', List.cons.injEq, and_true]
    omega
  rw [if_neg (by omega), if_neg htwo]
  by_cases hthree : c.toNat < 0x10000
  · rw [if_pos (by omega), if_pos hthree]
    simp only [List.map_cons, List.map_nil, UInt8.toNat_ofNat', List.cons.injEq, and_true]
    omega
  · rw [if_neg (by omega), if_neg hthree]
    simp only [List.map_cons, List.map_nil, UInt8.toNat_ofNat', List.cons.injEq, and_true]
    omega

theorem octets_cons (c : Char) (text : List Char) :
    octets (c :: text) = spelling c.toNat ++ octets text := by
  simp [octets, map_toNat_utf8EncodeChar]

/-! ### First octets -/

/-- What a first octet says: the characters of two, three and four octets begin with their highest
bits, and the second octet keeps out what has a shorter spelling or is no character. -/
inductive Leads : Nat → Lead → Prop where
  | two (bits : Nat) (hlow : 2 ≤ bits) (hhigh : bits < 0x20) :
      Leads (bits + 0xc0) ⟨0x80, 0xbf, 0, bits⟩
  | three (bits : Nat) (hhigh : bits < 0x10) :
      Leads (bits + 0xe0)
        ⟨if bits = 0 then 0xa0 else 0x80, if bits = 0xd then 0x9f else 0xbf, 1, bits⟩
  | four (bits : Nat) (hhigh : bits < 5) :
      Leads (bits + 0xf0)
        ⟨if bits = 0 then 0x90 else 0x80, if bits = 4 then 0x8f else 0xbf, 2, bits⟩

theorem Leads.lead?_eq {octet : Nat} {lead : Lead} (h : Leads octet lead) :
    lead? octet = some lead := by
  cases h with
  | two bits hlow hhigh =>
      rw [lead?, if_pos (by omega), Nat.add_sub_cancel]
  | three bits hhigh => interval_cases bits <;> rfl
  | four bits hhigh => interval_cases bits <;> rfl

theorem leads_of_lead? {octet : Nat} {lead : Lead} (h : lead? octet = some lead) :
    Leads octet lead := by
  unfold lead? at h
  split at h
  · cases h
    have hleads := Leads.two (octet - 0xc0) (by omega) (by omega)
    rwa [Nat.sub_add_cancel (by omega)] at hleads
  split at h
  · subst octet
    cases h
    exact .three 0 (by decide)
  split at h
  · subst octet
    cases h
    exact .three 0xd (by decide)
  split at h
  · cases h
    have hleads := Leads.three (octet - 0xe0) (by omega)
    rwa [Nat.sub_add_cancel (by omega), if_neg (by omega), if_neg (by omega)] at hleads
  split at h
  · subst octet
    cases h
    exact .four 0 (by decide)
  split at h
  · subst octet
    cases h
    exact .four 4 (by decide)
  split at h
  · cases h
    have hleads := Leads.four (octet - 0xf0) (by omega)
    rwa [Nat.sub_add_cancel (by omega), if_neg (by omega), if_neg (by omega)] at hleads
  · cases h

/-! ### One octet -/

section Octet

variable {octet : Nat} {rest : List Nat} {c : Char} {tail : List (Option Char)}

theorem charsFrom_small (h : octet < 0x80) :
    charsFrom none (octet :: rest) = some (Char.ofNat octet) :: charsFrom none rest := by
  simp [charsFrom, charsFrom.first, h]

theorem Leads.le {lead : Lead} (h : Leads octet lead) : 0x80 ≤ octet := by
  cases h <;> omega

theorem charsFrom_lead {lead : Lead} (h : Leads octet lead) :
    charsFrom none (octet :: rest) =
      charsFrom (some ⟨lead.bits, lead.low, lead.high, lead.more⟩) rest := by
  simp [charsFrom, charsFrom.first, Nat.not_lt.mpr h.le, h.lead?_eq]

theorem charsFrom_last {bits low high : Nat} (hlow : low ≤ octet) (hhigh : octet ≤ high) :
    charsFrom (some ⟨bits, low, high, 0⟩) (octet :: rest) =
      some (Char.ofNat (bits * 64 + octet % 64)) :: charsFrom none rest := by
  simp [charsFrom, hlow, hhigh]

theorem charsFrom_next {bits low high more : Nat} (hlow : low ≤ octet) (hhigh : octet ≤ high) :
    charsFrom (some ⟨bits, low, high, more + 1⟩) (octet :: rest) =
      charsFrom (some ⟨bits * 64 + octet % 64, 0x80, 0xbf, more⟩) rest := by
  simp [charsFrom, hlow, hhigh]

/-- A reading that begins with a character has begun with a small octet or a first one. -/
theorem first_of_charsFrom {octets : List Nat} (h : charsFrom none octets = some c :: tail) :
    ∃ octet rest, octets = octet :: rest ∧
      ((octet < 0x80 ∧ c = Char.ofNat octet ∧ charsFrom none rest = tail) ∨
        ∃ lead, Leads octet lead ∧
          charsFrom (some ⟨lead.bits, lead.low, lead.high, lead.more⟩) rest = some c :: tail) := by
  cases octets with
  | nil => simp [charsFrom] at h
  | cons octet rest =>
      refine ⟨octet, rest, rfl, ?_⟩
      simp only [charsFrom, charsFrom.first] at h
      split at h
      · rename_i hsmall
        simp only [List.cons.injEq, Option.some.injEq] at h
        exact .inl ⟨hsmall, h.1.symm, h.2⟩
      · split at h
        · rename_i lead hlead
          exact .inr ⟨lead, leads_of_lead? hlead, h⟩
        · simp at h

/-- Inside a character, the next octet is in its range. -/
theorem next_of_charsFrom {state : Pending} {octets : List Nat}
    (h : charsFrom (some state) octets = some c :: tail) :
    ∃ octet rest, octets = octet :: rest ∧ state.low ≤ octet ∧ octet ≤ state.high ∧
      match state.more with
      | 0 => c = Char.ofNat (state.bits * 64 + octet % 64) ∧ charsFrom none rest = tail
      | more + 1 =>
          charsFrom (some ⟨state.bits * 64 + octet % 64, 0x80, 0xbf, more⟩) rest =
            some c :: tail := by
  cases octets with
  | nil => simp [charsFrom] at h
  | cons octet rest =>
      refine ⟨octet, rest, rfl, ?_⟩
      simp only [charsFrom] at h
      split at h
      · rename_i hrange
        refine ⟨hrange.1, hrange.2, ?_⟩
        cases hmore : state.more with
        | zero =>
            simp only [hmore, List.cons.injEq, Option.some.injEq] at h
            exact ⟨h.1.symm, h.2⟩
        | succ more => simpa only [hmore] using h
      · simp at h

end Octet

/-! ### One character -/

theorem charsFrom_spelling (c : Char) (rest : List Nat) :
    charsFrom none (spelling c.toNat ++ rest) = some c :: charsFrom none rest := by
  have hlt := toNat_lt c
  have hvalid := not_surrogate c
  have hback : ∀ n, n = c.toNat → some (Char.ofNat n) = some c := by
    rintro _ rfl
    rw [Char.ofNat_toNat]
  unfold spelling
  split
  · rename_i hone
    rw [List.cons_append, List.nil_append, charsFrom_small hone, Char.ofNat_toNat]
  split
  · simp only [List.cons_append, List.nil_append]
    rw [charsFrom_lead (.two (c.toNat / 64) (by omega) (by omega)),
      charsFrom_last (by dsimp only; omega) (by dsimp only; omega),
      hback _ (by dsimp only; omega)]
  split
  · simp only [List.cons_append, List.nil_append]
    rw [charsFrom_lead (.three (c.toNat / 4096) (by omega)),
      charsFrom_next (by dsimp only; split <;> omega) (by dsimp only; split <;> omega),
      charsFrom_last (by omega) (by omega), hback _ (by dsimp only; omega)]
  · simp only [List.cons_append, List.nil_append]
    rw [charsFrom_lead (.four (c.toNat / 262144) (by omega)),
      charsFrom_next (by dsimp only; split <;> omega) (by dsimp only; split <;> omega),
      charsFrom_next (by omega) (by omega), charsFrom_last (by omega) (by omega),
      hback _ (by dsimp only; omega)]

theorem spelling_of_charsFrom {c : Char} {octets : List Nat} {tail : List (Option Char)}
    (h : charsFrom none octets = some c :: tail) :
    ∃ rest, octets = spelling c.toNat ++ rest ∧ charsFrom none rest = tail := by
  obtain ⟨first, rest, rfl, ⟨hsmall, rfl, hrest⟩ | ⟨lead, hlead, hmore⟩⟩ := first_of_charsFrom h
  · refine ⟨rest, ?_, hrest⟩
    rw [toNat_ofNat (.inl (by omega)), spelling, if_pos hsmall]
    rfl
  obtain ⟨second, rest, rfl, hlow, hhigh, hmore⟩ := next_of_charsFrom hmore
  cases hlead with
  | two bits hmin hmax =>
      obtain ⟨rfl, hrest⟩ := hmore
      refine ⟨rest, ?_, hrest⟩
      simp only at hlow hhigh ⊢
      rw [toNat_ofNat (.inl (by omega)), spelling, if_neg (by omega), if_pos (by omega)]
      simp only [List.cons_append, List.nil_append, List.cons.injEq, and_true]
      omega
  | three bits hmax =>
      obtain ⟨third, rest, rfl, hlow', hhigh', rfl, hrest⟩ := next_of_charsFrom hmore
      refine ⟨rest, ?_, hrest⟩
      simp only at hlow hhigh hlow' hhigh' ⊢
      -- the range of the second octet leaves out short spellings and surrogates
      have hbounds : 0x80 ≤ second ∧ second ≤ 0xbf ∧ (bits = 0 → 0xa0 ≤ second) ∧
          (bits = 0xd → second ≤ 0x9f) := by
        split at hlow <;> split at hhigh <;> omega
      have hvalid : Nat.isValidChar ((bits * 64 + second % 64) * 64 + third % 64) := by
        unfold Nat.isValidChar
        omega
      rw [toNat_ofNat hvalid, spelling, if_neg (by omega), if_neg (by omega), if_pos (by omega)]
      simp only [List.cons_append, List.nil_append, List.cons.injEq, and_true]
      omega
  | four bits hmax =>
      obtain ⟨third, rest, rfl, hlow', hhigh', hmore⟩ := next_of_charsFrom hmore
      obtain ⟨fourth, rest, rfl, hlow'', hhigh'', rfl, hrest⟩ := next_of_charsFrom hmore
      refine ⟨rest, ?_, hrest⟩
      simp only at hlow hhigh hlow' hhigh' hlow'' hhigh'' ⊢
      -- the range of the second octet leaves out short spellings and what is too large
      have hbounds : 0x80 ≤ second ∧ second ≤ 0xbf ∧ (bits = 0 → 0x90 ≤ second) ∧
          (bits = 4 → second ≤ 0x8f) := by
        split at hlow <;> split at hhigh <;> omega
      have hvalid : Nat.isValidChar
          (((bits * 64 + second % 64) * 64 + third % 64) * 64 + fourth % 64) := by
        unfold Nat.isValidChar
        omega
      rw [toNat_ofNat hvalid, spelling, if_neg (by omega), if_neg (by omega), if_neg (by omega)]
      simp only [List.cons_append, List.nil_append, List.cons.injEq, and_true]
      omega

/-! ### Texts -/

theorem charsFrom_octets (text : List Char) : charsFrom none (octets text) = text.map some := by
  induction text with
  | nil => simp [octets, charsFrom]
  | cons c text ih => rw [octets_cons, charsFrom_spelling, ih, List.map_cons]

theorem charsFrom_some_ne_nil (state : Pending) (octets : List Nat) :
    charsFrom (some state) octets ≠ [] := by
  induction octets generalizing state with
  | nil => simp [charsFrom]
  | cons octet rest ih =>
      simp only [charsFrom]
      split
      · split
        · simp
        · exact ih _
      · simp

theorem charsFrom_cons_ne_nil (octet : Nat) (rest : List Nat) :
    charsFrom none (octet :: rest) ≠ [] := by
  simp only [charsFrom, charsFrom.first]
  split
  · simp
  · split
    · exact charsFrom_some_ne_nil _ rest
    · simp

theorem octets_of_charsFrom {text : List Char} {spelled : List Nat}
    (h : charsFrom none spelled = text.map some) : spelled = octets text := by
  induction text generalizing spelled with
  | nil =>
      cases spelled with
      | nil => rfl
      | cons octet rest => exact absurd h (charsFrom_cons_ne_nil octet rest)
  | cons c text ih =>
      obtain ⟨rest, rfl, hrest⟩ := spelling_of_charsFrom h
      rw [ih hrest, octets_cons]

theorem gathered_eq_some_iff {read : List (Option Char)} {text : List Char} :
    read.foldr (fun c rest => c.bind fun c => rest.map (c :: ·)) (some []) = some text ↔
      read = text.map some := by
  induction read generalizing text with
  | nil => cases text <;> simp
  | cons c read ih =>
      cases c with
      | none => cases text <;> simp
      | some c => cases text <;> simp [ih, and_comm]

/-- **UTF-8.** Octets are read as a text if and only if they are its octets. -/
theorem ofOctets?_eq_some_iff {spelled : List Nat} {text : List Char} :
    ofOctets? spelled = some text ↔ spelled = octets text := by
  rw [ofOctets?, gathered_eq_some_iff]
  constructor
  · exact octets_of_charsFrom
  · rintro rfl
    exact charsFrom_octets text

theorem ofOctets?_octets (text : List Char) : ofOctets? (octets text) = some text :=
  ofOctets?_eq_some_iff.mpr rfl

end SpotWire.Text
