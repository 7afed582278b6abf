import SpotWire.Proofs.Text.Octets
import SpotWire.Url.Form

/-!
# Queries in form encoding

Names and values are read back from their encoding (`decode_encode`), since every octet is: a
character that stands for itself, a plus sign for a space, three characters for any other octet. No
encoded text has a separator of fields, so a query is read as the fields that it was made from
(`fields_of_texts`).
-/

namespace SpotWire.Url

/-! ### Percent signs -/

theorem hexValue?_upperHex {digit : Nat} (h : digit < 16) :
    hexValue? (upperHex digit) = some digit := by
  have hall : ∀ digit : Fin 16, hexValue? (upperHex digit) = some digit.val := by decide
  exact hall ⟨digit, h⟩

theorem percentDecode_percentOctet {octet : Nat} (h : octet < 256) (rest : List Char) :
    percentDecode 0 (percentOctet octet ++ rest) = octet :: percentDecode 0 rest := by
  have hhigh : octet / 16 < 16 := by omega
  have hlow : octet % 16 < 16 := by omega
  have hencoded : encodedOctet? (percentOctet octet ++ rest) = some octet := by
    simp only [percentOctet, List.cons_append, List.nil_append, encodedOctet?,
      hexValue?_upperHex hhigh, hexValue?_upperHex hlow, Option.bind_eq_bind, Option.bind_some]
    congr 1
    omega
  rw [percentOctet, List.cons_append, percentDecode]
  rw [percentOctet, List.cons_append] at hencoded
  simp only [hencoded]
  rfl

theorem percentDecode_percentOctets {octets : List Nat} (h : ∀ octet ∈ octets, octet < 256)
    (rest : List Char) :
    percentDecode 0 (octets.flatMap percentOctet ++ rest) = octets ++ percentDecode 0 rest := by
  induction octets with
  | nil => rfl
  | cons octet octets ih =>
      obtain ⟨hoctet, hoctets⟩ := List.forall_mem_cons.mp h
      rw [List.flatMap_cons, List.append_assoc, percentDecode_percentOctet hoctet, ih hoctets,
        List.cons_append]

/-- A character other than a percent sign stands for its own octets. -/
theorem percentDecode_cons {c : Char} (h : c ≠ '%') (rest : List Char) :
    percentDecode 0 (c :: rest) = Text.octets [c] ++ percentDecode 0 rest := by
  have hplain : encodedOctet? (c :: rest) = none := by
    unfold encodedOctet?
    split
    · rename_i hcons
      exact absurd (List.cons.inj hcons).1 h
    · rfl
  rw [percentDecode]
  simp only [hplain]

theorem octets_lt (text : List Char) : ∀ octet ∈ Text.octets text, octet < 256 := by
  intro octet hmem
  obtain ⟨c, -, hoctet⟩ := List.mem_flatMap.mp hmem
  obtain ⟨word, -, rfl⟩ := List.mem_map.mp hoctet
  exact word.toNat_lt

namespace Form

/-! ### Names and values -/

/-- What an encoded text is made of. -/
def isEncoded (c : Char) : Bool :=
  isPlain c || c == '+' || c == '%'

theorem isEncoded_of_mem_percentOctet {octet : Nat} (hoctet : octet < 256) {c : Char}
    (h : c ∈ percentOctet octet) : isEncoded c = true ∧ c ≠ '+' := by
  have hdigit : ∀ digit : Fin 16, isEncoded (upperHex digit) = true ∧ upperHex digit ≠ '+' := by
    decide
  simp only [percentOctet, List.mem_cons, List.not_mem_nil, or_false] at h
  rcases h with rfl | rfl | rfl
  · decide
  · exact hdigit ⟨octet / 16, by omega⟩
  · exact hdigit ⟨octet % 16, by omega⟩

theorem isEncoded_of_mem_percentChar {c digit : Char} (h : digit ∈ percentChar c) :
    isEncoded digit = true ∧ digit ≠ '+' := by
  obtain ⟨octet, hoctet, hmem⟩ := List.mem_flatMap.mp h
  exact isEncoded_of_mem_percentOctet (octets_lt [c] octet hoctet) hmem

theorem isEncoded_of_mem_encode {text : List Char} {c : Char} (h : c ∈ encode text) :
    isEncoded c = true := by
  obtain ⟨own, -, hmem⟩ := List.mem_flatMap.mp h
  unfold encodeChar at hmem
  split at hmem
  · rename_i hplain
    obtain rfl := List.mem_singleton.mp hmem
    simp [isEncoded, hplain]
  · split at hmem
    · obtain rfl := List.mem_singleton.mp hmem
      rfl
    · exact (isEncoded_of_mem_percentChar hmem).1

theorem not_mem_encode {separator : Char} (h : isEncoded separator = false) (text : List Char) :
    separator ∉ encode text := by
  intro hmem
  rw [isEncoded_of_mem_encode hmem] at h
  cases h

/-- A plus sign stands for a space. -/
def spaced (text : List Char) : List Char :=
  text.map fun c => if c = '+' then ' ' else c

theorem spaced_eq_self {text : List Char} (h : ∀ c ∈ text, c ≠ '+') : spaced text = text := by
  refine (List.map_congr_left fun c hc => ?_).trans (List.map_id text)
  exact if_neg (h c hc)

theorem percentDecode_spaced_encodeChar (c : Char) (rest : List Char) :
    percentDecode 0 (spaced (encodeChar c) ++ rest) = Text.octets [c] ++ percentDecode 0 rest := by
  by_cases hplain : isPlain c = true
  · have hplus : c ≠ '+' := by
      rintro rfl
      exact absurd hplain (by decide)
    have hpercent : c ≠ '%' := by
      rintro rfl
      exact absurd hplain (by decide)
    rw [encodeChar, if_pos hplain, spaced_eq_self (by simpa using hplus)]
    exact percentDecode_cons hpercent rest
  · by_cases hspace : c = ' '
    · subst hspace
      exact percentDecode_cons (by decide) rest
    · rw [encodeChar, if_neg hplain, if_neg hspace,
        spaced_eq_self fun digit hdigit => (isEncoded_of_mem_percentChar hdigit).2, percentChar]
      exact percentDecode_percentOctets (octets_lt [c]) rest

theorem decodeOctets_encode (text : List Char) : decodeOctets (encode text) = Text.octets text := by
  change percentDecode 0 (spaced (encode text)) = Text.octets text
  induction text with
  | nil => rfl
  | cons c text ih =>
      calc
        percentDecode 0 (spaced (encode (c :: text))) =
            percentDecode 0 (spaced (encodeChar c) ++ spaced (encode text)) := by
              rw [encode, List.flatMap_cons, spaced, List.map_append]
              rfl
        _ = Text.octets [c] ++ Text.octets text := by
              rw [percentDecode_spaced_encodeChar, ih]
        _ = Text.octets (c :: text) := by
              simp only [Text.octets, List.flatMap_cons, List.flatMap_nil, List.append_nil]

/-- Every text is read back from its encoding. -/
theorem decode_encode (text : List Char) : decode (encode text) = text := by
  rw [decode, decodeOctets_encode, Text.ofOctets, Text.charsFrom_octets, List.map_map]
  exact List.map_id text

example : encode "A &=+%é".toList = "A+%26%3D%2B%25%C3%A9".toList := by cbv

/-! ### Fields -/

/-- A field is divided at its first equals sign. -/
def Field.ofChars (part : List Char) : Field :=
  ⟨String.ofList (decode (part.takeWhile (· != '='))),
    String.ofList (decode ((part.dropWhile (· != '=')).drop 1))⟩

/-- The fields of a query. Empty parts are passed over. -/
def fields (query : List Char) : List Field :=
  ((query.splitOn '&').filter (!·.isEmpty)).map Field.ofChars

theorem Field.ofChars_text (field : Field) : ofChars field.text = field := by
  have hname : ∀ c ∈ encode field.name.toList, (c != '=') = true := by
    intro c hc
    rw [bne_iff_ne]
    rintro rfl
    exact not_mem_encode rfl _ hc
  rw [ofChars, Field.text, List.takeWhile_append_of_pos hname, List.dropWhile_append_of_pos hname]
  simp [decode_encode]

theorem Field.separator_not_mem_text (field : Field) : '&' ∉ field.text := by
  rw [Field.text, List.mem_append, List.mem_cons]
  rintro (hname | hmark | hvalue)
  · exact not_mem_encode rfl _ hname
  · cases hmark
  · exact not_mem_encode rfl _ hvalue

theorem Field.text_ne_nil (field : Field) : field.text ≠ [] := by
  simp [Field.text]

/-- **Queries are read back.** Fields are told apart from the text that they make together, whatever
characters their names and values have. -/
theorem fields_of_texts (own : List Field) :
    fields (['&'].intercalate (own.map Field.text)) = own := by
  cases own with
  | nil => rfl
  | cons first rest =>
      have hseparator : ∀ part ∈ (first :: rest).map Field.text, '&' ∉ part := by
        intro part hpart
        obtain ⟨field, -, rfl⟩ := List.mem_map.mp hpart
        exact field.separator_not_mem_text
      have hfull : ∀ part ∈ (first :: rest).map Field.text, (!part.isEmpty) = true := by
        intro part hpart
        obtain ⟨field, -, rfl⟩ := List.mem_map.mp hpart
        simpa using field.text_ne_nil
      rw [fields, List.splitOn_intercalate '&' hseparator (by simp), List.filter_eq_self.mpr hfull,
        List.map_map]
      exact List.map_id'' Field.ofChars_text (first :: rest)

end Form

end SpotWire.Url
