import SpotWire.Channel
import SpotWire.Proofs.Text.Replaced

/-!
# The names of channels

The name of a channel is a row of parts with points between them: the name of the feed, the symbol,
then the levels or the interval. The placeholder of the levels or the interval is filled after that
of the symbol, in a text that holds the symbol already, and so in the symbol too
(`render_eq_keptSymbol`). A symbol that has no opening brace, with which a placeholder could begin,
stays as it is (`render_eq`).
-/

namespace SpotWire.FeedKind

theorem name_injective : Function.Injective name := by
  intro first second
  cases first <;> cases second <;> decide

theorem isPrivate_descriptor (kind : FeedKind) : kind.descriptor.isPrivate = kind.isPrivate := by
  cases kind <;> rfl

theorem point_not_mem_name (kind : FeedKind) : '.' ∉ kind.name.toList := by
  cases kind <;> decide

end SpotWire.FeedKind

namespace SpotWire.Channel

/-- The parts of a channel's name. A symbol is one part, though it may have points of its own. -/
def parts (kind : FeedKind) (symbol : String) (params : ChannelParams) : List String :=
  match kind with
  | .ticker | .trades => [kind.name, symbol]
  | .depth => [kind.name, symbol, levelsText (levels params)]
  | .kline => [kind.name, "LAST_PRICE", symbol, Interval.token params.interval]
  | .account | .orders | .fill => [kind.name]

def joined (parts : List String) : List Char :=
  ['.'].intercalate (parts.map String.toList)

theorem joined_singleton (part : String) : joined [part] = part.toList := by
  rw [joined, List.map_singleton, List.intercalate_singleton]

theorem joined_cons_cons (first second : String) (rest : List String) :
    joined (first :: second :: rest) = first.toList ++ '.' :: joined (second :: rest) := by
  simp only [joined, List.map_cons, List.intercalate_cons_cons, List.append_assoc,
    List.singleton_append]

/-! ### Patterns -/

/-- A text after a placeholder has been filled wherever it stands. -/
def refilled (key value text : String) : String :=
  String.ofList (Text.replaceAll (placeholder key) value.toList text.toList)

/-- What a symbol has become once the other placeholder of its feed is filled. -/
def keptSymbol (kind : FeedKind) (symbol : String) (params : ChannelParams) : String :=
  match kind with
  | .depth => refilled "levels" (levelsText (levels params)) symbol
  | .kline => refilled "interval" (Interval.token params.interval) symbol
  | _ => symbol

theorem placeholder_ne_nil (key : String) : placeholder key ≠ [] :=
  List.cons_ne_nil _ _

theorem refilled_eq_self_iff {key value text : String} :
    refilled key value text = text ↔
      ¬Text.Occurs (placeholder key) text.toList ∨ value.toList = placeholder key := by
  rw [refilled, ← String.toList_inj, String.toList_ofList]
  exact Text.replaceAll_eq_self_iff (placeholder_ne_nil key)

section Patterns

variable {before : List Char} {symbol : String}

theorem fill_placeholder (key : String) (value after : List Char) (hbefore : '{' ∉ before) :
    Text.replaceAll (placeholder key) value (before ++ (placeholder key ++ after)) =
      before ++ (value ++ Text.replaceAll (placeholder key) value after) :=
  Text.replaceAll_fill (key.toList ++ ['}']) value after hbefore

theorem fill_last (key : String) (value : List Char) (hbefore : '{' ∉ before) :
    Text.replaceAll (placeholder key) value (before ++ placeholder key) = before ++ value := by
  have hfill := fill_placeholder key value [] hbefore
  rw [show Text.replaceAll (placeholder key) value [] = [] from rfl] at hfill
  rwa [List.append_nil, List.append_nil] at hfill

/-- The second placeholder is filled behind the symbol, and in it. -/
theorem fill_both (key value : String) (hbefore : '{' ∉ before)
    (hpoint : '.' ∉ placeholder key)
    (hkey : Text.replaceAll (placeholder "symbol") symbol.toList ('.' :: placeholder key) =
      '.' :: placeholder key) :
    Text.replaceAll (placeholder key) value.toList
        (Text.replaceAll (placeholder "symbol") symbol.toList
          (before ++ (placeholder "symbol" ++ '.' :: placeholder key))) =
      before ++ ((refilled key value symbol).toList ++ '.' :: value.toList) := by
  calc
    Text.replaceAll (placeholder key) value.toList
        (Text.replaceAll (placeholder "symbol") symbol.toList
          (before ++ (placeholder "symbol" ++ '.' :: placeholder key))) =
      Text.replaceAll (placeholder key) value.toList
        (before ++ (symbol.toList ++ '.' :: placeholder key)) := by
          rw [fill_placeholder "symbol" _ _ hbefore, hkey]
    _ = before ++
        Text.replaceAll (placeholder key) value.toList (symbol.toList ++ '.' :: placeholder key) :=
          Text.replaceAll_append_of_not_mem _ _ hbefore
    _ = before ++ ((refilled key value symbol).toList ++ '.' :: value.toList) := by
          rw [Text.replaceAll_append_cons (placeholder_ne_nil key) hpoint,
            Text.replaceAll_needle (placeholder_ne_nil key), refilled, String.toList_ofList]

/-- Whatever characters a symbol has, its channel has the parts of the symbol that it has
become. -/
theorem render_eq_keptSymbol {kind : FeedKind} (params : ChannelParams)
    (hpublic : kind.isPrivate = false) :
    render kind.descriptor.pattern (fillings kind symbol params) =
      String.ofList (joined (parts kind (keptSymbol kind symbol params) params)) := by
  rw [render]
  congr 1
  cases kind with
  | ticker =>
      have hpattern : FeedKind.ticker.descriptor.pattern.toList =
          "ticker.".toList ++ placeholder "symbol" := by decide
      rw [parts, joined_cons_cons, joined_singleton, hpattern]
      exact fill_last "symbol" symbol.toList (by decide)
  | trades =>
      have hpattern : FeedKind.trades.descriptor.pattern.toList =
          "trades.".toList ++ placeholder "symbol" := by decide
      rw [parts, joined_cons_cons, joined_singleton, hpattern]
      exact fill_last "symbol" symbol.toList (by decide)
  | depth =>
      have hpattern : FeedKind.depth.descriptor.pattern.toList =
          "depth.".toList ++ (placeholder "symbol" ++ '.' :: placeholder "levels") := by decide
      rw [parts, joined_cons_cons, joined_cons_cons, joined_singleton, hpattern]
      exact fill_both "levels" (levelsText (levels params)) (by decide) (by decide) rfl
  | kline =>
      have hpattern : FeedKind.kline.descriptor.pattern.toList =
          "kline.LAST_PRICE.".toList ++
            (placeholder "symbol" ++ '.' :: placeholder "interval") := by
        decide
      rw [parts, joined_cons_cons, joined_cons_cons, joined_cons_cons, joined_singleton, hpattern]
      exact fill_both "interval" (Interval.token params.interval) (by decide) (by decide)
        rfl
  | account | orders | fill => cases hpublic

theorem refilled_of_brace (key value : String) (hsymbol : '{' ∉ symbol.toList) :
    refilled key value symbol = symbol :=
  refilled_eq_self_iff.mpr (.inl (Text.not_occurs_of_not_mem List.mem_cons_self hsymbol))

theorem keptSymbol_of_brace (kind : FeedKind) (params : ChannelParams)
    (hsymbol : '{' ∉ symbol.toList) : keptSymbol kind symbol params = symbol := by
  cases kind with
  | depth => exact refilled_of_brace "levels" _ hsymbol
  | kline => exact refilled_of_brace "interval" _ hsymbol
  | ticker | trades | account | orders | fill => rfl

theorem render_eq {kind : FeedKind} (params : ChannelParams) (hpublic : kind.isPrivate = false)
    (hsymbol : '{' ∉ symbol.toList) :
    render kind.descriptor.pattern (fillings kind symbol params) =
      String.ofList (joined (parts kind symbol params)) := by
  rw [render_eq_keptSymbol params hpublic, keptSymbol_of_brace kind params hsymbol]

end Patterns

variable {suffix channel : String} {kind : FeedKind} {symbol : Option String}
  {params : ChannelParams}

theorem pattern_eq_of_private (hprivate : kind.isPrivate = true) :
    kind.descriptor.pattern = kind.name := by
  cases kind with
  | account | orders | fill => rfl
  | ticker | depth | trades | kline => cases hprivate

theorem parts_eq_of_private {symbol : String} (hprivate : kind.isPrivate = true) :
    parts kind symbol params = [kind.name] := by
  cases kind with
  | account | orders | fill => rfl
  | ticker | depth | trades | kline => cases hprivate

/-- What a feed needs for a name: a symbol, unless it is private. -/
def IsComplete (kind : FeedKind) (symbol : Option String) : Prop :=
  kind.isPrivate = true ∨ symbol.isSome = true

theorem IsComplete.exists_symbol (h : IsComplete kind symbol) (hpublic : kind.isPrivate = false) :
    ∃ text, symbol = some text :=
  Option.isSome_iff_exists.mp (h.resolve_left (by simp [hpublic]))

/-- The parts of a channel's name for a symbol as it is given. -/
def partsOf (suffix : String) (kind : FeedKind) (symbol : Option String) (params : ChannelParams) :
    List String :=
  parts kind (Symbol.normalize suffix (symbol.getD "")) params

theorem ofFeed_eq_ok_iff
    (hsymbol : ∀ text, symbol = some text → '{' ∉ (Symbol.normalize suffix text).toList) :
    ofFeed suffix kind symbol params = .ok channel ↔
      IsComplete kind symbol ∧
        channel = String.ofList (joined (partsOf suffix kind symbol params)) := by
  cases hprivate : kind.isPrivate with
  | true =>
      have hparts : partsOf suffix kind symbol params = [kind.name] :=
        parts_eq_of_private hprivate
      rw [ofFeed.eq_def, FeedKind.isPrivate_descriptor, if_pos hprivate, hparts,
        joined_singleton, pattern_eq_of_private hprivate, String.ofList_toList]
      constructor
      · intro h
        exact ⟨.inl hprivate, (Except.ok.inj h).symm⟩
      · rintro ⟨-, rfl⟩
        rfl
  | false =>
      rw [ofFeed.eq_def, FeedKind.isPrivate_descriptor, if_neg (by simp [hprivate]), IsComplete,
        hprivate]
      cases symbol with
      | none => simp
      | some text =>
          have hrender := render_eq params hprivate (hsymbol text rfl)
          constructor
          · intro h
            exact ⟨.inr rfl, (Except.ok.inj h).symm.trans hrender⟩
          · rintro ⟨-, rfl⟩
            exact congrArg Except.ok hrender

theorem ofFeed_eq_error_iff {fault : Fault} :
    ofFeed suffix kind symbol params = .error fault ↔
      (kind.isPrivate = false ∧ symbol = none) ∧ fault = .missingSymbol kind := by
  rw [ofFeed.eq_def, FeedKind.isPrivate_descriptor]
  cases hprivate : kind.isPrivate with
  | true => simp
  | false =>
      cases symbol with
      | some text => simp
      | none =>
          simp only [Bool.false_eq_true, if_false, Except.error.injEq, and_self, true_and]
          exact eq_comm

/-! ### Values -/

theorem isDigit_of_mem_levelsText {levels : UInt32} {c : Char}
    (h : c ∈ (levelsText levels).toList) : c.isDigit = true := by
  rw [levelsText, String.toList_ofList] at h
  exact Nat.isDigit_of_mem_toDigits (by decide) (by decide) h

theorem levelsText_injective : Function.Injective levelsText := by
  intro first second h
  have hdigits : Nat.toDigits 10 first.toNat = Nat.toDigits 10 second.toNat :=
    String.ofList_injective h
  have hvalue := congrArg (fun digits => Nat.ofDigitChars 10 digits 0) hdigits
  simp only [Nat.ofDigitChars_toDigits (b := 10) (by decide) (by decide)] at hvalue
  exact UInt32.toNat_inj.mp hvalue

end SpotWire.Channel

namespace SpotWire.Interval

def tokens : List String :=
  table.map Prod.snd

theorem token_mem_or_passed (interval : Option String) :
    token interval ∈ tokens ∨
      ∃ frame, interval = some frame ∧ token? frame = none ∧ token interval = frame := by
  cases interval with
  | none => exact .inl (by decide)
  | some frame =>
      rw [token, Option.getD_some]
      cases htoken : token? frame with
      | none => exact .inr ⟨frame, rfl, htoken, rfl⟩
      | some known =>
          obtain ⟨entry, hentry, rfl⟩ := Option.map_eq_some_iff.mp htoken
          exact .inl (List.mem_map_of_mem (List.mem_of_find?_eq_some hentry))

end SpotWire.Interval
