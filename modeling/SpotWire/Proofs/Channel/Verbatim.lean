import SpotWire.Proofs.Channel.Name

/-!
# Arguments in the names of channels

A symbol comes into the name of its channel as it is unless it holds the placeholder that its feed
has besides that of the symbol (`arguments_are_kept_iff`). The suffix counts as a part of the
symbol, and each of the two may hold a piece of the placeholder.
-/

namespace SpotWire.Channel

variable {kind : FeedKind} {params : ChannelParams}

theorem ofFeed_eq_keptSymbol (suffix symbol : String) (params : ChannelParams)
    (hpublic : kind.isPrivate = false) :
    ofFeed suffix kind (some symbol) params = .ok (String.ofList (joined
      (parts kind (keptSymbol kind (Symbol.normalize suffix symbol) params) params))) := by
  rw [ofFeed, FeedKind.isPrivate_descriptor, if_neg (by simp [hpublic])]
  exact congrArg Except.ok (render_eq_keptSymbol params hpublic)

theorem joined_parts_inj (hpublic : kind.isPrivate = false) {symbol other : String} :
    joined (parts kind symbol params) = joined (parts kind other params) ↔ symbol = other := by
  rw [← String.toList_inj]
  cases kind with
  | ticker | trades => simp [parts, joined_cons_cons, joined_singleton]
  | depth | kline => simp [parts, joined_cons_cons, joined_singleton]
  | account | orders | fill => cases hpublic

/-- A symbol is found in the name of its channel exactly if filling the other placeholder has left
it as it was. -/
theorem ofFeed_eq_ok_parts_iff {suffix symbol : String} (hpublic : kind.isPrivate = false) :
    ofFeed suffix kind (some symbol) params =
        .ok (String.ofList (joined (parts kind (Symbol.normalize suffix symbol) params))) ↔
      keptSymbol kind (Symbol.normalize suffix symbol) params =
        Symbol.normalize suffix symbol := by
  rw [ofFeed_eq_keptSymbol suffix symbol params hpublic, Except.ok.injEq, String.ofList_inj,
    joined_parts_inj hpublic]

/-! ### Names written out -/

section Written

variable (symbol : String) (params : ChannelParams)

theorem ofList_joined_ticker :
    String.ofList (joined (parts .ticker symbol params)) = "ticker." ++ symbol := by
  have hfeed : "ticker.".toList = FeedKind.ticker.name.toList ++ ['.'] := by decide
  rw [← String.toList_inj, String.toList_ofList, String.toList_append, hfeed]
  simp [parts, joined_cons_cons, joined_singleton]

theorem ofList_joined_trades :
    String.ofList (joined (parts .trades symbol params)) = "trades." ++ symbol := by
  have hfeed : "trades.".toList = FeedKind.trades.name.toList ++ ['.'] := by decide
  rw [← String.toList_inj, String.toList_ofList, String.toList_append, hfeed]
  simp [parts, joined_cons_cons, joined_singleton]

theorem ofList_joined_depth :
    String.ofList (joined (parts .depth symbol params)) =
      "depth." ++ symbol ++ "." ++ levelsText (levels params) := by
  have hfeed : "depth.".toList = FeedKind.depth.name.toList ++ ['.'] := by decide
  rw [← String.toList_inj, String.toList_ofList]
  simp only [String.toList_append, hfeed]
  simp [parts, joined_cons_cons, joined_singleton]

theorem ofList_joined_kline :
    String.ofList (joined (parts .kline symbol params)) =
      "kline.LAST_PRICE." ++ symbol ++ "." ++ Interval.token params.interval := by
  have hfeed : "kline.LAST_PRICE.".toList =
      FeedKind.kline.name.toList ++ '.' :: ("LAST_PRICE".toList ++ ['.']) := by decide
  rw [← String.toList_inj, String.toList_ofList]
  simp only [String.toList_append, hfeed]
  simp [parts, joined_cons_cons, joined_singleton]

end Written

theorem levelsText_ne_placeholder (levels : UInt32) (key : String) :
    (levelsText levels).toList ≠ placeholder key := by
  intro h
  have hmem : '{' ∈ (levelsText levels).toList := by
    rw [h]
    exact List.mem_cons_self
  exact absurd (isDigit_of_mem_levelsText hmem) (by decide)

/-- **Arguments in channel names.** The name of a public channel is the text of its feed with the
symbol and, for order books and candles, the levels or the interval.

* The symbol of tickers and trades is always the one that is given, with its suffix.
* That of order books is the one that is given if and only if the placeholder of the levels is
  nowhere in it; else it holds the levels in its place.
* That of candles is the one that is given if and only if the placeholder of the interval is
  nowhere in it, or the interval is the placeholder itself; else it holds the interval in its
  place. -/
theorem arguments_are_kept_iff (suffix symbol : String) (params : ChannelParams) :
    ofFeed suffix .ticker (some symbol) params =
        .ok ("ticker." ++ Symbol.normalize suffix symbol) ∧
      ofFeed suffix .trades (some symbol) params =
        .ok ("trades." ++ Symbol.normalize suffix symbol) ∧
      (ofFeed suffix .depth (some symbol) params =
          .ok ("depth." ++
            refilled "levels" (levelsText (levels params)) (Symbol.normalize suffix symbol) ++
            "." ++ levelsText (levels params)) ∧
        (ofFeed suffix .depth (some symbol) params =
            .ok ("depth." ++ Symbol.normalize suffix symbol ++ "." ++
              levelsText (levels params)) ↔
          ¬Text.Occurs (placeholder "levels") (Symbol.normalize suffix symbol).toList)) ∧
      (ofFeed suffix .kline (some symbol) params =
          .ok ("kline.LAST_PRICE." ++
            refilled "interval" (Interval.token params.interval)
              (Symbol.normalize suffix symbol) ++
            "." ++ Interval.token params.interval) ∧
        (ofFeed suffix .kline (some symbol) params =
            .ok ("kline.LAST_PRICE." ++ Symbol.normalize suffix symbol ++ "." ++
              Interval.token params.interval) ↔
          ¬Text.Occurs (placeholder "interval") (Symbol.normalize suffix symbol).toList ∨
            (Interval.token params.interval).toList = placeholder "interval")) := by
  rw [← ofList_joined_ticker _ params, ← ofList_joined_trades _ params, ← ofList_joined_depth,
    ← ofList_joined_depth, ← ofList_joined_kline, ← ofList_joined_kline]
  refine ⟨ofFeed_eq_keptSymbol suffix symbol params rfl,
    ofFeed_eq_keptSymbol suffix symbol params rfl,
    ⟨ofFeed_eq_keptSymbol suffix symbol params rfl, ?_⟩,
    ⟨ofFeed_eq_keptSymbol suffix symbol params rfl, ?_⟩⟩
  · rw [ofFeed_eq_ok_parts_iff rfl, keptSymbol, refilled_eq_self_iff]
    exact or_iff_left (levelsText_ne_placeholder _ _)
  · rw [ofFeed_eq_ok_parts_iff rfl, keptSymbol, refilled_eq_self_iff]

/-- The levels come into a symbol that holds their placeholder, and the interval into one that
holds the first piece of its placeholder in front of a suffix that holds the other. -/
theorem arguments_are_changed :
    ofFeed "_SPBL" .depth (some "\x7b\x7blevels\x7d\x7d") ⟨none, none⟩ =
        .ok "depth.\x7b15\x7d_SPBL.15" ∧
      "depth.\x7b15\x7d_SPBL.15" ≠
        "depth." ++ Symbol.normalize "_SPBL" "\x7b\x7blevels\x7d\x7d" ++ "." ++
          levelsText (levels ⟨none, none⟩) ∧
      ofFeed "val\x7d" .kline (some "BTC\x7binter") ⟨none, some "1h"⟩ =
        .ok "kline.LAST_PRICE.BTCHOUR_1.HOUR_1" ∧
      "kline.LAST_PRICE.BTCHOUR_1.HOUR_1" ≠
        "kline.LAST_PRICE." ++ Symbol.normalize "val\x7d" "BTC\x7binter" ++ "." ++
          Interval.token (some "1h") := by
  refine ⟨rfl, ?_, rfl, ?_⟩
  · decide
  · decide

end SpotWire.Channel
