import SpotWire.Message.Inbound
import SpotWire.Proofs.Channel.Name

/-!
# Words in the names of channels

Payloads are classified, and private channels are known, by the names of feeds that stand anywhere
in the name of a channel. None of them reaches over a point, and none stands in a fixed part, in
the levels or in a token of an interval. So what a channel tells beyond its own feed stands in its
symbol or in an interval that is passed through.
-/

namespace SpotWire

open Json

namespace Channel

variable {word : String} {kind : FeedKind} {symbol : String} {params : ChannelParams}

theorem mentions_joined (hpoint : '.' ∉ word.toList) (hne : word.toList ≠ [])
    (parts : List String) :
    Text.mentions word (String.ofList (joined parts)) = parts.any (Text.mentions word) := by
  rw [Bool.eq_iff_iff, Text.mentions_eq_true_iff, String.toList_ofList, joined,
    Text.occurs_intercalate_iff hpoint hne, List.any_eq_true]
  simp [Text.mentions_eq_true_iff]

theorem mentions_levelsText {c : Char} (hmem : c ∈ word.toList) (hdigit : c.isDigit = false)
    (levels : UInt32) : Text.mentions word (levelsText levels) = false := by
  have hnot : c ∉ (levelsText levels).toList := by
    intro h
    rw [isDigit_of_mem_levelsText h] at hdigit
    cases hdigit
  rw [Bool.eq_false_iff]
  intro h
  exact Text.not_occurs_of_not_mem hmem hnot (Text.mentions_eq_true_iff.mp h)

/-- No name of a feed stands in another one. -/
theorem mentions_name_name (word kind : FeedKind) :
    Text.mentions word.name kind.name = decide (word = kind) := by
  cases word <;> cases kind <;> decide

theorem mentions_name_levelsText (word : FeedKind) (levels : UInt32) :
    Text.mentions word.name (levelsText levels) = false := by
  have hletter : word.name.toList.any (fun c => !c.isDigit) = true := by
    cases word <;> rfl
  obtain ⟨c, hmem, hdigit⟩ := List.any_eq_true.mp hletter
  exact mentions_levelsText hmem (by simpa using hdigit) levels

theorem mentions_name_token (word : FeedKind) {token : String} (h : token ∈ Interval.tokens) :
    Text.mentions word.name token = false := by
  have htokens : ∀ token ∈ Interval.tokens, Text.mentions word.name token = false := by
    cases word <;> decide
  exact htokens token h

theorem mentions_token (word : FeedKind) {interval : Option String}
    (h : ∀ frame, interval = some frame → Text.mentions word.name frame = false) :
    Text.mentions word.name (Interval.token interval) = false := by
  rcases Interval.token_mem_or_passed interval with hmem | ⟨frame, hframe, -, htoken⟩
  · exact mentions_name_token word hmem
  · rw [htoken]
    exact h frame hframe

/-- A channel tells the name of a feed by its own feed, by its symbol or by its interval. -/
theorem mentions_parts (word : FeedKind) (name : String) (hname : word.name = name)
    (kind : FeedKind) (symbol : String) (params : ChannelParams) :
    Text.mentions name (String.ofList (joined (parts kind symbol params))) =
      (decide (word = kind) || (!kind.isPrivate && Text.mentions name symbol) ||
        (decide (kind = .kline) && Text.mentions name (Interval.token params.interval))) := by
  subst hname
  have hne : word.name.toList ≠ [] := by
    cases word <;> decide
  have hprice : Text.mentions word.name "LAST_PRICE" = false := by
    cases word <;> decide
  rw [mentions_joined word.point_not_mem_name hne]
  cases kind <;>
    simp [parts, mentions_name_name, mentions_name_levelsText, hprice, FeedKind.isPrivate,
      Bool.or_assoc]

/-- A suffix cannot make up a word with the end of a symbol: it starts with another character. -/
theorem mentions_normalize {suffix : String} (hsuffix : Text.mentions word suffix = false)
    (hfirst : ∀ c ∈ suffix.toList.head?, c ∉ word.toList) (symbol : String) :
    Text.mentions word (Symbol.normalize suffix symbol) = Text.mentions word symbol := by
  unfold Symbol.normalize
  split
  · rfl
  rw [Bool.eq_iff_iff, Text.mentions_eq_true_iff, Text.mentions_eq_true_iff, String.toList_append]
  cases hchars : suffix.toList with
  | nil => rw [List.append_nil]
  | cons c rest =>
      have hnot : c ∉ word.toList := hfirst c (by simp [hchars])
      have hrest : ¬Text.Occurs word.toList rest := by
        intro h
        have hmentions : Text.mentions word suffix = true := by
          rw [Text.mentions_eq_true_iff, hchars, Text.occurs_cons_iff hnot]
          exact h
        rw [hsuffix] at hmentions
        cases hmentions
      rw [Text.occurs_append_cons_iff hnot]
      exact or_iff_left hrest

end Channel

namespace PayloadKind

/-- The payloads of a feed. -/
def ofFeed : FeedKind → PayloadKind
  | .ticker => .ticker
  | .depth => .orderbook
  | .trades => .trades
  | .kline => .kline
  | .account => .account
  | .orders => .orders
  | .fill => .fills

/-- The words that outrank the name of a public feed, in their order. -/
def words : List String := ["ticker", "depth", "trades"]

/-- How payloads of a feed are classified: the first word in the symbol, or in the interval of a
candle, outranks the name of the feed. -/
def expected (kind : FeedKind) (symbol interval : String) : PayloadKind :=
  let tells (word : String) : Bool := Text.mentions word symbol || Text.mentions word interval
  match kind with
  | .account => .account
  | .orders => .orders
  | .fill => .fills
  | .ticker => .ticker
  | .depth => if Text.mentions "ticker" symbol then .ticker else .orderbook
  | .trades =>
      if Text.mentions "ticker" symbol then .ticker
      else if Text.mentions "depth" symbol then .orderbook
      else .trades
  | .kline =>
      if tells "ticker" then .ticker
      else if tells "depth" then .orderbook
      else if tells "trades" then .trades
      else .kline

theorem ofChannel?_parts (kind : FeedKind) (symbol : String) (params : ChannelParams) :
    ofChannel? (String.ofList (Channel.joined (Channel.parts kind symbol params))) =
      some (expected kind symbol (Interval.token params.interval)) := by
  cases hprivate : kind.isPrivate with
  | true =>
      rw [Channel.parts_eq_of_private hprivate, Channel.joined_singleton, String.ofList_toList]
      cases kind with
      | account | orders | fill => rfl
      | ticker | depth | trades | kline => cases hprivate
  | false =>
      -- the words of the classification are names of feeds
      have hticker := Channel.mentions_parts .ticker "ticker" rfl kind symbol params
      have hdepth := Channel.mentions_parts .depth "depth" rfl kind symbol params
      have htrades := Channel.mentions_parts .trades "trades" rfl kind symbol params
      have hkline := Channel.mentions_parts .kline "kline" rfl kind symbol params
      unfold ofChannel?
      rw [hticker, hdepth, htrades, hkline, hprivate]
      cases kind with
      | ticker => rfl
      | depth => simp [expected, apply_ite some]
      | trades => simp [expected, apply_ite some]
      | kline => simp [expected, apply_ite some]
      | account | orders | fill => cases hprivate

theorem expected_eq_ofFeed {kind : FeedKind} {symbol interval : String}
    (hsymbol : ∀ word ∈ words, Text.mentions word symbol = false)
    (hinterval : kind = .kline → ∀ word ∈ words, Text.mentions word interval = false) :
    expected kind symbol interval = ofFeed kind := by
  simp only [words, List.forall_mem_cons] at hsymbol hinterval
  cases kind with
  | ticker | account | orders | fill => rfl
  | depth => simp [expected, ofFeed, hsymbol]
  | trades => simp [expected, ofFeed, hsymbol]
  | kline => simp [expected, ofFeed, hsymbol, hinterval rfl]

theorem exists_name_of_mem_words {word : String} (h : word ∈ words) :
    ∃ kind : FeedKind, kind.name = word := by
  simp only [words, List.mem_cons, List.not_mem_nil, or_false] at h
  rcases h with rfl | rfl | rfl
  · exact ⟨.ticker, rfl⟩
  · exact ⟨.depth, rfl⟩
  · exact ⟨.trades, rfl⟩

/-- Only the whole name of a private feed makes its payloads. -/
theorem isAuthenticated_of_ofChannel? {name : String} {payload : PayloadKind}
    (h : ofChannel? name = some payload)
    (hprivate : payload = .account ∨ payload = .orders ∨ payload = .fills) :
    Channel.isAuthenticated name = true := by
  unfold ofChannel? at h
  split at h
  · simp [← Option.some.inj h] at hprivate
  split at h
  · simp [← Option.some.inj h] at hprivate
  split at h
  · simp [← Option.some.inj h] at hprivate
  split at h
  · simp [← Option.some.inj h] at hprivate
  split at h
  · subst name
    decide
  split at h
  · subst name
    decide
  split at h
  · subst name
    decide
  · cases h

end PayloadKind

namespace Channel

theorem isAuthenticated_eq_true_iff {text : String} :
    isAuthenticated text = true ↔ ∃ word ∈ privateTokens, Text.mentions word text = true :=
  List.any_eq_true

theorem isAuthenticated_token {token : String} (h : token ∈ Interval.tokens) :
    isAuthenticated token = false := by
  have htokens : ∀ token ∈ Interval.tokens, isAuthenticated token = false := by decide
  exact htokens token h

theorem isAuthenticated_parts (kind : FeedKind) (symbol : String) (params : ChannelParams) :
    isAuthenticated (String.ofList (joined (parts kind symbol params))) =
      (kind.isPrivate || isAuthenticated symbol ||
        (decide (kind = .kline) && isAuthenticated (Interval.token params.interval))) := by
  have haccount := mentions_parts .account "account" rfl kind symbol params
  have horders := mentions_parts .orders "orders" rfl kind symbol params
  have hfill := mentions_parts .fill "fill" rfl kind symbol params
  simp only [isAuthenticated, privateTokens, List.any_cons, List.any_nil, Bool.or_false]
  rw [haccount, horders, hfill]
  cases kind <;> simp [FeedKind.isPrivate]
  ac_rfl

end Channel

namespace Inbound

variable {message : Value} {name : String}

theorem kind_ofValue (hevent : message.member? "event" = some (.string "payload")) :
    (ofValue message).kind = some .data := by
  rw [ofValue, hevent]
  rfl

theorem payload_ofValue (hevent : message.member? "event" = some (.string "payload"))
    (hname : message.member? "channel" = some (.string name)) :
    (ofValue message).payload = PayloadKind.ofChannel? name := by
  rw [ofValue, hevent, hname]
  rfl

theorem ofChannel?_of_payload {payload : PayloadKind}
    (hname : message.member? "channel" = some (.string name))
    (h : (ofValue message).payload = some payload) :
    PayloadKind.ofChannel? name = some payload := by
  simp only [ofValue, hname] at h
  split at h
  · exact h
  · cases h

end Inbound

/-- A suffix that mentions none of some words, and that no word goes on with. -/
def Symbol.SetsApart (suffix : String) (words : List String) : Prop :=
  ∀ word ∈ words, Text.mentions word suffix = false ∧ ∀ c ∈ suffix.toList.head?, c ∉ word.toList

section Payloads

variable (suffix : String) (kind : FeedKind) (symbol : Option String) (params : ChannelParams)
  (channel : String)

/-- **Payloads.** A payload on the channel of a feed is classified as the feed's, unless a word of
higher rank stands in the symbol or in the interval. -/
theorem payload_of_channel (message : Value)
    (hsymbol : ∀ text, symbol = some text → '{' ∉ (Symbol.normalize suffix text).toList)
    (hchannel : Channel.ofFeed suffix kind symbol params = .ok channel)
    (hevent : message.member? "event" = some (.string "payload"))
    (hmember : message.member? "channel" = some (.string channel)) :
    (Inbound.ofValue message).kind = some .data ∧
      (Inbound.ofValue message).payload =
        some (.expected kind (Symbol.normalize suffix (symbol.getD ""))
          (Interval.token params.interval)) ∧
      ((∀ word ∈ PayloadKind.words,
          Text.mentions word (Symbol.normalize suffix (symbol.getD "")) = false) →
        (kind = .kline → ∀ word ∈ PayloadKind.words,
          Text.mentions word (Interval.token params.interval) = false) →
        (Inbound.ofValue message).payload = some (.ofFeed kind)) ∧
      (Symbol.SetsApart suffix PayloadKind.words →
        (∀ text, symbol = some text → ∀ word ∈ PayloadKind.words,
          Text.mentions word text = false) →
        (∀ frame, params.interval = some frame → ∀ word ∈ PayloadKind.words,
          Text.mentions word frame = false) →
        (Inbound.ofValue message).payload = some (.ofFeed kind)) := by
  have hpayload : (Inbound.ofValue message).payload =
      some (.expected kind (Symbol.normalize suffix (symbol.getD ""))
        (Interval.token params.interval)) := by
    obtain ⟨-, rfl⟩ := (Channel.ofFeed_eq_ok_iff hsymbol).mp hchannel
    rw [Inbound.payload_ofValue hevent hmember]
    exact PayloadKind.ofChannel?_parts kind _ params
  refine ⟨Inbound.kind_ofValue hevent, hpayload, ?_, ?_⟩
  · intro hsilent hinterval
    rw [hpayload, PayloadKind.expected_eq_ofFeed hsilent hinterval]
  · intro hsuffix hsilent hinterval
    rw [hpayload, PayloadKind.expected_eq_ofFeed]
    · intro word hword
      rw [Channel.mentions_normalize (hsuffix word hword).1 (hsuffix word hword).2]
      cases symbol with
      | none => revert word hword; decide
      | some text => exact hsilent text rfl word hword
    · intro _ word hword
      obtain ⟨other, rfl⟩ := PayloadKind.exists_name_of_mem_words hword
      exact Channel.mentions_token other fun frame hframe => hinterval frame hframe _ hword

end Payloads

def depthMarket : String := "kline.LAST_PRICE.depthUSDT_SPBL.HOUR_1"

def payloadOn (channel : String) : Value :=
  .object [("channel", .string channel), ("event", .string "payload")]

/-- Candles of a market that is named after a feed, and of one that is not. -/
theorem payloads_of_candles :
    (∀ text, some "depthUSDT" = some text → '{' ∉ (Symbol.normalize "_SPBL" text).toList) ∧
      Channel.ofFeed "_SPBL" .kline (some "depthUSDT") ⟨none, some "1h"⟩ = .ok depthMarket ∧
      (payloadOn depthMarket).member? "event" = some (.string "payload") ∧
      (payloadOn depthMarket).member? "channel" = some (.string depthMarket) ∧
      (Inbound.ofValue (payloadOn depthMarket)).kind = some .data ∧
      (Inbound.ofValue (payloadOn depthMarket)).payload = some .orderbook ∧
      Symbol.SetsApart "_SPBL" PayloadKind.words ∧
      (Inbound.ofValue (payloadOn "kline.LAST_PRICE.BTCUSDT_SPBL.3m")).payload = some .kline := by
  have hsymbol : ∀ text, some "depthUSDT" = some text →
      '{' ∉ (Symbol.normalize "_SPBL" text).toList := by
    rintro text ⟨⟩
    decide
  have hchannel : Channel.ofFeed "_SPBL" .kline (some "depthUSDT") ⟨none, some "1h"⟩ =
      .ok depthMarket := by
    rfl
  have hdepth := payload_of_channel "_SPBL" .kline (some "depthUSDT") ⟨none, some "1h"⟩
    depthMarket (payloadOn depthMarket) hsymbol hchannel rfl rfl
  have hapart : Symbol.SetsApart "_SPBL" PayloadKind.words := by
    intro word hword
    obtain ⟨kind, rfl⟩ := PayloadKind.exists_name_of_mem_words hword
    refine ⟨by cases kind <;> rfl, ?_⟩
    rintro c ⟨⟩
    cases kind <;> decide
  have hplain := payload_of_channel "_SPBL" .kline (some "BTCUSDT") ⟨none, some "3m"⟩
    "kline.LAST_PRICE.BTCUSDT_SPBL.3m" (payloadOn "kline.LAST_PRICE.BTCUSDT_SPBL.3m")
    (by rintro text ⟨⟩; decide) rfl rfl rfl
  refine ⟨hsymbol, hchannel, rfl, rfl, hdepth.1, ?_, hapart, ?_⟩
  · rw [hdepth.2.1]
    decide
  · refine hplain.2.2.2 hapart ?_ ?_
    · rintro text ⟨⟩
      decide
    · rintro frame ⟨⟩
      decide

namespace Channel

variable {suffix : String} {kind : FeedKind} {symbol : Option String} {params : ChannelParams}
  {channel : String}

theorem isAuthenticated_iff_of_ofFeed
    (hsymbol : ∀ text, symbol = some text → '{' ∉ (Symbol.normalize suffix text).toList)
    (hchannel : ofFeed suffix kind symbol params = .ok channel) :
    isAuthenticated channel = true ↔
      kind.isPrivate = true ∨
        (∃ word ∈ privateTokens,
          Text.mentions word (Symbol.normalize suffix (symbol.getD "")) = true) ∨
        (kind = .kline ∧ ∃ word ∈ privateTokens,
          Text.mentions word (Interval.token params.interval) = true) := by
  obtain ⟨-, rfl⟩ := (ofFeed_eq_ok_iff hsymbol).mp hchannel
  rw [partsOf, isAuthenticated_parts, Bool.or_eq_true, Bool.or_eq_true, Bool.and_eq_true,
    decide_eq_true_eq, isAuthenticated_eq_true_iff, isAuthenticated_eq_true_iff, or_assoc]

/-- A public channel is taken for a private one only by what a caller has written. -/
theorem told_of_isAuthenticated
    (hsymbol : ∀ text, symbol = some text → '{' ∉ (Symbol.normalize suffix text).toList)
    (hchannel : ofFeed suffix kind symbol params = .ok channel) (hpublic : kind.isPrivate = false)
    (h : isAuthenticated channel = true) :
    (∃ text, symbol = some text ∧ ∃ word ∈ privateTokens,
      Text.mentions word (Symbol.normalize suffix text) = true) ∨
    (kind = .kline ∧ ∃ frame, params.interval = some frame ∧ Interval.token? frame = none ∧
      ∃ word ∈ privateTokens, Text.mentions word frame = true) := by
  rcases (isAuthenticated_iff_of_ofFeed hsymbol hchannel).mp h with
    hprivate | hword | ⟨hkline, hword⟩
  · rw [hpublic] at hprivate
    cases hprivate
  · left
    obtain ⟨hcomplete, -⟩ := (ofFeed_eq_ok_iff hsymbol).mp hchannel
    obtain ⟨text, rfl⟩ := hcomplete.exists_symbol hpublic
    exact ⟨text, rfl, hword⟩
  · right
    refine ⟨hkline, ?_⟩
    rcases Interval.token_mem_or_passed params.interval with hmem | ⟨frame, hframe, hnone, htoken⟩
    · rw [← isAuthenticated_eq_true_iff, isAuthenticated_token hmem] at hword
      cases hword
    · exact ⟨frame, hframe, hnone, htoken ▸ hword⟩

end Channel

/-- **Private channels.** A channel needs an authenticated connection if and only if its feed is
private or the name of a private feed stands in its symbol, or in an interval that is passed
through. Payloads of private feeds come over such channels only. -/
theorem isAuthenticated_iff_of_channel :
    (∀ (suffix : String) (kind : FeedKind) (symbol : Option String) (params : ChannelParams)
        (channel : String),
      (∀ text, symbol = some text → '{' ∉ (Symbol.normalize suffix text).toList) →
      Channel.ofFeed suffix kind symbol params = .ok channel →
      (Channel.isAuthenticated channel = true ↔
        kind.isPrivate = true ∨
          (∃ word ∈ Channel.privateTokens,
            Text.mentions word (Symbol.normalize suffix (symbol.getD "")) = true) ∨
          (kind = .kline ∧ ∃ word ∈ Channel.privateTokens,
            Text.mentions word (Interval.token params.interval) = true)) ∧
      (kind.isPrivate = false → Channel.isAuthenticated channel = true →
        (∃ text, symbol = some text ∧ ∃ word ∈ Channel.privateTokens,
          Text.mentions word (Symbol.normalize suffix text) = true) ∨
        (kind = .kline ∧ ∃ frame, params.interval = some frame ∧ Interval.token? frame = none ∧
          ∃ word ∈ Channel.privateTokens, Text.mentions word frame = true))) ∧
    ∀ (name : String) (message : Value) (payload : PayloadKind),
      message.member? "channel" = some (.string name) →
      (Inbound.ofValue message).payload = some payload →
      payload = .account ∨ payload = .orders ∨ payload = .fills →
      Channel.isAuthenticated name = true := by
  constructor
  · intro suffix kind symbol params channel hsymbol hchannel
    exact ⟨Channel.isAuthenticated_iff_of_ofFeed hsymbol hchannel,
      Channel.told_of_isAuthenticated hsymbol hchannel⟩
  · intro name message payload hname hpayload hprivate
    exact PayloadKind.isAuthenticated_of_ofChannel?
      (Inbound.ofChannel?_of_payload hname hpayload) hprivate

/-- A public channel that is taken for a private one, and one that is not. -/
theorem tickers_of_fillUSDT_and_BTCUSDT :
    (∀ text, some "fillUSDT" = some text → '{' ∉ (Symbol.normalize "_SPBL" text).toList) ∧
      Channel.ofFeed "_SPBL" .ticker (some "fillUSDT") ⟨none, none⟩ =
        .ok "ticker.fillUSDT_SPBL" ∧
      Channel.isAuthenticated "ticker.fillUSDT_SPBL" = true ∧
      ¬Channel.isAuthenticated "ticker.BTCUSDT_SPBL" = true ∧
      (Inbound.ofValue (payloadOn "orders")).payload = some .orders ∧
      Channel.isAuthenticated "orders" = true := by
  have hsymbol : ∀ text, some "fillUSDT" = some text →
      '{' ∉ (Symbol.normalize "_SPBL" text).toList := by
    rintro text ⟨⟩
    decide
  have hchannel : Channel.ofFeed "_SPBL" .ticker (some "fillUSDT") ⟨none, none⟩ =
      .ok "ticker.fillUSDT_SPBL" := by
    rfl
  have hfill := isAuthenticated_iff_of_channel.1 "_SPBL" .ticker (some "fillUSDT") ⟨none, none⟩
    "ticker.fillUSDT_SPBL" hsymbol hchannel
  have hother := isAuthenticated_iff_of_channel.1 "_SPBL" .ticker (some "BTCUSDT") ⟨none, none⟩
    "ticker.BTCUSDT_SPBL" (by rintro text ⟨⟩; decide) rfl
  have horders : (Inbound.ofValue (payloadOn "orders")).payload = some .orders := by
    rfl
  refine ⟨hsymbol, hchannel, ?_, ?_, horders, ?_⟩
  · refine hfill.1.mpr (.inr (.inl ?_))
    decide
  · rw [hother.1]
    decide
  · exact isAuthenticated_iff_of_channel.2 "orders" (payloadOn "orders") .orders rfl horders
      (.inr (.inl rfl))

end SpotWire
