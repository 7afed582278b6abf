import Mathlib
import SpotWire.Exchange.Streaming
import SpotWire.Proofs.Message.Ping
import SpotWire.Proofs.Stream.Calls

/-!
# Two ways to the same wire

A framework asks the exchange for the channel of a feed that it names, and for the messages that
concern this channel. A caller of a stream gives the kind of the feed, and the stream makes the
message itself. Under one configuration both come to the same channels and the same texts, and the
names of feeds are those that documents have for them.
-/

namespace SpotWire

open Json Wire

/-! ### Names of feeds -/

namespace FeedKind

variable {feed : String} {kind : FeedKind}

/-- Documents have the same names for feeds. -/
theorem named_name (kind : FeedKind) : Named.name kind = kind.name := by
  cases kind <;> rfl

theorem named_ofName? (feed : String) : Named.ofName? feed = ofName? feed := by
  unfold Named.ofName? ofName?
  simp only [named_name]
  rfl

theorem named_ofName_eq_ok_iff : Named.ofName feed = .ok kind ↔ ofName? feed = some kind := by
  rw [Named.ofName, named_ofName?]
  cases ofName? feed with
  | none => simp [fail]
  | some found => simp

/-- Wherever a text is the name of a feed, a document of this text is the feed, and no other. -/
theorem ofText_variant_eq_ok_iff {text : String} (h : ofText value text = .ok (.string feed)) :
    ofText variant text = .ok kind ↔ ofName? feed = some kind := by
  obtain ⟨hvalue, htrailing⟩ := ofDocument_eq_ok_iff.mp h
  have hroot : (Document.ofChars text.toList).root = .string (.ok feed) :=
    Node.eq_string_of_value (orBroken_eq_ok hvalue)
  rw [ofText, ofDocument_eq_ok_iff, hroot, variant_string, named_ofName_eq_ok_iff]
  exact and_iff_left htrailing

theorem ofText_value_text (feed : String) :
    ofText value (Value.string feed).text = .ok (.string feed) := by
  rw [ofText_text value (.string feed)]
  exact value_ofValue (.string feed) (Reading.admits_ofDocument (Nat.zero_lt_succ 127))

end FeedKind

/-! ### Channels -/

namespace Exchange

variable {config : Config} {feed : String} {kind : FeedKind} {symbol : Option String}
  {params : ChannelParams}

theorem formatChannel_of_unknown (h : FeedKind.ofName? feed = none) :
    formatChannel config feed symbol params = .error (.unsupportedFeed feed) := by
  rw [formatChannel, Channel.ofName, h]

theorem formatChannel_of_known (h : FeedKind.ofName? feed = some kind) :
    formatChannel config feed symbol params =
      (⟨kind, symbol, params⟩ : Subscription).channel config.symbolSuffix := by
  rw [formatChannel, Channel.ofName, h]
  rfl

/-- The message that a framework gets for a change. -/
def messageFor : Stream.Change → String → Outbound
  | .subscribe => subscribeMessage
  | .unsubscribe => unsubscribeMessage

theorem messageFor_eq (change : Stream.Change) (channel : String) :
    messageFor change channel = change.message channel := by
  cases change <;> rfl

theorem ofText_messageFor (change : Stream.Change) (channel : String) :
    ofText Outbound.decode (messageFor change channel).text = .ok (messageFor change channel) := by
  have hpong : ∀ time, messageFor change channel ≠ .pong time := by
    cases change <;> nofun
  rw [Outbound.text, ofText_text Outbound.decode]
  · exact Outbound.decode_toValue rfl fun time h => absurd h (hpong (some time))
  · exact Outbound.holdsWhole_toValue fun time h => absurd h (hpong (some time))

end Exchange

/-! ### Calls of a stream -/

namespace Stream

variable {stream middle : Stream} {change : Change} {subscription : Subscription}
  {channel : String} {slot : Slot}

/-- What the reader of a connection still has to write. -/
def queued (stream : Stream) (place : Nat) : List Frame :=
  ((stream.connections[place]?).map Connection.queue).getD [] |>.map Frame.ofMessage

theorem queued_of_connections_eq {next : Stream} (h : next.connections = stream.connections)
    (place : Nat) : next.queued place = stream.queued place := by
  rw [queued, h, queued]

theorem queued_of_accept {next : Stream} {connection : Connection} {own : Nat} {message : Outbound}
    (hat : stream.connections[own]? = some connection)
    (hnext : next.connections = stream.connections.set own (connection.accept message))
    (place : Nat) :
    next.queued place =
      stream.queued place ++ if own = place then [.ofMessage message] else [] := by
  obtain ⟨hlt, rfl⟩ := List.getElem?_eq_some_iff.mp hat
  by_cases hown : own = place
  · subst hown
    simp [queued, hnext, hlt, Connection.accept]
  · simp [queued, hnext, hown]

/-- A call answers with a channel, and one text gets into one queue. -/
structure Sends (before : Stream) (outcome : Outcome String) (place : Nat) (channel text : String) :
    Prop where
  answer : outcome.answer = .ok channel
  queued : ∀ other, outcome.stream.queued other =
    before.queued other ++ if place = other then [.text text] else []

/-- A call whose connection is not closed meanwhile puts its message there. -/
theorem sends_of_requestThrough? {between : List Action} {outcome : Outcome String}
    (hnumbered : Numbered stream)
    (hchannel : subscription.channel stream.symbolSuffix = .ok channel)
    (hslot : stream.slot = some slot)
    (hcall : stream.requestThrough? change subscription between = some (middle, outcome))
    (hopen : ∀ connection, middle.connections[slot.connection]? = some connection →
      connection.isFinished = false) :
    Sends middle outcome slot.connection channel (change.message channel).text := by
  cases concludes_of_requestThrough? hnumbered hcall with
  | lacksSymbol hpublic hsymbol =>
      have hfails : subscription.channel stream.symbolSuffix = .error _ :=
        Channel.ofFeed_eq_error_iff.mpr ⟨⟨hpublic, hsymbol⟩, rfl⟩
      cases hchannel.symm.trans hfails
  | lacksConnection _ hempty => cases hslot.symm.trans hempty
  | findsClosed _ hfound hat _ hfinished =>
      cases hslot.symm.trans hfound
      cases hfinished.symm.trans (hopen _ hat)
  | isAccepted hown hfound hat =>
      cases hslot.symm.trans hfound
      cases hchannel.symm.trans hown
      exact ⟨rfl, queued_of_accept hat rfl⟩

theorem sends_of_request {outcome : Outcome String} (hnumbered : Numbered stream)
    (hchannel : subscription.channel stream.symbolSuffix = .ok channel)
    (hslot : stream.slot = some slot)
    (hcall : stream.request? change subscription = some outcome) :
    Sends stream outcome slot.connection channel (change.message channel).text := by
  have hbegun := (untouched_beginRequest stream change subscription).connections
  obtain ⟨-, own, hat, -, hopen⟩ := hnumbered.slot slot hslot
  have hthrough := requestThrough?_nil stream change subscription
  rw [hcall, Option.map_some] at hthrough
  have hsends := sends_of_requestThrough? hnumbered hchannel hslot hthrough
    fun connection hconnection => by
      rw [hbegun, hat] at hconnection
      exact Option.some.inj hconnection ▸ hopen
  refine ⟨hsends.answer, fun place => ?_⟩
  rw [hsends.queued place, queued_of_connections_eq hbegun]

/-- A call need not wait if and only if its queue has room. -/
theorem isSome_request?_iff (hnumbered : Numbered stream)
    (hchannel : subscription.channel stream.symbolSuffix = .ok channel)
    (hslot : stream.slot = some slot) (change : Change) :
    (stream.request? change subscription).isSome = true ↔
      (stream.queued slot.connection).length < capacity := by
  have hbegun := (untouched_beginRequest stream change subscription).connections
  obtain ⟨-, own, hown, -, hopen⟩ := hnumbered.slot slot hslot
  have hrun : (stream.beginRequest change subscription).stream.run? [] = some (_, []) := rfl
  have hcarry : [].foldlM Action.carry? stream.sendings.length = some _ := rfl
  obtain ⟨connection, finished, hat, -, -, hends⟩ :=
    requestThrough?_of_occupied hnumbered hchannel hslot hrun hcarry
  rw [hbegun, hown] at hat
  obtain rfl := Option.some.inj hat
  rw [requestThrough?_nil] at hends
  have hsome := congrArg Option.isSome hends
  rw [Option.isSome_map] at hsome
  rw [hsome]
  simp [queued, hown, Connection.isFull, hopen]

end Stream

/-- **One wire.** A text names a feed for a framework exactly if a document of this text is a feed,
and it is the same feed. The framework gets no channel for other texts, and none for a public feed
without symbol. Every other channel that it gets is the one that a stream of the same configuration
answers, once it has a connection and its queue has room, and the stream sends the very text that
the framework gets for this channel, which is read as the same message. The symbol stands in the channel as the framework
is told that it is written, unless it has an opening brace. -/
theorem adapter_agrees_with_stream (config : Config) (feed : String) (symbol : Option String)
    (params : ChannelParams) :
    (∀ text, Wire.ofText value text = .ok (.string feed) → ∀ kind,
      Wire.ofText variant text = .ok kind ↔ FeedKind.ofName? feed = some kind) ∧
    (∀ kind, Wire.ofText variant (Value.string feed).text = .ok kind ↔
      FeedKind.ofName? feed = some kind) ∧
    (FeedKind.ofName? feed = none →
      Exchange.formatChannel config feed symbol params = .error (.unsupportedFeed feed)) ∧
    ∀ kind, FeedKind.ofName? feed = some kind →
      (Exchange.formatChannel config feed symbol params = .error (.missingSymbol kind) ↔
        kind.isPrivate = false ∧ symbol = none) ∧
      (¬(kind.isPrivate = false ∧ symbol = none) → ∃ channel,
        Exchange.formatChannel config feed symbol params = .ok channel ∧
        (∀ text, kind.isPrivate = false → symbol = some text →
          '{' ∉ (Exchange.parseSymbol config text).toList →
          channel = String.ofList (Channel.joined
            (Channel.parts kind (Exchange.parseSymbol config text) params))) ∧
        ∀ change,
          Wire.ofText Outbound.decode (Exchange.messageFor change channel).text =
            .ok (Exchange.messageFor change channel) ∧
          ∀ actions stream effects slot,
            (Stream.ofConfig config).run? actions = some (stream, effects) →
            stream.slot = some slot →
            ((stream.request? change ⟨kind, symbol, params⟩).isSome = true ↔
              (stream.queued slot.connection).length < Stream.capacity) ∧
            (∀ outcome, stream.request? change ⟨kind, symbol, params⟩ = some outcome →
              Stream.Sends stream outcome slot.connection channel
                (Exchange.messageFor change channel).text) ∧
            ∀ between middle outcome,
              stream.requestThrough? change ⟨kind, symbol, params⟩ between =
                some (middle, outcome) →
              (∀ connection, middle.connections[slot.connection]? = some connection →
                connection.isFinished = false) →
              Stream.Sends middle outcome slot.connection channel
                (Exchange.messageFor change channel).text) := by
  refine ⟨fun text htext kind => FeedKind.ofText_variant_eq_ok_iff htext,
    fun kind => FeedKind.ofText_variant_eq_ok_iff (FeedKind.ofText_value_text feed),
    Exchange.formatChannel_of_unknown, fun kind hkind => ?_⟩
  have hformat : Exchange.formatChannel config feed symbol params = _ :=
    Exchange.formatChannel_of_known hkind
  refine ⟨?_, fun hcomplete => ?_⟩
  · rw [hformat, Subscription.channel, Channel.ofFeed_eq_error_iff]
    exact and_iff_left rfl
  · cases hchannel : (⟨kind, symbol, params⟩ : Subscription).channel config.symbolSuffix with
    | error fault => exact absurd (Channel.ofFeed_eq_error_iff.mp hchannel).1 hcomplete
    | ok channel =>
        refine ⟨channel, hformat.trans hchannel, ?_, fun change =>
          ⟨Exchange.ofText_messageFor change channel, ?_⟩⟩
        · rintro text hpublic rfl hbrace
          refine (Channel.ofFeed_eq_ok_iff ?_ |>.mp hchannel).2
          rintro own ⟨⟩
          exact hbrace
        · intro actions stream effects slot hrun hslot
          have hnumbered := Stream.Numbered.of_run hrun
          have hsuffix : stream.symbolSuffix = config.symbolSuffix :=
            Stream.symbolSuffix_of_run hrun
          rw [← hsuffix] at hchannel
          rw [Exchange.messageFor_eq]
          exact ⟨Stream.isSome_request?_iff hnumbered hchannel hslot change,
            fun outcome => Stream.sends_of_request hnumbered hchannel hslot,
            fun between middle outcome hcall hopen =>
              Stream.sends_of_requestThrough? hnumbered hchannel hslot hcall hopen⟩

/-- The name of a feed, with an escape. -/
def escapedDepth : String := "\"d\\u0065pth\""

theorem ofChars_escapedDepth :
    Document.ofChars escapedDepth.toList = ⟨.string (.ok "depth"), false⟩ := by
  cbv

def quotedDepth : String := "depth.B\"TC_SPBL.15"

/-- The quotation mark of a symbol is escaped on the wire. -/
theorem text_of_quotedDepth : (Exchange.messageFor .unsubscribe quotedDepth).text =
    "\x7b\"event\":\"unsubscribe\",\"channel\":\"depth.B\\\"TC_SPBL.15\"\x7d" := by
  cbv

theorem sends_of_quotedDepth :
    Wire.ofText variant escapedDepth = .ok FeedKind.depth ∧
      Exchange.formatChannel .standard "depth" (some "B\"TC") ⟨none, none⟩ = .ok quotedDepth ∧
      ∃ stream effects outcome, (Stream.ofConfig .standard).run? Stream.reopened =
          some (stream, effects) ∧
        stream.request? .unsubscribe ⟨.depth, some "B\"TC", ⟨none, none⟩⟩ = some outcome ∧
        Stream.Sends stream outcome 1 quotedDepth
          "\x7b\"event\":\"unsubscribe\",\"channel\":\"depth.B\\\"TC_SPBL.15\"\x7d" := by
  obtain ⟨hdocument, -, -, hknown⟩ :=
    adapter_agrees_with_stream .standard "depth" (some "B\"TC") ⟨none, none⟩
  have hvalue : Wire.ofText value escapedDepth = .ok (.string "depth") := by
    rw [Wire.ofText, ofChars_escapedDepth]
    rfl
  obtain ⟨channel, hformat, hparts, hchange⟩ := (hknown .depth rfl).2 (by simp)
  have hchannel : channel = quotedDepth := hparts "B\"TC" rfl rfl (by decide)
  subst hchannel
  obtain ⟨hroom, hsends, -⟩ := (hchange .unsubscribe).2 Stream.reopened _ _ ⟨1, 1⟩ rfl rfl
  obtain ⟨outcome, hcall⟩ := Option.isSome_iff_exists.mp (hroom.mpr (by decide))
  refine ⟨(hdocument escapedDepth hvalue .depth).mpr rfl, hformat, _, _, outcome, rfl, hcall, ?_⟩
  rw [← text_of_quotedDepth]
  exact hsends outcome hcall

end SpotWire
