import SpotWire.Proofs.Channel.Name
import SpotWire.Stream

/-!
# Channels of different subscriptions

No two subscriptions share a channel unless they ask for the same feed with the same values, so the
end of one subscription never ends another one. This rests on the name of the feed, which stands
first and has no point, and on the levels or the interval, which stand last and have none either.
-/

namespace SpotWire

namespace Channel

variable {kind kind' : FeedKind} {symbol symbol' : String} {params params' : ChannelParams}

theorem point_not_mem_levelsText (levels : UInt32) : '.' ∉ (levelsText levels).toList := by
  intro hmem
  exact absurd (isDigit_of_mem_levelsText hmem) (by decide)

theorem point_not_mem_token {interval : Option String}
    (h : ∀ text, interval = some text → '.' ∉ text.toList) :
    '.' ∉ (Interval.token interval).toList := by
  rcases Interval.token_mem_or_passed interval with hmem | ⟨frame, hframe, -, htoken⟩
  · have htokens : ∀ token ∈ Interval.tokens, '.' ∉ token.toList := by decide
    exact htokens _ hmem
  · rw [htoken]
    exact h frame hframe

/-- The values of a feed that its channel tells. -/
def SameValues (kind : FeedKind) (symbol symbol' : String) (params params' : ChannelParams) :
    Prop :=
  symbol = symbol' ∧ (kind = .depth → levels params = levels params') ∧
    (kind = .kline → Interval.token params.interval = Interval.token params'.interval)

theorem parts_eq_cons (kind : FeedKind) (symbol : String) (params : ChannelParams) :
    parts kind symbol params = kind.name :: (parts kind symbol params).tail := by
  cases kind <;> rfl

theorem kind_eq_of_joined_eq
    (h : joined (parts kind symbol params) = joined (parts kind' symbol' params')) :
    kind = kind' ∧
      joined (parts kind symbol params).tail = joined (parts kind' symbol' params').tail := by
  rw [parts_eq_cons kind, parts_eq_cons kind'] at h
  obtain ⟨hname, htail⟩ := Text.eq_of_intercalate_cons_eq kind.point_not_mem_name
    kind'.point_not_mem_name h
  exact ⟨FeedKind.name_injective (String.toList_injective hname), htail⟩

theorem eq_of_joined_pair_eq {last last' : String} (hlast : '.' ∉ last.toList)
    (hlast' : '.' ∉ last'.toList) (h : joined [symbol, last] = joined [symbol', last']) :
    symbol = symbol' ∧ last = last' := by
  rw [joined_cons_cons, joined_cons_cons, joined_singleton, joined_singleton] at h
  obtain ⟨hsymbol, hsame⟩ := Text.eq_of_append_cons_eq_last hlast hlast' h
  exact ⟨String.toList_injective hsymbol, String.toList_injective hsame⟩

theorem sameValues_of_joined_eq (hpublic : kind.isPrivate = false)
    (hinterval : '.' ∉ (Interval.token params.interval).toList)
    (hinterval' : '.' ∉ (Interval.token params'.interval).toList)
    (h : joined (parts kind symbol params).tail = joined (parts kind symbol' params').tail) :
    SameValues kind symbol symbol' params params' := by
  cases kind with
  | ticker | trades =>
      have hsymbol : symbol = symbol' := by
        refine String.toList_injective ?_
        rwa [parts, parts, List.tail_cons, List.tail_cons, joined_singleton, joined_singleton] at h
      exact ⟨hsymbol, by simp, by simp⟩
  | depth =>
      obtain ⟨hsymbol, hlevels⟩ := eq_of_joined_pair_eq (point_not_mem_levelsText _)
        (point_not_mem_levelsText _) h
      exact ⟨hsymbol, fun _ => levelsText_injective hlevels, by simp⟩
  | kline =>
      rw [parts, parts, List.tail_cons, List.tail_cons, joined_cons_cons, joined_cons_cons] at h
      have hrest := List.cons.inj (List.append_cancel_left h)
      obtain ⟨hsymbol, htoken⟩ := eq_of_joined_pair_eq hinterval hinterval' hrest.2
      exact ⟨hsymbol, by simp, fun _ => htoken⟩
  | account | orders | fill => cases hpublic

theorem parts_eq_of_sameValues (h : SameValues kind symbol symbol' params params') :
    parts kind symbol params = parts kind symbol' params' := by
  obtain ⟨rfl, hlevels, hinterval⟩ := h
  cases kind with
  | depth => rw [parts, parts, hlevels rfl]
  | kline => rw [parts, parts, hinterval rfl]
  | ticker | trades | account | orders | fill => rfl

end Channel

namespace Subscription

/-- The channel of a subscription under a suffix of symbols. -/
def channel (suffix : String) (subscription : Subscription) : Except Channel.Fault String :=
  Channel.ofFeed suffix subscription.kind subscription.symbol subscription.params

/-- The values of a subscription look neither like a placeholder nor like two values. -/
structure Plain (subscription : Subscription) : Prop where
  symbol : ∀ text, subscription.symbol = some text → '{' ∉ text.toList
  interval : ∀ text, subscription.params.interval = some text → '.' ∉ text.toList

/-- Two subscriptions ask for the same: the same private feed, or the same public feed of the same
symbol, with the same levels or the same interval where it has one. -/
def Agrees (suffix : String) (first second : Subscription) : Prop :=
  first.kind = second.kind ∧
    (first.kind.isPrivate = true ∨
      (first.symbol.map (Symbol.normalize suffix) = second.symbol.map (Symbol.normalize suffix) ∧
        (first.kind = .depth → Channel.levels first.params = Channel.levels second.params) ∧
        (first.kind = .kline →
          Interval.token first.params.interval = Interval.token second.params.interval)))

variable {suffix : String} {first second : Subscription}

theorem Plain.brace_not_mem (hsuffix : '{' ∉ suffix.toList) (h : first.Plain) (text : String)
    (hsymbol : first.symbol = some text) : '{' ∉ (Symbol.normalize suffix text).toList := by
  have htext := h.symbol text hsymbol
  unfold Symbol.normalize
  split
  · exact htext
  · rw [String.toList_append, List.mem_append]
    exact fun hmem => hmem.elim htext hsuffix

theorem Plain.channel_eq_ok_iff (hsuffix : '{' ∉ suffix.toList) (h : first.Plain)
    {channel : String} :
    first.channel suffix = .ok channel ↔
      Channel.IsComplete first.kind first.symbol ∧
        channel = String.ofList
          (Channel.joined (Channel.partsOf suffix first.kind first.symbol first.params)) :=
  Channel.ofFeed_eq_ok_iff (h.brace_not_mem hsuffix)

theorem agrees_of_channel_eq (hsuffix : '{' ∉ suffix.toList) (hfirst : first.Plain)
    (hsecond : second.Plain) {channel : String} (h : first.channel suffix = .ok channel)
    (h' : second.channel suffix = .ok channel) : first.Agrees suffix second := by
  obtain ⟨hcomplete, hname⟩ := (hfirst.channel_eq_ok_iff hsuffix).mp h
  obtain ⟨hcomplete', hname'⟩ := (hsecond.channel_eq_ok_iff hsuffix).mp h'
  have hjoined := String.ofList_injective (hname.symm.trans hname')
  obtain ⟨hkind, htail⟩ := Channel.kind_eq_of_joined_eq hjoined
  refine ⟨hkind, ?_⟩
  cases hprivate : first.kind.isPrivate with
  | true => exact .inl rfl
  | false =>
      right
      rw [← hkind] at htail hcomplete'
      obtain ⟨symbol, hfirst₁⟩ := hcomplete.exists_symbol hprivate
      obtain ⟨symbol', hsecond₁⟩ := hcomplete'.exists_symbol hprivate
      obtain ⟨hsymbol, hvalues⟩ := Channel.sameValues_of_joined_eq hprivate
        (Channel.point_not_mem_token hfirst.interval)
        (Channel.point_not_mem_token hsecond.interval) htail
      rw [hfirst₁, hsecond₁, Option.getD_some, Option.getD_some] at hsymbol
      exact ⟨by rw [hfirst₁, hsecond₁, Option.map_some, Option.map_some, hsymbol], hvalues⟩

theorem channel_eq_of_agrees (hsuffix : '{' ∉ suffix.toList) (hfirst : first.Plain)
    (hsecond : second.Plain) {channel channel' : String} (h : first.channel suffix = .ok channel)
    (h' : second.channel suffix = .ok channel') (hagrees : first.Agrees suffix second) :
    channel = channel' := by
  obtain ⟨hcomplete, rfl⟩ := (hfirst.channel_eq_ok_iff hsuffix).mp h
  obtain ⟨hcomplete', rfl⟩ := (hsecond.channel_eq_ok_iff hsuffix).mp h'
  obtain ⟨hkind, hvalues⟩ := hagrees
  rw [Channel.partsOf, Channel.partsOf, ← hkind]
  rw [← hkind] at hcomplete'
  cases hprivate : first.kind.isPrivate with
  | true => rw [Channel.parts_eq_of_private hprivate, Channel.parts_eq_of_private hprivate]
  | false =>
      obtain ⟨hsymbol, hlevels, hinterval⟩ := hvalues.resolve_left (by simp [hprivate])
      obtain ⟨symbol, hfirst₁⟩ := hcomplete.exists_symbol hprivate
      obtain ⟨symbol', hsecond₁⟩ := hcomplete'.exists_symbol hprivate
      rw [hfirst₁, hsecond₁, Option.map_some, Option.map_some] at hsymbol
      rw [hfirst₁, hsecond₁]
      exact congrArg (fun parts => String.ofList (Channel.joined parts))
        (Channel.parts_eq_of_sameValues ⟨Option.some.inj hsymbol, hlevels, hinterval⟩)

end Subscription

namespace Stream

/-- The message of a change that is on its way names the channel of its subscription. -/
theorem channel_of_beginRequest {stream : Stream} {change : Change} {subscription : Subscription}
    {place : Nat} {message : Outbound}
    (h : (stream.beginRequest change subscription).stream.sendings =
      stream.sendings ++ [⟨place, message⟩]) :
    ∃ channel, subscription.channel stream.symbolSuffix = .ok channel ∧
      message = change.message channel := by
  unfold beginRequest at h
  simp only at h
  split at h
  · simp at h
  · rename_i channel hchannel
    split at h
    · simp at h
    · refine ⟨channel, hchannel, ?_⟩
      simp only [List.append_cancel_left_eq, List.cons.injEq, Sending.mk.injEq] at h
      exact h.1.2.symm

end Stream

/-- **Channels.** Two subscriptions have the same channel if and only if both have one and they ask
for the same. So the message that ends a subscription names the channel of no other one. -/
theorem channel_eq_iff_agrees (suffix : String) (first second : Subscription)
    (hsuffix : '{' ∉ suffix.toList) (hfirst : first.Plain) (hsecond : second.Plain) :
    ((∃ channel, first.channel suffix = .ok channel ∧ second.channel suffix = .ok channel) ↔
      (∃ channel, first.channel suffix = .ok channel) ∧
        (∃ channel, second.channel suffix = .ok channel) ∧ first.Agrees suffix second) ∧
      ∀ (stream : Stream) (place : Nat) (channel : String), stream.symbolSuffix = suffix →
        first.channel suffix = .ok channel →
        (stream.beginRequest .unsubscribe second).stream.sendings =
          stream.sendings ++ [⟨place, .unsubscribe channel⟩] →
        first.Agrees suffix second := by
  refine ⟨⟨?_, ?_⟩, ?_⟩
  · rintro ⟨channel, h, h'⟩
    exact ⟨⟨channel, h⟩, ⟨channel, h'⟩,
      Subscription.agrees_of_channel_eq hsuffix hfirst hsecond h h'⟩
  · rintro ⟨⟨channel, h⟩, ⟨channel', h'⟩, hagrees⟩
    have hsame := Subscription.channel_eq_of_agrees hsuffix hfirst hsecond h h' hagrees
    exact ⟨channel, h, hsame ▸ h'⟩
  · rintro stream place channel rfl h hsendings
    obtain ⟨other, hother, hmessage⟩ := Stream.channel_of_beginRequest hsendings
    obtain rfl : channel = other := Outbound.unsubscribe.inj hmessage
    exact Subscription.agrees_of_channel_eq hsuffix hfirst hsecond h hother

def hourByFrame : Subscription := ⟨.kline, some "BTC.USDT", ⟨none, some "1h"⟩⟩

def hourByToken : Subscription := ⟨.kline, some "BTC.USDT_SPBL", ⟨some 200, some "HOUR_1"⟩⟩

theorem hourByFrame_agrees_hourByToken :
    '{' ∉ "_SPBL".toList ∧ hourByFrame.Plain ∧ hourByToken.Plain ∧
      hourByFrame.channel "_SPBL" = .ok "kline.LAST_PRICE.BTC.USDT_SPBL.HOUR_1" ∧
      hourByToken.channel "_SPBL" = .ok "kline.LAST_PRICE.BTC.USDT_SPBL.HOUR_1" ∧
      hourByFrame.Agrees "_SPBL" hourByToken := by
  have hsuffix : '{' ∉ "_SPBL".toList := by decide
  have hframe : hourByFrame.Plain :=
    ⟨by simp [hourByFrame], by simp [hourByFrame]⟩
  have htoken : hourByToken.Plain :=
    ⟨by simp [hourByToken], by simp [hourByToken]⟩
  have hchannel : hourByFrame.channel "_SPBL" = .ok "kline.LAST_PRICE.BTC.USDT_SPBL.HOUR_1" := by
    rfl
  have hchannel' : hourByToken.channel "_SPBL" = .ok "kline.LAST_PRICE.BTC.USDT_SPBL.HOUR_1" := by
    rfl
  have hsame := (channel_eq_iff_agrees "_SPBL" hourByFrame hourByToken hsuffix hframe htoken).1
  exact ⟨hsuffix, hframe, htoken, hchannel, hchannel',
    (hsame.mp ⟨_, hchannel, hchannel'⟩).2.2⟩

end SpotWire
