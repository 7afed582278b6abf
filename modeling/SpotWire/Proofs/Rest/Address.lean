import Mathlib
import SpotWire.Proofs.Channel.Verbatim
import SpotWire.Proofs.Json.Value
import SpotWire.Proofs.Url.Form
import SpotWire.Rest.Client

/-!
# Requests and channels of symbols

A request for one market says its symbol in the query, a channel of ticker statistics in its name.
Both are made from the symbol with its suffix, and both tell it: the query is read back as it, and
the name of the channel ends with it. So two symbols have the same request if and only if they have
the same channel.
-/

namespace SpotWire

/-! ### Addresses on the web -/

namespace Url

variable {url : Url} {scheme rest : List Char}

/-- An address has a divided path, so that there are others on its host. -/
def IsDivided (url : Url) : Prop :=
  ∃ segments, url.path = .segments segments

theorem isDivided_assemble (scheme : List Char) (authority : Option Authority)
    (segments : List (List Char)) (afterPath : List Char) :
    (assemble scheme authority (.segments segments) afterPath).IsDivided :=
  ⟨segments, rfl⟩

theorem isDivided_assemble_pathAfterHost (scheme own : List Char) (authority : Option Authority)
    (text afterPath : List Char) :
    (assemble scheme authority (pathAfterHost own text) afterPath).IsDivided := by
  cases text with
  | nil => exact isDivided_assemble ..
  | cons c rest => exact isDivided_assemble ..

theorem isDivided_of_withAuthority (h : withAuthority scheme rest = .ok url) : url.IsDivided := by
  obtain ⟨⟨authority, left⟩, -, hurl⟩ := Json.bind_eq_ok h
  cases hurl
  exact isDivided_assemble_pathAfterHost ..

theorem isDivided_of_ofFile (h : ofFile rest = .ok url) : url.IsDivided := by
  unfold ofFile at h
  dsimp only at h
  split at h
  · split at h
    · split at h
      · cases h
        exact isDivided_assemble ..
      · obtain ⟨host, -, hurl⟩ := Json.bind_eq_ok h
        cases hurl
        exact isDivided_assemble_pathAfterHost ..
    · cases h
      exact isDivided_assemble_pathAfterHost ..
  · cases h
    exact isDivided_assemble_pathAfterHost ..

theorem isDivided_of_ofText {text : String} (h : ofText text = .ok url)
    (hspecial : isSpecial url.scheme = true) : url.IsDivided := by
  unfold ofText at h
  split at h
  · cases h
  · split at h
    · exact isDivided_of_ofFile h
    · split at h
      · exact isDivided_of_withAuthority h
      · rename_i hfree
        split at h
        · exact isDivided_of_withAuthority h
        · cases h
          exact absurd hspecial hfree

theorem isSpecial_of_isOnWeb (h : url.isOnWeb = true) : isSpecial url.scheme = true := by
  rw [isOnWeb, Bool.or_eq_true, beq_iff_eq, beq_iff_eq] at h
  rcases h with h | h <;> rw [h] <;> decide

end Url

namespace Client

variable {config : Config} {client : Client}

theorem symbolSuffix_of_ofConfig (h : ofConfig config = .ok client) :
    client.symbolSuffix = config.symbolSuffix := by
  unfold ofConfig ofUrl at h
  split at h
  · cases h
    rfl
  · cases h

theorem ofText_of_ofConfig (h : ofConfig config = .ok client) :
    Url.ofText config.spotUrl = .ok client.baseUrl := by
  unfold ofConfig ofUrl at h
  split at h
  · rename_i url hurl
    cases h
    exact hurl
  · cases h

theorem address_eq_of_isOnWeb (h : ofConfig config = .ok client)
    (hweb : client.baseUrl.isOnWeb = true) (request : Request) :
    client.address request = .ok (request.url client.baseUrl) := by
  obtain ⟨segments, hpath⟩ :=
    Url.isDivided_of_ofText (ofText_of_ofConfig h) (Url.isSpecial_of_isOnWeb hweb)
  rw [address, hpath]
  exact if_pos hweb

theorem address_of_not_isOnWeb (hweb : client.baseUrl.isOnWeb = false) (request : Request) :
    ∃ failure, client.address request = .error failure := by
  unfold address
  split
  · exact ⟨_, rfl⟩
  · exact ⟨_, if_neg (by simp [hweb])⟩

end Client

/-! ### What requests and channels say of symbols -/

namespace Request

variable {base : Url} {suffix first second : String}

theorem queryText?_market (suffix symbol : String) :
    queryText? (market suffix symbol).query =
      some (Url.Form.Field.text ⟨"symbol", Symbol.normalize suffix symbol⟩) := by
  simp [market, queryText?]

theorem line_market (base : Url) (suffix symbol : String) :
    (market suffix symbol).line base = String.ofList ("GET /api/spot/v1/public/product?".toList ++
      Url.Form.Field.text ⟨"symbol", Symbol.normalize suffix symbol⟩) := by
  unfold line url Url.withPath
  rw [queryText?_market]
  rfl

theorem fieldText_eq_iff {name value other : String} :
    Url.Form.Field.text ⟨name, value⟩ = Url.Form.Field.text ⟨name, other⟩ ↔ value = other := by
  constructor
  · intro h
    have hfield := congrArg Url.Form.Field.ofChars h
    rw [Url.Form.Field.ofChars_text, Url.Form.Field.ofChars_text] at hfield
    exact (Url.Form.Field.mk.inj hfield).2
  · rintro rfl
    rfl

theorem url_market_eq_iff :
    (market suffix first).url base = (market suffix second).url base ↔
      Symbol.normalize suffix first = Symbol.normalize suffix second := by
  constructor
  · intro h
    have hquery := congrArg Url.query h
    simp only [url, Url.withPath, queryText?_market] at hquery
    exact fieldText_eq_iff.mp (Option.some.inj hquery)
  · intro h
    rw [market, market, h]

theorem line_market_eq_iff :
    (market suffix first).line base = (market suffix second).line base ↔
      Symbol.normalize suffix first = Symbol.normalize suffix second := by
  rw [line_market, line_market, String.ofList_inj, List.append_cancel_left_eq, fieldText_eq_iff]

end Request

/-- The name of a ticker channel tells its symbol, whatever characters it has: there is no other
placeholder that it could hold. -/
theorem Channel.ofFeed_ticker_eq_iff {suffix first second : String}
    {params params' : ChannelParams} :
    ofFeed suffix .ticker (some first) params = ofFeed suffix .ticker (some second) params' ↔
      Symbol.normalize suffix first = Symbol.normalize suffix second := by
  rw [ofFeed_eq_keptSymbol suffix first params rfl, ofFeed_eq_keptSymbol suffix second params' rfl,
    Except.ok.injEq, String.ofList_inj]
  exact joined_parts_inj rfl

/-- **Symbols in requests.** A client whose base is on the web asks for one market at a fixed path
of its host, whatever path the base has. The query has one field, and it is read back as the symbol
with its suffix. Two symbols have the same request, as an address and as the line that is sent, if
and only if they have the same channel of ticker statistics. Other clients send nothing. -/
theorem market_request_tells_symbol (config : Config) (client : Client)
    (hclient : Client.ofConfig config = .ok client) :
    (client.baseUrl.isOnWeb = false → ∀ symbol, ∃ failure,
      client.address (.market client.symbolSuffix symbol) = .error failure) ∧
    (client.baseUrl.isOnWeb = true →
      (∀ symbol, ∃ url query,
        client.address (.market client.symbolSuffix symbol) = .ok url ∧
        url.scheme = client.baseUrl.scheme ∧ url.authority = client.baseUrl.authority ∧
        String.ofList url.pathOf = "/api/spot/v1/public/product" ∧ url.fragment = none ∧
        url.query = some query ∧
        Url.Form.fields query = [⟨"symbol", Symbol.normalize config.symbolSuffix symbol⟩] ∧
        (Request.market client.symbolSuffix symbol).line client.baseUrl =
          String.ofList ("GET /api/spot/v1/public/product?".toList ++ query)) ∧
      ∀ first second params params',
        (client.address (.market client.symbolSuffix first) =
            client.address (.market client.symbolSuffix second) ↔
          Channel.ofFeed config.symbolSuffix .ticker (some first) params =
            Channel.ofFeed config.symbolSuffix .ticker (some second) params') ∧
        ((Request.market client.symbolSuffix first).line client.baseUrl =
            (Request.market client.symbolSuffix second).line client.baseUrl ↔
          Channel.ofFeed config.symbolSuffix .ticker (some first) params =
            Channel.ofFeed config.symbolSuffix .ticker (some second) params')) := by
  rw [Client.symbolSuffix_of_ofConfig hclient]
  refine ⟨fun hweb symbol => Client.address_of_not_isOnWeb hweb _, fun hweb => ⟨?_, ?_⟩⟩
  · intro symbol
    have hquery := Request.queryText?_market config.symbolSuffix symbol
    have hline := Request.line_market client.baseUrl config.symbolSuffix symbol
    have hfields := Url.Form.fields_of_texts
      [⟨"symbol", Symbol.normalize config.symbolSuffix symbol⟩]
    rw [List.map_singleton, List.intercalate_singleton] at hfields
    exact ⟨_, _, Client.address_eq_of_isOnWeb hclient hweb _, rfl, rfl, rfl, rfl, hquery, hfields,
      hline⟩
  · intro first second params params'
    rw [Client.address_eq_of_isOnWeb hclient hweb, Client.address_eq_of_isOnWeb hclient hweb,
      Except.ok.injEq, Request.url_market_eq_iff, Request.line_market_eq_iff,
      Channel.ofFeed_ticker_eq_iff]
    exact ⟨Iff.rfl, Iff.rfl⟩

/-- Settings whose base has a path and a query of its own. -/
def servedBelow : Config :=
  { Config.standard with spotUrl := "https://Markets.example:8443/below/v2/?key=1#top" }

def belowUrl : Url :=
  ⟨"https".toList, some ⟨[], .domain "markets.example".toList, some 8443⟩,
    .segments ["below".toList, "v2".toList, []], some "key=1".toList, some "top".toList⟩

theorem ofText_servedBelow : Url.ofText servedBelow.spotUrl = .ok belowUrl := by
  cbv

/-- A symbol of separators, of signs with a meaning of their own, and of a letter beyond ASCII. -/
theorem request_of_separators :
    Client.ofConfig servedBelow = .ok ⟨belowUrl, "_SPBL"⟩ ∧ ∃ url query,
      Client.address ⟨belowUrl, "_SPBL"⟩ (.market "_SPBL" "A &=+%é") = .ok url ∧
      String.ofList url.pathOf = "/api/spot/v1/public/product" ∧ url.query = some query ∧
      Url.Form.fields query = [⟨"symbol", "A &=+%é_SPBL"⟩] := by
  have hclient : Client.ofConfig servedBelow = .ok ⟨belowUrl, "_SPBL"⟩ := by
    rw [Client.ofConfig, Client.ofUrl, ofText_servedBelow]
    rfl
  obtain ⟨-, hweb⟩ := market_request_tells_symbol servedBelow _ hclient
  obtain ⟨url, query, haddress, -, -, hpath, -, hquery, hfields, -⟩ := (hweb rfl).1 "A &=+%é"
  exact ⟨hclient, url, query, haddress, hpath, hquery, hfields⟩

end SpotWire
