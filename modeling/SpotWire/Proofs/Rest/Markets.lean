import SpotWire.Proofs.Market.Product
import SpotWire.Proofs.Rest.Granted

/-!
# Markets, all at once and one by one

The request for all markets and the request for one read a product alike, wherever it stands, so
that the list of all markets is the list of what the single ones come to.
-/

namespace SpotWire

open Json Wire

/-! ### Lists side by side -/

section Lists

variable {α β γ : Type}

theorem exists_map_of_forall₂ {R : α → β → Prop} {wrap : β → γ} {as : List α} {cs : List γ}
    (h : List.Forall₂ (fun a c => ∃ b, R a b ∧ c = wrap b) as cs) :
    ∃ bs, List.Forall₂ R as bs ∧ cs = bs.map wrap := by
  induction h with
  | nil => exact ⟨[], .nil, rfl⟩
  | cons hhead _ ih =>
      obtain ⟨b, hb, rfl⟩ := hhead
      obtain ⟨bs, hbs, rfl⟩ := ih
      exact ⟨b :: bs, .cons hb hbs, rfl⟩

theorem forall₂_congr_left {S : α → β → Prop} {P : α → γ → Prop} {Q : β → γ → Prop} {as : List α}
    {bs : List β} (hsides : List.Forall₂ S as bs)
    (h : ∀ a b, S a b → b ∈ bs → ∀ c, P a c ↔ Q b c) (cs : List γ) :
    List.Forall₂ P as cs ↔ List.Forall₂ Q bs cs := by
  induction hsides generalizing cs with
  | nil => rw [List.forall₂_nil_left_iff, List.forall₂_nil_left_iff]
  | cons hhead _ ih =>
      have hrest := ih fun a b hS hmem => h a b hS (List.mem_cons_of_mem _ hmem)
      rw [List.forall₂_cons_left_iff, List.forall₂_cons_left_iff]
      simp only [hrest, h _ _ hhead List.mem_cons_self]

end Lists

namespace Client

variable {batch single : Reply} {item : Node} {items : List Node} {status : MarketStatus}
  {statuses : List MarketStatus}

/-- The reading of the products in a list. -/
def itemReading : Reading := ⟨some (Reading.documentDepth - 2)⟩

/-- What a node comes to as a product, where it is one. -/
def IsMarketOf (reading : Reading) (item : Node) (status : MarketStatus) : Prop :=
  ∃ product, Product.decode reading item = .ok product ∧ status = marketOf product

theorem market_eq_ok_iff (h : single.Grants item) :
    market single = .ok status ↔ IsMarketOf rootReading item status := by
  constructor
  · intro hstatus
    obtain ⟨product, hproduct, rfl⟩ := map_eq_ok hstatus
    exact ⟨product, (h.data_eq_ok_iff.mp hproduct).2, rfl⟩
  · rintro ⟨product, hproduct, rfl⟩
    have hne : item ≠ .null := by
      rintro rfl
      cases hproduct
    rw [market, h.data_eq_ok_iff.mpr ⟨hne, hproduct⟩]
    rfl

theorem markets_eq_ok_iff (h : batch.Grants (.array items .closed)) :
    markets batch = .ok statuses ↔ List.Forall₂ (IsMarketOf itemReading) items statuses := by
  have hlist : ∀ products, batch.data (list Product.decode) = .ok products ↔
      List.Forall₂ (fun node product => Product.decode itemReading node = .ok product) items
        products := by
    intro products
    rw [h.data_eq_ok_iff]
    exact (and_iff_right nofun).trans (items_eq_ok_iff.trans (and_iff_right rfl))
  constructor
  · intro hstatuses
    obtain ⟨products, hproducts, rfl⟩ := map_eq_ok hstatuses
    rw [List.forall₂_map_right_iff]
    exact ((hlist products).mp hproducts).imp fun node product hproduct => ⟨product, hproduct, rfl⟩
  · intro hstatuses
    obtain ⟨products, hproducts, rfl⟩ := exists_map_of_forall₂ hstatuses
    rw [markets, (hlist products).mpr hproducts]
    rfl

/-- A product is read alike in a list and alone, if there are levels enough for it in the list. -/
theorem isMarketOf_iff (hlevels : (Node.array items .closed).levels + 1 < Reading.documentDepth)
    (hmem : item ∈ items) :
    IsMarketOf rootReading item status ↔ IsMarketOf itemReading item status := by
  have hitem := Node.le_itemLevels hmem
  rw [Node.levels] at hlevels
  rw [IsMarketOf, IsMarketOf, rootReading, itemReading,
    Product.decode_eq_of_levels_lt (show item.levels < Reading.documentDepth - 1 by omega)
      (show item.levels < Reading.documentDepth - 2 by omega)]

/-- **All markets.** The request for all markets succeeds exactly if the request for each of them
does, and then gives what these give, in their order. -/
theorem markets_agree (batch : Reply) (singles : List Reply) (items : List Node)
    (hbatch : batch.Grants (.array items .closed))
    (hsingles : List.Forall₂ Reply.Grants singles items)
    (hlevels : (Node.array items .closed).levels + 1 < Reading.documentDepth) :
    ((∃ statuses, markets batch = .ok statuses) ↔
        ∀ single ∈ singles, ∃ status, market single = .ok status) ∧
      ∀ statuses, markets batch = .ok statuses →
        statuses.length = items.length ∧
        List.Forall₂ (fun single status => market single = .ok status) singles statuses ∧
        List.Forall₂ (fun item status => ∃ product,
          Product.decode rootReading item = .ok product ∧
            status = product.toStatus.correct.1) items statuses := by
  have hsides : ∀ statuses, List.Forall₂ (fun single status => market single = .ok status)
      singles statuses ↔ List.Forall₂ (IsMarketOf itemReading) items statuses :=
    forall₂_congr_left hsingles fun single item hgrants hmem status =>
      (market_eq_ok_iff hgrants).trans (isMarketOf_iff hlevels hmem)
  refine ⟨?_, fun statuses hstatuses => ?_⟩
  · rw [← exists_forall₂_iff]
    simp only [markets_eq_ok_iff hbatch, hsides]
  · have hmarkets := (markets_eq_ok_iff hbatch).mp hstatuses
    refine ⟨hmarkets.length_eq.symm, (hsides statuses).mpr hmarkets, ?_⟩
    have hsame : List.Forall₂ (fun item other => item = other) items items :=
      List.forall₂_same.mpr fun _ _ => rfl
    refine (forall₂_congr_left hsame ?_ statuses).mpr hmarkets
    rintro item _ rfl hmem status
    exact isMarketOf_iff hlevels hmem

/-! ### Two markets -/

def bitcoinText : String :=
  "\x7b\"symbol\":\"BTCUSDT\"\x7d"

def bitcoinNode : Node :=
  .object [(.ok "symbol", .string (.ok "BTCUSDT"))] .closed

def etherText : String :=
  "\x7b\"symbol\":\"ETHUSDT\",\"tickSize\":\"0.01\"\x7d"

def etherNode : Node :=
  .object [(.ok "symbol", .string (.ok "ETHUSDT")), (.ok "tickSize", .string (.ok "0.01"))] .closed

def bothReply : Reply where
  status := 200
  body := "\x7b\"code\":\"00000\",\"data\":[" ++ bitcoinText ++ "," ++ etherText ++ "]\x7d"

def bitcoinReply : Reply where
  status := 503
  body := "\x7b\"data\":" ++ bitcoinText ++ ",\"code\":\"00000\"\x7d"

/-- An envelope that is given as an array. -/
def etherReply : Reply where
  status := 200
  body := "[\"00000\",\"\",null," ++ etherText ++ "]"

theorem grants_bothReply : bothReply.Grants (.array [bitcoinNode, etherNode] .closed) := by
  have hbody : Document.ofChars bothReply.body.toList =
      ⟨.object [(.ok "code", .string (.ok "00000")),
        (.ok "data", .array [bitcoinNode, etherNode] .closed)] .closed, false⟩ := by
    cbv
  refine Reply.grants_of_document hbody ⟨_, rfl⟩ ?_ ?_ <;> simp [Envelope.successCode]

theorem grants_bitcoinReply : bitcoinReply.Grants bitcoinNode := by
  have hbody : Document.ofChars bitcoinReply.body.toList =
      ⟨.object [(.ok "data", bitcoinNode), (.ok "code", .string (.ok "00000"))] .closed,
        false⟩ := by
    cbv
  refine Reply.grants_of_document hbody ⟨_, rfl⟩ ?_ ?_ <;> simp [Envelope.successCode]

theorem grants_etherReply : etherReply.Grants etherNode := by
  have hbody : Document.ofChars etherReply.body.toList =
      ⟨.array [.string (.ok "00000"), .string (.ok ""), .null, etherNode] .closed, false⟩ := by
    cbv
  refine Reply.grants_of_document hbody ⟨_, rfl⟩ ?_ ?_ <;> simp [Envelope.successCode, eq_comm]

/-- Both markets are given, each as it is given alone. -/
theorem markets_of_bothReply :
    ∃ statuses, markets bothReply = .ok statuses ∧ statuses.length = 2 ∧
      List.Forall₂ (fun single status => market single = .ok status)
        [bitcoinReply, etherReply] statuses := by
  obtain ⟨hsucceeds, hagree⟩ := markets_agree bothReply [bitcoinReply, etherReply]
    [bitcoinNode, etherNode] grants_bothReply
    (.cons grants_bitcoinReply (.cons grants_etherReply .nil)) (by decide)
  obtain ⟨statuses, hstatuses⟩ := hsucceeds.mpr (by
    simp only [List.forall_mem_cons]
    exact ⟨⟨_, (market_eq_ok_iff grants_bitcoinReply).mpr ⟨_, rfl, rfl⟩⟩,
      ⟨_, (market_eq_ok_iff grants_etherReply).mpr ⟨_, rfl, rfl⟩⟩, nofun⟩)
  obtain ⟨hlength, hsingles, -⟩ := hagree statuses hstatuses
  exact ⟨statuses, hstatuses, hlength, hsingles⟩

end Client

end SpotWire
