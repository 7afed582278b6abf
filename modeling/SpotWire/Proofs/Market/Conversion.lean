import SpotWire.Proofs.Market.Product

/-!
# Products and the markets made from them

Reading a product divides the members of an object: five are its fields, two are increments, and all
others are kept with their values (`mem_extra_iff`). No coin is among the others, so that the coins
can join them when a market is made without taking anything's place, and can be told from them
afterwards (`eq_of_toStatus_eq`).
-/

namespace SpotWire.Product

open Json Wire

variable {reading inner inner' : Reading} {product other : Product} {key : String} {found : Value}
  {members : List (Except Fault String × Node)} {ending : Ending} {content : Node}

/-- The keys of fields and of increments. -/
def knownKeys : List String :=
  ["symbol", "baseCoin", "quoteCoin", "priceScale", "quantityScale", "stepSize", "tickSize"]

theorem not_mem_knownKeys_iff (found : Value) :
    key ∉ knownKeys ↔ key ∉ fieldKeys ∧ MarketInfo.isOther (key, found) = true := by
  simp [knownKeys, fieldKeys, MarketInfo.isOther, and_assoc]

/-! ### Further members -/

namespace Draft

variable {draft last : Draft}

theorem mem_others_of_add {next : Draft} {own : String}
    (h : draft.add reading own content = .ok next) :
    (key, found) ∈ next.others ↔ (key, found) ∈ draft.others ∨
      key ∉ fieldKeys ∧ key = own ∧ value reading content = .ok found := by
  rcases others_of_add h with ⟨hfield, heq⟩ | ⟨hfurther, read, hread, heq⟩
  · rw [heq]
    constructor
    · exact Or.inl
    · rintro (hmem | ⟨hkey, rfl, -⟩)
      · exact hmem
      · exact absurd hfield hkey
  · rw [heq, List.mem_cons, hread]
    constructor
    · rintro (heq | hmem)
      · obtain ⟨rfl, rfl⟩ := Prod.ext_iff.mp heq
        exact .inr ⟨hfurther, rfl, rfl⟩
      · exact .inl hmem
    · rintro (hmem | ⟨-, rfl, hsame⟩)
      · exact .inr hmem
      · obtain rfl := Except.ok.inj hsame
        exact .inl rfl

/-- All further members are read, each by itself. -/
theorem mem_others_of_fillMembers
    (h : fillMembers (fun key => some fun draft content => draft.add reading key content) draft
      members ending = .ok last) :
    (key, found) ∈ last.others ↔ (key, found) ∈ draft.others ∨
      key ∉ fieldKeys ∧ ∃ content, (.ok key, content) ∈ members ∧
        value reading content = .ok found := by
  induction members generalizing draft with
  | nil =>
      rw [fillMembers] at h
      split at h
      · cases h
        simp
      · cases h
  | cons member rest ih =>
      obtain ⟨name, node⟩ := member
      obtain ⟨own, next, rfl, hrest, hnext⟩ := fillMembers_cons_eq_ok h
      rcases hnext with ⟨step, hset, hstep⟩ | ⟨hnone, -⟩
      · obtain rfl := Option.some.inj hset
        rw [ih hrest, mem_others_of_add hstep]
        constructor
        · rintro ((hheld | ⟨hkey, rfl, hread⟩) | ⟨hkey, content, hmem, hread⟩)
          · exact .inl hheld
          · exact .inr ⟨hkey, node, List.mem_cons_self, hread⟩
          · exact .inr ⟨hkey, content, List.mem_cons_of_mem _ hmem, hread⟩
        · rintro (hheld | ⟨hkey, content, hmem, hread⟩)
          · exact .inl (.inl hheld)
          rcases List.mem_cons.mp hmem with heq | hmem
          · obtain ⟨hown, rfl⟩ := Prod.ext_iff.mp heq
            exact .inl (.inr ⟨hkey, Except.ok.inj hown, hread⟩)
          · exact .inr ⟨hkey, content, hmem, hread⟩
      · cases hnone

theorem exists_value_of_mem (hkey : key ∉ fieldKeys) (hmem : (.ok key, content) ∈ members)
    (h : fillMembers (fun key => some fun draft content => draft.add reading key content) draft
      members ending = .ok last) : ∃ found, value reading content = .ok found := by
  obtain ⟨before, after, hstep⟩ := exists_step_of_mem rfl hmem h
  rcases others_of_add hstep with ⟨hfield, -⟩ | ⟨-, found, hread, -⟩
  · exact absurd hfield hkey
  · exact ⟨found, hread⟩

end Draft

/-- The other details are the further members that are no increments. -/
theorem exists_draft (h : decode reading (.object members ending) = .ok product) :
    ∃ inner draft, inner.Admits 0 ∧
      fillMembers (fun key => some fun draft content => Draft.add inner draft key content)
        Draft.empty members ending = .ok draft ∧
      product.info.extra = Members.ofList (draft.others.reverse.filter MarketInfo.isOther) := by
  obtain ⟨inner, hinner, h⟩ := bind_eq_ok h
  obtain ⟨draft, hdraft, h⟩ := bind_eq_ok h
  obtain ⟨symbol, -, h⟩ := bind_eq_ok h
  obtain ⟨info, hinfo, h⟩ := bind_eq_ok h
  obtain rfl := Except.ok.inj h
  have hzero := Reading.admits_zero_of_enter hinner
  refine ⟨inner, draft, hzero, hdraft, MarketInfo.extra_of_ofMembers ?_ hinfo⟩
  intro member hmem
  rcases (Draft.mem_others_of_fillMembers hdraft).mp (List.mem_reverse.mp hmem) with
    hempty | ⟨-, content, -, hread⟩
  · cases hempty
  · exact (hasValue_of_value hzero hread).ordered

theorem exists_value_of_decode (hkey : key ∉ knownKeys) (hmem : (.ok key, content) ∈ members)
    (h : decode reading (.object members ending) = .ok product) :
    ∃ found, value .ofHeld content = .ok found := by
  obtain ⟨inner, draft, hzero, hdraft, -⟩ := exists_draft h
  have hfield : key ∉ fieldKeys := ((not_mem_knownKeys_iff .null).mp hkey).1
  obtain ⟨found, hread⟩ := Draft.exists_value_of_mem hfield hmem hdraft
  exact ⟨found, value_ofHeld_of_value hzero hread⟩

/-- If keys come once, the other details are all members that are neither fields nor increments,
wherever they stand. -/
theorem mem_extra_iff (hnodup : (members.map Prod.fst).Nodup)
    (h : decode reading (.object members ending) = .ok product) :
    (key, found) ∈ product.info.extra ↔ key ∉ knownKeys ∧
      ∃ content, (.ok key, content) ∈ members ∧ value .ofHeld content = .ok found := by
  obtain ⟨inner, draft, hzero, hdraft, hextra⟩ := exists_draft h
  have hothers : ∀ read, (key, read) ∈ draft.others.reverse.filter MarketInfo.isOther ↔
      key ∉ knownKeys ∧
        ∃ content, (.ok key, content) ∈ members ∧ value .ofHeld content = .ok read := by
    intro read
    rw [List.mem_filter, List.mem_reverse, Draft.mem_others_of_fillMembers hdraft,
      not_mem_knownKeys_iff read]
    constructor
    · rintro ⟨hempty | ⟨hkey, content, hmem, hread⟩, hother⟩
      · cases hempty
      · exact ⟨⟨hkey, hother⟩, content, hmem, value_ofHeld_of_value hzero hread⟩
    · rintro ⟨⟨hkey, hother⟩, content, hmem, hheld⟩
      obtain ⟨own, hread⟩ := Draft.exists_value_of_mem hkey hmem hdraft
      obtain rfl : own = read :=
        Except.ok.inj ((value_ofHeld_of_value hzero hread).symm.trans hheld)
      exact ⟨.inr ⟨hkey, content, hmem, hread⟩, hother⟩
  have hunique : ∀ first second,
      (key, first) ∈ draft.others.reverse.filter MarketInfo.isOther →
        (key, second) ∈ draft.others.reverse.filter MarketInfo.isOther → first = second := by
    intro first second hfirst hsecond
    obtain ⟨-, content, hmem, hread⟩ := (hothers first).mp hfirst
    obtain ⟨-, content', hmem', hread'⟩ := (hothers second).mp hsecond
    obtain rfl : content = content' := Members.eq_of_mem hnodup hmem hmem'
    exact Except.ok.inj (hread.symm.trans hread')
  rw [hextra, Members.mem_ofList_iff hunique, hothers]

theorem mem_keys_extra_iff (hnodup : (members.map Prod.fst).Nodup)
    (h : decode reading (.object members ending) = .ok product) :
    key ∈ product.info.extra.map Prod.fst ↔ key ∉ knownKeys ∧ .ok key ∈ members.map Prod.fst := by
  constructor
  · intro hmem
    obtain ⟨⟨own, found⟩, hfound, rfl⟩ := List.mem_map.mp hmem
    obtain ⟨hkey, content, hcontent, -⟩ := (mem_extra_iff hnodup h).mp hfound
    exact ⟨hkey, List.mem_map.mpr ⟨_, hcontent, rfl⟩⟩
  · rintro ⟨hkey, hmem⟩
    obtain ⟨⟨_, content⟩, hcontent, rfl⟩ := List.mem_map.mp hmem
    obtain ⟨found, hread⟩ := exists_value_of_decode hkey hcontent h
    exact List.mem_map.mpr ⟨(key, found), (mem_extra_iff hnodup h).mpr
      ⟨hkey, content, hcontent, hread⟩, rfl⟩

/-! ### Markets -/

/-- The coins of a product as they join its details. -/
def coins (product : Product) : List (String × Value) :=
  [("baseCoin", .string product.baseCoin), ("quoteCoin", .string product.quoteCoin)]

theorem IsRead.fresh (h : product.IsRead inner) (hkey : key ∈ fieldKeys) :
    key ∉ product.info.extra.map Prod.fst := by
  intro hmem
  obtain ⟨member, hmember, rfl⟩ := List.mem_map.mp hmem
  exact h.not_field member hmember hkey

/-- The coins take the place of nothing. -/
theorem IsRead.perm_extra_toStatus (h : product.IsRead inner) :
    product.toStatus.info.extra.Perm (product.coins ++ product.info.extra) := by
  have hbase : (Members.put "baseCoin" (.string product.baseCoin) product.info.extra).Perm
      (("baseCoin", .string product.baseCoin) :: product.info.extra) :=
    Members.perm_put _ (h.fresh (by decide))
  have hquote : "quoteCoin" ∉
      (Members.put "baseCoin" (.string product.baseCoin) product.info.extra).map Prod.fst := by
    rw [Members.mem_keys_put, not_or]
    exact ⟨by decide, h.fresh (by decide)⟩
  refine (Members.perm_put _ hquote).trans ((hbase.cons _).trans ?_)
  exact List.Perm.swap _ _ product.info.extra

theorem IsRead.ordered_extra_toStatus (h : product.IsRead inner) :
    Members.Ordered product.toStatus.info.extra :=
  Members.ordered_put _ _ (Members.ordered_put _ _ h.keys)

theorem IsRead.coin_eq {coin coin' : Value} (hother : other.IsRead inner') (hkey : key ∈ fieldKeys)
    (hcoin : (key, coin') ∈ other.coins)
    (h : product.toStatus.info.extra = other.toStatus.info.extra)
    (hmem : (key, coin) ∈ product.toStatus.info.extra) : coin = coin' := by
  rw [h, hother.perm_extra_toStatus.mem_iff, List.mem_append] at hmem
  rcases hmem with hmem | hmem
  · have hdistinct : (other.coins.map Prod.fst).Nodup := by
      change ["baseCoin", "quoteCoin"].Nodup
      decide
    exact Members.eq_of_mem hdistinct hmem hcoin
  · exact absurd hkey (hother.not_field _ hmem)

/-- A market tells the product that it has been made from. -/
theorem eq_of_toStatus_eq (hproduct : product.IsRead inner) (hother : other.IsRead inner')
    (h : product.toStatus = other.toStatus) : product = other := by
  have hextra := congrArg (fun status => status.info.extra) h
  have hcoin : ∀ coin ∈ product.coins, coin ∈ product.toStatus.info.extra := by
    intro coin hmem
    exact hproduct.perm_extra_toStatus.mem_iff.mpr (List.mem_append_left _ hmem)
  have hbase : Value.string product.baseCoin = .string other.baseCoin :=
    hother.coin_eq (by decide) List.mem_cons_self hextra (hcoin _ List.mem_cons_self)
  have hquote : Value.string product.quoteCoin = .string other.quoteCoin :=
    hother.coin_eq (by decide) (List.mem_cons_of_mem _ List.mem_cons_self) hextra
      (hcoin _ (List.mem_cons_of_mem _ List.mem_cons_self))
  have hcoins : product.coins = other.coins := by
    rw [coins, coins, hbase, hquote]
  have hperm : (product.coins ++ product.info.extra).Perm (product.coins ++ other.info.extra) := by
    have hboth := hproduct.perm_extra_toStatus.symm.trans
      (hextra ▸ hother.perm_extra_toStatus)
    rwa [← hcoins] at hboth
  have hdetails : product.info.extra = other.info.extra :=
    Members.eq_of_perm hproduct.keys hother.keys ((List.perm_append_left_iff _).mp hperm)
  obtain ⟨symbol, baseCoin, quoteCoin, priceScale, quantityScale, stepSize, tickSize, extra⟩ :=
    product
  obtain ⟨symbol', baseCoin', quoteCoin', priceScale', quantityScale', stepSize', tickSize',
    extra'⟩ := other
  simp only [toStatus, MarketStatus.mk.injEq, MarketInfo.mk.injEq, MarketPrecision.mk.injEq] at h
  obtain ⟨rfl, ⟨rfl, rfl, -⟩, rfl, rfl⟩ := h
  obtain rfl := Value.string.inj hbase
  obtain rfl := Value.string.inj hquote
  obtain rfl : extra = extra' := hdetails
  rfl

/-- **Products and their markets.** Nothing of a product is lost between the object it is read from
and the market that is made from it.

* The other details of a product from an object whose keys come once are the members of that object
  that are neither fields nor increments, each with its value.
* A market has the symbol, the increments and the scales of its product, and its other details are
  those of the product and the two coins, none in another one's place.
* Two products that have been read have the same market only if they are the same. -/
theorem conversion_loses_nothing :
    (∀ reading members ending product,
      decode reading (.object members ending) = .ok product → (members.map Prod.fst).Nodup →
        Members.Ordered product.info.extra ∧
          (∀ key, key ∈ product.info.extra.map Prod.fst ↔
            key ∉ knownKeys ∧ .ok key ∈ members.map Prod.fst) ∧
          ∀ key found, (key, found) ∈ product.info.extra ↔ key ∉ knownKeys ∧
            ∃ content, (.ok key, content) ∈ members ∧ value .ofHeld content = .ok found) ∧
      (∀ reading node product, decode reading node = .ok product →
        product.toStatus.symbol = product.symbol ∧
          product.toStatus.info.stepSize = product.info.stepSize ∧
          product.toStatus.info.tickSize = product.info.tickSize ∧
          product.toStatus.precision.amount = product.quantityScale ∧
          product.toStatus.precision.price = product.priceScale ∧
          Members.Ordered product.toStatus.info.extra ∧
          product.toStatus.info.extra.Perm
            ([("baseCoin", .string product.baseCoin), ("quoteCoin", .string product.quoteCoin)] ++
              product.info.extra)) ∧
      ∀ reading reading' node node' product other,
        decode reading node = .ok product → decode reading' node' = .ok other →
          product.toStatus = other.toStatus → product = other := by
  refine ⟨?_, ?_, ?_⟩
  · intro reading members ending product h hnodup
    obtain ⟨_, -, hread, -⟩ := decode_eq_ok h
    exact ⟨hread.keys, fun key => mem_keys_extra_iff hnodup h,
      fun key found => mem_extra_iff hnodup h⟩
  · intro reading node product h
    obtain ⟨_, -, hread, -⟩ := decode_eq_ok h
    exact ⟨rfl, rfl, rfl, rfl, rfl, hread.ordered_extra_toStatus, hread.perm_extra_toStatus⟩
  · intro reading reading' node node' product other h h' hsame
    obtain ⟨_, -, hread, -⟩ := decode_eq_ok h
    obtain ⟨_, -, hread', -⟩ := decode_eq_ok h'
    exact eq_of_toStatus_eq hread hread' hsame

/-- The members of a product in no order, with a number for an increment. -/
def shuffledMembers : List (Except Fault String × Node) :=
  [(.ok "status", .string (.ok "online")), (.ok "stepSize", .number (.ok (.integer 5))),
    (.ok "symbol", .string (.ok "BTCUSDT")), (.ok "limits", .array [.null] .closed),
    (.ok "baseCoin", .string (.ok "BTC"))]

/-- The same product, as it is held. -/
def listedProduct : Value :=
  .object [("symbol", .string "BTCUSDT"), ("baseCoin", .string "BTC"), ("quoteCoin", .string ""),
    ("stepSize", .string "5"), ("limits", .array [.null]), ("status", .string "online")]

theorem conversion_of_shuffledMembers :
    (shuffledMembers.map Prod.fst).Nodup ∧
      ∃ product other, decode .ofDocument (.object shuffledMembers .closed) = .ok product ∧
        decode .ofHeld (.ofValue listedProduct) = .ok other ∧
        product.toStatus = other.toStatus ∧ product = other ∧
        ("limits", .array [.null]) ∈ product.info.extra ∧
        ("quoteCoin", .string "") ∈ product.toStatus.info.extra := by
  obtain ⟨hextra, hmarket, hinjective⟩ := conversion_loses_nothing
  have hnodup : (shuffledMembers.map Prod.fst).Nodup := by simp [shuffledMembers]
  obtain ⟨product, hproduct⟩ :
      ∃ product, decode .ofDocument (.object shuffledMembers .closed) = .ok product := ⟨_, rfl⟩
  obtain ⟨other, hother⟩ :
      ∃ other, decode .ofHeld (.ofValue listedProduct) = .ok other := ⟨_, rfl⟩
  have hsame : product.toStatus = other.toStatus := by
    obtain rfl := Except.ok.inj hproduct
    obtain rfl := Except.ok.inj hother
    rfl
  obtain ⟨-, -, hmembers⟩ := hextra _ _ _ _ hproduct hnodup
  obtain ⟨-, -, -, -, -, -, hperm⟩ := hmarket _ _ _ hproduct
  refine ⟨hnodup, product, other, hproduct, hother, hsame,
    hinjective _ _ _ _ _ _ hproduct hother hsame, ?_, ?_⟩
  · exact (hmembers _ _).mpr ⟨by decide, .array [.null] .closed, by simp [shuffledMembers], rfl⟩
  · have hquote : product.quoteCoin = "" := by
      obtain rfl := Except.ok.inj hproduct
      rfl
    exact hperm.mem_iff.mpr (by simp [hquote])

end SpotWire.Product
