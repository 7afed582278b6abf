import SpotWire.Proofs.Market.Details
import SpotWire.Proofs.Wire.Restored

/-!
# Products, printed and read again

The details of a product stand among its fields, and their other details among their increments. A
product that has been read holds each further key once and no key of a field or of an increment, so
that its printed form is read as the same product.
-/

namespace SpotWire.Product

open Json Wire

variable {reading inner : Reading} {product : Product}

def fieldKeys : List String :=
  ["symbol", "baseCoin", "quoteCoin", "priceScale", "quantityScale"]

namespace Draft

variable {draft next last : Draft} {key : String} {content : Node}
  {members : List (String × Value)}

/-- What one member does to the further members. -/
theorem others_of_add (h : draft.add reading key content = .ok next) :
    key ∈ fieldKeys ∧ next.others = draft.others ∨
      key ∉ fieldKeys ∧ ∃ found, value reading content = .ok found ∧
        next.others = (key, found) :: draft.others := by
  unfold add at h
  repeat' split at h
  all_goals obtain ⟨found, hfound, h⟩ := bind_eq_ok h; obtain rfl := Except.ok.inj h
  case isFalse.isFalse.isFalse.isFalse.isFalse =>
    exact .inr ⟨by simp [fieldKeys, *], found, hfound, rfl⟩
  all_goals exact .inl ⟨by simp [fieldKeys, *], rfl⟩

/-- The further members of a draft have been read from members of an object. -/
def ReadFrom (reading : Reading) (members : List (Except Fault String × Node)) (draft : Draft) :
    Prop :=
  ∀ member ∈ draft.others, member.1 ∉ fieldKeys ∧
    ∃ content, (.ok member.1, content) ∈ members ∧ value reading content = .ok member.2

theorem readFrom_empty (reading : Reading) (members : List (Except Fault String × Node)) :
    empty.ReadFrom reading members :=
  List.forall_mem_nil _

theorem ReadFrom.add {nodes : List (Except Fault String × Node)} (hmem : (.ok key, content) ∈ nodes)
    (hdraft : draft.ReadFrom reading nodes) (h : draft.add reading key content = .ok next) :
    next.ReadFrom reading nodes := by
  unfold ReadFrom
  rcases others_of_add h with ⟨-, heq⟩ | ⟨hkey, found, hfound, heq⟩
  · rw [heq]
    exact hdraft
  · rw [heq]
    exact List.forall_mem_cons.mpr ⟨⟨hkey, content, hmem, hfound⟩, hdraft⟩

theorem add_other {found : Value} (hkey : key ∉ fieldKeys) (hordered : found.Ordered)
    (hadmits : reading.Admits found.levels) :
    draft.add reading key (.ofValue found) =
      .ok { draft with others := (key, found) :: draft.others } := by
  simp only [fieldKeys, List.mem_cons, List.not_mem_nil, or_false, not_or] at hkey
  obtain ⟨hsymbol, hbase, hquote, hprice, hquantity⟩ := hkey
  rw [add, if_neg hsymbol, if_neg hbase, if_neg hquote, if_neg hprice, if_neg hquantity,
    value_ofValue hordered hadmits]
  rfl

/-- Members that are no fields are kept, the last one first. -/
theorem foldlM_add_others (hkeys : ∀ member ∈ members, member.1 ∉ fieldKeys)
    (hvalues : ∀ member ∈ members, member.2.Ordered ∧ reading.Admits member.2.levels) :
    members.foldlM (fun draft member => draft.add reading member.1 (.ofValue member.2)) draft =
      .ok { draft with others := members.reverse ++ draft.others } := by
  induction members generalizing draft with
  | nil => rfl
  | cons member rest ih =>
      obtain ⟨hkey, hkeys⟩ := List.forall_mem_cons.mp hkeys
      obtain ⟨⟨hordered, hadmits⟩, hvalues⟩ := List.forall_mem_cons.mp hvalues
      rw [List.foldlM_cons, add_other hkey hordered hadmits]
      simp [bind, Except.bind, ih hkeys hvalues]

end Draft

/-- A product that has been read where a reading has entered: the other details stand under keys of
their own, and are values that can be read there. -/
structure IsRead (inner : Reading) (product : Product) : Prop where
  keys : Members.Ordered product.info.extra
  isOther : ∀ member ∈ product.info.extra, MarketInfo.isOther member = true
  not_field : ∀ member ∈ product.info.extra, member.1 ∉ fieldKeys
  ordered : ∀ member ∈ product.info.extra, member.2.Ordered
  admits : ∀ member ∈ product.info.extra, inner.Admits member.2.levels

theorem decode_eq_ok {node : Node} (h : decode reading node = .ok product) :
    ∃ inner, reading.enter = .ok inner ∧ product.IsRead inner ∧
      ∀ P, node.AllNumbers P → ∀ member ∈ product.info.extra, member.2.AllNumbers P := by
  unfold decode at h
  split at h
  · rename_i members ending
    obtain ⟨inner, hinner, h⟩ := bind_eq_ok h
    obtain ⟨draft, hdraft, h⟩ := bind_eq_ok h
    have hzero := Reading.admits_zero_of_enter hinner
    have hothers : draft.ReadFrom inner members := by
      refine fillMembers_induction (fun key step draft content next hset hmem hread hstep => ?_)
        (Draft.readFrom_empty inner members) hdraft
      obtain rfl := Option.some.inj hset
      exact hread.add hmem hstep
    obtain ⟨symbol, -, h⟩ := bind_eq_ok h
    obtain ⟨info, hinfo, h⟩ := bind_eq_ok h
    obtain rfl := Except.ok.inj h
    obtain ⟨hkeys, hextra⟩ := MarketInfo.ofMembers_eq_ok (fun member hmem => by
      obtain ⟨-, content, -, hread⟩ := hothers member (List.mem_reverse.mp hmem)
      exact (hasValue_of_value hzero hread).ordered) hinfo
    have hread : ∀ member ∈ info.extra, member.1 ∉ fieldKeys ∧
        ∃ content, (.ok member.1, content) ∈ members ∧ value inner content = .ok member.2 :=
      fun member hmem => hothers member (List.mem_reverse.mp (hextra member hmem).1)
    refine ⟨inner, hinner, ⟨hkeys, fun member hmem => (hextra member hmem).2,
      fun member hmem => (hread member hmem).1, fun member hmem => ?_, fun member hmem => ?_⟩,
      fun P hnumbers member hmem => ?_⟩
    · obtain ⟨-, content, -, hread⟩ := hread member hmem
      exact (hasValue_of_value hzero hread).ordered
    · obtain ⟨-, content, -, hread⟩ := hread member hmem
      exact admits_of_value hzero hread
    · obtain ⟨-, content, hcontent, hread⟩ := hread member hmem
      cases hnumbers with
      | object _ hmembers =>
          exact (hasValue_of_value hzero hread).allNumbers P (hmembers _ hcontent)
  · obtain ⟨found, -, h⟩ := bind_eq_ok h
    cases h

/-- Levels that a product does not need play no part. -/
theorem decode_eq_of_levels_lt {node : Node} {depth other : Nat} (h : node.levels < depth)
    (h' : node.levels < other) : decode ⟨some depth⟩ node = decode ⟨some other⟩ node := by
  cases node with
  | object members ending =>
      rw [Node.levels] at h h'
      have hadd : ∀ member ∈ members, ∀ draft key,
          Draft.add ⟨some (depth - 1)⟩ draft key member.2 =
            Draft.add ⟨some (other - 1)⟩ draft key member.2 := by
        intro member hmem draft key
        have hlevels := Node.le_memberLevels hmem
        unfold Draft.add
        rw [value_eq_of_levels_lt (show _ < depth - 1 by omega) (show _ < other - 1 by omega)]
        rfl
      simp only [decode, Reading.enter]
      rw [if_neg (by omega), if_neg (by omega)]
      exact congrArg (· >>= Draft.toProduct) (fillMembers_congr hadd)
  | null | bool | number | string | array | broken => rfl

/-! ### Printed products -/

/-- The fields of a product as they are printed, before its details. -/
def fieldMembers (product : Product) : List (String × Value) :=
  [("symbol", .string product.symbol), ("baseCoin", .string product.baseCoin),
    ("quoteCoin", .string product.quoteCoin),
    ("priceScale", .ofOption .ofWord product.priceScale),
    ("quantityScale", .ofOption .ofWord product.quantityScale)]

theorem toValue_eq (product : Product) :
    product.toValue = .object (product.fieldMembers ++ product.info.toMembers) :=
  rfl

theorem foldlM_add_fieldMembers (reading : Reading) (product : Product) :
    product.fieldMembers.foldlM
        (fun draft member => Draft.add reading draft member.1 (.ofValue member.2)) Draft.empty =
      .ok ⟨some product.symbol, some product.baseCoin, some product.quoteCoin,
        some product.priceScale, some product.quantityScale, []⟩ := by
  simp [fieldMembers, Draft.add, Draft.empty, fill, bind, Except.bind, Except.map,
    pure, Except.pure]

theorem IsRead.forall_mem_toMembers (h : product.IsRead inner) (hinner : inner.Admits 0) :
    (∀ member ∈ product.info.toMembers, member.1 ∉ fieldKeys) ∧
      ∀ member ∈ product.info.toMembers, member.2.Ordered ∧ inner.Admits member.2.levels :=
  ⟨MarketInfo.forall_mem_toMembers (fun _ => by simp [fieldKeys]) (fun _ => by simp [fieldKeys])
      h.not_field,
    MarketInfo.forall_mem_toMembers (fun size => ⟨.string size, hinner⟩)
      (fun size => ⟨.string size, hinner⟩)
      fun member hmem => ⟨h.ordered member hmem, h.admits member hmem⟩⟩

theorem IsRead.decode_toValue (h : product.IsRead inner) (hinner : reading.enter = .ok inner) :
    decode reading (.ofValue product.toValue) = .ok product := by
  obtain ⟨hkeys, hvalues⟩ := h.forall_mem_toMembers (Reading.admits_zero_of_enter hinner)
  simp only [toValue_eq, Node.ofValue, decode, hinner, fillMembers_ofMembers, List.foldlM_append,
    foldlM_add_fieldMembers, bind, Except.bind, Draft.foldlM_add_others hkeys hvalues,
    Draft.toProduct, require, List.append_nil, List.reverse_reverse,
    MarketInfo.ofMembers_toMembers h.keys h.ordered h.isOther, Option.join_some, Option.getD_some]

theorem holdsWhole_toValue (h : ∀ member ∈ product.info.extra, member.2.HoldsWhole) :
    product.toValue.HoldsWhole := by
  refine .object (List.forall_mem_append.mpr
    ⟨?_, MarketInfo.forall_mem_toMembers .string .string h⟩)
  simp only [List.forall_mem_cons]
  exact ⟨.string _, .string _, .string _, Value.holdsWhole_optionalWord _,
    Value.holdsWhole_optionalWord _, nofun⟩

/-- The other details hold no number of the binary format. -/
def HasNoReal (product : Product) : Prop :=
  ∀ member ∈ product.info.extra, member.2.HasNoReal

theorem restores_decode (reading : Reading) : Restores reading decode toValue HasNoReal where
  reread h := by
    obtain ⟨own, hown, hread, -⟩ := decode_eq_ok h
    exact hread.decode_toValue hown
  ne_null _ _ := nofun
  holdsWhole h hfits hfree := by
    obtain ⟨-, -, -, hnumbers⟩ := decode_eq_ok h
    exact holdsWhole_toValue fun member hmem =>
      (hnumbers _ hfits member hmem).holdsWhole (hfree member hmem)

end SpotWire.Product
