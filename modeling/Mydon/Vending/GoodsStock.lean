import Mathlib.Data.Rat.Floor
import Mydon.Lib.Claims
import Mydon.Lib.Grid
import Mydon.Lib.Tally
import Mydon.Vending.Catalog

/-! The stock of the goods as the ledger has it, and its comparison with the rows of the stock table. -/

namespace Mydon.Vending

open Mydon.Lib

structure GoodsStockRow where
  productName : String
  productId : String
  cardId : Option String
  /-- By the ledger; `none` is unknown. -/
  quantity : Option ℚ
  countedAt : Option ℤ
  isActive : Bool
  deriving DecidableEq

structure GoodsStock where
  warehouseId : Option String
  rows : List GoodsStockRow
  asOf : Option ℤ
  deriving DecidableEq

structure GoodsProduct where
  id : String
  name : String
  entityId : Option String
  isActive : Bool
  deriving DecidableEq

structure GoodsStockInput where
  warehouseId : Option String
  products : List GoodsProduct
  qtyByCard : List (String × ℚ)
  countedById : List (String × ℤ)
  countedByName : List (String × ℤ)
  includeInactive : Bool

/-- A text that is there and not empty. -/
def given (id : Option String) : Bool := id.any (· ≠ "")

def goodsRow (host : Js.Host) (input : GoodsStockInput) (p : GoodsProduct) : GoodsStockRow where
  productName := p.name
  productId := p.id
  cardId := p.entityId
  quantity := if given input.warehouseId && given p.entityId
    then p.entityId.map fun card => (OrderedMap.get input.qtyByCard card).getD 0 else none
  countedAt := (OrderedMap.get input.countedById p.id).or
    (OrderedMap.get input.countedByName (normalizeProductName host p.name))
  isActive := p.isActive

def assembleGoodsStock (host : Js.Host) (input : GoodsStockInput) : GoodsStock :=
  let shown := input.products.filter fun p => p.isActive || input.includeInactive
  let rows := (shown.map (goodsRow host input)).insertionSort fun a b =>
    host.localeCompare a.productName b.productName ≤ 0
  let later (acc : Option ℤ) (r : GoodsStockRow) : Option ℤ :=
    if r.countedAt.any fun at_ => acc.all (· < at_) then r.countedAt else acc
  ⟨input.warehouseId, rows, rows.foldl later none⟩

inductive VendingParityStatus
  | ok
  | mismatch
  | no_row
  | no_card
  | inactive_with_stock
  | no_warehouse
  deriving DecidableEq

structure VendingParityRow where
  productName : String
  productId : Option String
  cardId : Option String
  table : Option ℚ
  ledger : Option ℚ
  diff : Option ℚ
  status : VendingParityStatus
  isMismatch : Bool
  deriving DecidableEq

structure TableStockRow where
  productName : String
  productId : Option String
  quantity : ℚ
  deriving DecidableEq

def Goods.round3 (n : ℚ) : ℚ := roundTo 1000 n

/-- A map made of the rows keeps the last one of an id. -/
def GoodsStock.byId (goods : GoodsStock) (id : String) : Option GoodsStockRow :=
  goods.rows.reverse.find? (·.productId = id)

/-- The row names a position by its id. -/
def GoodsStock.linked (goods : GoodsStock) (t : TableStockRow) : Bool :=
  t.productId.any fun id => id ≠ "" && (goods.byId id).isSome

/-- Rows with an id take their positions first, then the others through their names. -/
def claims (goods : GoodsStock) (table : List TableStockRow) (resolveId : String → Option String) :
    Claims String TableStockRow :=
  let position (id : Option String) : Option String := (id.bind goods.byId).map (·.productId)
  let linked := Claims.claimAll (fun t => position t.productId) ⟨[], []⟩ (table.filter goods.linked)
  Claims.claimAll (fun t => position (resolveId t.productName)) linked (table.filter fun t => !goods.linked t)

def stocked (quantity : Option ℚ) : Bool := quantity.any (· ≠ 0)

/-- The status of a position and the difference behind it. -/
def statusOf (goods : GoodsStock) (p : GoodsStockRow) (t : Option TableStockRow) : VendingParityStatus × Option ℚ :=
  if goods.warehouseId.isNone && p.cardId.isSome then (.no_warehouse, none)
  else if p.cardId.isNone then (.no_card, none)
  else
    match t with
    | none => (.no_row, none)
    | some t =>
      if !p.isActive && stocked p.quantity then (.inactive_with_stock, none)
      else
        let diff := p.quantity.map fun ledger => Goods.round3 (t.quantity - ledger)
        (if diff = some 0 then .ok else .mismatch, diff)

/-- The row of a position; one that is not active, and has neither stock nor a table row, is left out. -/
def productRow (goods : GoodsStock) (p : GoodsStockRow) (t : Option TableStockRow) : Option VendingParityRow :=
  if !p.isActive && t.isNone && !stocked p.quantity then none
  else
    let (status, diff) := statusOf goods p t
    some ⟨p.productName, some p.productId, p.cardId, t.map (·.quantity), p.quantity, diff, status,
      status = .mismatch || status = .inactive_with_stock || (status = .no_row && stocked p.quantity)⟩

def orphanRow (o : TableStockRow) : VendingParityRow :=
  ⟨o.productName, none, none, some o.quantity, none, none, .no_card, false⟩

def parityRows (host : Js.Host) (goods : GoodsStock) (table : List TableStockRow)
    (resolveId : String → Option String) : List VendingParityRow :=
  let claimed := claims goods table resolveId
  let out := goods.rows.filterMap fun p => productRow goods p (OrderedMap.get claimed.taken p.productId)
  (out ++ claimed.left.map orphanRow).insertionSort fun a b => host.localeCompare a.productName b.productName ≤ 0

/-- A row of the output with the table row it shows. -/
abbrev ShownRow := VendingParityRow × Option TableStockRow

/-- A position shows a row of its own, an orphan row shows itself. -/
def Shows (resolveId : String → Option String) (shown : ShownRow) : Prop :=
  match shown.2 with
  | none => shown.1.table = none
  | some t => shown.1.table = some t.quantity ∧
      ((∃ id, shown.1.productId = some id ∧ (t.productId = some id ∨ resolveId t.productName = some id)) ∨
        shown.1.productId = none ∧ shown.1.productName = t.productName)

/-- Nothing of the table is lost, ids come before names, and a parity without mismatches is a parity. -/
structure ParityLaws (host : Js.Host) (goods : GoodsStock) (table : List TableStockRow)
    (resolveId : String → Option String) : Prop where
  shown : ∃ shown : List ShownRow, (shown.map Prod.fst).Perm (parityRows host goods table resolveId) ∧
    (shown.filterMap Prod.snd).Perm table ∧ (∀ s ∈ shown, Shows resolveId s) ∧
    ∀ t ∈ table, ∀ id, t.productId = some id → id ≠ "" → (∃ p ∈ goods.rows, p.productId = id) →
      ∃ s ∈ shown, s.1.productId = some id ∧ s.2.any (·.productId = some id)
  positions : ((parityRows host goods table resolveId).filterMap (·.productId)).Nodup
  quantities : ((parityRows host goods table resolveId).filterMap (·.table)).sum = (table.map (·.quantity)).sum
  gate : ∀ input, goods = assembleGoodsStock host input → given input.warehouseId →
    (∀ p ∈ input.products, given p.entityId) →
    (∀ row ∈ parityRows host goods table resolveId, row.isMismatch = false) →
    (∀ row ∈ parityRows host goods table resolveId, row.productId.isSome → ∃ ledger, row.ledger = some ledger ∧
      Goods.round3 (row.table.getD 0 - ledger) = 0 ∧ |row.table.getD 0 - ledger| ≤ 1 / 2000) ∧
    ∀ p ∈ goods.rows, (∀ row ∈ parityRows host goods table resolveId, row.productId ≠ some p.productId) →
      p.quantity = some 0

section claims
variable {goods : GoodsStock} {table : List TableStockRow} {resolveId : String → Option String} {id : String}
  {t : TableStockRow}

theorem byId_eq_some {p : GoodsStockRow} (h : goods.byId id = some p) : p ∈ goods.rows ∧ p.productId = id :=
  ⟨List.mem_reverse.mp (List.mem_of_find?_eq_some h), by simpa using List.find?_some h⟩

theorem isSome_byId_iff : (goods.byId id).isSome ↔ ∃ p ∈ goods.rows, p.productId = id := by
  unfold GoodsStock.byId
  rw [List.find?_isSome]
  simp only [List.mem_reverse, decide_eq_true_eq]

theorem position_eq_some_iff {asked : Option String} :
    (asked.bind goods.byId).map (·.productId) = some id ↔ asked = some id ∧ ∃ p ∈ goods.rows, p.productId = id := by
  constructor
  · intro h
    obtain ⟨p, hp, rfl⟩ := Option.map_eq_some_iff.mp h
    obtain ⟨asked, rfl, hget⟩ := Option.bind_eq_some_iff.mp hp
    obtain ⟨hmem, rfl⟩ := byId_eq_some hget
    exact ⟨rfl, p, hmem, rfl⟩
  · rintro ⟨rfl, hex⟩
    obtain ⟨p, hp⟩ := Option.isSome_iff_exists.mp (isSome_byId_iff.mpr hex)
    rw [Option.bind_some, hp, Option.map_some, (byId_eq_some hp).2]

theorem claims_perm : ((claims goods table resolveId).all).Perm table := by
  unfold claims
  refine (Claims.claimAll_perm _ _).trans (((Claims.claimAll_perm _ _).append_right _).trans ?_)
  rw [Claims.all, List.map_nil, List.nil_append, List.nil_append]
  exact List.filter_append_perm _ _

theorem nodup_claims : (OrderedMap.keys (claims goods table resolveId).taken).Nodup := by
  unfold claims
  exact Claims.nodup_claimAll (Claims.nodup_claimAll List.nodup_nil)

/-- A position is taken by a row that names its id, or whose name stands for it. -/
theorem mem_claims (h : (id, t) ∈ (claims goods table resolveId).taken) :
    (∃ p ∈ goods.rows, p.productId = id) ∧ (t.productId = some id ∨ resolveId t.productName = some id) := by
  unfold claims at h
  rcases Claims.mem_claimAll h with hlinked | ⟨-, hname⟩
  · rcases Claims.mem_claimAll hlinked with hnil | ⟨-, hid⟩
    · exact absurd hnil List.not_mem_nil
    · obtain ⟨heq, hex⟩ := position_eq_some_iff.mp hid
      exact ⟨hex, .inl heq⟩
  · obtain ⟨heq, hex⟩ := position_eq_some_iff.mp hname
    exact ⟨hex, .inr heq⟩

/-- A position that some row names by its id is taken by such a row. -/
theorem claims_linked (ht : t ∈ table) (hid : t.productId = some id) (hne : id ≠ "")
    (hex : ∃ p ∈ goods.rows, p.productId = id) :
    ∃ u, OrderedMap.get (claims goods table resolveId).taken id = some u ∧ u.productId = some id := by
  have hlinked : t ∈ table.filter goods.linked := by
    refine List.mem_filter.mpr ⟨ht, ?_⟩
    simp only [GoodsStock.linked, hid, Option.any_some, Bool.and_eq_true, decide_eq_true_eq]
    exact ⟨hne, isSome_byId_iff.mpr hex⟩
  have htaken := @Claims.isSome_get_claimAll _ _ _
    (fun t : TableStockRow => (t.productId.bind goods.byId).map (·.productId)) ⟨[], []⟩ _ t id hlinked
    (position_eq_some_iff.mpr ⟨hid, hex⟩)
  obtain ⟨u, hu⟩ := Option.isSome_iff_exists.mp htaken
  refine ⟨u, Claims.get_claimAll hu, ?_⟩
  rcases Claims.mem_claimAll (OrderedMap.mem_of_get hu) with hnil | ⟨-, hown⟩
  · exact absurd hnil List.not_mem_nil
  · exact (position_eq_some_iff.mp hown).1

end claims

section rows
variable {host : Js.Host} {goods : GoodsStock} {table : List TableStockRow} {resolveId : String → Option String}
  {p : GoodsStockRow} {t : Option TableStockRow} {row : VendingParityRow}

theorem productRow_eq_some (h : productRow goods p t = some row) :
    row = ⟨p.productName, some p.productId, p.cardId, t.map (·.quantity), p.quantity, (statusOf goods p t).2,
      (statusOf goods p t).1, (statusOf goods p t).1 = .mismatch || (statusOf goods p t).1 = .inactive_with_stock ||
        ((statusOf goods p t).1 = .no_row && stocked p.quantity)⟩ := by
  unfold productRow at h
  split_ifs at h
  exact (Option.some.inj h).symm

theorem isSome_productRow {u : TableStockRow} : (productRow goods p (some u)).isSome := by
  simp [productRow]

theorem productRow_eq_none (h : productRow goods p t = none) : t = none ∧ stocked p.quantity = false := by
  unfold productRow at h
  split_ifs at h with hhidden
  simp only [Bool.and_eq_true, Option.isNone_iff_eq_none, Bool.not_eq_true'] at hhidden
  exact ⟨hhidden.1.2, hhidden.2⟩

/-- The table row that a position has. -/
def own (goods : GoodsStock) (table : List TableStockRow) (resolveId : String → Option String) (p : GoodsStockRow) :
    Option TableStockRow := OrderedMap.get (claims goods table resolveId).taken p.productId

/-- The output before it is sorted. -/
def listed (goods : GoodsStock) (table : List TableStockRow) (resolveId : String → Option String) : List ShownRow :=
  (goods.rows.filterMap fun p => (productRow goods p (own goods table resolveId p)).map
    (·, own goods table resolveId p)) ++ (claims goods table resolveId).left.map fun o => (orphanRow o, some o)

theorem listed_perm : ((listed goods table resolveId).map Prod.fst).Perm (parityRows host goods table resolveId) := by
  unfold parityRows listed
  refine List.Perm.trans (List.Perm.of_eq ?_) (List.perm_insertionSort _ _).symm
  rw [List.map_append, List.map_filterMap, List.map_map]
  refine congrArg₂ _ (List.filterMap_congr fun p _ => ?_) rfl
  rw [Option.map_map]
  exact Option.map_id'

theorem mem_listed {s : ShownRow} : s ∈ listed goods table resolveId ↔
    (∃ p ∈ goods.rows, productRow goods p (own goods table resolveId p) = some s.1 ∧
        s.2 = own goods table resolveId p) ∨
      ∃ o ∈ (claims goods table resolveId).left, s = (orphanRow o, some o) := by
  unfold listed
  rw [List.mem_append, List.mem_filterMap, List.mem_map]
  refine or_congr ⟨?_, ?_⟩ ⟨fun ⟨o, ho, heq⟩ => ⟨o, ho, heq.symm⟩, fun ⟨o, ho, heq⟩ => ⟨o, ho, heq.symm⟩⟩
  · rintro ⟨p, hp, h⟩
    obtain ⟨row, hrow, rfl⟩ := Option.map_eq_some_iff.mp h
    exact ⟨p, hp, hrow, rfl⟩
  · rintro ⟨p, hp, hrow, hown⟩
    exact ⟨p, hp, by rw [hrow, ← hown]; rfl⟩

theorem listed_shows {s : ShownRow} (hs : s ∈ listed goods table resolveId) :
    Shows resolveId s ∧ s.1.table = s.2.map (·.quantity) := by
  rcases mem_listed.mp hs with ⟨p, -, hrow, hown⟩ | ⟨o, -, rfl⟩
  · have heq := productRow_eq_some hrow
    refine ⟨?_, by rw [heq, hown]⟩
    unfold Shows
    rcases htaken : s.2 with _ | u
    · dsimp only
      rw [heq, ← hown, htaken]
      rfl
    · dsimp only
      have hget := hown.symm.trans htaken
      refine ⟨by rw [heq, hget]; rfl, .inl ⟨p.productId, by rw [heq], ?_⟩⟩
      exact (mem_claims (OrderedMap.mem_of_get hget)).2
  · exact ⟨⟨rfl, .inr ⟨rfl, rfl⟩⟩, rfl⟩

/-- Every table row is listed once. -/
theorem listed_table (hids : (goods.rows.map (·.productId)).Nodup) :
    ((listed goods table resolveId).filterMap Prod.snd).Perm table := by
  have hrows : (goods.rows.filterMap fun p => (productRow goods p (own goods table resolveId p)).map
      (·, own goods table resolveId p)).filterMap Prod.snd =
        (goods.rows.map (·.productId)).filterMap (OrderedMap.get (claims goods table resolveId).taken) := by
    rw [List.filterMap_filterMap, List.filterMap_map]
    refine List.filterMap_congr fun p _ => ?_
    show _ = own goods table resolveId p
    rcases hrow : productRow goods p (own goods table resolveId p) with _ | row
    · exact (productRow_eq_none hrow).1.symm
    · rfl
  have horphans : ((claims goods table resolveId).left.map fun o => (orphanRow o, some o)).filterMap Prod.snd =
      (claims goods table resolveId).left := by
    rw [List.filterMap_map]
    exact List.filterMap_some
  have hsub : ∀ id ∈ OrderedMap.keys (claims goods table resolveId).taken, id ∈ goods.rows.map (·.productId) := by
    intro id hid
    obtain ⟨t, ht⟩ := Option.isSome_iff_exists.mp (OrderedMap.mem_keys_iff.mp hid)
    obtain ⟨p, hp, rfl⟩ := (mem_claims (OrderedMap.mem_of_get ht)).1
    exact List.mem_map_of_mem hp
  have htaken := filterMap_get_perm nodup_claims hids hsub
  unfold listed
  rw [List.filterMap_append, hrows, horphans]
  exact (htaken.append_right _).trans claims_perm

theorem listed_positions (hids : (goods.rows.map (·.productId)).Nodup) :
    ((listed goods table resolveId).filterMap fun s => s.1.productId).Nodup := by
  have hrows : (goods.rows.filterMap fun p => (productRow goods p (own goods table resolveId p)).map
      (·, own goods table resolveId p)).filterMap (fun s => s.1.productId) =
        goods.rows.filterMap fun p =>
          (productRow goods p (own goods table resolveId p)).map fun _ => p.productId := by
    rw [List.filterMap_filterMap]
    refine List.filterMap_congr fun p _ => ?_
    rcases hrow : productRow goods p (own goods table resolveId p) with _ | row
    · rfl
    · rw [Option.map_some, Option.bind_some, Option.map_some, productRow_eq_some hrow]
  have horphans : ((claims goods table resolveId).left.map fun o => (orphanRow o, some o)).filterMap
      (fun s => s.1.productId) = [] := by
    rw [List.filterMap_map, List.filterMap_eq_nil_iff]
    exact fun _ _ => rfl
  unfold listed
  rw [List.filterMap_append, hrows, horphans, List.append_nil]
  refine hids.sublist ?_
  rw [← List.map_id (List.filterMap _ _)]
  refine map_filterMap_sublist (fun p id h => ?_) goods.rows
  obtain ⟨-, -, rfl⟩ := Option.map_eq_some_iff.mp h
  rfl

/-- A position of known stock that is no mismatch agrees with its table row. -/
theorem productRow_agrees {ledger : ℚ} (hwarehouse : goods.warehouseId.isSome) (hcard : p.cardId.isSome)
    (hledger : p.quantity = some ledger) (h : productRow goods p t = some row) (hmatch : row.isMismatch = false) :
    row.ledger = some ledger ∧ Goods.round3 (row.table.getD 0 - ledger) = 0 := by
  have heq := productRow_eq_some h
  obtain ⟨warehouse, hw⟩ := Option.isSome_iff_exists.mp hwarehouse
  obtain ⟨card, hc⟩ := Option.isSome_iff_exists.mp hcard
  rw [heq] at hmatch
  rw [heq]
  refine ⟨hledger, ?_⟩
  have hzero : Goods.round3 0 = 0 := by simp [Goods.round3, roundTo]
  rcases t with _ | u
  · have hstatus : statusOf goods p none = (.no_row, none) := by simp [statusOf, hw, hc]
    simp only [hstatus, hledger, stocked, Option.any_some, reduceCtorEq, decide_false, decide_true, Bool.false_or,
      Bool.true_and, decide_eq_false_iff_not, ne_eq, not_not] at hmatch
    rw [hmatch, Option.map_none, Option.getD_none, sub_zero, hzero]
  · by_cases hleft : (!p.isActive && stocked p.quantity) = true
    · have hstatus : statusOf goods p (some u) = (.inactive_with_stock, none) := by simp [statusOf, hw, hc, hleft]
      simp [hstatus] at hmatch
    · have hstatus : statusOf goods p (some u) =
          (if Goods.round3 (u.quantity - ledger) = 0 then .ok else .mismatch, some (Goods.round3 (u.quantity - ledger))) := by
        unfold statusOf
        dsimp only
        rw [if_neg (by simp [hw]), if_neg (by simp [hc]), if_neg hleft, hledger]
        simp only [Option.map_some, Option.some.injEq]
      rw [hstatus] at hmatch
      by_contra hdiffer
      rw [Option.map_some, Option.getD_some] at hdiffer
      simp [hdiffer] at hmatch

theorem abs_le_of_round3 {x : ℚ} (h : Goods.round3 x = 0) : |x| ≤ 1 / 2000 := by
  have hnear : |Goods.round3 x - x| ≤ 1 / (2 * (1000 : ℕ)) := abs_roundTo_sub (by decide) x
  rw [h, zero_sub, abs_neg] at hnear
  refine hnear.trans (le_of_eq ?_)
  norm_num

theorem mem_parityRows : row ∈ parityRows host goods table resolveId ↔
    (∃ p ∈ goods.rows, productRow goods p (own goods table resolveId p) = some row) ∨
      ∃ o ∈ (claims goods table resolveId).left, row = orphanRow o := by
  rw [← (@listed_perm host goods table resolveId).mem_iff, List.mem_map]
  constructor
  · rintro ⟨s, hs, rfl⟩
    rcases mem_listed.mp hs with ⟨p, hp, hrow, -⟩ | ⟨o, ho, rfl⟩
    · exact .inl ⟨p, hp, hrow⟩
    · exact .inr ⟨o, ho, rfl⟩
  · rintro (⟨p, hp, hrow⟩ | ⟨o, ho, rfl⟩)
    · exact ⟨(row, own goods table resolveId p), mem_listed.mpr (.inl ⟨p, hp, hrow, rfl⟩), rfl⟩
    · exact ⟨(orphanRow o, some o), mem_listed.mpr (.inr ⟨o, ho, rfl⟩), rfl⟩

theorem isSome_of_given {id : Option String} (h : given id) : id.isSome := by
  cases id with
  | none => exact nomatch h
  | some id => rfl

/-- With a warehouse and a card, the stock of a position is known. -/
theorem assembled_known {input : GoodsStockInput} (hwarehouse : given input.warehouseId)
    (hcards : ∀ p ∈ input.products, given p.entityId) (hp : p ∈ (assembleGoodsStock host input).rows) :
    p.cardId.isSome ∧ ∃ ledger, p.quantity = some ledger := by
  unfold assembleGoodsStock at hp
  obtain ⟨product, hproduct, rfl⟩ := List.mem_map.mp ((List.mem_insertionSort _).mp hp)
  have hcard := hcards product (List.mem_filter.mp hproduct).1
  refine ⟨isSome_of_given hcard, ?_⟩
  obtain ⟨card, hc⟩ := Option.isSome_iff_exists.mp (isSome_of_given hcard)
  have hboth : (given input.warehouseId && given product.entityId) = true := by rw [hwarehouse, hcard]; rfl
  refine ⟨(OrderedMap.get input.qtyByCard card).getD 0, ?_⟩
  unfold goodsRow
  rw [if_pos hboth, hc, Option.map_some]

/-- Whatever the goods, the table and the resolver of names, the parity keeps its laws. -/
theorem parityRows_laws (hids : (goods.rows.map (·.productId)).Nodup) :
    ParityLaws host goods table resolveId := by
  have hperm := @listed_perm host goods table resolveId
  refine ⟨⟨listed goods table resolveId, hperm, listed_table hids, fun s hs => (listed_shows hs).1, ?_⟩, ?_, ?_, ?_⟩
  · intro t ht id hid hne hex
    obtain ⟨u, hu, huid⟩ := @claims_linked goods table resolveId id t ht hid hne hex
    obtain ⟨p, hp, rfl⟩ := hex
    obtain ⟨row, hrow⟩ := Option.isSome_iff_exists.mp (@isSome_productRow goods p u)
    refine ⟨(row, some u), mem_listed.mpr (.inl ⟨p, hp, ?_, hu.symm⟩), by rw [productRow_eq_some hrow], ?_⟩
    · rw [own, hu]
      exact hrow
    · simp [huid]
  · refine (((hperm.filterMap _).nodup_iff).mp ?_)
    rw [List.filterMap_map]
    exact listed_positions hids
  · have hvalues : ((listed goods table resolveId).map Prod.fst).filterMap (·.table) =
        ((listed goods table resolveId).filterMap Prod.snd).map (·.quantity) := by
      rw [List.filterMap_map, List.map_filterMap]
      exact List.filterMap_congr fun s hs => (listed_shows hs).2
    rw [← (hperm.filterMap _).sum_eq, hvalues, ((listed_table hids).map _).sum_eq]
  · rintro input rfl hwarehouse hcards hmatch
    refine ⟨fun row hrow hsome => ?_, fun p hp hhidden => ?_⟩
    · rcases mem_parityRows.mp hrow with ⟨p, hp, hproduct⟩ | ⟨o, -, rfl⟩
      · obtain ⟨hcard, ledger, hledger⟩ := assembled_known hwarehouse hcards hp
        obtain ⟨hrowledger, hround⟩ :=
          productRow_agrees (isSome_of_given hwarehouse) hcard hledger hproduct (hmatch row hrow)
        exact ⟨ledger, hrowledger, hround, abs_le_of_round3 hround⟩
      · exact nomatch hsome
    · obtain ⟨-, ledger, hledger⟩ := assembled_known hwarehouse hcards hp
      rcases hproduct : productRow (assembleGoodsStock host input) p (own _ table resolveId p) with _ | row
      · have hempty := (productRow_eq_none hproduct).2
        rw [hledger] at hempty ⊢
        simpa [stocked] using hempty
      · refine absurd ?_ (hhidden row (mem_parityRows.mpr (.inl ⟨p, hp, hproduct⟩)))
        rw [productRow_eq_some hproduct]

end rows

def twoGoods : GoodsStockInput :=
  ⟨some "central", [⟨"1", "bounty", some "card 1", true⟩, ⟨"2", "snickers", some "card 2", true⟩],
    [("card 2", 40)], [], [], true⟩

/-- The second row names the position that the first one's name stands for. -/
def twoRows : List TableStockRow := [⟨"snickers 50", none, 3⟩, ⟨"snickers", some "2", 40⟩]

def goodsHost : Js.Host :=
  ⟨fun s => String.ofList (s.toList.map Char.toLower), fun _ => none, fun _ => "", fun _ => "",
    fun a b => if a = b then 0 else if Js.before a b then -1 else 1, fun _ => ""⟩

/-- The door of names. -/
def snickersDoor (raw : String) : Option String := if raw = "snickers 50" then some "2" else none

theorem parityRows_laws_two :
    ParityLaws goodsHost (assembleGoodsStock goodsHost twoGoods) twoRows snickersDoor ∧
      (parityRows goodsHost (assembleGoodsStock goodsHost twoGoods) twoRows snickersDoor).map
        (fun row => (row.productId, row.table, row.status)) =
          [(some "1", none, .no_row), (some "2", some 40, .ok), (none, some 3, .no_card)] :=
  ⟨parityRows_laws (by decide +kernel), by decide +kernel⟩

end Mydon.Vending
