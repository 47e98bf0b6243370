import Mydon.Vending.CatalogIndex
import Mydon.Vending.Purchase

/-! What the purchase is computed from: the slots of the machines in service and the rows of the stock,
either brought to names of the price list by a chain of its own. -/

namespace Mydon.Vending

open Mydon.Lib

/-- A row of `vending_product` with what the purchase reads of it. -/
structure PurchaseCard where
  row : ProductRow
  packSize : ℚ
  excludedFromPurchase : Bool
  fixedPurchaseQty : Option ℚ
  deriving DecidableEq

structure PurchaseStockRow where
  product : String
  quantity : Option ℚ
  countedAt : Option ℤ
  deriving DecidableEq

/-- What the context reads. -/
structure PurchaseEnv where
  host : Js.Host
  cards : List PurchaseCard
  aliases : List AliasRow
  byMachine : List (String × List Slot)
  /-- The serials of the registry that are not in service, with their states. -/
  notInService : List (String × String)
  sold7 : List (String × ℚ)
  stock : List PurchaseStockRow

structure PurchaseContext where
  ok : List MachineSlots
  rows : List PurchaseRow
  summary : PurchaseSummary
  stockRows : List PurchaseStockRow
  unmatchedStock : List PurchaseStockRow
  unknownStock : List PurchaseStockRow
  unknownProducts : List String

namespace PurchaseEnv

variable (env : PurchaseEnv)

def catalog : Catalog := ⟨env.cards.map (·.row), env.aliases⟩

def resolve (name : String) : String := env.catalog.resolveProduct env.host name

def norm (name : String) : String := normalizeProductName env.host name

def rulesByName : List (String × ProductRule) :=
  env.cards.foldl (fun m p => OrderedMap.set p.row.name ⟨p.excludedFromPurchase, p.fixedPurchaseQty, some p.packSize⟩ m) []

def packByName : List (String × ℚ) := env.cards.foldl (fun m p => OrderedMap.set p.row.name p.packSize m) []

def priceByName : List (String × ℚ) :=
  env.cards.foldl (fun m p => p.row.purchasePrice.elim m fun price => OrderedMap.set p.row.name price m) []

def prices : List (String × PriceEntry) :=
  env.priceByName.map fun e => (e.1, ⟨e.2, (OrderedMap.get env.packByName e.1).getD 1⟩)

/-- In service, and with a planogram that can be counted. -/
def inServiceOk (e : String × List Slot) : Bool :=
  planogramStatus e.2 = .ok && !deadMachine e.2 &&
    (OrderedMap.get env.notInService (normalizeMachineSerial env.host e.1)).isNone

def resolveSlot (s : Slot) : Slot :=
  match s.product with
  | some product => if product = "" then s else { s with product := some (env.resolve product) }
  | none => s

def ok : List MachineSlots := (env.byMachine.filter env.inServiceOk).map fun e => ⟨e.1, e.2.map env.resolveSlot⟩

/-- The first name of the price list with this normalized form. -/
def rulesKey (key : String) : Option String := (OrderedMap.keys env.rulesByName).find? fun name => env.norm name = key

/-- The card that a row of the stock is brought to. -/
def cardName (r : PurchaseStockRow) : Option String :=
  (env.rulesKey (env.norm (env.resolve r.product))).filter (· ≠ "")

def known : List PurchaseStockRow := env.stock.filter fun r => r.quantity.isSome

def stockRows : List PurchaseStockRow :=
  env.known.filterMap fun r => (env.cardName r).map fun card => { r with product := card }

def stockByProduct : List (String × ℚ) :=
  tally PurchaseStockRow.product (fun _ => 0) (fun qty r => qty + r.quantity.getD 0) env.stockRows

def purchaseContext : PurchaseContext :=
  let needs := needByProduct env.ok
  let rows := purchaseRows needs env.stockByProduct env.sold7
  { ok := env.ok
    rows
    summary := computePurchase rows env.prices { rules := env.rulesByName }
    stockRows := env.stockRows
    unmatchedStock := (env.known.filter fun r => env.cardName r = none).map fun r => { r with product := env.resolve r.product }
    unknownStock := env.stock.filter fun r => r.quantity.isNone
    unknownProducts := ((needs.map (·.product)).filter fun name => (env.rulesKey (env.norm name)).isNone).insertionSort
      fun a b => env.host.localeCompare a b ≤ 0 }

/-! Where a slot and a row of the stock end up. -/

/-- The slots that the purchase looks at, as they were read. -/
def slots : List (String × Slot) := (env.byMachine.filter env.inServiceOk).flatMap fun e => e.2.map fun s => (e.1, s)

/-- The slots whose deficits make up the need of a product. -/
def needing (product : String) : List (String × Slot) :=
  env.slots.filter fun e => lacking (env.resolveSlot e.2) && productName (env.resolveSlot e.2) = product

/-- The rows of the stock that are subtracted from the need of a product. -/
def supplying (product : String) : List PurchaseStockRow := env.known.filter fun r => env.cardName r = some product

/-- The rows of the stock that are reported instead. -/
def unmatched : List PurchaseStockRow := env.known.filter fun r => env.cardName r = none

/-- A row of the purchase is its slots and its stock. -/
structure Accounts : Prop where
  rows : ∀ row ∈ env.purchaseContext.rows,
    row.need = some ((env.needing row.product).map fun e => (slotDeficit (env.resolveSlot e.2) : ℚ)).sum ∧
      row.stock = ((env.supplying row.product).map fun r => r.quantity.getD 0).sum
  unmatched : env.purchaseContext.unmatchedStock = env.unmatched.map fun r => { r with product := env.resolve r.product }

/-- A name on a slot that is not full and on a counted row of the stock. -/
def Shares (e : String × Slot) (r : PurchaseStockRow) : Prop :=
  e ∈ env.slots ∧ lacking (env.resolveSlot e.2) = true ∧ r ∈ env.known ∧ e.2.product = some r.product

/-- Stock is subtracted from the need it belongs to, or reported. -/
def Subtracts : Prop := ∀ e r, env.Shares e r → r ∈ env.unmatched ∨
  ∃ row ∈ env.purchaseContext.rows, e ∈ env.needing row.product ∧ r ∈ env.supplying row.product

/-- The first card with the normalized name of another is named as that one, but for blanks around it. -/
def FirstSpelling (p : ProductRow) : Prop :=
  ∀ first, env.catalog.products.find? (fun q => env.norm q.name = env.norm p.name) = some first → first.name ≠ "" →
    first.name = Js.trim p.name

variable {env : PurchaseEnv}

theorem stock_eq (product : String) : (OrderedMap.get env.stockByProduct product).getD 0 =
    ((env.supplying product).map fun r => r.quantity.getD 0).sum := by
  have hfold : ∀ rows : List PurchaseStockRow, rows.foldl (fun qty r => qty + r.quantity.getD 0) (0 : ℚ) =
      (rows.map fun r => r.quantity.getD 0).sum := by
    intro rows
    rw [List.sum_eq_foldl, List.foldl_map]
  have hrows : ((env.stockRows.filter fun r => r.product = product).map fun r => r.quantity.getD 0) =
      (env.supplying product).map fun r => r.quantity.getD 0 := by
    unfold stockRows supplying
    induction env.known with
    | nil => rfl
    | cons r rows ih =>
      rcases h : env.cardName r with _ | card
      · rw [List.filterMap_cons_none (by rw [h]; rfl), ih, List.filter_cons_of_neg (by simp [h])]
      · rw [List.filterMap_cons_some (by rw [h]; rfl)]
        by_cases hcard : card = product
        · rw [List.filter_cons_of_pos (by simpa using hcard), List.filter_cons_of_pos (by simpa [h] using hcard), List.map_cons,
            List.map_cons, ih]
        · rw [List.filter_cons_of_neg (by simpa using hcard), List.filter_cons_of_neg (by simpa [h] using hcard), ih]
  rw [stockByProduct, get_tally, ← hrows, ← hfold]
  split_ifs with hmem
  · rfl
  · have hnone : env.stockRows.filter (fun r => r.product = product) = [] := by
      rw [List.filter_eq_nil_iff]
      intro r hr heq
      exact hmem (List.mem_map.mpr ⟨r, hr, of_decide_eq_true heq⟩)
    rw [hnone]
    rfl

theorem lackingSlots_ok : lackingSlots env.ok =
    (env.slots.filter fun e => lacking (env.resolveSlot e.2)).map fun e => (e.1, env.resolveSlot e.2) := by
  unfold lackingSlots ok slots
  induction env.byMachine.filter env.inServiceOk with
  | nil => rfl
  | cons e machines ih =>
    rw [List.map_cons, List.flatMap_cons, List.flatMap_cons, List.filter_append, List.map_append, ih]
    congr 1
    rw [List.filter_map, List.filter_map, List.map_map, List.map_map]
    rfl

theorem lackingOf_ok (product : String) :
    lackingOf env.ok product = (env.needing product).map fun e => (e.1, env.resolveSlot e.2) := by
  rw [lackingOf, lackingSlots_ok, List.filter_map, List.filter_filter, needing]
  refine congrArg _ (List.filter_congr fun e _ => ?_)
  exact Bool.and_comm _ _

theorem accounts (env : PurchaseEnv) : env.Accounts where
  rows := by
    intro row hrow
    obtain ⟨n, hn, rfl⟩ := List.mem_map.mp hrow
    refine ⟨?_, stock_eq n.product⟩
    rw [(of_mem_needByProduct hn).1, lackingOf_ok, lack, List.map_map]
    rfl
  unmatched := rfl

/-- A slot that is not full has the row of its own product. -/
theorem row_of_slot {e : String × Slot} (he : e ∈ env.slots) (hlacks : lacking (env.resolveSlot e.2) = true) :
    ∃ row ∈ env.purchaseContext.rows, row.product = productName (env.resolveSlot e.2) := by
  have hmem : productName (env.resolveSlot e.2) ∈ (needByProduct env.ok).map (·.product) := by
    rw [products_needByProduct, mem_keySet, lackingSlots_ok, List.map_map]
    exact List.mem_map.mpr ⟨e, List.mem_filter.mpr ⟨he, hlacks⟩, rfl⟩
  obtain ⟨n, hn, hproduct⟩ := List.mem_map.mp hmem
  exact ⟨_, List.mem_map.mpr ⟨n, hn, rfl⟩, hproduct⟩

/-- So the stock of a shared name is subtracted there exactly if it is brought to the name of the slot. -/
theorem subtracts_iff : env.Subtracts ↔
    ∀ e r, env.Shares e r → ∀ card, env.cardName r = some card → card = productName (env.resolveSlot e.2) := by
  constructor
  · intro h e r hshares card hcard
    rcases h e r hshares with hnone | ⟨row, -, he, hr⟩
    · have hnone := of_decide_eq_true (List.mem_filter.mp hnone).2
      rw [hcard] at hnone
      cases hnone
    · have hcard' := of_decide_eq_true (List.mem_filter.mp hr).2
      have hproduct := (Bool.and_eq_true_iff.mp (List.mem_filter.mp he).2).2
      rw [hcard, Option.some.injEq] at hcard'
      rw [hcard', of_decide_eq_true hproduct]
  · intro h e r hshares
    obtain ⟨he, hlacks, hr, -⟩ := id hshares
    rcases hcard : env.cardName r with _ | card
    · exact .inl (List.mem_filter.mpr ⟨hr, decide_eq_true hcard⟩)
    · obtain ⟨row, hrow, hproduct⟩ := row_of_slot he hlacks
      refine .inr ⟨row, hrow, List.mem_filter.mpr ⟨he, ?_⟩, List.mem_filter.mpr ⟨hr, ?_⟩⟩
      · rw [hlacks, hproduct, decide_eq_true rfl]
        rfl
      · rw [hcard, hproduct, h e r hshares card hcard, decide_eq_true rfl]

/-- A resolved name is that of a product, or a name that came and that no product has. -/
theorem resolve_cases (raw : String) : (∃ p ∈ env.catalog.products, p.name = env.resolve raw) ∨
    (env.resolve raw = raw ∧ (Js.trim raw = "" ∨ ∀ p ∈ env.catalog.products, env.norm p.name ≠ env.norm raw)) := by
  unfold resolve Catalog.resolveProduct Catalog.resolveCatalogName
  by_cases hblank : Js.trim raw = ""
  · rw [if_pos hblank]
    exact .inr ⟨rfl, .inl hblank⟩
  · rw [if_neg hblank]
    rcases hown : env.catalog.byKey env.host (normalizeProductName env.host raw) with _ | own
    · have hnone := Catalog.byKey_eq_none_iff.mp hown
      rcases hvia : env.catalog.aliasByKey env.host (normalizeProductName env.host raw) with _ | via
      · exact .inr ⟨by simp only [hown, hvia], .inr hnone⟩
      · obtain ⟨p, hp, hname⟩ := Catalog.aliasByKey_eq_some hvia
        rcases htarget : env.catalog.byKey env.host (normalizeProductName env.host via) with _ | target
        · exact absurd (congrArg _ hname) (Catalog.byKey_eq_none_iff.mp htarget p hp)
        · exact .inl ⟨p, hp, by simp only [hown, hvia, htarget, hname]⟩
    · have hmem := (Catalog.byKey_eq_some hown).1
      refine .inl ⟨own, hmem, ?_⟩
      rcases hvia : env.catalog.aliasByKey env.host (normalizeProductName env.host raw) with _ | via
      · simp only [hown, hvia]
      · by_cases hname : via ≠ own.name
        · simp only [hown, hvia, if_pos hname]
        · simp only [hown, hvia, if_neg hname]

theorem rulesKey_eq (hnames : (env.cards.map (·.row.name)).Nodup) (key : String) :
    env.rulesKey key = (env.catalog.products.find? fun p => env.norm p.name = key).map (·.name) := by
  have hfold : env.rulesByName =
      env.cards.map fun p => (p.row.name, ⟨p.excludedFromPurchase, p.fixedPurchaseQty, some p.packSize⟩) := by
    have hset := @OrderedMap.foldl_set_eq_append _ _ _ ([] : List (String × ProductRule))
      (env.cards.map fun p => (p.row.name, ⟨p.excludedFromPurchase, p.fixedPurchaseQty, some p.packSize⟩))
      (by rw [List.nil_append, OrderedMap.keys, List.map_map]; exact hnames)
    rw [List.foldl_map, List.nil_append] at hset
    exact hset
  unfold rulesKey catalog
  rw [hfold, OrderedMap.keys, List.map_map, List.find?_map, List.find?_map, Option.map_map]
  rfl

theorem cardName_eq_some_iff (hnames : (env.cards.map (·.row.name)).Nodup) {r : PurchaseStockRow} {card : String} :
    env.cardName r = some card ↔ ∃ first, env.catalog.products.find?
      (fun q => env.norm q.name = env.norm (env.resolve r.product)) = some first ∧ first.name = card ∧ card ≠ "" := by
  unfold cardName
  rw [rulesKey_eq hnames, Option.filter_eq_some_iff, Option.map_eq_some_iff]
  constructor
  · rintro ⟨⟨first, hfirst, rfl⟩, hne⟩
    exact ⟨first, hfirst, rfl, by simpa using hne⟩
  · rintro ⟨first, hfirst, rfl, hne⟩
    exact ⟨⟨first, hfirst, rfl⟩, by simpa using hne⟩

/-- The product of a slot with a shared name. -/
theorem Shares.productName_eq {e : String × Slot} {r : PurchaseStockRow} (h : env.Shares e r) :
    productName (env.resolveSlot e.2) = Js.trim (env.resolve r.product) ∧ Js.trim (env.resolve r.product) ≠ "" := by
  obtain ⟨-, hlacks, -, hproduct⟩ := h
  unfold lacking usable hasProduct at hlacks
  rw [Bool.and_eq_true, Bool.and_eq_true] at hlacks
  have hnamed := hlacks.1.1
  unfold resolveSlot at hnamed ⊢
  rw [hproduct] at hnamed ⊢
  by_cases hempty : r.product = ""
  · dsimp only at hnamed
    rw [if_pos hempty, hproduct, hempty] at hnamed
    exact absurd hnamed (by decide)
  · simp only [if_neg hempty, Option.any_some] at hnamed ⊢
    exact ⟨rfl, of_decide_eq_true hnamed⟩

/-- Every row of the purchase is the slots and the stock of its product, and the stock of a name is subtracted
from the need of the slots of this name exactly if, wherever the name is that of a card, the first card of this
normalized name has the same name. -/
theorem stock_subtracted_iff (env : PurchaseEnv) (hnames : (env.cards.map (·.row.name)).Nodup) :
    env.Accounts ∧ (env.Subtracts ↔ ∀ e r, env.Shares e r →
      ∀ p ∈ env.catalog.products, p.name = env.resolve r.product → env.FirstSpelling p) := by
  refine ⟨accounts env, subtracts_iff.trans ⟨fun h e r hshares p _ hname first hfirst hne => ?_,
    fun h e r hshares card hcard => ?_⟩⟩
  · rw [hname] at hfirst ⊢
    rw [h e r hshares first.name ((cardName_eq_some_iff hnames).mpr ⟨first, hfirst, rfl, hne⟩)]
    exact hshares.productName_eq.1
  · obtain ⟨first, hfirst, rfl, hne⟩ := (cardName_eq_some_iff hnames).mp hcard
    obtain ⟨hproduct, hnonblank⟩ := hshares.productName_eq
    rw [hproduct]
    rcases resolve_cases r.product with ⟨p, hp, hname⟩ | ⟨hraw, hblank | hnone⟩
    · rw [← hname] at hfirst ⊢
      exact h e r hshares p hp hname first hfirst hne
    · rw [hraw] at hnonblank
      exact absurd hblank hnonblank
    · rw [hraw] at hfirst
      have hkey : env.norm first.name = env.norm r.product := by simpa using List.find?_some hfirst
      exact absurd hkey (hnone first (List.mem_of_find?_eq_some hfirst))

end PurchaseEnv

/-- A price list with two spellings of one name, a machine that lacks six cans and four cans in the stock. -/
def secondSpelling : PurchaseEnv where
  host := indexHost
  cards := [⟨⟨"1", "Fanta CAN 0,25", some 100, none⟩, 1, false, none⟩, ⟨⟨"2", "Fanta can 0.25", some 100, none⟩, 1, false, none⟩]
  aliases := []
  byMachine := [("7", [⟨"1", some "Fanta can 0.25", 10, 4⟩])]
  notInService := []
  sold7 := [("Fanta can 0.25", 9)]
  stock := [⟨"Fanta can 0.25", some 4, none⟩]

def oneSpelling : PurchaseEnv := { secondSpelling with cards := secondSpelling.cards.tail }

/-- With one spelling the stock is subtracted. -/
theorem stock_subtracted_iff_oneSpelling : (oneSpelling.Accounts ∧ (oneSpelling.Subtracts ↔
      ∀ e r, oneSpelling.Shares e r → ∀ p ∈ oneSpelling.catalog.products, p.name = oneSpelling.resolve r.product →
        oneSpelling.FirstSpelling p)) ∧
    oneSpelling.purchaseContext.rows.map (fun row : PurchaseRow => (row.need, row.stock)) = [(some 6, 4)] :=
  ⟨PurchaseEnv.stock_subtracted_iff oneSpelling (by decide), by decide +kernel⟩

/-- With two, the slot goes to the second card and the stock to the first, so that all six cans are bought. -/
theorem secondSpelling_not_subtracted : (secondSpelling.cards.map (·.row.name)).Nodup ∧
    secondSpelling.purchaseContext.rows.map (fun row : PurchaseRow => (row.product, row.need, row.stock)) =
      [("Fanta can 0.25", some 6, 0)] ∧
    secondSpelling.purchaseContext.stockRows.map (fun r => (r.product, r.quantity)) = [("Fanta CAN 0,25", some 4)] ∧
    ¬ secondSpelling.Subtracts := by
  refine ⟨by decide, by decide +kernel, by decide +kernel, fun h => ?_⟩
  have hshares : secondSpelling.Shares ("7", ⟨"1", some "Fanta can 0.25", 10, 4⟩) ⟨"Fanta can 0.25", some 4, none⟩ :=
    ⟨by decide +kernel, by decide +kernel, by decide +kernel, rfl⟩
  have hcard : secondSpelling.cardName ⟨"Fanta can 0.25", some 4, none⟩ = some "Fanta CAN 0,25" := by decide +kernel
  have heq := PurchaseEnv.subtracts_iff.mp h _ _ hshares _ hcard
  exact absurd heq (by decide +kernel)

end Mydon.Vending
