import Mydon.Stock.Stocktake
import Mydon.Vending.StockRow

/-! The rows of the vending stock against the ledger: what one change of a row, the deliveries of an
order and the counts of an inventory do to both. -/

namespace Mydon.Vending

open Mydon.Lib Mydon.Stock

def stockQty (stock : List StockRow) (name : String) : ℤ := ((findStock stock name).map (·.quantity)).getD 0

/-- What the row of a product has above its ledger. -/
def gap (warehouseId : String) (stock : List StockRow) (journal : List StockMovementRow) (p : ProductRow) : ℚ :=
  stockQty stock p.name - ledgerQty journal warehouseId (p.entityId.getD "")

/-- Every product has the same quantity in its row and in the ledger. -/
def Agree (c : Catalog) (warehouseId : String) (db : Db) : Prop :=
  ∀ p ∈ c.products, (stockQty db.stock p.name : ℚ) = ledgerQty db.journal warehouseId (p.entityId.getD "")

theorem agree_iff_gap {c : Catalog} {warehouseId : String} {db : Db} :
    Agree c warehouseId db ↔ ∀ p ∈ c.products, gap warehouseId db.stock db.journal p = 0 := by
  unfold Agree gap
  simp only [sub_eq_zero]

/-! The row side. -/

theorem int4_eq_ok {n m : ℤ} (h : int4 n = .ok m) : m = n := by
  unfold int4 at h
  split_ifs at h
  cases h
  rfl

theorem findStock_append {stock : List StockRow} {row : StockRow} {name : String}
    (h : findStock stock row.productName = none) :
    findStock (stock ++ [row]) name = if name = row.productName then some row else findStock stock name := by
  unfold findStock at *
  rw [List.find?_append]
  split_ifs with hn
  · subst hn
    rw [h]
    simp
  · have hne : ¬ row.productName = name := fun h => hn h.symm
    simp [hne]

theorem findStock_map {stock : List StockRow} {f : StockRow → StockRow} {name n : String}
    (hf : ∀ r, (f r).productName = name) :
    findStock (stock.map fun r => if r.productName = name then f r else r) n =
      if n = name then (findStock stock n).map f else findStock stock n := by
  induction stock with
  | nil => simp [findStock]
  | cons r stock ih =>
    unfold findStock at ih ⊢
    rw [List.map_cons, List.find?_cons, List.find?_cons, ih]
    by_cases hr : r.productName = name
    · by_cases hn : n = name
      · simp [hr, hn, hf]
      · have hne : ¬ name = n := fun h => hn h.symm
        simp [hr, hn, hf, hne]
    · by_cases hn : n = name
      · subst hn
        simp [hr]
      · simp [hr, hn]

theorem stockQty_upsert {stock stock' : List StockRow} {row : StockRow} {quantity : ℤ → ℤ}
    {merge : StockRow → StockRow} (h : upsertStock stock row quantity merge = .ok stock') (name : String) :
    stockQty stock' name = if name = row.productName then ((findStock stock name).map fun r => quantity r.quantity).getD row.quantity
      else stockQty stock name := by
  unfold upsertStock at h
  obtain ⟨_, _, h⟩ := Js.bind_eq_ok.mp h
  rcases hf : findStock stock row.productName with _ | old
  · simp only [hf] at h
    cases h
    unfold stockQty
    rw [findStock_append hf]
    split_ifs with hn
    · rw [hn, hf]
      rfl
    · rfl
  · simp only [hf, Js.bind_eq_ok] at h
    obtain ⟨q, hq, h⟩ := h
    cases h
    cases int4_eq_ok hq
    unfold stockQty
    rw [findStock_map (f := fun r => { merge r with productName := row.productName, quantity := quantity old.quantity })
      fun _ => rfl]
    split_ifs with hn
    · rw [hn, hf]
      rfl
    · rfl

theorem stockQty_add {stock stock' : List StockRow} {row : StockRow} {quantity : ℤ → ℤ}
    {merge : StockRow → StockRow} (h : upsertStock stock row quantity merge = .ok stock')
    (hq : ∀ n, quantity n = n + row.quantity) (name : String) :
    stockQty stock' name = stockQty stock name + if name = row.productName then row.quantity else 0 := by
  rw [stockQty_upsert h]
  split_ifs
  · unfold stockQty
    rcases findStock stock name with _ | r
    · simp
    · simp [hq]
  · rw [add_zero]

/-! The ledger side. -/

theorem round3_intCast (n : ℤ) : round3 (n : ℚ) = n := by
  unfold round3
  have hfloor : ⌊(n : ℚ) * 1000 + 1 / 2⌋ = n * 1000 := by
    rw [Int.floor_eq_iff]
    push_cast
    constructor <;> linarith
  rw [hfloor]
  push_cast
  ring

theorem numeric_intCast {n : ℤ} {q : ℚ} (h : numeric 14 3 (n : ℚ) = .ok q) : q = n := by
  rw [← round3_intCast] at h ⊢
  exact Stocktake.numeric_round3 h

/-- The signed quantity of a change. -/
def signed (input : VendingMovementInput) : ℚ :=
  match input.kind with
  | .intake => |input.qty|
  | .consumption => -|input.qty|
  | .adjustment => input.qty

/-- The change belongs to the product, and its key is free. -/
def Booked (journal : List StockMovementRow) (input : VendingMovementInput) (p : ProductRow) : Prop :=
  input.productId = some p.id ∧ findKey journal (some input.clientKey) = none

instance (journal : List StockMovementRow) (input : VendingMovementInput) (p : ProductRow) :
    Decidable (Booked journal input p) := inferInstanceAs (Decidable (_ ∧ _))

variable {env : VendingEnv} {warehouseId : String} {input : VendingMovementInput} {row : StockRow}
  {merge : StockRow → StockRow} {quantity : ℤ → ℤ} {res : Projected} {id : String}
  (hc : env.catalog.OwnCards env.host) (hw : centralWarehouseId env.host env.cards = some warehouseId)

/-- The quantity keeps its value in the column. -/
def Exact (input : VendingMovementInput) : Prop :=
  ∀ q, numeric 14 3 (if input.kind = .adjustment then input.qty else |input.qty|) = .ok q →
    q = if input.kind = .adjustment then input.qty else |input.qty|

theorem ledgerQty_append (journal : List StockMovementRow) (m : StockMovementRow) (cardId : String) :
    ledgerQty (journal ++ [m]) warehouseId cardId =
      ledgerQty journal warehouseId cardId + ledgerContribution warehouseId cardId m := by
  simp [ledgerQty_eq]

theorem contribution_of_movementOf {cardId id : String} {m : StockMovementRow}
    (h : movementOf env input cardId warehouseId id = .ok m)
    (hexact : Exact input) (other : String) :
    m.clientKey = some input.clientKey ∧
      ledgerContribution warehouseId other m = if other = cardId then signed input else 0 := by
  obtain ⟨q, hq, rfl⟩ := Js.map_eq_ok.mp h
  refine ⟨rfl, ?_⟩
  have hval := hexact q hq
  unfold ledgerContribution ledgerWhere ledgerCase signed
  by_cases hc : other = cardId
  · subst hc
    rcases hk : input.kind with _ | _ | _ <;> simp [ProjectedKind.toKind, hval, hk]
  · have hc' : ¬ cardId = other := fun h => hc h.symm
    simp [hc, hc']

theorem exact_of_int {n : ℤ} (h : input.qty = n) : Exact input := by
  intro q hq
  split_ifs at hq ⊢ with hk
  · rw [h] at hq ⊢
    exact numeric_intCast hq
  · rw [h, ← Int.cast_abs] at hq ⊢
    exact numeric_intCast hq

include hc hw in
/-- The second writing adds one movement to the ledger of the product it is booked for, or none. -/
theorem projectVendingMovement_spec {journal journal' : List StockMovementRow}
    (hne : input.qty ≠ 0) (hexact : Exact input)
    (h : projectVendingMovement env journal input id = .ok (res, journal')) :
    (∃ p ∈ env.catalog.products, Booked journal input p ∧ ∃ m, journal' = journal ++ [m] ∧
        m.clientKey = some input.clientKey ∧ ∀ q ∈ env.catalog.products,
          ledgerContribution warehouseId (q.entityId.getD "") m = if q = p then signed input else 0) ∨
      (journal' = journal ∧ ∀ p ∈ env.catalog.products, ¬ Booked journal input p) := by
  unfold projectVendingMovement at h
  rcases hid : input.productId with _ | productId
  · simp only [hid] at h
    cases h
    refine .inr ⟨rfl, fun p _ hb => ?_⟩
    rw [hb.1] at hid
    cases hid
  · simp only [hid, if_neg hne] at h
    rcases hcard : env.catalog.cardIdOf productId with _ | cardId
    · simp only [hcard] at h
      cases h
      refine .inr ⟨rfl, fun p hp hb => ?_⟩
      rw [hb.1, Option.some.injEq] at hid
      rw [← hid, hc.cardIdOf_id hp] at hcard
      have := hc.card p hp
      rw [hcard] at this
      cases this
    · simp only [hcard, hw, Js.map_eq_ok] at h
      obtain ⟨m, hm, h⟩ := h
      obtain ⟨p, hp, hpid, hpcard⟩ : ∃ p ∈ env.catalog.products, p.id = productId ∧ p.entityId = some cardId := by
        unfold Catalog.cardIdOf at hcard
        obtain ⟨p, hp, hcard⟩ := Option.bind_eq_some_iff.mp hcard
        exact ⟨p, List.mem_of_find?_eq_some hp, by simpa using List.find?_some hp, hcard⟩
      obtain ⟨hkey, _⟩ := contribution_of_movementOf hm hexact cardId
      rw [hkey] at h
      split_ifs at h with hfree
      · cases h
        refine .inr ⟨rfl, fun q _ hb => ?_⟩
        rw [hb.2] at hfree
        cases hfree
      · cases h
        rw [Option.not_isSome_iff_eq_none] at hfree
        refine .inl ⟨p, hp, ⟨by rw [hid, hpid], hfree⟩, m, rfl, hkey, fun q hq => ?_⟩
        rw [(contribution_of_movementOf hm hexact _).2]
        have hsame : q.entityId.getD "" = cardId ↔ q = p := by
          constructor
          · intro hcq
            obtain ⟨cq, hcq'⟩ := Option.isSome_iff_exists.mp (hc.card q hq)
            rw [hcq', Option.getD_some] at hcq
            exact List.inj_on_of_nodup_map hc.cards hq hp (by rw [hcq', hpcard, hcq])
          · rintro rfl
            rw [hpcard, Option.getD_some]
        simp only [hsame]

theorem findKey_append {journal : List StockMovementRow} {m : StockMovementRow} {key : String} :
    findKey (journal ++ [m]) (some key) = none ↔ findKey journal (some key) = none ∧ m.clientKey ≠ some key := by
  unfold findKey
  simp [List.find?_eq_none]

include hc hw in
/-- The ledger of a product after the second writing. -/
theorem ledgerQty_project {journal journal' : List StockMovementRow}
    (hne : input.qty ≠ 0) (hexact : Exact input)
    (h : projectVendingMovement env journal input id = .ok (res, journal')) {p : ProductRow}
    (hp : p ∈ env.catalog.products) :
    ledgerQty journal' warehouseId (p.entityId.getD "") =
      ledgerQty journal warehouseId (p.entityId.getD "") + if Booked journal input p then signed input else 0 := by
  rcases projectVendingMovement_spec hc hw hne hexact h with ⟨q, hq, hb, m, rfl, _, hcontr⟩ | ⟨rfl, hnot⟩
  · rw [ledgerQty_append, hcontr p hp]
    have hsame : p = q ↔ Booked journal input p := by
      constructor
      · rintro rfl
        exact hb
      · intro hbp
        have hid := hbp.1.symm.trans hb.1
        exact hc.eq_of_id hp hq (Option.some.inj hid)
    simp only [hsame]
  · rw [if_neg (hnot p hp), add_zero]

/-! One change of a row and its second writing. -/

/-- The second writing reaches exactly the product whose row is written. -/
def Matched (c : Catalog) (journal : List StockMovementRow) (name : String) (input : VendingMovementInput) : Prop :=
  ∀ p ∈ c.products, p.name = name ↔ Booked journal input p

include hc hw in
theorem gap_change {stock stock' : List StockRow}
    {journal journal' : List StockMovementRow}
    (hs : upsertStock stock row quantity merge = .ok stock') (hq : ∀ n, quantity n = n + row.quantity)
    (hne : input.qty ≠ 0) (hexact : Exact input)
    (hj : projectVendingMovement env journal input id = .ok (res, journal')) {p : ProductRow}
    (hp : p ∈ env.catalog.products) :
    gap warehouseId stock' journal' p = gap warehouseId stock journal p +
      ((if p.name = row.productName then (row.quantity : ℚ) else 0) - if Booked journal input p then signed input else 0) := by
  unfold gap
  rw [stockQty_add hs hq, ledgerQty_project hc hw hne hexact hj hp]
  push_cast
  split_ifs <;> ring

include hc hw in
/-- A row that changes by what its second writing carries stays with the ledger exactly when they match. -/
theorem agree_change {db db' : Db}
    {stock : List StockRow} {journal : List StockMovementRow}
    (hs : upsertStock db.stock row quantity merge = .ok stock) (hq : ∀ n, quantity n = n + row.quantity)
    (hne : input.qty ≠ 0) (hexact : Exact input) (hsigned : signed input = row.quantity)
    (hj : projectVendingMovement env db.journal input id = .ok (res, journal))
    (hstock : db'.stock = stock) (hjournal : db'.journal = journal) (h : Agree env.catalog warehouseId db) :
    Agree env.catalog warehouseId db' ↔ Matched env.catalog db.journal row.productName input := by
  rw [agree_iff_gap] at h ⊢
  refine forall₂_congr fun p hp => ?_
  have hne' : signed input ≠ 0 := by
    unfold signed
    rcases input.kind with _ | _ | _
    · exact abs_ne_zero.mpr hne
    · exact neg_ne_zero.mpr (abs_ne_zero.mpr hne)
    · exact hne
  rw [hstock, hjournal, gap_change hc hw hs hq hne hexact hj hp, h p hp, zero_add, ← hsigned]
  by_cases hn : p.name = row.productName <;> by_cases hb : Booked db.journal input p <;> simp [hn, hb, hne']

theorem checkQty_pos {row : RefillRow} {u : Unit} (h : checkQty row = .ok u) :
    row.qty ≠ 0 ∧ (row.source ≠ "storno" → 0 < row.qty) ∧ (row.source = "storno" → row.qty < 0) := by
  unfold checkQty at h
  obtain ⟨_, _, h⟩ := Js.bind_eq_ok.mp h
  rw [Js.require_eq_ok] at h
  rcases h with ⟨hs, hq⟩ | ⟨hs, hq⟩
  · exact ⟨by omega, fun hn => absurd hs hn, fun _ => hq⟩
  · exact ⟨by omega, fun _ => hq, fun hn => absurd hn hs⟩

include hc hw in
/-- A refill keeps the agreement exactly when its movement is booked for the product whose row it takes from. -/
theorem refillTx_agrees {db db' : Db} {row : RefillRow}
    (ht : refillTx env db row = .ok db') (h : Agree env.catalog warehouseId db) :
    Agree env.catalog warehouseId db' ↔ Matched env.catalog db.journal row.productName (refillMovement row) ∧
      (row.source = "storno" → ∀ p ∈ env.catalog.products, p.name ≠ row.productName) := by
  unfold refillTx at ht
  simp only [Js.bind_eq_ok, Prod.exists] at ht
  obtain ⟨_, hcheck, stock, hs, res, journal, hj, ht⟩ := ht
  cases ht
  obtain ⟨hne, hpos, hneg⟩ := checkQty_pos hcheck
  have hne' : (refillMovement row).qty ≠ 0 := Int.cast_ne_zero.mpr hne
  have hexact : Exact (refillMovement row) := exact_of_int rfl
  by_cases hsource : row.source = "storno"
  · have hlt : (row.qty : ℚ) < 0 := Int.cast_lt_zero.mpr (hneg hsource)
    have hsigned : signed (refillMovement row) = row.qty := by
      change -|(row.qty : ℚ)| = row.qty
      rw [abs_of_neg hlt, neg_neg]
    rw [agree_iff_gap] at h ⊢
    have hgap := fun p hp => gap_change (p := p) hc hw hs (fun n => Int.sub_eq_add_neg) hne' hexact hj hp
    simp only [hsource, forall_true_left]
    unfold Matched
    rw [← forall₂_and]
    refine forall₂_congr fun p hp => ?_
    rw [hgap p hp, h p hp, hsigned]
    by_cases hn : p.name = row.productName
    · by_cases hb : Booked db.journal (refillMovement row) p
      · simp [hn, hb]
        linarith
      · simp [hn, hb, hne]
    · by_cases hb : Booked db.journal (refillMovement row) p
      · simp [hn, hb, hne]
      · simp [hn, hb]
  · have hlt : 0 < (row.qty : ℚ) := Int.cast_pos.mpr (hpos hsource)
    have hsigned : signed (refillMovement row) = ((-row.qty : ℤ) : ℚ) := by
      change -|(row.qty : ℚ)| = ((-row.qty : ℤ) : ℚ)
      rw [abs_of_pos hlt, Int.cast_neg]
    rw [agree_change hc hw hs (fun n => Int.sub_eq_add_neg) hne' hexact hsigned hj rfl rfl h]
    exact ⟨fun hm => ⟨hm, fun hs => absurd hs hsource⟩, fun hm => hm.1⟩

include hc hw in
/-- A reversal keeps the agreement exactly when its movement is booked for the product whose row it gives back to. -/
theorem stornoTx_agrees {db db' : Db} {actor : CancelActor}
    {original : RefillRow} (ht : stornoTx env db actor original = .ok db') (h : Agree env.catalog warehouseId db) :
    Agree env.catalog warehouseId db' ↔
      Matched env.catalog db.journal original.productName (stornoMovement original) := by
  unfold stornoTx at ht
  simp only [Js.bind_eq_ok, Prod.exists] at ht
  obtain ⟨_, hcheck, stock, hs, res, journal, hj, ht⟩ := ht
  cases ht
  obtain ⟨hne, _⟩ := checkQty_pos hcheck
  have hne' : (stornoMovement original).qty ≠ 0 := by
    refine Int.cast_ne_zero.mpr fun hz => hne ?_
    change -original.qty = 0
    omega
  exact agree_change hc hw hs (fun _ => rfl) hne' (exact_of_int rfl) rfl hj rfl rfl h

/-! The deliveries of an order. -/

/-- The movements of the deliveries all have keys of their own, and go to the products they name. -/
structure GoodDeliveries (env : VendingEnv) (orderId receivedBy : String) (journal : List StockMovementRow)
    (delivered : List (String × ℤ)) : Prop where
  booked : ∀ d ∈ delivered, ∀ p ∈ env.catalog.products, p.name = d.1 →
    Booked journal (orderMovement env orderId receivedBy d) p
  keys : (delivered.map fun d => (orderMovement env orderId receivedBy d).clientKey).Nodup

section
variable {orderId receivedBy : String} {journal journal' : List StockMovementRow} {stock stock' : List StockRow}

include hc in
/-- Only the product a delivery names can get its movement. -/
theorem name_of_booked {d : String × ℤ} {p q : ProductRow}
    (hp : p ∈ env.catalog.products) (hname : p.name = d.1) (hq : q ∈ env.catalog.products)
    (hb : Booked journal (orderMovement env orderId receivedBy d) q) : q = p := by
  have hid := hb.1
  rw [orderMovement_productId, ← hname] at hid
  exact hc.eq_of_id hq hp (hc.productIdOf_name hp hid)

theorem goodDeliveries_cons {d : String × ℤ} {rest : List (String × ℤ)} {m : StockMovementRow}
    (hm : m.clientKey = some (orderMovement env orderId receivedBy d).clientKey)
    (hb : ∀ p ∈ env.catalog.products, p.name = d.1 → Booked journal (orderMovement env orderId receivedBy d) p)
    (hnames : ∀ d ∈ rest, ∃ p ∈ env.catalog.products, p.name = d.1) :
    GoodDeliveries env orderId receivedBy (journal ++ [m]) rest ↔
      GoodDeliveries env orderId receivedBy journal (d :: rest) := by
  constructor
  · rintro ⟨hbooked, hkeys⟩
    refine ⟨List.forall_mem_cons.mpr ⟨hb, fun e he p hp hn => ?_⟩, List.nodup_cons.mpr ⟨?_, hkeys⟩⟩
    · obtain ⟨hid, hfree⟩ := hbooked e he p hp hn
      exact ⟨hid, (findKey_append.mp hfree).1⟩
    · intro hmem
      obtain ⟨e, he, hkey⟩ := List.mem_map.mp hmem
      obtain ⟨p, hp, hn⟩ := hnames e he
      refine (findKey_append.mp (hbooked e he p hp hn).2).2 ?_
      rw [hm, hkey]
  · rintro ⟨hbooked, hkeys⟩
    obtain ⟨hnot, hkeys⟩ := List.nodup_cons.mp hkeys
    refine ⟨fun e he p hp hn => ?_, hkeys⟩
    obtain ⟨hid, hfree⟩ := hbooked e (List.mem_cons_of_mem _ he) p hp hn
    refine ⟨hid, findKey_append.mpr ⟨hfree, fun hkey => hnot ?_⟩⟩
    rw [hm, Option.some.injEq] at hkey
    exact List.mem_map.mpr ⟨e, he, hkey.symm⟩

include hc hw in
/-- Deliveries never leave less in a row than in its ledger, and exactly as much where they are good. -/
theorem deliverAll_spec {delivered : List (String × ℤ)}
    (hnames : ∀ d ∈ delivered, ∃ p ∈ env.catalog.products, p.name = d.1) (hpos : ∀ d ∈ delivered, 0 < d.2) {n : ℕ}
    (h : deliverAll env orderId receivedBy n (stock, journal) delivered = .ok (stock', journal')) :
    (∀ p ∈ env.catalog.products, gap warehouseId stock journal p ≤ gap warehouseId stock' journal' p) ∧
      ((∀ p ∈ env.catalog.products, gap warehouseId stock' journal' p = gap warehouseId stock journal p) ↔
        GoodDeliveries env orderId receivedBy journal delivered) := by
  induction delivered generalizing n stock journal with
  | nil =>
    cases h
    exact ⟨fun _ _ => le_rfl, iff_of_true (fun _ _ => rfl) ⟨List.forall_mem_nil _, List.nodup_nil⟩⟩
  | cons d rest ih =>
    obtain ⟨⟨p, hp, hname⟩, hnames⟩ := List.forall_mem_cons.mp hnames
    obtain ⟨hd, hpos⟩ := List.forall_mem_cons.mp hpos
    unfold deliverAll at h
    simp only [Js.bind_eq_ok, Prod.exists] at h
    obtain ⟨stock₁, hs, res, journal₁, hj, h⟩ := h
    obtain ⟨hle, hiff⟩ := ih hnames hpos h
    have hqty : (orderMovement env orderId receivedBy d).qty ≠ 0 := Int.cast_ne_zero.mpr hd.ne'
    have hexact : Exact (orderMovement env orderId receivedBy d) := exact_of_int rfl
    have hsigned : signed (orderMovement env orderId receivedBy d) = d.2 := by
      change |(d.2 : ℚ)| = d.2
      exact abs_of_pos (Int.cast_pos.mpr hd)
    have hgap := fun q hq => gap_change (p := q) hc hw hs (fun _ => rfl) hqty hexact hj hq
    simp only [hsigned] at hgap
    -- the first delivery moves the gap of its product alone, and only upwards
    have hfirst : ∀ q ∈ env.catalog.products, gap warehouseId stock₁ journal₁ q = gap warehouseId stock journal q +
        if q = p ∧ ¬ Booked journal (orderMovement env orderId receivedBy d) p then (d.2 : ℚ) else 0 := by
      intro q hq
      rw [hgap q hq]
      by_cases hqp : q = p
      · subst hqp
        by_cases hb : Booked journal (orderMovement env orderId receivedBy d) q <;> simp [hname, hb]
      · have hqn : ¬ q.name = d.1 := fun hn => hqp (hc.eq_of_name hq hp (hn.trans hname.symm))
        have hqb : ¬ Booked journal (orderMovement env orderId receivedBy d) q :=
          fun hb => hqp (name_of_booked hc hp hname hq hb)
        simp [hqp, hqn, hqb]
    have hle₁ : ∀ q ∈ env.catalog.products, gap warehouseId stock journal q ≤ gap warehouseId stock₁ journal₁ q := by
      intro q hq
      rw [hfirst q hq]
      split_ifs
      · exact le_add_of_nonneg_right (by exact_mod_cast hd.le)
      · exact le_of_eq (add_zero _).symm
    refine ⟨fun q hq => (hle₁ q hq).trans (hle q hq), ?_⟩
    by_cases hb : Booked journal (orderMovement env orderId receivedBy d) p
    · have hsame : ∀ q ∈ env.catalog.products, gap warehouseId stock₁ journal₁ q = gap warehouseId stock journal q := by
        intro q hq
        rw [hfirst q hq, if_neg fun h => h.2 hb, add_zero]
      have hbooked : ∀ q ∈ env.catalog.products, q.name = d.1 →
          Booked journal (orderMovement env orderId receivedBy d) q := by
        intro q hq hn
        rwa [hc.eq_of_name hq hp (hn.trans hname.symm)]
      rcases projectVendingMovement_spec hc hw hqty hexact hj with ⟨_, _, _, m, rfl, hm, _⟩ | ⟨_, hnot⟩
      · rw [← goodDeliveries_cons hm hbooked hnames, ← hiff]
        refine forall₂_congr fun q hq => ?_
        rw [hsame q hq]
      · exact absurd hb (hnot p hp)
    · refine iff_of_false (fun heq => ?_) fun hgood => hb (hgood.booked d List.mem_cons_self p hp hname)
      have hlast := hle p hp
      rw [heq p hp, hfirst p hp, if_pos ⟨rfl, hb⟩] at hlast
      have : (0 : ℚ) < d.2 := Int.cast_pos.mpr hd
      linarith

end

/-! The counts of an inventory. -/

/-- The count of the product reaches its ledger. -/
def Counted (env : VendingEnv) (countedAt : ℤ) (journal : List StockMovementRow) (entry : String × ℤ)
    (p : ProductRow) : Prop :=
  env.catalog.productIdOf env.host entry.1 = some p.id ∧
    findKey journal (some (countInput env countedAt entry).clientKey) = none

instance (env : VendingEnv) (countedAt : ℤ) (journal : List StockMovementRow) (entry : String × ℤ) (p : ProductRow) :
    Decidable (Counted env countedAt journal entry p) :=
  inferInstanceAs (Decidable (env.catalog.productIdOf env.host entry.1 = some p.id ∧
    findKey journal (some (countInput env countedAt entry).clientKey) = none))

section
variable {countedAt : ℤ} {journal journal' : List StockMovementRow} {entry : String × ℤ} {p : ProductRow}

theorem countInput_key_inj {e e' : String × ℤ}
    (h : (countInput env countedAt e).clientKey = (countInput env countedAt e').clientKey) : e.1 = e'.1 := by
  have hlist := congrArg String.toList h
  simp only [countInput, String.toList_append, List.append_cancel_right_eq, List.append_cancel_left_eq] at hlist
  exact String.toList_injective hlist

include hc hw in
/-- A count sets the ledger of its product, where the movement is booked. -/
theorem projectVendingCount_spec {id : String} {res : ProjectedCount}
    (h : projectVendingCount env journal (countInput env countedAt entry) id = .ok (res, journal')) :
    (∀ p ∈ env.catalog.products, ∀ z : ℤ, ledgerQty journal warehouseId (p.entityId.getD "") = z →
        ledgerQty journal' warehouseId (p.entityId.getD "") =
          if Counted env countedAt journal entry p then (entry.2 : ℚ) else z) ∧
      ∀ key, key ≠ (countInput env countedAt entry).clientKey →
        (findKey journal' (some key) = none ↔ findKey journal (some key) = none) := by
  unfold projectVendingCount at h
  rcases hid : env.catalog.productIdOf env.host entry.1 with _ | productId
  · simp only [countInput_productId, hid] at h
    cases h
    refine ⟨fun p _ z hz => ?_, fun _ _ => Iff.rfl⟩
    rw [hz, if_neg]
    rintro ⟨hid', _⟩
    rw [hid] at hid'
    cases hid'
  simp only [countInput_productId, hid] at h
  obtain ⟨q, hq, rfl⟩ := Catalog.productIdOf_eq_some hc hid
  obtain ⟨cardId, hcard⟩ := Option.isSome_iff_exists.mp (hc.card q hq)
  simp only [hc.cardIdOf_id hq, hcard, hw] at h
  have honly : ∀ p ∈ env.catalog.products, Counted env countedAt journal entry p → p = q := fun p hp hcount =>
    hc.eq_of_id hp hq (Option.some.inj (hcount.1.symm.trans hid))
  have hdelta : ∀ z : ℤ, ledgerQty journal warehouseId cardId = z →
      (countAdjustment env (countInput env countedAt entry) (ledgerQty journal warehouseId cardId)).qty = entry.2 - z := by
    intro z hz
    change round3 ((entry.2 : ℚ) - ledgerQty journal warehouseId cardId) = entry.2 - z
    rw [hz, ← Int.cast_sub, round3_intCast]
  split_ifs at h with hzero
  · cases h
    refine ⟨fun p hp z hz => ?_, fun _ _ => Iff.rfl⟩
    rw [hz]
    split_ifs with hcount
    · rw [honly p hp hcount, hcard, Option.getD_some] at hz
      rw [hdelta z hz, sub_eq_zero] at hzero
      exact hzero.symm
    · rfl
  · obtain ⟨⟨res', journal₁⟩, hmove, h⟩ := Js.map_eq_ok.mp h
    cases h
    have hexact : Exact (countAdjustment env (countInput env countedAt entry) (ledgerQty journal warehouseId cardId)) :=
      fun r hr => Stocktake.numeric_round3 hr
    refine ⟨fun p hp z hz => ?_, fun key hkey => ?_⟩
    · rw [ledgerQty_project hc hw hzero hexact hmove hp, hz]
      have hsame : Booked journal (countAdjustment env (countInput env countedAt entry)
          (ledgerQty journal warehouseId cardId)) p ↔ Counted env countedAt journal entry p := by
        rw [Booked, Counted, countAdjustment, countInput_productId]
      by_cases hcount : Counted env countedAt journal entry p
      · rw [if_pos (hsame.mpr hcount), if_pos hcount]
        rw [honly p hp hcount, hcard, Option.getD_some] at hz
        change (z : ℚ) + (countAdjustment env (countInput env countedAt entry) _).qty = entry.2
        rw [hdelta z hz]
        ring
      · rw [if_neg (fun hb => hcount (hsame.mp hb)), if_neg hcount, add_zero]
    · rcases projectVendingMovement_spec hc hw hzero hexact hmove with ⟨_, _, _, m, rfl, hm, _⟩ | ⟨rfl, _⟩
      · rw [findKey_append, hm]
        exact ⟨fun h => h.1, fun h => ⟨h, fun heq => hkey (Option.some.inj heq).symm⟩⟩
      · exact Iff.rfl

/-- A name that resolves to a product is that product's name. -/
def NamesItself (c : Catalog) (host : Js.Host) (name : String) : Prop :=
  ∀ id, c.productIdOf host name = some id → ∃ p ∈ c.products, p.name = name ∧ p.id = id

include hc hw in
/-- Every product that is counted has its ledger set to the count, where the movement is booked. -/
theorem countAll_spec {entries : List (String × ℤ)}
    (hnames : ∀ e ∈ entries, NamesItself env.catalog env.host e.1) (hnodup : (entries.map Prod.fst).Nodup) {n : ℕ}
    (h : countAll env countedAt n journal entries = .ok journal') {p : ProductRow} (hp : p ∈ env.catalog.products)
    {z : ℤ} (hz : ledgerQty journal warehouseId (p.entityId.getD "") = z) :
    ((∀ e ∈ entries, e.1 ≠ p.name) → ledgerQty journal' warehouseId (p.entityId.getD "") = z) ∧
      ∀ e ∈ entries, e.1 = p.name → ledgerQty journal' warehouseId (p.entityId.getD "") =
        if Counted env countedAt journal e p then (e.2 : ℚ) else z := by
  induction entries generalizing n journal z with
  | nil =>
    cases h
    exact ⟨fun _ => hz, List.forall_mem_nil _⟩
  | cons e rest ih =>
    obtain ⟨hname, hnames⟩ := List.forall_mem_cons.mp hnames
    rw [List.map_cons, List.nodup_cons] at hnodup
    obtain ⟨hnot, hnodup⟩ := hnodup
    unfold countAll at h
    simp only [Js.bind_eq_ok, Prod.exists] at h
    obtain ⟨res, journal₁, hfirst, h⟩ := h
    obtain ⟨hledger, hfree⟩ := projectVendingCount_spec hc hw hfirst
    have hrest : ∀ e' ∈ rest, e'.1 ≠ e.1 := fun e' he' heq => hnot (List.mem_map.mpr ⟨e', he', heq⟩)
    by_cases hen : e.1 = p.name
    · have hfirst : ledgerQty journal₁ warehouseId (p.entityId.getD "") =
          ((if Counted env countedAt journal e p then e.2 else z : ℤ) : ℚ) := by
        rw [hledger p hp z hz]
        split_ifs <;> rfl
      have hkeep := (ih hnames hnodup h hfirst).1 fun e' he' => hen ▸ hrest e' he'
      refine ⟨fun hall => absurd hen (hall e List.mem_cons_self), List.forall_mem_cons.mpr ⟨fun _ => ?_, fun e' he' hn => ?_⟩⟩
      · rw [hkeep]
        split_ifs <;> rfl
      · exact absurd (hn.trans hen.symm) (hrest e' he')
    · have hskip : ¬ Counted env countedAt journal e p := by
        rintro ⟨hid, _⟩
        obtain ⟨q, hq, hqn, hqid⟩ := hname p.id hid
        exact hen (hqn ▸ congrArg ProductRow.name (hc.eq_of_id hq hp hqid))
      have hfirst : ledgerQty journal₁ warehouseId (p.entityId.getD "") = z := by
        rw [hledger p hp z hz, if_neg hskip]
      obtain ⟨hnone, hsome⟩ := ih hnames hnodup h hfirst
      refine ⟨fun hall => hnone fun e' he' => hall e' (List.mem_cons_of_mem _ he'),
        List.forall_mem_cons.mpr ⟨fun hn => absurd hn hen, fun e' he' hn => ?_⟩⟩
      have hsame : Counted env countedAt journal₁ e' p ↔ Counted env countedAt journal e' p :=
        and_congr_right fun _ => hfree _ fun hkey => hrest e' he' (countInput_key_inj hkey)
      rw [hsome e' he' hn]
      simp only [hsame]

/-- Every product that is counted has its row set to the count. -/
theorem setAll_spec {stock stock' : List StockRow} {entries : List (String × ℤ)}
    (hnodup : (entries.map Prod.fst).Nodup) (h : setAll env countedAt stock entries = .ok stock') (name : String) :
    ((∀ e ∈ entries, e.1 ≠ name) → stockQty stock' name = stockQty stock name) ∧
      ∀ e ∈ entries, e.1 = name → stockQty stock' name = e.2 := by
  induction entries generalizing stock with
  | nil =>
    cases h
    exact ⟨fun _ => rfl, List.forall_mem_nil _⟩
  | cons e rest ih =>
    rw [List.map_cons, List.nodup_cons] at hnodup
    obtain ⟨hnot, hnodup⟩ := hnodup
    unfold setAll at h
    obtain ⟨stock₁, hs, h⟩ := Js.bind_eq_ok.mp h
    have hfirst : stockQty stock₁ name = if name = e.1 then e.2 else stockQty stock name := by
      unfold setStock at hs
      rw [stockQty_upsert hs]
      split_ifs
      · rcases findStock stock name with _ | r <;> rfl
      · rfl
    obtain ⟨hnone, hsome⟩ := ih hnodup h
    constructor
    · intro hall
      obtain ⟨hne, hall⟩ := List.forall_mem_cons.mp hall
      rw [hnone hall, hfirst, if_neg fun h => hne h.symm]
    · refine List.forall_mem_cons.mpr ⟨fun hn => ?_, hsome⟩
      rw [hnone fun e' he' hn' => hnot (List.mem_map.mpr ⟨e', he', hn'.trans hn.symm⟩), hfirst, if_pos hn.symm]

/-- What an inventory applies: the last quantity of each product that was not counted later. -/
def appliedCounts (env : VendingEnv) (db : Db) (payload : IngestStockPayload) : List (String × ℤ) :=
  (finalByProduct env payload.items).filter fun entry => !isLate db.stock (payload.countedAt.getD env.now) entry.1

include hc in
theorem namesItself_resolveProduct (raw : String) :
    NamesItself env.catalog env.host (env.catalog.resolveProduct env.host raw) := by
  intro id hid
  unfold Catalog.resolveProduct at hid ⊢
  split at hid
  · next canon id' hhit =>
    obtain ⟨p, hp, rfl, _⟩ := hc.of_hit hhit
    exact ⟨p, hp, rfl, (hc.productIdOf_name hp hid).symm⟩
  · next raw' byName byAlias hconflict =>
    obtain ⟨p, hp, rfl⟩ := Catalog.name_of_conflict hconflict
    exact ⟨p, hp, rfl, (hc.productIdOf_name hp hid).symm⟩
  · next raw' hmiss =>
    cases Catalog.raw_of_miss hmiss
    unfold Catalog.productIdOf at hid
    rw [hmiss] at hid
    cases hid

include hc in
theorem finalByProduct_spec (items : List StockItem) :
    (∀ e ∈ finalByProduct env items, NamesItself env.catalog env.host e.1) ∧
      ((finalByProduct env items).map Prod.fst).Nodup := by
  unfold finalByProduct
  suffices hfold : ∀ final : List (String × ℤ), (∀ e ∈ final, NamesItself env.catalog env.host e.1) →
      (final.map Prod.fst).Nodup →
      (∀ e ∈ items.foldl (fun final it =>
          if Js.trim it.product = "" then final
          else OrderedMap.alter (fun _ => it.quantity) (env.catalog.resolveProduct env.host (Js.trim it.product)) final)
          final, NamesItself env.catalog env.host e.1) ∧
        ((items.foldl (fun final it =>
          if Js.trim it.product = "" then final
          else OrderedMap.alter (fun _ => it.quantity) (env.catalog.resolveProduct env.host (Js.trim it.product)) final)
          final).map Prod.fst).Nodup from hfold [] (List.forall_mem_nil _) List.nodup_nil
  induction items with
  | nil => exact fun final hn hd => ⟨hn, hd⟩
  | cons it items ih =>
    intro final hn hd
    rw [List.foldl_cons]
    split_ifs with hblank
    · exact ih final hn hd
    · refine ih _ (fun e he => ?_) (OrderedMap.nodup_keys_alter _ _ hd)
      have hkey : e.1 ∈ OrderedMap.keys (OrderedMap.alter (fun _ => it.quantity)
          (env.catalog.resolveProduct env.host (Js.trim it.product)) final) := List.mem_map_of_mem he
      rw [OrderedMap.keys_alter] at hkey
      have hcases : e.1 ∈ OrderedMap.keys final ∨ e.1 = env.catalog.resolveProduct env.host (Js.trim it.product) := by
        split_ifs at hkey
        · exact .inl hkey
        · simpa using hkey
      rcases hcases with hold | hnew
      · obtain ⟨e', he', heq⟩ := List.mem_map.mp hold
        rw [← heq]
        exact hn e' he'
      · rw [hnew]
        exact namesItself_resolveProduct hc _

include hc hw in
/-- An inventory keeps the agreement exactly when every product whose quantity it changes gets its adjustment. -/
theorem ingestStock_agrees {db : Db} {payload : IngestStockPayload}
    {res : IngestStockResult} (hok : (ingestStock env db payload).1 = .ok res) (h : Agree env.catalog warehouseId db) :
    Agree env.catalog warehouseId (ingestStock env db payload).2 ↔
      ∀ e ∈ appliedCounts env db payload, ∀ p ∈ env.catalog.products, p.name = e.1 → e.2 ≠ stockQty db.stock e.1 →
        Counted env (payload.countedAt.getD env.now) db.journal e p := by
  unfold ingestStock at hok ⊢
  rcases hcount : countAll env (payload.countedAt.getD env.now) 0 db.journal (appliedCounts env db payload) with e | journal
  · simp only [appliedCounts] at hcount
    simp only [hcount] at hok
    cases hok
  rcases hset : setAll env (payload.countedAt.getD env.now) db.stock (appliedCounts env db payload) with e | stock
  · simp only [appliedCounts] at hcount hset
    simp only [hcount, hset] at hok
    cases hok
  obtain ⟨hnames, hnodup⟩ := finalByProduct_spec hc payload.items
  have hnames : ∀ e ∈ appliedCounts env db payload, NamesItself env.catalog env.host e.1 :=
    fun e he => hnames e (List.mem_of_mem_filter he)
  have hnodup : ((appliedCounts env db payload).map Prod.fst).Nodup := hnodup.sublist (List.filter_sublist.map _)
  have hcount' := hcount
  have hset' := hset
  simp only [appliedCounts] at hcount' hset'
  simp only [hcount', hset']
  unfold Agree
  constructor
  · intro h' e he p hp hname hne
    have hrow := (setAll_spec hnodup hset p.name).2 e he hname.symm
    have hledger := (countAll_spec hc hw hnames hnodup hcount hp (h p hp).symm).2 e he hname.symm
    have hp' := h' p hp
    rw [hrow, hledger] at hp'
    by_contra hnot
    rw [if_neg hnot, Int.cast_inj] at hp'
    exact hne (hname ▸ hp')
  · intro hgood p hp
    obtain ⟨hrow, hrow'⟩ := setAll_spec hnodup hset p.name
    obtain ⟨hledger, hledger'⟩ := countAll_spec hc hw hnames hnodup hcount hp (h p hp).symm
    by_cases hmem : ∃ e ∈ appliedCounts env db payload, e.1 = p.name
    · obtain ⟨e, he, hname⟩ := hmem
      rw [hrow' e he hname, hledger' e he hname]
      split_ifs with hcounted
      · rfl
      · by_contra hne
        refine hcounted (hgood e he p hp hname.symm fun heq => hne ?_)
        rw [heq, hname]
    · push Not at hmem
      rw [hrow hmem, hledger hmem]

end

end Mydon.Vending
