import Mydon.Vending.Bookings

/-! The stock rows and the ledger over runs of the four services that write both. -/

namespace Mydon.Vending

open Mydon.Lib Mydon.Stock

inductive Call
  | ingestStock (payload : IngestStockPayload)
  | receiveOrder (orderId : Option String) (receivedBy : String) (distributed : List (String × Option ℚ))
  | createRefill (input : CreateRefillInput)
  | cancel (kind : CancelKind) (id : String) (actor : CancelActor) (hours : ℤ)

structure Action where
  env : VendingEnv
  call : Call

def step (db : Db) (a : Action) : Db :=
  match a.call with
  | .ingestStock payload => (ingestStock a.env db payload).2
  | .receiveOrder orderId receivedBy distributed => (receiveOrder a.env db orderId receivedBy distributed).2
  | .createRefill input => (createRefill a.env db input).2
  | .cancel kind id actor hours => (cancel a.env db kind id actor hours).2

/-- A step over a fixed catalogue and fixed cards. -/
def Next (r : Registry) (db : Db) (a : Action) (db' : Db) : Prop := a.env.toRegistry = r ∧ db' = step db a

/-- The positions of the orders carry names of the catalogue. -/
def CatalogNames (c : Catalog) (db : Db) : Prop :=
  ∀ o ∈ db.orders, ∀ position ∈ o.positions.filterMap positionOf, ∃ p ∈ c.products, p.name = position.1

variable {env : VendingEnv} {warehouseId : String}

/-! The calls. -/

theorem deliveries_spec {positions : List (String × ℤ)} {d : Distribution} {e : String × ℤ}
    (he : e ∈ deliveries env d positions) : (∃ q, (e.1, q) ∈ positions) ∧ 0 < e.2 := by
  induction positions generalizing d with
  | nil => cases he
  | cons position rest ih =>
    unfold deliveries at he
    dsimp only at he
    split_ifs at he with hle
    · obtain ⟨⟨q, hq⟩, hpos⟩ := ih he
      exact ⟨⟨q, List.mem_cons_of_mem _ hq⟩, hpos⟩
    · rcases List.mem_cons.mp he with rfl | he
      · exact ⟨⟨position.2, List.mem_cons_self⟩, not_le.mp hle⟩
      · obtain ⟨⟨q, hq⟩, hpos⟩ := ih he
        exact ⟨⟨q, List.mem_cons_of_mem _ hq⟩, hpos⟩

theorem mem_of_findOrder {orders : List OrderRow} {orderId : Option String} {order : OrderRow}
    (h : findOrder orders orderId = some order) : order ∈ orders := by
  unfold findOrder at h
  split at h
  · exact List.mem_of_find?_eq_some h
  · exact List.mem_of_mem_filter (List.argmax_mem h)

/-- What an order brings to the warehouse. -/
def orderDeliveries (env : VendingEnv) (distributed : List (String × Option ℚ)) (order : OrderRow) :
    List (String × ℤ) := deliveries env (distributionOf env distributed) (order.positions.filterMap positionOf)

theorem receiveOrder_agrees (hc : env.catalog.OwnCards env.host)
    (hw : centralWarehouseId env.host env.cards = some warehouseId) {db : Db} {orderId : Option String}
    {receivedBy : String} {distributed : List (String × Option ℚ)} {res : ReceiveOrderResult}
    (hok : (receiveOrder env db orderId receivedBy distributed).1 = .ok res) (hnames : CatalogNames env.catalog db)
    (h : Agree env.catalog warehouseId db) :
    Agree env.catalog warehouseId (receiveOrder env db orderId receivedBy distributed).2 ↔
      ∀ order, findOrder db.orders orderId = some order → isOpen order = true →
        GoodDeliveries env order.id receivedBy db.journal (orderDeliveries env distributed order) := by
  unfold receiveOrder at hok ⊢
  rcases hfind : findOrder db.orders orderId with _ | order
  · exact iff_of_true h fun _ h => (nomatch h)
  have hopen : order.status = .received ∨ order.status = .cancelled → isOpen order = true → False := by
    rintro (hs | hs) hopen <;> simp [isOpen, hs] at hopen
  have hdelivered : (isOpen order = true) → ∀ stock journal,
      deliverAll env order.id receivedBy 0 (db.stock, db.journal) (orderDeliveries env distributed order) =
        .ok (stock, journal) → ((∀ p ∈ env.catalog.products,
          (stockQty stock p.name : ℚ) = ledgerQty journal warehouseId (p.entityId.getD "")) ↔
        ∀ o, some order = some o → isOpen o = true →
          GoodDeliveries env o.id receivedBy db.journal (orderDeliveries env distributed o)) := by
    intro hopen stock journal hdeliver
    have hproducts : ∀ d ∈ orderDeliveries env distributed order, ∃ p ∈ env.catalog.products, p.name = d.1 := by
      intro d hd
      obtain ⟨⟨q, hq⟩, _⟩ := deliveries_spec hd
      exact hnames order (mem_of_findOrder hfind) (d.1, q) hq
    obtain ⟨_, hiff⟩ := deliverAll_spec hc hw hproducts (fun d hd => (deliveries_spec hd).2) hdeliver
    have hzero := agree_iff_gap.mp h
    constructor
    · rintro h' o ⟨⟩ _
      refine hiff.mp fun p hp => ?_
      rw [hzero p hp, gap, h' p hp, sub_self]
    · intro hgood p hp
      have hgap := hiff.mpr (hgood order rfl hopen) p hp
      rw [hzero p hp] at hgap
      exact sub_eq_zero.mp hgap
  simp only [hfind] at hok
  rcases hstatus : order.status with _ | _ | _ | _
  · simp only [hstatus] at hok ⊢
    split at hok
    · cases hok
    · next stock journal hdeliver =>
      unfold orderDeliveries at hdelivered
      exact hdelivered (by simp [isOpen, hstatus]) stock journal hdeliver
  · simp only [hstatus] at hok ⊢
    split at hok
    · cases hok
    · next stock journal hdeliver =>
      unfold orderDeliveries at hdelivered
      exact hdelivered (by simp [isOpen, hstatus]) stock journal hdeliver
  · simp only [hstatus]
    refine iff_of_true h fun o ho hopen' => ?_
    cases ho
    exact (hopen (.inl hstatus) hopen').elim
  · simp only [hstatus]
    refine iff_of_true h fun o ho hopen' => ?_
    cases ho
    exact (hopen (.inr hstatus) hopen').elim

theorem createRefill_agrees (hc : env.catalog.OwnCards env.host)
    (hw : centralWarehouseId env.host env.cards = some warehouseId) {db : Db} {input : CreateRefillInput}
    {res : CreateRefillResult} (hok : (createRefill env db input).1 = .ok res) (h : Agree env.catalog warehouseId db) :
    Agree env.catalog warehouseId (createRefill env db input).2 ↔
      ∀ ref, env.catalog.resolveProductRef env.host input.productName = .ok ref →
        findRefillKey db.refills input.clientKey = none →
        Matched env.catalog db.journal ref.1 (refillMovement (refillRow env input ref)) ∧
          (input.source.getD "bot" = "storno" → ∀ p ∈ env.catalog.products, p.name ≠ ref.1) := by
  unfold createRefill at hok ⊢
  rcases href : env.catalog.resolveProductRef env.host input.productName with e | ref
  · exact iff_of_true h fun _ h => (nomatch h)
  rcases hkey : findRefillKey db.refills input.clientKey with _ | existing
  · simp only [href, hkey] at hok ⊢
    rcases htx : refillTx env db (refillRow env input ref) with e | db'
    · simp only [htx] at hok
      cases hok
    · refine (refillTx_agrees hc hw htx h).trans ?_
      simp only [Except.ok.injEq, forall_eq', forall_true_left]
      exact Iff.rfl
  · exact iff_of_true h fun _ _ h => (nomatch h)

/-- The refill that a cancellation reverses, where it is neither refused nor a repeat. -/
def reversed (env : VendingEnv) (db : Db) (id : String) (actor : CancelActor) (hours : ℤ) : Option RefillRow :=
  (db.refills.find? (·.id = id)).filter fun r =>
    r.source ≠ "storno" && (denied actor (r.createdBy = some actor.ref) r.createdAt env.now hours).isNone &&
      (findRefillKey db.refills ("storno:" ++ r.id)).isNone

theorem cancelRefill_agrees (hc : env.catalog.OwnCards env.host)
    (hw : centralWarehouseId env.host env.cards = some warehouseId) {db : Db} {id : String} {actor : CancelActor}
    {hours : ℤ} {res : CancelResult} (hok : (cancelRefill env db id actor hours).1 = .ok res)
    (h : Agree env.catalog warehouseId db) :
    Agree env.catalog warehouseId (cancelRefill env db id actor hours).2 ↔
      ∀ original, reversed env db id actor hours = some original →
        Matched env.catalog db.journal original.productName (stornoMovement original) := by
  unfold cancelRefill at hok ⊢
  unfold reversed
  rcases hfind : db.refills.find? (·.id = id) with _ | original
  · simp only [hfind]
    exact iff_of_true h fun _ h => (nomatch h)
  simp only [hfind, Option.filter_some] at hok ⊢
  by_cases hstorno : original.source = "storno"
  · simp only [hstorno, if_true]
    exact iff_of_true h fun _ h => by simp at h
  rcases hdenied : denied actor (original.createdBy = some actor.ref) original.createdAt env.now hours with _ | refused
  · rcases hkey : findRefillKey db.refills ("storno:" ++ original.id) with _ | existing
    · simp only [hstorno, if_false, hdenied, hkey] at hok ⊢
      rcases htx : stornoTx env db actor original with e | db'
      · simp only [htx] at hok
        cases hok
      · refine (stornoTx_agrees hc hw htx h).trans ?_
        simp [hstorno]
    · simp only [hstorno, if_false]
      exact iff_of_true h fun _ h => by simp at h
  · simp only [hstorno, if_false]
    exact iff_of_true h fun _ h => by simp at h

/-- The call is not answered with an error. -/
def Accepted (db : Db) (a : Action) : Prop :=
  match a.call with
  | .ingestStock payload => ∃ res, (ingestStock a.env db payload).1 = .ok res
  | .receiveOrder orderId receivedBy distributed => ∃ res, (receiveOrder a.env db orderId receivedBy distributed).1 = .ok res
  | .createRefill input => ∃ res, (createRefill a.env db input).1 = .ok res
  | .cancel kind id actor hours => ∃ res, (cancel a.env db kind id actor hours).1 = .ok res

/-- Every row that an accepted call changes gets its movement: the movement goes to the product of the
row's name, under a key that is free. -/
def WritesTwice (db : Db) (a : Action) : Prop :=
  Accepted db a →
    match a.call with
    | .ingestStock payload => ∀ e ∈ appliedCounts a.env db payload, ∀ p ∈ a.env.catalog.products, p.name = e.1 →
        e.2 ≠ stockQty db.stock e.1 → Counted a.env (payload.countedAt.getD a.env.now) db.journal e p
    | .receiveOrder orderId receivedBy distributed => ∀ order, findOrder db.orders orderId = some order →
        isOpen order = true →
          GoodDeliveries a.env order.id receivedBy db.journal (orderDeliveries a.env distributed order)
    | .createRefill input => ∀ ref, a.env.catalog.resolveProductRef a.env.host input.productName = .ok ref →
        findRefillKey db.refills input.clientKey = none →
          Matched a.env.catalog db.journal ref.1 (refillMovement (refillRow a.env input ref)) ∧
            (input.source.getD "bot" = "storno" → ∀ p ∈ a.env.catalog.products, p.name ≠ ref.1)
    | .cancel .refill id actor hours => ∀ original, reversed a.env db id actor hours = some original →
        Matched a.env.catalog db.journal original.productName (stornoMovement original)
    | .cancel .stockCount _ _ _ => True

/-! A refused call leaves the tables as they were. -/

theorem ingestStock_refused (env : VendingEnv) (db : Db) (payload : IngestStockPayload) :
    (∃ res, (ingestStock env db payload).1 = .ok res) ∨ (ingestStock env db payload).2 = db := by
  unfold ingestStock
  dsimp only
  split
  · exact .inr rfl
  · split
    · exact .inr rfl
    · exact .inl ⟨_, rfl⟩

theorem receiveOrder_refused (env : VendingEnv) (db : Db) (orderId : Option String) (receivedBy : String)
    (distributed : List (String × Option ℚ)) :
    (∃ res, (receiveOrder env db orderId receivedBy distributed).1 = .ok res) ∨
      (receiveOrder env db orderId receivedBy distributed).2 = db := by
  unfold receiveOrder
  dsimp only
  split
  · exact .inr rfl
  · split
    · exact .inr rfl
    · exact .inr rfl
    · split
      · exact .inr rfl
      · exact .inl ⟨_, rfl⟩

theorem createRefill_refused (env : VendingEnv) (db : Db) (input : CreateRefillInput) :
    (∃ res, (createRefill env db input).1 = .ok res) ∨ (createRefill env db input).2 = db := by
  unfold createRefill
  split
  · exact .inr rfl
  · split
    · exact .inr rfl
    · split
      · exact .inr rfl
      · exact .inl ⟨_, rfl⟩

theorem cancel_refused (env : VendingEnv) (db : Db) (kind : CancelKind) (id : String) (actor : CancelActor) (hours : ℤ) :
    (∃ res, (cancel env db kind id actor hours).1 = .ok res) ∨ (cancel env db kind id actor hours).2 = db := by
  unfold cancel cancelRefill cancelStockCount
  split
  · split
    · exact .inr rfl
    · split
      · exact .inr rfl
      · split
        · exact .inr rfl
        · split
          · exact .inr rfl
          · split
            · exact .inr rfl
            · exact .inl ⟨_, rfl⟩
  · split
    · exact .inr rfl
    · split
      · exact .inr rfl
      · split
        · exact .inr rfl
        · dsimp only
          split
          · exact .inr rfl
          · exact .inl ⟨_, rfl⟩

theorem step_refused {db : Db} {a : Action} (h : ¬ Accepted db a) : step db a = db := by
  obtain ⟨env, call⟩ := a
  rcases call with payload | ⟨orderId, receivedBy, distributed⟩ | input | ⟨kind, id, actor, hours⟩
  · exact (ingestStock_refused env db payload).resolve_left h
  · exact (receiveOrder_refused env db orderId receivedBy distributed).resolve_left h
  · exact (createRefill_refused env db input).resolve_left h
  · exact (cancel_refused env db kind id actor hours).resolve_left h

/-! The cancelled inventory keeps stock and journal, and no call touches the positions of an order. -/

theorem cancelStockCount_agrees (env : VendingEnv) (db : Db) (id : String) (actor : CancelActor) (hours : ℤ) :
    (cancelStockCount env db id actor hours).2.stock = db.stock ∧
      (cancelStockCount env db id actor hours).2.journal = db.journal := by
  unfold cancelStockCount
  split
  · exact ⟨rfl, rfl⟩
  · split
    · exact ⟨rfl, rfl⟩
    · split
      · exact ⟨rfl, rfl⟩
      · dsimp only
        split <;> exact ⟨rfl, rfl⟩

theorem step_agrees {r : Registry} {db : Db} {a : Action} (hc : r.catalog.OwnCards r.host)
    (hw : centralWarehouseId r.host r.cards = some warehouseId) (hr : a.env.toRegistry = r)
    (hnames : CatalogNames r.catalog db) (h : Agree r.catalog warehouseId db) :
    Agree r.catalog warehouseId (step db a) ↔ WritesTwice db a := by
  subst hr
  by_cases hok : Accepted db a
  swap
  · rw [step_refused hok]
    exact iff_of_true h fun hacc => absurd hacc hok
  obtain ⟨env, call⟩ := a
  unfold WritesTwice
  rcases call with payload | ⟨orderId, receivedBy, distributed⟩ | input | ⟨_ | _, id, actor, hours⟩
  · obtain ⟨res, hres⟩ := hok
    exact (ingestStock_agrees hc hw hres h).trans ⟨fun h _ => h, fun h => h ⟨res, hres⟩⟩
  · obtain ⟨res, hres⟩ := hok
    exact (receiveOrder_agrees hc hw hres hnames h).trans ⟨fun h _ => h, fun h => h ⟨res, hres⟩⟩
  · obtain ⟨res, hres⟩ := hok
    exact (createRefill_agrees hc hw hres h).trans ⟨fun h _ => h, fun h => h ⟨res, hres⟩⟩
  · obtain ⟨res, hres⟩ := hok
    exact (cancelRefill_agrees hc hw hres h).trans ⟨fun h _ => h, fun h => h ⟨res, hres⟩⟩
  · obtain ⟨hstock, hjournal⟩ := cancelStockCount_agrees env db id actor hours
    refine iff_of_true (fun p hp => ?_) fun _ => trivial
    change (stockQty (cancelStockCount env db id actor hours).2.stock p.name : ℚ) =
      ledgerQty (cancelStockCount env db id actor hours).2.journal warehouseId (p.entityId.getD "")
    rw [hstock, hjournal]
    exact h p hp

/-- The orders before and after a step have the same positions. -/
theorem step_positions (db : Db) (a : Action) :
    (step db a).orders.map (·.positions) = db.orders.map (·.positions) := by
  obtain ⟨env, call⟩ := a
  unfold step
  rcases call with payload | ⟨orderId, receivedBy, distributed⟩ | input | ⟨_ | _, id, actor, hours⟩
  · dsimp only
    unfold ingestStock
    dsimp only
    split
    · rfl
    · split <;> rfl
  · dsimp only
    unfold receiveOrder
    dsimp only
    split
    · rfl
    · split
      · rfl
      · rfl
      · split
        · rfl
        · rw [List.map_map]
          refine List.map_congr_left fun o _ => ?_
          simp only [Function.comp_apply]
          split_ifs <;> rfl
  · dsimp only
    unfold createRefill
    split
    · rfl
    · split
      · rfl
      · split
        · rfl
        · next db' htx =>
          unfold refillTx at htx
          simp only [Js.bind_eq_ok, Prod.exists] at htx
          obtain ⟨_, _, _, _, _, _, _, htx⟩ := htx
          cases htx
          rfl
  · dsimp only [cancel]
    unfold cancelRefill
    split
    · rfl
    · split
      · rfl
      · split
        · rfl
        · split
          · rfl
          · split
            · rfl
            · next db' htx =>
              unfold stornoTx at htx
              simp only [Js.bind_eq_ok, Prod.exists] at htx
              obtain ⟨_, _, _, _, _, _, _, htx⟩ := htx
              cases htx
              rfl
  · dsimp only [cancel]
    unfold cancelStockCount
    split
    · rfl
    · split
      · rfl
      · split
        · rfl
        · dsimp only
          split <;> rfl

theorem step_catalogNames {c : Catalog} {db : Db} {a : Action} (h : CatalogNames c db) : CatalogNames c (step db a) := by
  intro o ho
  have hmem : o.positions ∈ (step db a).orders.map (·.positions) := List.mem_map_of_mem ho
  rw [step_positions] at hmem
  obtain ⟨o', ho', hpositions⟩ := List.mem_map.mp hmem
  rw [← hpositions]
  exact h o' ho'

/-- Rows and ledger agree after every step of a run exactly when each of its steps writes twice. -/
theorem stock_agrees_iff {r : Registry} {steps : List (Step Db Action)} {db db' : Db}
    (hc : r.catalog.OwnCards r.host) (hw : centralWarehouseId r.host r.cards = some warehouseId)
    (hnames : CatalogNames r.catalog db) (h : Agree r.catalog warehouseId db) (hrun : Run (Next r) db steps db') :
    (∀ e ∈ steps, Agree r.catalog warehouseId e.after) ↔ ∀ e ∈ steps, WritesTwice e.before e.action := by
  refine hrun.forall_after_iff (P := Agree r.catalog warehouseId) (C := fun e => WritesTwice e.before e.action)
    (?_ : ∀ db a db', CatalogNames r.catalog db → _ → _) ?_ hnames h
  · rintro db a _ hn ⟨_, rfl⟩
    exact step_catalogNames hn
  · rintro db a _ hn ha ⟨hr, rfl⟩
    exact step_agrees hc hw hr hn ha

/-! One product, one warehouse, and an order of two positions of the product. -/

def sampleHost : Js.Host where
  toLowerCase := id
  number := fun _ => none
  numberText := fun q => toString q.num
  toFixed12 := fun q => toString q.num ++ ".000000000000"
  localeCompare := fun a b => if a = b then 0 else if Js.before a b then -1 else 1
  sha256 := id

def sampleRegistry : Registry where
  host := sampleHost
  catalog := ⟨[⟨"p", "cola", some 5000, some "card"⟩], []⟩
  cards := [⟨"central", "warehouse", "central", []⟩, ⟨"card", "product", "cola", [("вид", .str "перепродажа")]⟩]

def sampleEnv : VendingEnv where
  toRegistry := sampleRegistry
  persons := []
  now := 1788300000123
  actor := "owner"
  ledgerSource := false
  ids := fun n => String.ofList (List.replicate (n + 1) 'm')

def sampleDb : Db where
  stock := []
  counts := []
  refills := []
  orders := [⟨"order", .approved, [⟨some "cola", some 5, none⟩, ⟨some "cola", some 3, none⟩], 0, none, none, none, none⟩]
  journal := []

def sampleReceive : Action := ⟨sampleEnv, .receiveOrder none "owner" []⟩

theorem sampleRegistry_ownCards : sampleRegistry.catalog.OwnCards sampleRegistry.host where
  ids := List.nodup_singleton _
  names := List.nodup_singleton _
  cards := List.nodup_singleton _
  card := List.forall_mem_singleton.mpr rfl

theorem sampleDb_catalogNames : CatalogNames sampleRegistry.catalog sampleDb := by
  unfold CatalogNames
  decide +kernel

theorem sampleDb_agree : Agree sampleRegistry.catalog "central" sampleDb := by
  unfold Agree
  decide +kernel

theorem stock_agrees_sample :
    (∀ e ∈ [(⟨sampleDb, sampleReceive, step sampleDb sampleReceive⟩ : Step Db Action)],
        Agree sampleRegistry.catalog "central" e.after) ↔
      ∀ e ∈ [(⟨sampleDb, sampleReceive, step sampleDb sampleReceive⟩ : Step Db Action)], WritesTwice e.before e.action :=
  stock_agrees_iff sampleRegistry_ownCards (by decide +kernel) sampleDb_catalogNames sampleDb_agree
    (Run.step Run.start ⟨rfl, rfl⟩)

/-- The row gets both positions of the product, the ledger only the first. -/
theorem second_position_is_lost :
    Agree sampleRegistry.catalog "central" sampleDb ∧ CatalogNames sampleRegistry.catalog sampleDb ∧
      ¬ Agree sampleRegistry.catalog "central" (step sampleDb sampleReceive) := by
  refine ⟨sampleDb_agree, sampleDb_catalogNames, ?_⟩
  unfold Agree
  decide +kernel

end Mydon.Vending
