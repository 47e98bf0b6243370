import Mydon.Lib.Tally
import Mydon.Vending.DoubleWrite

/-! An order is received: what is not handed out comes to the warehouse, and every position goes into the
journal of purchases with its money. -/

namespace Mydon.Vending.OrderReceipt

open Mydon.Lib Mydon.Stock

def maxPositionPrice : ℚ := 10000000

/-- What a position says of its price: garbage and zero are no price. -/
def unitPriceOf (p : Position) : Option ℚ := p.price.filter fun price => 0 < price ∧ price ≤ maxPositionPrice

/-- A position that is received. -/
structure OrderLine where
  product : String
  qty : ℤ
  price : Option ℚ
  deriving DecidableEq

def lineOf (p : Position) : Option OrderLine := (positionOf p).map fun (product, qty) => ⟨product, qty, unitPriceOf p⟩

/-- A row of `purchase`. -/
structure PurchaseRow where
  extId : String
  dt : String
  product : String
  unit : String
  qty : ℚ
  unitPrice : Option ℚ
  total : Option ℚ
  note : String
  source : String
  deriving DecidableEq

structure PriceObservation where
  product : String
  price : ℚ
  oldPrice : Option ℚ
  orderId : String
  receivedAt : String
  deriving DecidableEq

structure Receipt where
  result : ReceiveOrderResult
  recordedPurchases : ℕ
  observed : List PriceObservation
  deriving DecidableEq

def lineKey (host : Js.Host) (line : OrderLine) : String := normalizeProductName host line.product

def purchaseOf (env : VendingEnv) (orderId receivedBy : String) (line : OrderLine) : PurchaseRow where
  extId := orderId ++ ":" ++ lineKey env.host line
  dt := Clock.dayText (Clock.tashkentDay env.now)
  product := line.product
  unit := "шт"
  qty := line.qty
  unitPrice := line.price.map toFixed2
  total := line.price.map fun price => toFixed2 (line.qty * price)
  note := let short := Js.take 8 orderId; s!"накладная {short}, принял {receivedBy}"
  source := "vending-order"

/-- A later position of a product goes into the row of the first one, at the price of the first one. -/
def mergeTwin (twin row : PurchaseRow) : PurchaseRow :=
  { twin with
    qty := twin.qty + row.qty
    total := match twin.unitPrice with
      | some unitPrice => some (toFixed2 ((twin.qty + row.qty) * unitPrice))
      | none => twin.total }

/-- The rows of the journal, nothing while the mirror brings the same purchases. -/
def purchaseRows (env : VendingEnv) (mirrorAlive : Bool) (orderId receivedBy : String) (lines : List OrderLine) :
    List PurchaseRow :=
  if mirrorAlive then []
  else (mergeByKey (·.extId) mergeTwin
    ((lines.filter (·.qty ≤ 1000000)).map (purchaseOf env orderId receivedBy))).map Prod.snd

/-- The columns of the journal. -/
def storedPurchase (row : PurchaseRow) : Except Js.HttpError PurchaseRow := do
  let qty ← numeric 12 2 row.qty
  let unitPrice ← row.unitPrice.mapM (numeric 15 2)
  let total ← row.total.mapM (numeric 15 2)
  return { row with qty, unitPrice, total }

/-- `on conflict (source, ext_id) do nothing`. -/
def insertPurchase (purchases : List PurchaseRow) (row : PurchaseRow) : List PurchaseRow :=
  if purchases.any fun p => p.source = row.source && p.extId = row.extId then purchases else purchases ++ [row]

/-- The purchase price of the card, by the key of its name. -/
def cardPrice (env : VendingEnv) (key : String) : Option ℚ :=
  (env.catalog.products.reverse.find? fun p =>
    normalizeProductName env.host p.name = key && p.purchasePrice.isSome).bind (·.purchasePrice)

def observationOf (env : VendingEnv) (orderId : String) (line : OrderLine) : Option PriceObservation :=
  line.price.map fun price =>
    let canon := env.catalog.resolveProduct env.host line.product
    ⟨canon, price, cardPrice env (normalizeProductName env.host canon), orderId, Clock.isoText env.now⟩

structure Receiving where
  db : Db
  purchases : List PurchaseRow

def pairOf (line : OrderLine) : String × ℤ := (line.product, line.qty)

/-- The requested names that no position has. -/
def unmatchedOf (host : Js.Host) (d : Distribution) (lines : List OrderLine) : List String :=
  (d.filter fun entry => entry.1 ∉ lines.map (lineKey host)).map fun entry => entry.2.2

/-- The transaction of a receipt, after its order has left the open ones. -/
def receiptTx (env : VendingEnv) (mirrorAlive : Bool) (s : Receiving) (order : OrderRow) (receivedBy : String)
    (d : Distribution) : Except Js.HttpError (Receipt × Receiving) := do
  let lines := order.positions.filterMap lineOf
  let delivered := deliveries env d (lines.map pairOf)
  let (stock, journal) ← deliverAll env order.id receivedBy 0 (s.db.stock, s.db.journal) delivered
  let rows := purchaseRows env mirrorAlive order.id receivedBy lines
  let stored ← rows.mapM storedPurchase
  let distributedUnits ← int4 (distributedTotal env d (lines.map pairOf))
  let unmatched := unmatchedOf env.host d lines
  let orders := s.db.orders.map fun o =>
    if o.id = order.id then
      { o with
        status := .received
        receivedAt := some env.now
        receivedBy := some receivedBy
        distributedUnits := some distributedUnits
        unmatchedDistribution := some unmatched }
    else o
  return (⟨⟨true, some order.id, delivered.length, (delivered.map Prod.snd).sum, distributedUnits, unmatched, none⟩,
      rows.length, lines.filterMap (observationOf env order.id)⟩,
    ⟨{ s.db with stock, journal, orders }, stored.foldl insertPurchase s.purchases⟩)

/-! Calls at once: each reads its order first, and takes it later only where it is still open. -/

structure ReceiveCall where
  env : VendingEnv
  orderId : String
  receivedBy : String
  distributed : List (String × Option ℚ)

structure World extends Receiving where
  pending : List ReceiveCall

inductive Action
  | read (env : VendingEnv) (orderId : Option String) (receivedBy : String) (distributed : List (String × Option ℚ))
  /-- The n-th of the calls that have read goes on. -/
  | receive (n : ℕ) (mirrorAlive : Bool) (now : ℤ) (ids : ℕ → String)

def readOrder (orders : List OrderRow) (orderId : Option String) : Except ReceiveOrderResult OrderRow :=
  match findOrder orders orderId with
  | none => .error (notReceived "Непринятых накладных нет.")
  | some order =>
    match order.status with
    | .received => .error (notReceived "Эта накладная уже принята.")
    | .cancelled => .error (notReceived "Эта накладная отменена — приёмка невозможна.")
    | _ => .ok order

/-- The order that the conditional update takes. -/
def takeOrder (orders : List OrderRow) (orderId : String) : Option OrderRow :=
  orders.find? fun o => o.id = orderId && isOpen o

def receive (call : ReceiveCall) (mirrorAlive : Bool) (s : Receiving) : Except Js.HttpError (Receipt × Receiving) :=
  match takeOrder s.db.orders call.orderId with
  | none => .ok (⟨notReceived "Эта накладная уже принята.", 0, []⟩, s)
  | some order => receiptTx call.env mirrorAlive s order call.receivedBy (distributionOf call.env call.distributed)

/-- A call with the clock and the ids of its transaction. -/
def ReceiveCall.at_ (call : ReceiveCall) (now : ℤ) (ids : ℕ → String) : ReceiveCall :=
  { call with env := { call.env with now, ids } }

def step (w : World) : Action → World
  | .read env orderId receivedBy distributed =>
    match readOrder w.db.orders orderId with
    | .error _ => w
    | .ok order => { w with pending := w.pending ++ [⟨env, order.id, receivedBy, distributed⟩] }
  | .receive n mirrorAlive now ids =>
    match w.pending[n]? with
    | none => w
    | some call =>
      match receive (call.at_ now ids) mirrorAlive w.toReceiving with
      | .error _ => { w with pending := w.pending.eraseIdx n }
      | .ok (_, s) => ⟨s, w.pending.eraseIdx n⟩

/-! What was handed out. -/

variable {env : VendingEnv} {d : Distribution} {orderId receivedBy : String} {mirrorAlive : Bool} {order : OrderRow}
  {receipt : Receipt} {lines : List OrderLine}

/-- An entry of the distribution that counts: its key, its number and its name. -/
def requestOf (env : VendingEnv) (entry : String × Option ℚ) : Option (String × ℤ × String) :=
  let name := Js.trim entry.1
  match entry.2.filter fun qty => qty.isInt && 0 ≤ qty with
  | none => none
  | some qty =>
    if name = "" then none
    else
      let canon := env.catalog.resolveProduct env.host name
      some (normalizeProductName env.host canon, qty.num, canon)

/-- What was requested of a product. -/
def requested (env : VendingEnv) (distributed : List (String × Option ℚ)) (key : String) : ℤ :=
  (((distributed.filterMap (requestOf env)).filter (·.1 = key)).map (·.2.1)).sum

theorem distributionOf_eq (env : VendingEnv) (distributed : List (String × Option ℚ)) :
    distributionOf env distributed =
      tally (fun r => r.1) (fun _ => ((0 : ℤ), "")) (fun own r => (own.1 + r.2.1, r.2.2))
        (distributed.filterMap (requestOf env)) := by
  unfold distributionOf tally
  rw [List.foldl_filterMap]
  congr 1
  funext d entry
  unfold requestOf
  rcases hqty : entry.2.filter fun qty => qty.isInt && 0 ≤ qty with _ | qty
  · simp only [hqty]
  · simp only [hqty]
    by_cases hname : Js.trim entry.1 = ""
    · rw [if_pos hname, if_pos hname]
    · rw [if_neg hname, if_neg hname]
      dsimp only
      congr 1
      funext own
      cases own <;> rfl

/-- The key of a request is the key of its name, and its number is no debt. -/
theorem requestOf_spec {entry : String × Option ℚ} {r : String × ℤ × String} (h : requestOf env entry = some r) :
    r.1 = normalizeProductName env.host r.2.2 ∧ 0 ≤ r.2.1 := by
  unfold requestOf at h
  rcases hfilter : entry.2.filter fun qty => qty.isInt && 0 ≤ qty with _ | qty
  · rw [hfilter] at h
    exact nomatch h
  · rw [hfilter] at h
    dsimp only at h
    split_ifs at h
    have hqty := (Option.filter_eq_some_iff.mp hfilter).2
    rw [Bool.and_eq_true, decide_eq_true_eq] at hqty
    rw [← Option.some.inj h]
    refine ⟨?_, Rat.num_nonneg.mpr hqty.2⟩
    dsimp only

/-- What remains to be handed out of a product. -/
def open_ (d : Distribution) (key : String) : ℤ := ((OrderedMap.get d key).map Prod.fst).getD 0

theorem foldl_requests (rs : List (String × ℤ × String)) (own : ℤ × String) :
    (rs.foldl (fun own r => (own.1 + r.2.1, r.2.2)) own).1 = own.1 + (rs.map (·.2.1)).sum := by
  induction rs generalizing own with
  | nil => simp
  | cons r rs ih => rw [List.foldl_cons, ih, List.map_cons, List.sum_cons, add_assoc]

theorem open_distributionOf (env : VendingEnv) (distributed : List (String × Option ℚ)) (key : String) :
    open_ (distributionOf env distributed) key = requested env distributed key := by
  unfold open_ requested
  rw [distributionOf_eq, get_tally]
  split_ifs with hkey
  · rw [Option.map_some, Option.getD_some, foldl_requests, zero_add]
  · have hnone : (distributed.filterMap (requestOf env)).filter (·.1 = key) = [] := by
      rw [List.filter_eq_nil_iff]
      intro r hr heq
      exact hkey (List.mem_map.mpr ⟨r, hr, of_decide_eq_true heq⟩)
    rw [hnone]
    rfl

theorem requested_nonneg (env : VendingEnv) (distributed : List (String × Option ℚ)) (key : String) :
    0 ≤ requested env distributed key := by
  unfold requested
  refine List.sum_nonneg fun n hn => ?_
  obtain ⟨r, hr, rfl⟩ := List.mem_map.mp hn
  obtain ⟨entry, -, hentry⟩ := List.mem_filterMap.mp (List.mem_of_mem_filter hr)
  exact (requestOf_spec hentry).2

/-- What each position hands out, under its key. -/
def consumed (env : VendingEnv) : Distribution → List (String × ℤ) → List (String × ℤ)
  | _, [] => []
  | d, position :: rest =>
    let (_, dist, d) := distributeTo env d position
    (normalizeProductName env.host position.1, dist) :: consumed env d rest

theorem distributedTotal_eq (d : Distribution) (positions : List (String × ℤ)) :
    distributedTotal env d positions = ((consumed env d positions).map Prod.snd).sum := by
  induction positions generalizing d with
  | nil => rfl
  | cons position rest ih =>
    unfold distributedTotal consumed
    dsimp only
    rw [ih, List.map_cons, List.sum_cons]

/-- One position takes what it can of what is still to be handed out. -/
theorem distributeTo_spec (hd : ∀ key, 0 ≤ open_ d key) {position : String × ℤ} (hq : 0 ≤ position.2) :
    (distributeTo env d position).1 + (distributeTo env d position).2.1 = position.2 ∧
      (distributeTo env d position).2.1 = min position.2 (open_ d (normalizeProductName env.host position.1)) ∧
      ∀ key, open_ (distributeTo env d position).2.2 key =
        if key = normalizeProductName env.host position.1 then open_ d key - (distributeTo env d position).2.1
        else open_ d key := by
  have hopen := hd (normalizeProductName env.host position.1)
  unfold distributeTo
  dsimp only
  rcases hget : OrderedMap.get d (normalizeProductName env.host position.1) with _ | ⟨r, shown⟩
  · have hzero : open_ d (normalizeProductName env.host position.1) = 0 := by
      unfold open_
      rw [hget]
      rfl
    dsimp only
    refine ⟨add_zero _, by rw [hzero]; omega, fun key => ?_⟩
    split_ifs <;> omega
  · have hr : open_ d (normalizeProductName env.host position.1) = r := by
      unfold open_
      rw [hget]
      rfl
    rw [hr] at hopen ⊢
    dsimp only
    refine ⟨by omega, by omega, fun key => ?_⟩
    by_cases hkey : key = normalizeProductName env.host position.1
    · rw [if_pos hkey, hkey, hr]
      unfold open_
      rw [OrderedMap.get_alter_self]
      dsimp only [Option.map_some, Option.getD_some]
      omega
    · rw [if_neg hkey]
      unfold open_
      rw [OrderedMap.get_alter_of_ne _ _ (Ne.symm hkey)]

theorem distributeTo_nonneg (hd : ∀ key, 0 ≤ open_ d key) {position : String × ℤ}
    (hq : 0 ≤ position.2) (key : String) : 0 ≤ open_ (distributeTo env d position).2.2 key := by
  obtain ⟨-, hdist, hopen⟩ := @distributeTo_spec env d hd position hq
  have hkey := hd key
  rw [hopen key]
  split_ifs with h
  · subst h
    omega
  · exact hkey

/-- Of each product as much is handed out as was requested and ordered. -/
theorem consumed_eq_min {positions : List (String × ℤ)} (hd : ∀ key, 0 ≤ open_ d key)
    (hq : ∀ position ∈ positions, 0 ≤ position.2) (key : String) :
    (((consumed env d positions).filter (·.1 = key)).map Prod.snd).sum =
      min (open_ d key)
        ((positions.filter fun position => normalizeProductName env.host position.1 = key).map Prod.snd).sum := by
  induction positions generalizing d with
  | nil =>
    have hkey := hd key
    simp only [consumed, List.filter_nil, List.map_nil, List.sum_nil]
    omega
  | cons position rest ih =>
    obtain ⟨hfirst, hrest⟩ := List.forall_mem_cons.mp hq
    obtain ⟨-, hdist, hopen⟩ := @distributeTo_spec env d hd position hfirst
    have hih := ih (@distributeTo_nonneg env d hd position hfirst) hrest
    have hsum : 0 ≤ ((rest.filter fun position => normalizeProductName env.host position.1 = key).map Prod.snd).sum := by
      refine List.sum_nonneg fun n hn => ?_
      obtain ⟨position, hp, rfl⟩ := List.mem_map.mp hn
      exact hrest position (List.mem_of_mem_filter hp)
    have hkey := hd key
    unfold consumed
    by_cases h : normalizeProductName env.host position.1 = key
    · simp only [List.filter_cons, h, decide_true, if_true, List.map_cons, List.sum_cons]
      rw [hih, hopen, if_pos h.symm, hdist, h]
      omega
    · simp only [List.filter_cons, h, decide_false, Bool.false_eq_true, if_false]
      rw [hih, hopen, if_neg (Ne.symm h)]

/-- Nothing of an order is lost between the warehouse and the machines. -/
theorem deliveries_sum {positions : List (String × ℤ)} (hd : ∀ key, 0 ≤ open_ d key)
    (hq : ∀ position ∈ positions, 0 ≤ position.2) :
    ((deliveries env d positions).map Prod.snd).sum + distributedTotal env d positions = (positions.map Prod.snd).sum := by
  induction positions generalizing d with
  | nil => rfl
  | cons position rest ih =>
    obtain ⟨hfirst, hrest⟩ := List.forall_mem_cons.mp hq
    obtain ⟨hboth, hdist, -⟩ := @distributeTo_spec env d hd position hfirst
    have hih := ih (@distributeTo_nonneg env d hd position hfirst) hrest
    unfold deliveries distributedTotal
    dsimp only
    rw [List.map_cons, List.sum_cons]
    split_ifs with hle
    · have hnone : (distributeTo env d position).1 = 0 := by omega
      rw [← hih, ← hboth, hnone, zero_add]
      exact add_left_comm _ _ _
    · rw [List.map_cons, List.sum_cons, ← hih, ← hboth]
      exact add_add_add_comm _ _ _ _

/-! The stock. -/

theorem sum_replace {stock : List StockRow} (hnd : (stock.map (·.productName)).Nodup) {name : String} {old : StockRow}
    (hold : findStock stock name = some old) {f : StockRow → StockRow} {q : ℤ} (hf : ∀ r, (f r).quantity = q) :
    ((stock.map fun r => if r.productName = name then f r else r).map (·.quantity)).sum =
      (stock.map (·.quantity)).sum + (q - old.quantity) := by
  induction stock with
  | nil => cases hold
  | cons r stock ih =>
    rw [List.map_cons, List.nodup_cons] at hnd
    unfold findStock at hold ih
    simp only [List.map_cons, List.sum_cons]
    by_cases hr : r.productName = name
    · simp only [List.find?_cons, hr, decide_true, Option.some.injEq] at hold
      subst hold
      have hrest : stock.map (fun s => if s.productName = name then f s else s) = stock := by
        refine (List.map_congr_left fun s hs => if_neg fun hname => hnd.1 ?_).trans (List.map_id _)
        rw [hr, ← hname]
        exact List.mem_map_of_mem hs
      rw [hrest, if_pos hr, hf]
      omega
    · simp only [List.find?_cons, hr, decide_false] at hold
      rw [ih hnd.2 hold, if_neg hr, add_assoc]

/-- The stock grows by what is added, and a name keeps its one row. -/
theorem upsertStock_total {stock stock' : List StockRow} {row : StockRow} {quantity : ℤ → ℤ}
    {merge : StockRow → StockRow} (hnd : (stock.map (·.productName)).Nodup)
    (h : upsertStock stock row quantity merge = .ok stock') (hq : ∀ n, quantity n = n + row.quantity) :
    (stock'.map (·.quantity)).sum = (stock.map (·.quantity)).sum + row.quantity ∧
      (stock'.map (·.productName)).Nodup := by
  unfold upsertStock at h
  obtain ⟨_, _, h⟩ := Js.bind_eq_ok.mp h
  rcases hfind : findStock stock row.productName with _ | old
  · simp only [hfind] at h
    cases h
    rw [List.map_append, List.sum_append, List.map_singleton, List.sum_singleton]
    refine ⟨rfl, ?_⟩
    rw [List.map_append, List.map_singleton, ← List.concat_eq_append]
    refine hnd.concat fun hmem => ?_
    obtain ⟨r, hr, hname⟩ := List.mem_map.mp hmem
    exact List.find?_eq_none.mp hfind r hr (decide_eq_true hname)
  · simp only [hfind, Js.bind_eq_ok] at h
    obtain ⟨q, hint, h⟩ := h
    cases h
    cases int4_eq_ok hint
    refine ⟨?_, ?_⟩
    · rw [@sum_replace stock hnd row.productName old hfind _ (quantity old.quantity) fun _ => rfl, hq]
      omega
    · rw [List.map_map]
      refine (List.map_congr_left fun r _ => ?_ : _ = stock.map (·.productName)) ▸ hnd
      simp only [Function.comp_apply]
      split_ifs with hname
      · exact hname.symm
      · rfl

theorem deliverAll_total {n : ℕ} {s s' : List StockRow × List StockMovementRow}
    {delivered : List (String × ℤ)} (hnd : (s.1.map (·.productName)).Nodup)
    (h : deliverAll env orderId receivedBy n s delivered = .ok s') :
    (s'.1.map (·.quantity)).sum = (s.1.map (·.quantity)).sum + (delivered.map Prod.snd).sum ∧
      (s'.1.map (·.productName)).Nodup := by
  induction delivered generalizing n s with
  | nil =>
    obtain ⟨stock, journal⟩ := s
    cases h
    exact ⟨(add_zero _).symm, hnd⟩
  | cons delivery rest ih =>
    obtain ⟨stock, journal⟩ := s
    unfold deliverAll at h
    simp only [Js.bind_eq_ok] at h
    obtain ⟨stock', hadd, ⟨_, journal'⟩, -, h⟩ := h
    obtain ⟨htotal, hnd'⟩ := upsertStock_total hnd hadd fun _ => rfl
    obtain ⟨hrest, hnames⟩ := ih (s := (stock', journal')) hnd' h
    refine ⟨?_, hnames⟩
    rw [hrest, htotal, List.map_cons, List.sum_cons, add_assoc]

/-! The names that no position has. -/

def requestKeys (env : VendingEnv) (distributed : List (String × Option ℚ)) : List String :=
  OrderedMap.keySet ((distributed.filterMap (requestOf env)).map fun r => r.1)

theorem shown_foldl (rs : List (String × ℤ × String)) (own : ℤ × String) :
    (rs.foldl (fun own r => (own.1 + r.2.1, r.2.2)) own).2 = own.2 ∧ rs = [] ∨
      ∃ r ∈ rs, (rs.foldl (fun own r => (own.1 + r.2.1, r.2.2)) own).2 = r.2.2 := by
  induction rs generalizing own with
  | nil => exact .inl ⟨rfl, rfl⟩
  | cons r rs ih =>
    rw [List.foldl_cons]
    rcases ih (own.1 + r.2.1, r.2.2) with ⟨hsame, -⟩ | ⟨r', hr', hshown⟩
    · exact .inr ⟨r, List.mem_cons_self, hsame⟩
    · exact .inr ⟨r', List.mem_cons_of_mem _ hr', hshown⟩

theorem shown_of_mem {distributed : List (String × Option ℚ)} {entry : String × ℤ × String}
    (h : entry ∈ distributionOf env distributed) :
    ∃ r ∈ distributed.filterMap (requestOf env), r.1 = entry.1 ∧ r.2.2 = entry.2.2 := by
  rw [distributionOf_eq, tally_eq, List.mem_map] at h
  obtain ⟨key, hkey, rfl⟩ := h
  rcases shown_foldl ((distributed.filterMap (requestOf env)).filter fun r => r.1 = key) (0, "") with
    ⟨-, hnil⟩ | ⟨r, hr, hshown⟩
  · obtain ⟨r, hr, hrkey⟩ := List.mem_map.mp (mem_keySet.mp hkey)
    have hmem : r ∈ (distributed.filterMap (requestOf env)).filter fun r => r.1 = key :=
      List.mem_filter.mpr ⟨hr, decide_eq_true hrkey⟩
    rw [hnil] at hmem
    cases hmem
  · obtain ⟨hin, hrkey⟩ := List.mem_filter.mp hr
    exact ⟨r, hin, of_decide_eq_true hrkey, hshown.symm⟩

/-- The names that are shown are those of the requests without a position, each once. -/
theorem unmatched_keys (env : VendingEnv) (distributed : List (String × Option ℚ)) (lines : List OrderLine) :
    (unmatchedOf env.host (distributionOf env distributed) lines).map (normalizeProductName env.host) =
      (requestKeys env distributed).filter fun key => key ∉ lines.map (lineKey env.host) := by
  have hkeys : (distributionOf env distributed).map Prod.fst = requestKeys env distributed := by
    rw [distributionOf_eq]
    exact keys_tally _
  unfold unmatchedOf
  rw [← hkeys, List.map_map, List.filter_map]
  refine List.map_congr_left fun entry hentry => ?_
  obtain ⟨r, hr, hkey, hshown⟩ := shown_of_mem (List.mem_of_mem_filter hentry)
  obtain ⟨e, -, he⟩ := List.mem_filterMap.mp hr
  rw [Function.comp_apply, ← hshown, ← (requestOf_spec he).1, hkey]

/-! The money. -/

/-- What the positions cost; a position without a price costs nothing that is known. -/
def paidMoney (lines : List OrderLine) : ℚ := (lines.map fun line => (line.qty : ℚ) * line.price.getD 0).sum

def quantityOf (lines : List OrderLine) : ℚ := (lines.map fun line => (line.qty : ℚ)).sum

/-- The total of the row that the positions of one product become. -/
def totalOf : List OrderLine → Option ℚ
  | [] => none
  | [line] => line.price.map fun price => toFixed2 (line.qty * price)
  | first :: rest => first.price.map fun price => toFixed2 (quantityOf (first :: rest) * toFixed2 price)

/-- What the later positions of a product gain or lose at the price of the first one. -/
def repriced : List OrderLine → ℚ
  | [] => 0
  | first :: rest => (rest.map fun line => (line.qty : ℚ) * (first.price.getD 0 - line.price.getD 0)).sum

/-- What rounding to hundredths adds to the quantity at the price of the first position. -/
def rounded : List OrderLine → ℚ
  | [] => 0
  | first :: rest => (totalOf (first :: rest)).getD 0 - quantityOf (first :: rest) * first.price.getD 0

theorem totalOf_eq (lines : List OrderLine) : (totalOf lines).getD 0 = paidMoney lines + (repriced lines + rounded lines) := by
  cases lines with
  | nil => simp [totalOf, paidMoney, repriced, rounded]
  | cons first rest =>
    have hrest : repriced (first :: rest) = quantityOf rest * first.price.getD 0 - paidMoney rest := by
      unfold repriced quantityOf paidMoney
      dsimp only
      induction rest with
      | nil => simp
      | cons line rest ih =>
        simp only [List.map_cons, List.sum_cons]
        rw [ih]
        ring
    rw [hrest]
    unfold rounded
    simp only [paidMoney, quantityOf, List.map_cons, List.sum_cons]
    ring

theorem mergeTwin_total (twin row : PurchaseRow) : (mergeTwin twin row).total =
    match twin.unitPrice with
    | some unitPrice => some (toFixed2 ((twin.qty + row.qty) * unitPrice))
    | none => twin.total := rfl

/-- The row of a product has its whole quantity, and the price of its first position. -/
theorem foldl_mergeTwin (first : OrderLine) (rest : List OrderLine) :
    ((rest.map (purchaseOf env orderId receivedBy)).foldl mergeTwin (purchaseOf env orderId receivedBy first)).unitPrice =
        first.price.map toFixed2 ∧
      ((rest.map (purchaseOf env orderId receivedBy)).foldl mergeTwin (purchaseOf env orderId receivedBy first)).qty =
        quantityOf (first :: rest) ∧
      ((rest.map (purchaseOf env orderId receivedBy)).foldl mergeTwin (purchaseOf env orderId receivedBy first)).total =
        totalOf (first :: rest) ∧
      ((rest.map (purchaseOf env orderId receivedBy)).foldl mergeTwin (purchaseOf env orderId receivedBy first)).source =
        "vending-order" := by
  induction rest using List.reverseRecOn with
  | nil =>
    refine ⟨rfl, ?_, rfl, rfl⟩
    simp [quantityOf, purchaseOf]
  | append_singleton rest line ih =>
    obtain ⟨hprice, hqty, htotal, hsource⟩ := ih
    have hsum : quantityOf (first :: rest) + line.qty = quantityOf (first :: (rest ++ [line])) := by
      simp [quantityOf, add_assoc]
    rw [List.map_append, List.map_singleton, List.foldl_append, List.foldl_cons, List.foldl_nil]
    refine ⟨hprice, ?_, ?_, hsource⟩
    · rw [← hsum, ← hqty]
      rfl
    · rw [mergeTwin_total, hprice, hqty]
      obtain ⟨second, others, hlater⟩ : ∃ second others, rest ++ [line] = second :: others :=
        List.exists_cons_of_ne_nil (by simp)
      rcases hfirst : first.price with _ | price
      · dsimp only [Option.map_none]
        rw [htotal, hlater]
        cases rest <;> simp [totalOf, hfirst]
      · dsimp only [Option.map_some]
        have hline : (purchaseOf env orderId receivedBy line).qty = line.qty := rfl
        rw [hline, hsum, hlater]
        simp [totalOf, hfirst]

def extIdOf (host : Js.Host) (orderId : String) (line : OrderLine) : String := orderId ++ ":" ++ lineKey host line

/-- The journal has the row of a key already, by a hand that it must not overwrite. -/
def isTaken (purchases : List PurchaseRow) (extId : String) : Bool :=
  purchases.any fun p => p.source = "vending-order" && p.extId = extId

/-- How far the rows of an order are from its money: for a product with a new row, its later positions at
the price of the first and the rounding; for a product with a row in the journal, all that it cost. -/
def moneyDrift (host : Js.Host) (orderId : String) (purchases : List PurchaseRow) (lines : List OrderLine) : ℚ :=
  ((group (extIdOf host orderId) lines).map fun own =>
    if isTaken purchases own.1 then -paidMoney own.2 else repriced own.2 + rounded own.2).sum

/-- The row of the positions of one product. -/
def rowOf (env : VendingEnv) (orderId receivedBy : String) (own : String × List OrderLine) : Option PurchaseRow :=
  joined mergeTwin (own.2.map (purchaseOf env orderId receivedBy))

theorem purchaseRows_eq (hsmall : ∀ line ∈ lines, line.qty ≤ 1000000) :
    purchaseRows env false orderId receivedBy lines =
      (group (extIdOf env.host orderId) lines).filterMap (rowOf env orderId receivedBy) := by
  have hall : lines.filter (fun line => decide (line.qty ≤ 1000000)) = lines :=
    List.filter_eq_self.mpr fun line hline => decide_eq_true (hsmall line hline)
  have hids : (lines.map (purchaseOf env orderId receivedBy)).map (·.extId) = lines.map (extIdOf env.host orderId) := by
    rw [List.map_map]
    rfl
  unfold purchaseRows
  rw [if_neg (by decide), hall, mergeByKey_eq, hids, group_eq, List.filterMap_map, List.map_filterMap]
  refine List.filterMap_congr fun key _ => ?_
  have hown : (lines.map (purchaseOf env orderId receivedBy)).filter (fun row => row.extId = key) =
      (lines.filter fun line => extIdOf env.host orderId line = key).map (purchaseOf env orderId receivedBy) := by
    rw [List.filter_map]
    rfl
  rw [hown]
  simp [Function.comp_def, rowOf]

/-- The row of a product and its positions. -/
structure RowOf (orderId receivedBy : String) (env : VendingEnv) (own : String × List OrderLine) (row : PurchaseRow) :
    Prop where
  made : rowOf env orderId receivedBy own = some row
  extId : row.extId = own.1
  source : row.source = "vending-order"
  qty : row.qty = quantityOf own.2
  unitPrice : ∃ price : Option ℚ, row.unitPrice = price.map toFixed2
  total : row.total = totalOf own.2

theorem exists_rowOf {own : String × List OrderLine}
    (h : own ∈ group (extIdOf env.host orderId) lines) : ∃ row, RowOf orderId receivedBy env own row := by
  rw [group_eq, List.mem_map] at h
  obtain ⟨key, hkey, rfl⟩ := h
  rcases hown : lines.filter fun line => extIdOf env.host orderId line = key with _ | ⟨first, rest⟩
  · obtain ⟨line, hline, hid⟩ := List.mem_map.mp (mem_keySet.mp hkey)
    exact absurd (decide_eq_true hid) (List.filter_eq_nil_iff.mp hown line hline)
  · obtain ⟨hprice, hqty, htotal, hsource⟩ := @foldl_mergeTwin env orderId receivedBy first rest
    refine ⟨_, rfl, ?_, hsource, hqty, ⟨first.price, hprice⟩, htotal⟩
    refine @joined_kept PurchaseRow mergeTwin String (·.extId) (fun _ _ => rfl)
      ((first :: rest).map (purchaseOf env orderId receivedBy)) _ key ?_ rfl
    intro row hrow
    obtain ⟨line, hline, rfl⟩ := List.mem_map.mp hrow
    rw [← hown] at hline
    exact of_decide_eq_true (List.mem_filter.mp hline).2

theorem totalOf_hundredths {total : ℚ} (h : totalOf lines = some total) :
    ∃ x, total = toFixed2 x := by
  rcases lines with _ | ⟨first, _ | ⟨second, rest⟩⟩
  · cases h
  · obtain ⟨price, -, rfl⟩ := Option.map_eq_some_iff.mp h
    exact ⟨_, rfl⟩
  · obtain ⟨price, -, rfl⟩ := Option.map_eq_some_iff.mp h
    exact ⟨_, rfl⟩

theorem numeric_toFixed2 {x y : ℚ} (h : numeric 15 2 (toFixed2 x) = .ok y) : y = toFixed2 x :=
  (numeric_eq_self_iff h).mpr ⟨_, rfl⟩

theorem mapM_numeric {price stored : Option ℚ} (hfixed : ∀ p, price = some p → ∃ x, p = toFixed2 x)
    (h : price.mapM (numeric 15 2) = .ok stored) : stored = price := by
  cases price with
  | none =>
    cases h
    rfl
  | some p =>
    obtain ⟨x, rfl⟩ := hfixed p rfl
    obtain ⟨y, hy, rfl⟩ := Js.map_eq_ok.mp h
    rw [numeric_toFixed2 hy]

theorem quantityOf_eq (lines : List OrderLine) : quantityOf lines = (((lines.map (·.qty)).sum : ℤ) : ℚ) := by
  unfold quantityOf
  induction lines with
  | nil => rfl
  | cons line lines ih => rw [List.map_cons, List.sum_cons, ih, List.map_cons, List.sum_cons, Int.cast_add]

/-- The columns take a row as it is, or refuse it. -/
theorem storedPurchase_eq {own : String × List OrderLine} {row stored : PurchaseRow}
    (hrow : RowOf orderId receivedBy env own row) (h : storedPurchase row = .ok stored) : stored = row := by
  unfold storedPurchase at h
  simp only [Js.bind_eq_ok] at h
  obtain ⟨qty, hqty, unitPrice, hprice, total, htotal, h⟩ := h
  cases h
  have hq : qty = row.qty := by
    refine (numeric_eq_self_iff hqty).mpr ?_
    rw [hrow.qty]
    refine ⟨(own.2.map (·.qty)).sum * 100, ?_⟩
    rw [quantityOf_eq]
    push_cast
    ring
  have hp : unitPrice = row.unitPrice := by
    refine mapM_numeric (fun p hp => ?_) hprice
    obtain ⟨price, heq⟩ := hrow.unitPrice
    rw [heq] at hp
    obtain ⟨x, -, rfl⟩ := Option.map_eq_some_iff.mp hp
    exact ⟨x, rfl⟩
  have ht : total = row.total := by
    refine mapM_numeric (fun p hp => ?_) htotal
    rw [hrow.total] at hp
    exact totalOf_hundredths hp
  rw [hq, hp, ht]

theorem mapM_storedPurchase {rows stored : List PurchaseRow}
    (hrows : ∀ row ∈ rows, ∀ row', storedPurchase row = .ok row' → row' = row)
    (h : rows.mapM storedPurchase = .ok stored) : stored = rows := by
  induction rows generalizing stored with
  | nil =>
    cases h
    rfl
  | cons row rows ih =>
    obtain ⟨hrow, hrest⟩ := List.forall_mem_cons.mp hrows
    rw [List.mapM_cons] at h
    obtain ⟨first, hfirst, h⟩ := Js.bind_eq_ok.mp h
    obtain ⟨rest, hmap, h⟩ := Js.bind_eq_ok.mp h
    cases h
    rw [hrow first hfirst, ih hrest hmap]

/-- What the journal does not have is appended. -/
theorem foldl_insertPurchase {rows : List PurchaseRow} (hsource : ∀ row ∈ rows, row.source = "vending-order")
    (hids : (rows.map (·.extId)).Nodup) (purchases : List PurchaseRow) :
    rows.foldl insertPurchase purchases = purchases ++ rows.filter fun row => !isTaken purchases row.extId := by
  induction rows generalizing purchases with
  | nil => exact (List.append_nil _).symm
  | cons row rows ih =>
    obtain ⟨hrow, hrest⟩ := List.forall_mem_cons.mp hsource
    rw [List.map_cons, List.nodup_cons] at hids
    have htaken : (purchases.any fun p => p.source = row.source && p.extId = row.extId) = isTaken purchases row.extId := by
      rw [hrow]
      rfl
    rw [List.foldl_cons, insertPurchase, htaken, ih hrest hids.2]
    by_cases h : isTaken purchases row.extId = true
    · rw [if_pos h, List.filter_cons_of_neg (by simp [h])]
    · rw [if_neg h, List.filter_cons_of_pos (by simp [h]), List.append_assoc, List.singleton_append]
      congr 2
      refine List.filter_congr fun r hr => ?_
      have hne : r.extId ≠ row.extId := by
        intro heq
        exact hids.1 (heq ▸ List.mem_map_of_mem hr)
      unfold isTaken
      simp [List.any_append, Ne.symm hne]

/-- The new rows of the journal have the money of the order, but for the drift. -/
theorem newRows_money {purchases stored : List PurchaseRow}
    (hsmall : ∀ line ∈ lines, line.qty ≤ 1000000)
    (h : (purchaseRows env false orderId receivedBy lines).mapM storedPurchase = .ok stored) :
    (((stored.foldl insertPurchase purchases).drop purchases.length).map fun row => row.total.getD 0).sum =
      paidMoney lines + moneyDrift env.host orderId purchases lines := by
  rw [purchaseRows_eq hsmall] at h
  have hgroup : ∀ gs : List (String × List OrderLine), (∀ own ∈ gs, ∃ row, RowOf orderId receivedBy env own row) →
      ((gs.filterMap (rowOf env orderId receivedBy)).map (·.extId) =
          gs.map Prod.fst) ∧
        (∀ row ∈ gs.filterMap (rowOf env orderId receivedBy),
          ∃ own, RowOf orderId receivedBy env own row) ∧
        ((((gs.filterMap (rowOf env orderId receivedBy)).filter
            fun row => !isTaken purchases row.extId).map fun row => row.total.getD 0).sum =
          (gs.map fun own => paidMoney own.2).sum + (gs.map fun own =>
            if isTaken purchases own.1 then -paidMoney own.2 else repriced own.2 + rounded own.2).sum) := by
    intro gs hgs
    induction gs with
    | nil => exact ⟨rfl, List.forall_mem_nil _, (add_zero _).symm⟩
    | cons own gs ih =>
      obtain ⟨⟨row, hrow⟩, hrest⟩ := List.forall_mem_cons.mp hgs
      obtain ⟨hids, hall, hsum⟩ := ih hrest
      rw [List.filterMap_cons_some hrow.made]
      refine ⟨?_, List.forall_mem_cons.mpr ⟨⟨own, hrow⟩, hall⟩, ?_⟩
      · rw [List.map_cons, List.map_cons, hids, hrow.extId]
      · rw [List.map_cons, List.sum_cons, List.map_cons, List.sum_cons]
        by_cases ht : isTaken purchases own.1 = true
        · rw [List.filter_cons_of_neg (by simp [hrow.extId, ht]), hsum, if_pos ht]
          ring
        · rw [List.filter_cons_of_pos (by simp [hrow.extId, ht]), List.map_cons, List.sum_cons, hsum, if_neg ht,
            hrow.total, totalOf_eq]
          ring
  obtain ⟨hids, hrows, hsum⟩ := hgroup (group (extIdOf env.host orderId) lines) fun own hown => exists_rowOf hown
  have hstored := mapM_storedPurchase (fun row hrow row' hrow' => by
    obtain ⟨own, hown⟩ := hrows row hrow
    exact storedPurchase_eq hown hrow') h
  subst hstored
  rw [foldl_insertPurchase, List.drop_left, hsum]
  · congr 1
    rw [group_eq, List.map_map]
    exact sum_by_key (fun line : OrderLine => (line.qty : ℚ) * line.price.getD 0) (nodup_keySet _)
      fun line hline => mem_keySet.mpr (List.mem_map_of_mem hline)
  · intro row hrow
    obtain ⟨own, hown⟩ := hrows row hrow
    exact hown.source
  · rw [hids, group_eq, List.map_map]
    refine (List.map_id _).symm ▸ nodup_keySet _

/-! One receipt. -/

def linesOf (order : OrderRow) : List OrderLine := order.positions.filterMap lineOf

theorem lineOf_pos {p : Position} {line : OrderLine} (h : lineOf p = some line) : 0 < line.qty := by
  obtain ⟨⟨product, qty⟩, hposition, rfl⟩ := Option.map_eq_some_iff.mp h
  unfold positionOf at hposition
  dsimp only at hposition
  split_ifs at hposition with hno
  cases hposition
  exact not_le.mp fun hle => hno (.inr hle)

theorem pairs_nonneg (order : OrderRow) : ∀ position ∈ (linesOf order).map pairOf, 0 ≤ position.2 := by
  intro position hp
  obtain ⟨line, hline, rfl⟩ := List.mem_map.mp hp
  obtain ⟨p, -, hof⟩ := List.mem_filterMap.mp hline
  exact (lineOf_pos hof).le

def handedOut (call : ReceiveCall) (order : OrderRow) : List (String × ℤ) :=
  consumed call.env (distributionOf call.env call.distributed) ((linesOf order).map pairOf)

def orderedOf (host : Js.Host) (lines : List OrderLine) (key : String) : ℤ :=
  ((lines.filter fun line => lineKey host line = key).map (·.qty)).sum

/-- What a call that receives an order owes to it. -/
structure ReceivedExactly (call : ReceiveCall) (mirrorAlive : Bool) (s s' : Receiving) (order : OrderRow)
    (receipt : Receipt) : Prop where
  conserved : receipt.result.units + receipt.result.distributedUnits = ((linesOf order).map (·.qty)).sum
  stock : (s'.db.stock.map (·.quantity)).sum = (s.db.stock.map (·.quantity)).sum + receipt.result.units
  distributed : receipt.result.distributedUnits = ((handedOut call order).map Prod.snd).sum
  bounded : ∀ key, (((handedOut call order).filter (·.1 = key)).map Prod.snd).sum ≤ requested call.env call.distributed key ∧
    (((handedOut call order).filter (·.1 = key)).map Prod.snd).sum ≤ orderedOf call.env.host (linesOf order) key
  unmatched : receipt.result.unmatchedDistribution.map (normalizeProductName call.env.host) =
    (requestKeys call.env call.distributed).filter fun key => key ∉ (linesOf order).map (lineKey call.env.host)
  shown : ∀ name ∈ receipt.result.unmatchedDistribution,
    ∃ r ∈ call.distributed.filterMap (requestOf call.env), r.2.2 = name
  money : mirrorAlive = false → (∀ line ∈ linesOf order, line.qty ≤ 1000000) →
    ((s'.purchases.drop s.purchases.length).map fun row => row.total.getD 0).sum = paidMoney (linesOf order)

/-- What a transaction that goes through leaves. -/
theorem receiptTx_spec {s s' : Receiving} {receivedBy : String}
    (h : receiptTx env mirrorAlive s order receivedBy d = .ok (receipt, s')) :
    ∃ stock journal stored,
      deliverAll env order.id receivedBy 0 (s.db.stock, s.db.journal) (deliveries env d ((linesOf order).map pairOf)) =
        .ok (stock, journal) ∧
      (purchaseRows env mirrorAlive order.id receivedBy (linesOf order)).mapM storedPurchase = .ok stored ∧
      s'.db.stock = stock ∧ s'.db.journal = journal ∧ s'.purchases = stored.foldl insertPurchase s.purchases ∧
      s'.db.orders.map (fun o => (o.id, o.status)) =
        s.db.orders.map (fun o => (o.id, if o.id = order.id then .received else o.status)) ∧
      receipt.result = ⟨true, some order.id, (deliveries env d ((linesOf order).map pairOf)).length,
        ((deliveries env d ((linesOf order).map pairOf)).map Prod.snd).sum,
        distributedTotal env d ((linesOf order).map pairOf), unmatchedOf env.host d (linesOf order), none⟩ := by
  unfold receiptTx at h
  simp only [Js.bind_eq_ok] at h
  obtain ⟨⟨stock, journal⟩, hdeliver, stored, hstored, units, hunits, h⟩ := h
  cases h
  cases int4_eq_ok hunits
  refine ⟨stock, journal, stored, hdeliver, hstored, rfl, rfl, rfl, ?_, rfl⟩
  rw [List.map_map]
  refine List.map_congr_left fun o _ => ?_
  simp only [Function.comp_apply]
  split_ifs <;> rfl

theorem open_nonneg (call : ReceiveCall) (key : String) : 0 ≤ open_ (distributionOf call.env call.distributed) key := by
  rw [open_distributionOf]
  exact requested_nonneg call.env call.distributed key

/-- All but the money is always so, and the money exactly where the order does not drift. -/
theorem receivedExactly_iff {call : ReceiveCall} {s s' : Receiving}
    (hnd : (s.db.stock.map (·.productName)).Nodup)
    (h : receiptTx call.env mirrorAlive s order call.receivedBy (distributionOf call.env call.distributed) =
      .ok (receipt, s')) :
    ReceivedExactly call mirrorAlive s s' order receipt ↔
      (mirrorAlive = false → (∀ line ∈ linesOf order, line.qty ≤ 1000000) →
        moneyDrift call.env.host order.id s.purchases (linesOf order) = 0) := by
  obtain ⟨stock, journal, stored, hdeliver, hstored, hstock, -, hpurchases, -, hresult⟩ := receiptTx_spec h
  have hmoney : mirrorAlive = false → (∀ line ∈ linesOf order, line.qty ≤ 1000000) →
      ((s'.purchases.drop s.purchases.length).map fun row => row.total.getD 0).sum =
        paidMoney (linesOf order) + moneyDrift call.env.host order.id s.purchases (linesOf order) := by
    intro hoff hsmall
    subst hoff
    rw [hpurchases]
    exact newRows_money hsmall hstored
  constructor
  · intro hexact hoff hsmall
    have hsum := hexact.money hoff hsmall
    rw [hmoney hoff hsmall] at hsum
    exact left_eq_add.mp hsum.symm
  · intro hdrift
    refine ⟨?_, ?_, ?_, ?_, ?_, ?_, ?_⟩
    · rw [hresult]
      rw [deliveries_sum (open_nonneg call) (pairs_nonneg order), List.map_map]
      rfl
    · rw [hresult, hstock]
      exact (deliverAll_total hnd hdeliver).1
    · rw [hresult]
      exact distributedTotal_eq _ _
    · intro key
      have hpairs : ((linesOf order).map pairOf).filter (fun position =>
          normalizeProductName call.env.host position.1 = key) =
          ((linesOf order).filter fun line => lineKey call.env.host line = key).map pairOf := by
        rw [List.filter_map]
        rfl
      have hmin := @consumed_eq_min call.env _ _ (open_nonneg call) (pairs_nonneg order) key
      rw [open_distributionOf, hpairs, List.map_map] at hmin
      unfold handedOut orderedOf
      rw [hmin]
      exact ⟨min_le_left _ _, min_le_right _ _⟩
    · rw [hresult]
      exact unmatched_keys call.env call.distributed (linesOf order)
    · intro name hname
      rw [hresult] at hname
      obtain ⟨entry, hentry, rfl⟩ := List.mem_map.mp hname
      obtain ⟨r, hr, -, hshown⟩ := shown_of_mem (List.mem_of_mem_filter hentry)
      exact ⟨r, hr, hshown⟩
    · intro hoff hsmall
      rw [hmoney hoff hsmall, hdrift hoff hsmall, add_zero]

/-! Any number of calls. -/

def Next (w : World) (a : Action) (w' : World) : Prop := w' = step w a

/-- What a call is answered where it ends in this step. -/
def answer (w : World) : Action → Option ReceiveOrderResult
  | .read _ orderId _ _ =>
    match readOrder w.db.orders orderId with
    | .error res => some res
    | .ok _ => none
  | .receive n mirrorAlive now ids =>
    match w.pending[n]? with
    | none => none
    | some call =>
      match receive (call.at_ now ids) mirrorAlive w.toReceiving with
      | .error _ => none
      | .ok (receipt, _) => some receipt.result

/-- The order that the answer of the step says to be received. -/
def receivedOrder (e : Step World Action) : Option String :=
  (answer e.before e.action).bind fun res => if res.received then res.orderId else none

/-- The step is the transaction of a call that takes its order. -/
structure Receives (e : Step World Action) (call : ReceiveCall) (mirrorAlive : Bool) (order : OrderRow) (receipt : Receipt)
    (s' : Receiving) : Prop where
  action : ∃ n now ids waiting, e.action = .receive n mirrorAlive now ids ∧ e.before.pending[n]? = some waiting ∧
    call = waiting.at_ now ids
  taken : takeOrder e.before.db.orders call.orderId = some order
  receipt : receiptTx call.env mirrorAlive e.before.toReceiving order call.receivedBy
    (distributionOf call.env call.distributed) = .ok (receipt, s')

theorem Receives.receive {e : Step World Action} {call : ReceiveCall}
    {s' : Receiving} (h : Receives e call mirrorAlive order receipt s') :
    receive call mirrorAlive e.before.toReceiving = .ok (receipt, s') := by
  unfold OrderReceipt.receive
  rw [h.taken]
  exact h.receipt

theorem Receives.after {e : Step World Action} {call : ReceiveCall}
    {s' : Receiving} (h : Receives e call mirrorAlive order receipt s')
    (hnext : Next e.before e.action e.after) : e.after.toReceiving = s' := by
  obtain ⟨n, now, ids, waiting, haction, hwaiting, rfl⟩ := h.action
  unfold Next at hnext
  rw [hnext, haction]
  simp only [step, hwaiting, h.receive]

/-- A step receives an order, or leaves everything as it was. -/
theorem step_cases (w : World) (a : Action) :
    (∃ call mirrorAlive order receipt s', Receives ⟨w, a, step w a⟩ call mirrorAlive order receipt s' ∧
        receivedOrder ⟨w, a, step w a⟩ = some order.id) ∨
      receivedOrder ⟨w, a, step w a⟩ = none ∧ (step w a).toReceiving = w.toReceiving := by
  cases a with
  | read env orderId receivedBy distributed =>
    right
    have hanswer : ∀ res, readOrder w.db.orders orderId = .error res → res.received = false := by
      intro res hres
      unfold readOrder at hres
      split at hres
      · cases hres
        rfl
      · split at hres
        · cases hres
          rfl
        · cases hres
          rfl
        · cases hres
    rcases hread : readOrder w.db.orders orderId with res | order
    · refine ⟨?_, ?_⟩
      · simp [receivedOrder, answer, hread, hanswer res hread]
      · simp [step, hread]
    · refine ⟨?_, ?_⟩
      · simp [receivedOrder, answer, hread]
      · simp [step, hread]
  | receive n mirrorAlive now ids =>
    rcases hwaiting : w.pending[n]? with _ | waiting
    · right
      exact ⟨by simp [receivedOrder, answer, hwaiting], by simp [step, hwaiting]⟩
    · rcases htaken : takeOrder w.db.orders (waiting.at_ now ids).orderId with _ | order
      · right
        have hrec : receive (waiting.at_ now ids) mirrorAlive w.toReceiving =
            .ok (⟨notReceived "Эта накладная уже принята.", 0, []⟩, w.toReceiving) := by
          unfold receive
          rw [htaken]
        exact ⟨by simp [receivedOrder, answer, hwaiting, hrec, notReceived], by simp [step, hwaiting, hrec]⟩
      · have hrec : receive (waiting.at_ now ids) mirrorAlive w.toReceiving =
            receiptTx (waiting.at_ now ids).env mirrorAlive w.toReceiving order (waiting.at_ now ids).receivedBy
              (distributionOf (waiting.at_ now ids).env (waiting.at_ now ids).distributed) := by
          unfold receive
          rw [htaken]
        rcases htx : receiptTx (waiting.at_ now ids).env mirrorAlive w.toReceiving order (waiting.at_ now ids).receivedBy
            (distributionOf (waiting.at_ now ids).env (waiting.at_ now ids).distributed) with e | ⟨receipt, s'⟩
        · right
          rw [htx] at hrec
          exact ⟨by simp [receivedOrder, answer, hwaiting, hrec], by simp [step, hwaiting, hrec]⟩
        · left
          rw [htx] at hrec
          obtain ⟨_, _, _, -, -, -, -, -, -, hresult⟩ := receiptTx_spec htx
          refine ⟨_, mirrorAlive, order, receipt, s', ⟨⟨n, now, ids, waiting, rfl, hwaiting, rfl⟩, htaken, htx⟩, ?_⟩
          simp [receivedOrder, answer, hwaiting, hrec, hresult]

/-- Every order with the id has been received. -/
def Closed (w : World) (id : String) : Prop := ∀ o ∈ w.db.orders, o.id = id → o.status = .received

theorem takeOrder_spec {orders : List OrderRow} {orderId : String}
    (h : takeOrder orders orderId = some order) : order ∈ orders ∧ isOpen order = true := by
  have hfound := List.find?_some h
  rw [Bool.and_eq_true] at hfound
  exact ⟨List.mem_of_find?_eq_some h, hfound.2⟩

theorem closed_receiptTx {w w' : World} {receivedBy : String}
    (h : receiptTx env mirrorAlive w.toReceiving order receivedBy d = .ok (receipt, w'.toReceiving)) :
    Closed w' order.id ∧ ∀ id, Closed w id → Closed w' id := by
  obtain ⟨_, _, _, -, -, -, -, -, horders, -⟩ := receiptTx_spec h
  have hsource : ∀ o ∈ w'.db.orders, ∃ o' ∈ w.db.orders, o'.id = o.id ∧
      (if o'.id = order.id then OrderStatus.received else o'.status) = o.status := by
    intro o ho
    have hmem : (o.id, o.status) ∈ w'.db.orders.map fun o => (o.id, o.status) := List.mem_map_of_mem ho
    rw [horders] at hmem
    obtain ⟨o', ho', heq⟩ := List.mem_map.mp hmem
    obtain ⟨hid, hstatus⟩ := Prod.mk.inj heq
    exact ⟨o', ho', hid, hstatus⟩
  constructor
  · intro o ho hid
    obtain ⟨o', -, hid', hstatus⟩ := hsource o ho
    rw [← hstatus, if_pos (hid'.trans hid)]
  · intro id hclosed o ho hid
    obtain ⟨o', ho', hid', hstatus⟩ := hsource o ho
    rw [← hstatus]
    split_ifs
    · rfl
    · exact hclosed o' ho' (hid'.trans hid)

theorem received_once {w w' : World} {steps : List (Step World Action)} (hrun : Run Next w steps w') :
    (steps.filterMap receivedOrder).Nodup ∧ ∀ id ∈ steps.filterMap receivedOrder, Closed w' id := by
  induction hrun with
  | start => exact ⟨List.nodup_nil, List.forall_mem_nil _⟩
  | @step steps w' w'' a hrun hnext ih =>
    obtain ⟨hnd, hclosed⟩ := ih
    cases hnext
    rw [List.filterMap_append]
    rcases step_cases w' a with ⟨call, mirrorAlive, order, receipt, s', hreceives, hreceived⟩ | ⟨hnone, hsame⟩
    · have hafter := hreceives.after rfl
      have htx := hreceives.receipt
      rw [← hafter] at htx
      obtain ⟨hnow, hkeep⟩ := closed_receiptTx htx
      obtain ⟨hmem, hopen⟩ := takeOrder_spec hreceives.taken
      have hnew : order.id ∉ steps.filterMap receivedOrder := by
        intro hin
        have hstatus := hclosed order.id hin order hmem rfl
        rw [isOpen, hstatus] at hopen
        exact absurd hopen (by decide)
      rw [List.filterMap_cons_some hreceived, List.filterMap_nil, ← List.concat_eq_append]
      refine ⟨hnd.concat hnew, fun id hid => ?_⟩
      rw [List.concat_eq_append, List.mem_append, List.mem_singleton] at hid
      rcases hid with hid | rfl
      · exact hkeep id (hclosed id hid)
      · exact hnow
    · rw [List.filterMap_cons_none hnone, List.filterMap_nil, List.append_nil]
      refine ⟨hnd, fun id hid => ?_⟩
      unfold Closed
      rw [hsame]
      exact hclosed id hid

/-- The primary key of `vending_stock`. -/
def OneRowEach (w : World) : Prop := (w.db.stock.map (·.productName)).Nodup

theorem next_oneRowEach {w w' : World} {a : Action} (h : OneRowEach w) (hnext : Next w a w') : OneRowEach w' := by
  unfold OneRowEach at h ⊢
  cases hnext
  rcases step_cases w a with ⟨call, mirrorAlive, order, receipt, s', hreceives, -⟩ | ⟨-, hsame⟩
  · obtain ⟨stock, journal, _, hdeliver, -, hstock, -⟩ := receiptTx_spec hreceives.receipt
    have hafter : (step w a).toReceiving = s' := hreceives.after rfl
    rw [hafter, hstock]
    exact (deliverAll_total h hdeliver).2
  · rw [hsame]
    exact h

/-- Calls at once receive an order once, exactly, and otherwise change nothing. -/
structure ReceivedOnce (steps : List (Step World Action)) : Prop where
  once : (steps.filterMap receivedOrder).Nodup
  exact_ : ∀ e ∈ steps, ∀ call mirrorAlive order receipt s', Receives e call mirrorAlive order receipt s' →
    e.after.toReceiving = s' ∧ ReceivedExactly call mirrorAlive e.before.toReceiving s' order receipt
  others : ∀ e ∈ steps, receivedOrder e = none → e.after.toReceiving = e.before.toReceiving

theorem receivedOnce_iff {w w' : World} {steps : List (Step World Action)} (hrun : Run Next w steps w')
    (hrows : OneRowEach w) :
    ReceivedOnce steps ↔ ∀ e ∈ steps, ∀ call mirrorAlive order receipt s',
      Receives e call mirrorAlive order receipt s' → mirrorAlive = false →
        (∀ line ∈ linesOf order, line.qty ≤ 1000000) →
          moneyDrift call.env.host order.id e.before.purchases (linesOf order) = 0 := by
  have hnames : ∀ e ∈ steps, OneRowEach e.before := by
    intro e he
    obtain ⟨_, _, -, hbefore, -, -⟩ := hrun.split he
    exact hbefore.invariant (fun _ _ _ => next_oneRowEach) hrows
  constructor
  · intro honce e he call mirrorAlive order receipt s' hreceives
    exact (receivedExactly_iff (hnames e he) hreceives.receipt).mp (honce.exact_ e he _ _ _ _ _ hreceives).2
  · intro hdrift
    refine ⟨(received_once hrun).1, fun e he call mirrorAlive order receipt s' hreceives => ⟨?_, ?_⟩, fun e he hnone => ?_⟩
    · obtain ⟨_, _, -, -, hnext, -⟩ := hrun.split he
      exact hreceives.after hnext
    · exact (receivedExactly_iff (hnames e he) hreceives.receipt).mpr (hdrift e he _ _ _ _ _ hreceives)
    · obtain ⟨_, _, -, -, hnext, -⟩ := hrun.split he
      have hafter : e.after = step e.before e.action := hnext
      rcases step_cases e.before e.action with ⟨_, _, _, _, _, -, hsome⟩ | ⟨-, hsame⟩
      · have hsame : receivedOrder e = receivedOrder ⟨e.before, e.action, step e.before e.action⟩ := rfl
        rw [hsame, hsome] at hnone
        cases hnone
      · rw [hafter]
        exact hsame

/-! Two calls at once for an order of two products. -/

def heldOrder (positions : List Position) : OrderRow := ⟨"order", .approved, positions, 0, none, none, none, none⟩

def orderWorld (positions : List Position) (pending : List ReceiveCall) : World where
  db := { sampleDb with orders := [heldOrder positions] }
  purchases := []
  pending := pending

def firstCall : ReceiveCall := ⟨sampleEnv, "order", "owner", [("cola", some 2), ("lost", some 1)]⟩

def secondCall : ReceiveCall := ⟨sampleEnv, "order", "owner", []⟩

/-- The two calls have read the order, and go on one after the other. -/
def bothGoOn : List Action :=
  [.receive 0 false 1788300000123 sampleEnv.ids, .receive 0 false 1788300000124 sampleEnv.ids]

def colaAndFanta : List Position := [⟨some "cola", some 5, some 5000⟩, ⟨some "fanta", some 3, some 7000⟩]

theorem receivedOnce_iff_atOnce :
    let world := orderWorld colaAndFanta [firstCall, secondCall]
    let steps := (runActions step world bothGoOn).1
    (ReceivedOnce steps ↔ ∀ e ∈ steps, ∀ call mirrorAlive order receipt s',
      Receives e call mirrorAlive order receipt s' → mirrorAlive = false →
        (∀ line ∈ linesOf order, line.qty ≤ 1000000) →
          moneyDrift call.env.host order.id e.before.purchases (linesOf order) = 0) ∧
      steps.filterMap receivedOrder = ["order"] ∧
      (runActions step world bothGoOn).2.purchases.map (·.total) = [some 25000, some 21000] :=
  ⟨receivedOnce_iff (run_runActions step _ _) List.nodup_nil, by decide +kernel, by decide +kernel⟩

/-- The first position has no price, and the price of the second is lost with it. -/
def priceOnTheSecond : List Position := [⟨some "cola", some 5, none⟩, ⟨some "cola", some 3, some 5000⟩]

theorem second_price_is_lost :
    ¬ ReceivedOnce (runActions step (orderWorld priceOnTheSecond [firstCall, secondCall]) bothGoOn).1 := by
  intro h
  have hcommits : (receiptTx (firstCall.at_ 1788300000123 sampleEnv.ids).env false
      (orderWorld priceOnTheSecond [firstCall, secondCall]).toReceiving (heldOrder priceOnTheSecond) "owner"
      (distributionOf sampleEnv firstCall.distributed)).toOption.isSome = true := by decide +kernel
  obtain ⟨⟨receipt, s'⟩, hsome⟩ := Option.isSome_iff_exists.mp hcommits
  have htx := Js.toOption_eq_some.mp hsome
  have htaken : takeOrder (orderWorld priceOnTheSecond [firstCall, secondCall]).db.orders "order" =
      some (heldOrder priceOnTheSecond) := by decide +kernel
  obtain ⟨-, hexact⟩ := h.exact_ _ List.mem_cons_self (firstCall.at_ 1788300000123 sampleEnv.ids) false
    (heldOrder priceOnTheSecond) receipt s' ⟨⟨0, 1788300000123, sampleEnv.ids, firstCall, rfl, rfl, rfl⟩, htaken, htx⟩
  have hnames : ((orderWorld priceOnTheSecond [firstCall, secondCall]).db.stock.map (·.productName)).Nodup :=
    List.nodup_nil
  have hdrift := (receivedExactly_iff hnames htx).mp hexact rfl (by decide +kernel)
  have hlost : moneyDrift sampleHost "order" [] (linesOf (heldOrder priceOnTheSecond)) = -15000 := by decide +kernel
  exact absurd (hlost.symm.trans hdrift) (by norm_num)

end Mydon.Vending.OrderReceipt
