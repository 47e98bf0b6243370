import Mydon.Clock.Months
import Mydon.Lib.Tally
import Mydon.Stock.Fefo
import Mydon.Stock.Returns

/-! The report on expiry dates: what is left of the batches, and the order in which they are to be spent. -/

namespace Mydon.Stock

open Mydon.Lib

/-- `new Date(expiry.toISOString().slice(0, 10))`: the day, or the first of the month when the year takes six digits. -/
def reread (at_ : ℤ) : ℤ :=
  let day := at_ / Clock.DAY_MS
  let year := (Clock.civil day).1
  (if 0 ≤ year ∧ year ≤ 9999 then day else Clock.monthStart (Clock.monthOf day)) * Clock.DAY_MS

structure ExpiryRow extends BatchRow where
  fefoOrder : Option ℕ
  deriving DecidableEq

structure ExpiryReport where
  asOf : String
  thresholdDays : ℤ
  counts : ExpiryFlag → ℕ
  rows : List ExpiryRow

/-- `FLAG_ORDER`. -/
def flagOrder : ExpiryFlag → ℤ
  | .expired => 0
  | .expiring => 1
  | .ok => 2
  | .none => 3

def compareBatchRow (host : Js.Host) (a b : BatchRow) : ℤ :=
  let fo := flagOrder a.flag - flagOrder b.flag
  let byReceipt := host.localeCompare b.receivedOn a.receivedOn
  if fo ≠ 0 then fo
  else
    match a.expiry.map reread, b.expiry.map reread with
    | some ea, some eb => if ea ≠ eb then ea - eb else byReceipt
    | some _, none => -1
    | none, some _ => 1
    | none, none => byReceipt

variable (env : StockEnv)

/-- Receipts are dates. -/
def fefoBatchOf (r : BatchRow) : FefoBatch :=
  ⟨r.id, r.remaining, r.expiry.map reread, (env.time r.receivedOn).getD 0⟩

def numberLegs (order : List (String × ℕ)) (legs : List FefoLeg) : List (String × ℕ) :=
  legs.zipIdx.foldl (fun order e =>
    match e.1.batchId with
    | some id => OrderedMap.set id (e.2 + 1) order
    | none => order) order

def groupOf (r : BatchRow) : String × String := (r.ingredientId, r.warehouseId)

def numberGroup (order : List (String × ℕ)) (own : List BatchRow) : List (String × ℕ) :=
  let fefoBatches := (own.filter (0 < ·.remaining)).map (fefoBatchOf env)
  let need := (fefoBatches.map (·.remaining)).sum
  if need ≤ 0 then order else numberLegs order (allocateFEFO need fefoBatches)

def orderByBatch (rows : List BatchRow) : List (String × ℕ) :=
  (group groupOf rows).foldl (fun order g => numberGroup env order g.2) []

def expiryReport (t : Tables) : Except Js.HttpError ExpiryReport := do
  let all ← computeBatchRows env t ⟨none, none, none⟩
  let rows := all.filter (0 < ·.remaining)
  let order := orderByBatch env rows
  return {
    asOf := Clock.dayText env.today
    thresholdDays := DEFAULT_EXPIRING_DAYS
    counts := fun flag => rows.countP (·.flag = flag)
    rows := (rows.map fun r => (⟨r, OrderedMap.get order r.id⟩ : ExpiryRow)).insertionSort fun a b =>
      compareBatchRow env.host a.toBatchRow b.toBatchRow ≤ 0 }

/-! The legs of a group are its batches, in order. -/

variable {env} {rows own : List BatchRow} {r : BatchRow}

theorem EPS_lt_of_remaining {q : ℚ} (hgrid : ∃ n : ℤ, q = n / 1000) (h : 0 < q) : EPS < q := by
  obtain ⟨n, rfl⟩ := hgrid
  have hn : 0 < n := by
    by_contra hle
    have hcast : (n : ℚ) ≤ 0 := by exact_mod_cast not_lt.mp hle
    linarith
  have hone : (1 : ℚ) ≤ n := by exact_mod_cast hn
  norm_num [EPS]
  linarith

theorem takeLegs_all {batches : List FefoBatch} (h : ∀ b ∈ batches, EPS < b.remaining) :
    takeLegs batches (batches.map (·.remaining)).sum = (batches.map fun b => (⟨some b.batchId, b.remaining⟩ : FefoLeg), 0) := by
  induction batches with
  | nil => rfl
  | cons b rest ih =>
    obtain ⟨hb, hrest⟩ := List.forall_mem_cons.mp h
    have hnonneg : 0 ≤ (rest.map (·.remaining)).sum := by
      apply List.sum_nonneg
      intro x hx
      obtain ⟨c, hc, rfl⟩ := List.mem_map.mp hx
      exact (EPS_nonneg.trans_lt (hrest c hc)).le
    have hpos : 0 < b.remaining := EPS_nonneg.trans_lt hb
    rw [takeLegs, List.map_cons, List.sum_cons, if_neg (by linarith)]
    dsimp only
    rw [max_eq_right hpos.le, if_neg (not_le.mpr hb), min_eq_right (by linarith), add_sub_cancel_left, ih hrest]
    rfl

/-- A need of all that is left is covered by all the batches in their order. -/
theorem allocateFEFO_all {batches : List FefoBatch} (h : ∀ b ∈ batches, EPS < b.remaining) (hne : batches ≠ []) :
    0 < (batches.map (·.remaining)).sum ∧ (allocateFEFO (batches.map (·.remaining)).sum batches).map FefoLeg.batchId =
      (fefoOrder batches).map fun b => some b.batchId := by
  have hsum : (batches.map (·.remaining)).sum = ((fefoOrder batches).map (·.remaining)).sum :=
    ((fefoOrder_perm batches).symm.map _).sum_eq
  have hlarge : EPS < (batches.map (·.remaining)).sum := by
    obtain ⟨b, rest, rfl⟩ := List.exists_cons_of_ne_nil hne
    obtain ⟨hb, hrest⟩ := List.forall_mem_cons.mp h
    have hnonneg : 0 ≤ (rest.map (·.remaining)).sum := by
      apply List.sum_nonneg
      intro x hx
      obtain ⟨c, hc, rfl⟩ := List.mem_map.mp hx
      exact (EPS_nonneg.trans_lt (hrest c hc)).le
    rw [List.map_cons, List.sum_cons]
    linarith
  have hpos := EPS_nonneg.trans_lt hlarge
  have hall := @takeLegs_all (fefoOrder batches) fun b hb => h b ((fefoOrder_perm batches).subset hb)
  refine ⟨hpos, ?_⟩
  unfold allocateFEFO
  rw [max_eq_right hpos.le, if_neg (not_le.mpr hlarge), hsum]
  rw [← fefoOrder, hall]
  dsimp only
  rw [if_neg (not_lt.mpr EPS_nonneg), List.map_map]
  rfl

/-! The numbers. -/

theorem get_numberLegs {ids : List String} {legs : List FefoLeg} (hlegs : legs.map FefoLeg.batchId = ids.map some)
    (hnd : ids.Nodup) (order : List (String × ℕ)) (id : String) : OrderedMap.get (numberLegs order legs) id =
      if id ∈ ids then some (ids.idxOf id + 1) else OrderedMap.get order id := by
  have hrun : ∀ (ids : List String) (legs : List FefoLeg) (start : ℕ) (order : List (String × ℕ)),
      legs.map FefoLeg.batchId = ids.map some → ids.Nodup →
      OrderedMap.get ((legs.zipIdx start).foldl (fun order e =>
        match e.1.batchId with
        | some id => OrderedMap.set id (e.2 + 1) order
        | none => order) order) id = if id ∈ ids then some (start + ids.idxOf id + 1) else OrderedMap.get order id := by
    intro ids
    induction ids with
    | nil =>
      intro legs start order hlegs _
      obtain rfl := List.map_eq_nil_iff.mp hlegs
      rfl
    | cons x ids ih =>
      intro legs start order hlegs hnd
      obtain ⟨leg, legs, rfl⟩ : ∃ leg rest, legs = leg :: rest := by
        rcases legs with _ | ⟨leg, rest⟩
        · cases hlegs
        · exact ⟨leg, rest, rfl⟩
      obtain ⟨hleg, hlegs⟩ := List.cons.inj hlegs
      obtain ⟨hx, hnd⟩ := List.nodup_cons.mp hnd
      rw [List.zipIdx_cons, List.foldl_cons, ih legs (start + 1) _ hlegs hnd]
      simp only [hleg]
      rw [OrderedMap.get_set]
      by_cases hid : x = id
      · subst hid
        rw [if_neg hx, if_pos rfl, if_pos List.mem_cons_self, List.idxOf_cons_self, Nat.add_zero]
      · have hmem : id ∈ x :: ids ↔ id ∈ ids := by
          rw [List.mem_cons, or_iff_right (Ne.symm hid)]
        rw [if_neg hid, List.idxOf_cons_ne _ hid]
        simp only [hmem]
        split_ifs
        · congr 1
          omega
        · rfl
  have h := hrun ids legs 0 order hlegs hnd
  rw [Nat.zero_add] at h
  exact h

/-- The batches of a group, in the order they are to be spent. -/
def queue (env : StockEnv) (own : List BatchRow) : List BatchRow :=
  own.insertionSort fun a b => cmp (fefoBatchOf env a) (fefoBatchOf env b) ≠ .gt

theorem map_queue (own : List BatchRow) : (queue env own).map (fefoBatchOf env) = fefoOrder (own.map (fefoBatchOf env)) :=
  List.map_insertionSort (fun a b => cmp (fefoBatchOf env a) (fefoBatchOf env b) ≠ .gt) (fun a b => cmp a b ≠ .gt)
    (fefoBatchOf env) own fun _ _ _ _ => Iff.rfl

theorem queue_perm (own : List BatchRow) : (queue env own).Perm own := List.perm_insertionSort _ _

/-- A group numbers its own batches. -/
theorem get_numberGroup (hleft : ∀ r ∈ own, EPS < r.remaining) (hnd : (own.map (·.id)).Nodup) (order : List (String × ℕ))
    (id : String) : OrderedMap.get (numberGroup env order own) id =
      if id ∈ own.map (·.id) then some (((queue env own).map (·.id)).idxOf id + 1) else OrderedMap.get order id := by
  have hall : own.filter (0 < ·.remaining) = own := by
    rw [List.filter_eq_self]
    exact fun r hr => decide_eq_true (EPS_nonneg.trans_lt (hleft r hr))
  unfold numberGroup
  rw [hall]
  by_cases hne : own = []
  · subst hne
    simp
  · obtain ⟨hpos, hlegs⟩ := @allocateFEFO_all (own.map (fefoBatchOf env)) (by
      intro b hb
      obtain ⟨r, hr, rfl⟩ := List.mem_map.mp hb
      exact hleft r hr) (by rwa [ne_eq, List.map_eq_nil_iff])
    have hids : (fefoOrder (own.map (fefoBatchOf env))).map (fun b => some b.batchId) =
        ((queue env own).map (·.id)).map some := by
      rw [← map_queue, List.map_map, List.map_map]
      rfl
    have hperm := (@queue_perm env own).map (·.id)
    rw [if_neg (not_le.mpr hpos), get_numberLegs (hlegs.trans hids) (hperm.nodup_iff.mpr hnd)]
    simp only [hperm.mem_iff]

/-- The rows of a group. -/
def ownRows (rows : List BatchRow) (g : String × String) : List BatchRow := rows.filter fun r => groupOf r = g

/-- Each row is numbered by its place in the queue of its group. -/
theorem get_orderByBatch (hleft : ∀ r ∈ rows, EPS < r.remaining) (hnd : (rows.map (·.id)).Nodup) (hr : r ∈ rows) :
    OrderedMap.get (orderByBatch env rows) r.id =
      some (((queue env (ownRows rows (groupOf r))).map (·.id)).idxOf r.id + 1) := by
  have hstep : ∀ (gs : List (String × String)), groupOf r ∈ gs → OrderedMap.get ((gs.map fun g => (g, ownRows rows g)).foldl
      (fun order g => numberGroup env order g.2) []) r.id =
        some (((queue env (ownRows rows (groupOf r))).map (·.id)).idxOf r.id + 1) := by
    intro gs
    induction gs using List.reverseRecOn with
    | nil =>
      intro hmem
      cases hmem
    | append_singleton gs g ih =>
      intro hmem
      have hown := @get_numberGroup env (ownRows rows g) (fun r hr => hleft r (List.mem_of_mem_filter hr))
        (hnd.sublist (List.filter_sublist.map _))
      rw [List.map_append, List.foldl_append, List.map_singleton, List.foldl_cons, List.foldl_nil, hown]
      by_cases hg : groupOf r = g
      · subst hg
        have hin : r.id ∈ (ownRows rows (groupOf r)).map (·.id) :=
          List.mem_map.mpr ⟨r, List.mem_filter.mpr ⟨hr, decide_eq_true rfl⟩, rfl⟩
        rw [if_pos hin]
      · have hother : r.id ∉ (ownRows rows g).map (·.id) := by
          intro hid
          obtain ⟨r', hr', heq⟩ := List.mem_map.mp hid
          obtain ⟨hr'', hgroup⟩ := List.mem_filter.mp hr'
          have hsame := List.inj_on_of_nodup_map hnd hr'' hr heq
          subst hsame
          exact hg (of_decide_eq_true hgroup)
        rw [if_neg hother]
        apply ih
        rw [List.mem_append, List.mem_singleton] at hmem
        exact hmem.resolve_right hg
  unfold orderByBatch
  rw [group_eq]
  exact hstep _ (mem_keySet.mpr (List.mem_map_of_mem hr))

end Mydon.Stock
