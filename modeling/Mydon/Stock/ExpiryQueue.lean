import Mydon.Lib.ItemByItem
import Mydon.Lib.StableSort
import Mydon.Stock.DryRun
import Mydon.Stock.ExpiryReport

/-! The queue of what is left in the stock. The report numbers the batches of a group by their expiry, as it is shown,
then by their receipt; that a batch is opened already plays no part. -/

namespace Mydon.Stock

open Mydon.Lib

/-- Ids are the primary key, and the receipts are dates. -/
structure StockState (env : StockEnv) where
  tables : Tables
  nodup : (tables.batches.map (·.id)).Nodup
  dated : ∀ b ∈ tables.batches, (env.time b.receivedOn).isSome

/-- The batches with something left. -/
def leftIn (t : Tables) : List StockBatch := t.batches.filter (0 < remaining t.journal ·)

def StockBatch.group (b : StockBatch) : String × String := (b.ingredientId, b.warehouseId)

/-- A batch of `returnToStock`. -/
def IsReturned (b : StockBatch) : Prop := ∃ env input base id, returnBatch env input base id = .ok b

variable (env : StockEnv)

def receivedAt (b : StockBatch) : ℤ := (env.time b.receivedOn).getD 0

/-- No expiry is last. -/
def timeOf (expiry : Option ℤ) : WithTop ℤ :=
  match expiry with
  | some t => (t : WithTop ℤ)
  | none => ⊤

/-- The effective expiry, and then the receipt. -/
def Sooner (a b : StockBatch) : Prop :=
  (toLex (timeOf (batchExpiry env a).join, receivedAt env a) : WithTop ℤ ×ₗ ℤ) <
    toLex (timeOf (batchExpiry env b).join, receivedAt env b)

/-- The key that the queue sorts by: the expiry as it is shown, and the receipt. -/
def shownKey (b : StockBatch) : WithTop ℤ ×ₗ ℤ := toLex (timeOf ((batchExpiry env b).join.map reread), receivedAt env b)

/-- `a` is before `b` by the shown expiry, the receipt and the place in the table. -/
def Before (t : Tables) (a b : StockBatch) : Prop :=
  shownKey env a < shownKey env b ∨ shownKey env a = shownKey env b ∧ [a, b].Sublist t.batches

/-- The row of the batch carries the number. -/
def NumberOf (rep : ExpiryReport) (b : StockBatch) (n : ℕ) : Prop := ∃ r ∈ rep.rows, r.id = b.id ∧ r.fefoOrder = some n

def NumberedBefore (rep : ExpiryReport) (a b : StockBatch) : Prop := ∀ m n, NumberOf rep a m → NumberOf rep b n → m < n

/-- The report numbers what is left of every group from one, by expiry and receipt, and opened remainders first. -/
structure QueueRight (t : Tables) (rep : ExpiryReport) : Prop where
  rows : (rep.rows.map (·.id)).Perm ((leftIn t).map (·.id))
  numbers : ∀ g, ((rep.rows.filter fun r => groupOf r.toBatchRow = g).map (·.fefoOrder)).Perm
    ((List.range ((leftIn t).filter (·.group = g)).length).map fun i => some (i + 1))
  sooner : ∀ a ∈ leftIn t, ∀ b ∈ leftIn t, a.group = b.group → Sooner env a b → NumberedBefore rep a b
  opened : ∀ a ∈ leftIn t, ∀ b ∈ leftIn t, a.group = b.group → IsReturned a → b.openedOn = none → NumberedBefore rep a b

/-- Every expiry is a date, dates that are shown alike stand in their order, and no opened remainder is behind an
unopened batch. -/
structure QueueClear (t : Tables) : Prop where
  readable : ∀ b ∈ t.batches, Readable env b
  shown : ∀ a ∈ leftIn t, ∀ b ∈ leftIn t, a.group = b.group →
    (batchExpiry env a).join.map reread = (batchExpiry env b).join.map reread → Sooner env a b → Before env t a b
  opened : ∀ a ∈ leftIn t, ∀ b ∈ leftIn t, a.group = b.group → IsReturned a → b.openedOn = none → Before env t a b

/-! The rows of the report. -/

variable {env} {t : Tables} {rep : ExpiryReport} {a b : StockBatch} {g : String × String}

/-- What a row says of its batch. -/
structure RowOf (env : StockEnv) (t : Tables) (b : StockBatch) (r : BatchRow) : Prop where
  id : r.id = b.id
  group : groupOf r = b.group
  remaining : r.remaining = remaining t.journal b
  expiry : r.expiry = (batchExpiry env b).join
  receivedOn : r.receivedOn = b.receivedOn

theorem rowOf_of_batchRow {r : BatchRow} (h : batchRow env t b = .ok r) : RowOf env t b r := by
  unfold batchRow at h
  obtain ⟨expiry, hexpiry, h⟩ := Js.bind_eq_ok.mp h
  cases h
  refine ⟨rfl, rfl, rfl, ?_, rfl⟩
  rcases he : batchExpiry env b with _ | _ | at_
  · rw [he] at hexpiry
    cases hexpiry
    rfl
  · rw [he] at hexpiry
    cases hexpiry
  · rw [he] at hexpiry
    cases hexpiry
    rfl

theorem forall₂_mapM_batchRow {l : List StockBatch} {all : List BatchRow} (h : l.mapM (batchRow env t) = .ok all) :
    List.Forall₂ (RowOf env t) l all := by
  induction l generalizing all with
  | nil =>
    cases h
    exact .nil
  | cons b l ih =>
    rw [List.mapM_cons] at h
    obtain ⟨r, hr, h⟩ := Js.bind_eq_ok.mp h
    obtain ⟨rest, hrest, h⟩ := Js.bind_eq_ok.mp h
    cases h
    exact .cons (rowOf_of_batchRow hr) (ih hrest)

/-- The batch as the queue sees it. -/
def queued (env : StockEnv) (t : Tables) (b : StockBatch) : FefoBatch :=
  ⟨b.id, remaining t.journal b, (batchExpiry env b).join.map reread, receivedAt env b⟩

theorem fefoBatchOf_rowOf {r : BatchRow} (h : RowOf env t b r) : fefoBatchOf env r = queued env t b := by
  unfold fefoBatchOf queued receivedAt
  rw [h.id, h.remaining, h.expiry, h.receivedOn]

theorem sortKey_queued (b : StockBatch) : (queued env t b).sortKey = shownKey env b := rfl

/-! The places. -/

/-- The batches of a group, in the order they are to be spent. -/
def waiting (env : StockEnv) (t : Tables) (g : String × String) : List StockBatch :=
  ((leftIn t).filter (·.group = g)).insertionSort fun a b => shownKey env a ≤ shownKey env b

def place (env : StockEnv) (t : Tables) (b : StockBatch) : ℕ := ((waiting env t b.group).map (·.id)).idxOf b.id + 1

theorem waiting_perm (g : String × String) : (waiting env t g).Perm ((leftIn t).filter (·.group = g)) :=
  List.perm_insertionSort _ _

theorem map_waiting (g : String × String) :
    (waiting env t g).map (queued env t) = fefoOrder (((leftIn t).filter (·.group = g)).map (queued env t)) :=
  List.map_insertionSort _ (fun a b => cmp a b ≠ .gt) (queued env t) _ fun a _ b _ => by
    rw [cmp_ne_gt_iff, sortKey_queued, sortKey_queued]

theorem nodup_leftIn (hnd : (t.batches.map (·.id)).Nodup) : ((leftIn t).map (·.id)).Nodup :=
  hnd.sublist (List.filter_sublist.map _)

theorem mem_waiting : b ∈ waiting env t g ↔ b ∈ leftIn t ∧ b.group = g := by
  rw [(waiting_perm g).mem_iff, List.mem_filter, decide_eq_true_eq]

theorem nodup_waiting (hnd : (t.batches.map (·.id)).Nodup) : ((waiting env t g).map (·.id)).Nodup := by
  rw [((waiting_perm g).map _).nodup_iff]
  exact (nodup_leftIn hnd).sublist (List.filter_sublist.map _)

/-- A batch is numbered before another of its group exactly if it stands before it. -/
theorem place_lt_iff (hnd : (t.batches.map (·.id)).Nodup) (ha : a ∈ leftIn t) (hb : b ∈ leftIn t)
    (hgroup : a.group = b.group) (hne : a ≠ b) : place env t a < place env t b ↔ Before env t a b := by
  have htotal : Std.Total fun a b : StockBatch => shownKey env a ≤ shownKey env b := ⟨fun _ _ => le_total _ _⟩
  have htrans : IsTrans StockBatch fun a b => shownKey env a ≤ shownKey env b := ⟨fun _ _ _ => le_trans⟩
  have hown : ∀ b' ∈ [a, b], b' ∈ (leftIn t).filter (·.group = b.group) := by
    intro b' hb'
    rw [List.mem_filter, decide_eq_true_eq]
    rcases List.mem_pair.mp hb' with rfl | rfl
    · exact ⟨ha, hgroup⟩
    · exact ⟨hb, rfl⟩
  have hnd' : ((leftIn t).filter (·.group = b.group)).Nodup := ((nodup_leftIn hnd).of_map _).filter _
  have hidx := @Lib.idxOf_lt_iff StockBatch (fun a b => shownKey env a ≤ shownKey env b) _ a b _ htotal htrans _ hnd'
    (hown a (by simp)) (hown b (by simp)) hne
  have hplace : ∀ c ∈ [a, b], place env t c = (waiting env t b.group).idxOf c + 1 := by
    intro c hc
    have hmem := (@waiting_perm env t b.group).mem_iff.mpr (hown c hc)
    unfold place
    rw [(mem_waiting.mp hmem).2, Lib.idxOf_map (nodup_waiting hnd) hmem]
  have hsub : [a, b].Sublist ((leftIn t).filter (·.group = b.group)) ↔ [a, b].Sublist t.batches := by
    constructor
    · intro h
      exact (h.trans List.filter_sublist).trans List.filter_sublist
    · intro h
      have hleft := h.filter (0 < remaining t.journal ·)
      rw [List.filter_eq_self.mpr fun c hc => (List.mem_filter.mp (List.mem_of_mem_filter (hown c hc))).2] at hleft
      have hgroups := hleft.filter (·.group = b.group)
      rwa [List.filter_eq_self.mpr fun c hc => (List.mem_filter.mp (hown c hc)).2] at hgroups
  rw [hplace a (by simp), hplace b (by simp), Nat.add_lt_add_iff_right]
  refine hidx.trans ?_
  unfold Lib.Precedes Before
  rw [hsub]
  constructor
  · rintro ⟨hle, hnot | hfirst⟩
    · exact .inl (not_le.mp hnot)
    · exact (lt_or_eq_of_le hle).imp_right fun heq => ⟨heq, hfirst⟩
  · rintro (hlt | ⟨heq, hfirst⟩)
    · exact ⟨hlt.le, .inl (not_le.mpr hlt)⟩
    · exact ⟨heq.le, .inr hfirst⟩

/-! The numbers. -/

theorem remaining_grid (b : StockBatch) : ∃ n : ℤ, remaining t.journal b = n / 1000 := ⟨_, rfl⟩

/-- A row with the number of its batch. -/
def RowFor (env : StockEnv) (t : Tables) (b : StockBatch) (r : ExpiryRow) : Prop :=
  RowOf env t b r.toBatchRow ∧ r.fefoOrder = some (place env t b)

/-- The report of a stock whose expiries are dates: a row for every batch that is left. -/
theorem expiryReport_rows (hnd : (t.batches.map (·.id)).Nodup) (h : ∀ b ∈ t.batches, Readable env b) :
    ∃ rep rows, expiryReport env t = .ok rep ∧ rep.rows.Perm rows ∧ List.Forall₂ (RowFor env t) (leftIn t) rows := by
  obtain ⟨all, hall, -⟩ := mapM_batchRow_of_readable (t := t) h
  have hrows : List.Forall₂ (RowOf env t) (leftIn t) (all.filter (0 < ·.remaining)) :=
    forall₂_filter (forall₂_mapM_batchRow hall) fun b r hr => by rw [hr.remaining]
  have hcompute : computeBatchRows env t ⟨none, none, none⟩ = .ok all := by
    unfold computeBatchRows
    rw [List.filter_eq_self.mpr fun b _ => (rfl : batchMatches ⟨none, none, none⟩ b = true)]
    exact hall
  refine ⟨_, _, by unfold expiryReport; rw [hcompute]; rfl, List.perm_insertionSort _ _, ?_⟩
  have hids : ((all.filter (0 < ·.remaining)).map (·.id)).Nodup := by
    rw [Lib.map_eq_map_of_forall₂ hrows fun b r hr => hr.id]
    exact nodup_leftIn hnd
  have hleft : ∀ r ∈ all.filter (0 < ·.remaining), EPS < r.remaining := by
    intro r hr
    obtain ⟨b, _, hb⟩ := Lib.exists_of_mem_right hrows hr
    apply EPS_lt_of_remaining
    · rw [hb.remaining]
      exact remaining_grid b
    · exact of_decide_eq_true (List.mem_filter.mp hr).2
  have hnumber : ∀ b r, r ∈ all.filter (0 < ·.remaining) → RowOf env t b r →
      OrderedMap.get (orderByBatch env (all.filter (0 < ·.remaining))) r.id = some (place env t b) := by
    intro b r hr hb
    have hown : List.Forall₂ (RowOf env t) ((leftIn t).filter (·.group = b.group))
        (ownRows (all.filter (0 < ·.remaining)) (groupOf r)) :=
      forall₂_filter hrows fun b' r' hr' => by rw [hr'.group, hb.group]
    have hqueue : (queue env (ownRows (all.filter (0 < ·.remaining)) (groupOf r))).map (·.id) =
        (waiting env t b.group).map (·.id) := by
      have hmap := @map_queue env (ownRows (all.filter (0 < ·.remaining)) (groupOf r))
      rw [Lib.map_eq_map_of_forall₂ hown fun b r hr => fefoBatchOf_rowOf hr, ← map_waiting] at hmap
      have hbatchIds := congrArg (List.map FefoBatch.batchId) hmap
      rw [List.map_map, List.map_map] at hbatchIds
      exact hbatchIds
    rw [get_orderByBatch hleft hids hr, hqueue, hb.id]
    rfl
  rw [List.forall₂_map_right_iff, List.forall₂_iff_get]
  rw [List.forall₂_iff_get] at hrows
  refine ⟨hrows.1, fun i hi hi' => ?_⟩
  have hr := hrows.2 i hi hi'
  exact ⟨hr, hnumber _ _ (List.get_mem _ _) hr⟩

section
variable {rows : List ExpiryRow} {n : ℕ} (hnd : (t.batches.map (·.id)).Nodup) (hperm : rep.rows.Perm rows)
  (hrows : List.Forall₂ (RowFor env t) (leftIn t) rows)
include hperm hrows

theorem ids_of_rows : (rep.rows.map (·.id)).Perm ((leftIn t).map (·.id)) := by
  rw [← Lib.map_eq_map_of_forall₂ hrows fun b r hr => hr.1.id]
  exact hperm.map _

include hnd in
/-- A batch carries its place and no other number. -/
theorem numberOf_iff (hb : b ∈ leftIn t) : NumberOf rep b n ↔ n = place env t b := by
  constructor
  · rintro ⟨r, hr, hid, hn⟩
    obtain ⟨b', hb', hrow⟩ := Lib.exists_of_mem_right hrows (hperm.subset hr)
    have hsame := List.inj_on_of_nodup_map (nodup_leftIn hnd) hb' hb (hrow.1.id.symm.trans hid)
    rw [← hsame]
    exact Option.some.inj (hn.symm.trans hrow.2)
  · rintro rfl
    obtain ⟨r, hr, hrow⟩ := Lib.exists_of_mem_left hrows hb
    exact ⟨r, hperm.symm.subset hr, hrow.1.id, hrow.2⟩

include hnd in
theorem numberedBefore_iff (ha : a ∈ leftIn t) (hb : b ∈ leftIn t) (hgroup : a.group = b.group) (hne : a ≠ b) :
    NumberedBefore rep a b ↔ Before env t a b := by
  rw [← place_lt_iff hnd ha hb hgroup hne]
  unfold NumberedBefore
  simp only [numberOf_iff hnd hperm hrows ha, numberOf_iff hnd hperm hrows hb]
  constructor
  · intro h
    exact h _ _ rfl rfl
  · rintro h m n rfl rfl
    exact h

include hnd in
/-- The numbers of a group are one to the number of its batches. -/
theorem numbers_of_rows (g : String × String) : ((rep.rows.filter fun r => groupOf r.toBatchRow = g).map (·.fefoOrder)).Perm
    ((List.range ((leftIn t).filter (·.group = g)).length).map fun i => some (i + 1)) := by
  have hgroup : List.Forall₂ (RowFor env t) ((leftIn t).filter (·.group = g)) (rows.filter fun r => groupOf r.toBatchRow = g) :=
    Lib.forall₂_filter hrows fun b r hr => by rw [hr.1.group]
  have hplaces : ((rows.filter fun r => groupOf r.toBatchRow = g).map (·.fefoOrder)) =
      ((leftIn t).filter (·.group = g)).map fun b => some (place env t b) :=
    Lib.map_eq_map_of_forall₂ hgroup fun b r hr => hr.2
  have hwaiting : (waiting env t g).map (fun b => some (place env t b)) =
      (List.range ((leftIn t).filter (·.group = g)).length).map fun i => some (i + 1) := by
    have hidx := Lib.map_idxOf (@nodup_waiting env t g hnd)
    rw [List.length_map, (waiting_perm g).length_eq] at hidx
    rw [← hidx, List.map_map, List.map_map]
    apply List.map_congr_left
    intro b hb
    unfold place
    rw [(mem_waiting.mp hb).2]
    rfl
  rw [← hwaiting]
  refine (hperm.filter _).map _ |>.trans ?_
  rw [hplaces]
  exact ((waiting_perm g).map _).symm

end

/-! Shown dates. -/

/-- What is shown of a later moment is no earlier. -/
theorem reread_mono {x y : ℤ} (h : x ≤ y) : reread x ≤ reread y := by
  have hday : x / Clock.DAY_MS ≤ y / Clock.DAY_MS := Int.ediv_le_ediv (by decide) h
  unfold reread
  generalize x / Clock.DAY_MS = d at hday
  generalize y / Clock.DAY_MS = e at hday
  apply Int.mul_le_mul_of_nonneg_right _ (by decide)
  have hmonth := Clock.monthOf_mono hday
  have hstart := Clock.monthStart_strictMono.monotone hmonth
  have hd := Clock.day_eq d
  have he := Clock.day_eq e
  have hdBounds := Clock.dayOfMonth_bounds d
  have heBounds := Clock.dayOfMonth_bounds e
  rw [Clock.civil_eq, Clock.civil_eq]
  split_ifs with hdYear heYear heYear
  · exact hday
  · have hlater : Clock.monthOf d + 1 ≤ Clock.monthOf e := by
      by_contra hsame
      have heq : Clock.monthOf e = Clock.monthOf d := by omega
      rw [heq] at heYear
      exact heYear hdYear
    have hnext := Clock.monthStart_strictMono.monotone hlater
    rw [Clock.monthStart_succ] at hnext
    omega
  · omega
  · exact hstart

theorem timeOf_le {x y : Option ℤ} : timeOf x ≤ timeOf y ↔ ∀ q ∈ y, ∃ p ∈ x, p ≤ q := by
  rcases x with _ | p <;> rcases y with _ | q <;> simp [timeOf]

theorem timeOf_inj {x y : Option ℤ} : timeOf x = timeOf y ↔ x = y := by
  rcases x with _ | p <;> rcases y with _ | q <;> simp [timeOf]

theorem timeOf_reread_mono {x y : Option ℤ} (h : timeOf x ≤ timeOf y) : timeOf (x.map reread) ≤ timeOf (y.map reread) := by
  rw [timeOf_le] at h ⊢
  intro q' hq'
  obtain ⟨q, hq, rfl⟩ := Option.mem_map.mp hq'
  obtain ⟨p, hp, hpq⟩ := h q hq
  exact ⟨reread p, Option.mem_map.mpr ⟨p, hp, rfl⟩, reread_mono hpq⟩

/-- A batch that expires sooner is before the other, unless their dates are shown alike. -/
theorem before_of_sooner (h : Sooner env a b)
    (hshown : (batchExpiry env a).join.map reread = (batchExpiry env b).join.map reread → Before env t a b) :
    Before env t a b := by
  by_cases hsame : (batchExpiry env a).join.map reread = (batchExpiry env b).join.map reread
  · exact hshown hsame
  · left
    unfold shownKey
    unfold Sooner at h
    rw [Prod.Lex.toLex_lt_toLex] at h ⊢
    left
    have hle : timeOf (batchExpiry env a).join ≤ timeOf (batchExpiry env b).join := h.elim (·.le) (·.1.le)
    exact lt_of_le_of_ne (timeOf_reread_mono hle) fun heq => hsame (timeOf_inj.mp heq)

theorem opened_of_isReturned (h : IsReturned b) : b.openedOn.isSome := by
  obtain ⟨env, input, base, id, h⟩ := h
  unfold returnBatch at h
  obtain ⟨dt, _, h⟩ := Js.bind_eq_ok.mp h
  obtain ⟨qty, _, h⟩ := Js.bind_eq_ok.mp h
  obtain ⟨_, _, h⟩ := Js.bind_eq_ok.mp h
  cases h
  rfl

theorem ne_of_isReturned (ha : IsReturned a) (hb : b.openedOn = none) : a ≠ b := by
  rintro rfl
  have hopened := opened_of_isReturned ha
  rw [hb] at hopened
  cases hopened

theorem Sooner.ne (h : Sooner env a b) : a ≠ b := by
  rintro rfl
  exact lt_irrefl _ h

variable {s : StockState env}

theorem queueClear_of_right (hrep : expiryReport env s.tables = .ok rep) (hright : QueueRight env s.tables rep) :
    QueueClear env s.tables := by
  have hreadable : ∀ b ∈ s.tables.batches, Readable env b := by
    by_contra hnot
    unfold expiryReport computeBatchRows at hrep
    rw [List.filter_eq_self.mpr fun b _ => (rfl : batchMatches ⟨none, none, none⟩ b = true),
      mapM_batchRow_of_not_readable hnot] at hrep
    cases hrep
  obtain ⟨rep', rows, hrep', hperm, hrows⟩ := expiryReport_rows s.nodup hreadable
  obtain rfl : rep = rep' := Except.ok.inj (hrep.symm.trans hrep')
  refine ⟨hreadable, ?_, ?_⟩
  · intro a ha b hb hgroup _ hsooner
    exact (numberedBefore_iff s.nodup hperm hrows ha hb hgroup hsooner.ne).mp (hright.sooner a ha b hb hgroup hsooner)
  · intro a ha b hb hgroup hreturned hunopened
    exact (numberedBefore_iff s.nodup hperm hrows ha hb hgroup (ne_of_isReturned hreturned hunopened)).mp
      (hright.opened a ha b hb hgroup hreturned hunopened)

theorem queueRight_of_clear (h : QueueClear env s.tables) :
    ∃ rep, expiryReport env s.tables = .ok rep ∧ QueueRight env s.tables rep := by
  obtain ⟨rep, rows, hrep, hperm, hrows⟩ := expiryReport_rows s.nodup h.readable
  refine ⟨rep, hrep, ids_of_rows hperm hrows, numbers_of_rows s.nodup hperm hrows, ?_, ?_⟩
  · intro a ha b hb hgroup hsooner
    rw [numberedBefore_iff s.nodup hperm hrows ha hb hgroup hsooner.ne]
    exact before_of_sooner hsooner fun hsame => h.shown a ha b hb hgroup hsame hsooner
  · intro a ha b hb hgroup hreturned hunopened
    rw [numberedBefore_iff s.nodup hperm hrows ha hb hgroup (ne_of_isReturned hreturned hunopened)]
    exact h.opened a ha b hb hgroup hreturned hunopened

def shelfEnv : StockEnv :=
  { stockEnv with
    time := fun text => some ((if text = "2027-01-01" then 20819 else 20685) * Clock.DAY_MS) }

def packedBatch : StockBatch where
  id := "b1"
  ingredientId := "coffee"
  warehouseId := "central"
  batchCode := none
  expiryDate := some "2027-01-01"
  manufactureDate := none
  receivedOn := "2026-08-20"
  qtyReceived := 1000
  unit := "г"
  openedOn := none
  openedBy := none
  personId := none
  supplierId := none
  invoiceNo := none
  invoiceDate := none
  ikpu := none
  unitPriceNet := none
  vatRate := none
  unitPriceGross := none
  baseUnitSnapshot := some .gram
  packageWeightSnapshot := none
  source := "manual"
  extId := none
  note := none

def hopperRest : ReturnInput :=
  ⟨"coffee", "central", 300, "г", "2026-08-20", "возврат из бункера H-27-1", none, "coffee-return:1", some "owner"⟩

def returnedBatch : StockBatch :=
  { packedBatch with
    id := "b2"
    batchCode := some "возврат из бункера H-27-1"
    expiryDate := none
    qtyReceived := 300
    openedOn := some "2026-08-20"
    source := "coffee-return" }

theorem isReturned_returnedBatch : IsReturned returnedBatch := by
  exact ⟨shelfEnv, hopperRest, some .gram, "b2", Js.toOption_eq_some.mp (by decide +kernel)⟩

end Mydon.Stock
