import Mydon.Globerent.Commission
import Mydon.Globerent.Reserves

/-! The sales of units, over runs of `setSalesStage`. Its transaction commits first, and the accrual of
a closed deal is a step of its own, which may also be lost. -/

namespace Mydon.Globerent

open Mydon.Lib Mydon.Finance Mydon.Stock

structure SalesWorld where
  db : Db
  /-- The units of closed deals, as returned, whose accrual is still to come. -/
  awaiting : List GloberentUnit

/-- The sale of a unit: its stage, and the price. -/
def Db.saleOf (db : Db) (k : ℕ) : Option (SalesStage × Option ℚ) :=
  (db.findUnit k).bind fun u => u.salesStage.map fun stage => (stage, u.salesPrice)

def isCommissionOf (k : ℕ) (f : Flow) : Bool := f.category = some "commission" && f.unitId = some k

def Db.commissions (db : Db) (k : ℕ) : ℕ := db.flows.countP (isCommissionOf k)

def SalesWorld.owed (w : SalesWorld) (k : ℕ) : ℕ := w.awaiting.countP fun u => u.id = k

inductive SalesAction
  | setSalesStage (env : Env) (id : ℕ) (stage : SalesStage) (extra : StageExtra)
  | accrue (env : Env) (config : CommissionConfig) (i : ℕ)
  | lose (i : ℕ)
  | others (db : Db)

def SalesWorld.setSalesStage (env : Env) (id : ℕ) (stage : SalesStage) (extra : StageExtra) (w : SalesWorld) :
    SalesWorld :=
  match stagedUnit env id stage extra w.db with
  | .ok updated => ⟨w.db.writeUnit updated, if stage = .CLOSED then w.awaiting ++ [updated] else w.awaiting⟩
  | .error _ => w

/-- The trail of an accrual may fail after its row: the row stays. -/
def SalesWorld.accrue (env : Env) (config : CommissionConfig) (i : ℕ) (w : SalesWorld) : SalesWorld :=
  match w.awaiting[i]? with
  | none => w
  | some unit =>
    match accrueCommission env config unit w.db with
    | .ok (some row) => ⟨{ w.db with flows := w.db.flows ++ [row] }, w.awaiting.eraseIdx i⟩
    | _ => { w with awaiting := w.awaiting.eraseIdx i }

/-- What everything else leaves alone: the sales, and the commissions. -/
def Others (db db' : Db) : Prop := ∀ k, db'.saleOf k = db.saleOf k ∧ db'.commissions k = db.commissions k

def SalesNext (w : SalesWorld) : SalesAction → SalesWorld → Prop
  | .setSalesStage env id stage extra, w' => w' = w.setSalesStage env id stage extra
  | .accrue env config i, w' => w' = w.accrue env config i
  | .lose i, w' => w' = { w with awaiting := w.awaiting.eraseIdx i }
  | .others db, w' => Others w.db db ∧ w' = { w with db }

/-- A sale is over where its deal is closed or lost. -/
def SalesStage.IsOver (stage : SalesStage) : Prop := stage = .CLOSED ∨ stage = .LOST

instance (stage : SalesStage) : Decidable stage.IsOver := inferInstanceAs (Decidable (_ ∨ _))

def SaleOver (sale : Option (SalesStage × Option ℚ)) : Prop := ∃ s ∈ sale, s.1.IsOver

instance (sale : Option (SalesStage × Option ℚ)) : Decidable (SaleOver sale) := by
  unfold SaleOver
  infer_instance

/-- The step starts a sale: the unit had none, or had one that was over. -/
def startsSale (k : ℕ) (e : Step SalesWorld SalesAction) : Bool :=
  (e.before.db.saleOf k = none ∨ SaleOver (e.before.db.saleOf k) ∧ ¬ SaleOver (e.after.db.saleOf k)) ∧
    e.after.db.saleOf k ≠ none

/-! What the transaction and the accrual do. -/

variable {env : Env} {db : Db} {id k : ℕ} {stage : SalesStage} {extra : StageExtra} {w w' : SalesWorld}

theorem stagedUnit_eq_ok {updated : GloberentUnit} (h : stagedUnit env id stage extra db = .ok updated) :
    ∃ unit price, db.findUnit id = some unit ∧ (unit.salesStage = none → unit.status ∈ SALE_START_ALLOWED) ∧
      (stage ∈ STAGES_REQUIRE_PRICE → (extra.salesPrice.or unit.salesPrice).any (0 < ·)) ∧
      numericOption 18 2 extra.salesPrice = .ok price ∧ updated.id = id ∧
      updated.salesStage = some stage ∧ updated.salesPrice = price.or unit.salesPrice := by
  obtain ⟨_, -, h⟩ := Js.bind_eq_ok.mp h
  obtain ⟨_, -, h⟩ := Js.bind_eq_ok.mp h
  obtain ⟨unit, hunit, h⟩ := Js.bind_eq_ok.mp h
  obtain ⟨_, hstart, h⟩ := Js.bind_eq_ok.mp h
  obtain ⟨_, hprice, h⟩ := Js.bind_eq_ok.mp h
  obtain ⟨_, -, h⟩ := Js.bind_eq_ok.mp h
  obtain ⟨price, hnumeric, h⟩ := Js.bind_eq_ok.mp h
  obtain rfl := Except.ok.inj h
  have hfound := Js.orThrow_eq_ok.mp hunit
  have hid : unit.id = id := Table.key_of_lookup hfound
  exact ⟨unit, price, hfound, Js.require_eq_ok.mp hstart, Js.require_eq_ok.mp hprice, hnumeric, hid, rfl, rfl⟩

theorem accrueCommission_eq_ok {config : CommissionConfig} {unit : GloberentUnit} {row : Flow}
    (h : accrueCommission env config unit db = .ok (some row)) :
    row.category = some "commission" ∧ row.unitId = some unit.id := by
  unfold accrueCommission at h
  dsimp only at h
  split_ifs at h
  · obtain ⟨amount, -, hrow⟩ := Js.map_eq_ok.mp h
    obtain rfl := Option.some.inj hrow
    exact ⟨rfl, rfl⟩
  · simp at h

/-- A price that rounds to a cent or more is stored as a positive one. -/
theorem numeric_pos {x y : ℚ} (hx : 1 / 200 ≤ x) (h : numeric 18 2 x = .ok y) : 0 < y := by
  unfold numeric at h
  dsimp only at h
  split_ifs at h with hsize hneg
  · linarith
  · obtain rfl := Except.ok.inj h
    have hone : (1 : ℤ) ≤ ⌊|x| * 10 ^ 2 + 1 / 2⌋ := by
      rw [Int.le_floor, abs_of_nonneg (by linarith)]
      push_cast
      linarith
    have hpos : (1 : ℚ) ≤ (⌊|x| * 10 ^ 2 + 1 / 2⌋ : ℤ) := by exact_mod_cast hone
    have hnum : (0 : ℚ) < (⌊|x| * 10 ^ 2 + 1 / 2⌋ : ℤ) := lt_of_lt_of_le one_pos hpos
    positivity

theorem saleOf_writeUnit {u old : GloberentUnit} (hold : db.findUnit u.id = some old) (hstage : u.salesStage = some stage) :
    (db.writeUnit u).saleOf k = if k = u.id then some (stage, u.salesPrice) else db.saleOf k := by
  unfold Db.saleOf Db.writeUnit Db.findUnit
  split_ifs with hk
  · subst hk
    rw [Table.lookup_write_self hold, Option.bind_some, hstage, Option.map_some]
  · rw [Table.lookup_write_of_ne hk]

/-- What an accepted call does to each unit. -/
theorem setSalesStage_cases (env : Env) (id : ℕ) (stage : SalesStage) (extra : StageExtra) (w : SalesWorld) :
    w.setSalesStage env id stage extra = w ∨
      ∃ updated unit price, stagedUnit env id stage extra w.db = .ok updated ∧ w.db.findUnit id = some unit ∧
        (unit.salesStage = none → unit.status ∈ SALE_START_ALLOWED) ∧
        (stage ∈ STAGES_REQUIRE_PRICE → extra.salesPrice.all (1 / 200 ≤ ·) → price.any (0 < ·)) ∧
        (∀ k, (w.setSalesStage env id stage extra).db.saleOf k = if k = id then some (stage, price) else w.db.saleOf k) ∧
        (∀ k, (w.setSalesStage env id stage extra).db.commissions k = w.db.commissions k) ∧
        ∀ k, (w.setSalesStage env id stage extra).owed k = w.owed k + if k = id ∧ stage = .CLOSED then 1 else 0 := by
  rcases hstaged : stagedUnit env id stage extra w.db with err | updated
  · left
    unfold SalesWorld.setSalesStage
    rw [hstaged]
  right
  obtain ⟨unit, price, hunit, hstart, hprice, hnumeric, hid, hstage, hsold⟩ := stagedUnit_eq_ok hstaged
  have hw : w.setSalesStage env id stage extra =
      ⟨w.db.writeUnit updated, if stage = .CLOSED then w.awaiting ++ [updated] else w.awaiting⟩ := by
    unfold SalesWorld.setSalesStage
    rw [hstaged]
  refine ⟨updated, unit, updated.salesPrice, rfl, hunit, hstart, fun hmem hcents => ?_, fun k => ?_, fun k => ?_, fun k => ?_⟩
  · have hany := hprice hmem
    rw [hsold]
    rcases hx : extra.salesPrice with _ | x
    · rw [hx] at hany hnumeric
      obtain rfl := Except.ok.inj hnumeric
      exact hany
    · rw [hx] at hcents hnumeric
      obtain ⟨y, hy, rfl⟩ := Js.map_eq_ok.mp hnumeric
      have hpos : 0 < y := numeric_pos (by simpa using hcents) hy
      simpa using hpos
  · rw [hw, ← hid]
    exact saleOf_writeUnit (by rw [hid]; exact hunit) hstage
  · rw [hw]
    rfl
  · rw [hw]
    unfold SalesWorld.owed
    by_cases hclosed : stage = .CLOSED
    · rw [if_pos hclosed, List.countP_append, List.countP_singleton, hid]
      by_cases hk : k = id
      · simp [hk, hclosed]
      · simp [hk, Ne.symm hk]
    · rw [if_neg hclosed, if_neg fun h => hclosed h.2, Nat.add_zero]

/-- An accrual pays what is owed, or forgets it. -/
theorem accrue_cases (env : Env) (config : CommissionConfig) (i : ℕ) (w : SalesWorld) (k : ℕ) :
    (w.accrue env config i).db.saleOf k = w.db.saleOf k ∧
      (w.accrue env config i).db.commissions k + (w.accrue env config i).owed k ≤ w.db.commissions k + w.owed k := by
  have herase : (w.awaiting.eraseIdx i).countP (fun u => u.id = k) ≤ w.owed k :=
    (List.eraseIdx_sublist w.awaiting i).countP_le
  unfold SalesWorld.accrue
  rcases hi : w.awaiting[i]? with _ | unit
  · exact ⟨rfl, le_rfl⟩
  dsimp only
  split
  · rename_i row hrow
    obtain ⟨hcategory, hunit⟩ := accrueCommission_eq_ok hrow
    refine ⟨rfl, ?_⟩
    have howed : w.awaiting.countP (fun u => u.id = k) =
        (w.awaiting.eraseIdx i).countP (fun u => u.id = k) + if unit.id = k then 1 else 0 := by
      obtain ⟨hlt, hget⟩ := List.getElem?_eq_some_iff.mp hi
      have hperm := (List.getElem_cons_eraseIdx_perm hlt).countP_eq fun u => u.id = k
      rw [← hperm, hget, List.countP_cons]
      simp
    unfold Db.commissions SalesWorld.owed
    rw [List.countP_append, List.countP_singleton, isCommissionOf, hcategory, hunit]
    simp only [Option.some.injEq, decide_true, Bool.true_and, decide_eq_true_eq]
    omega
  · exact ⟨rfl, Nat.add_le_add_left herase _⟩

/-! What the steps keep for one unit. -/

/-- A commission is paid or owed once, and only for a sale that is over; the price is there where the stage needs one. -/
structure SaleFits (w : SalesWorld) (k : ℕ) : Prop where
  once : w.db.commissions k + w.owed k ≤ 1
  unpaid : ¬ SaleOver (w.db.saleOf k) → w.db.commissions k + w.owed k = 0
  priced : ∀ s ∈ w.db.saleOf k, s.1 ∈ STAGES_REQUIRE_PRICE → s.2.any (0 < ·)

/-- A sale that is over stays as it is or is lost, and a price for a stage that needs one is not less than half a cent. -/
def KeepsSales (e : Step SalesWorld SalesAction) : Prop :=
  match e.action with
  | .setSalesStage env id stage extra =>
    (stagedUnit env id stage extra e.before.db).isOk → (SaleOver (e.before.db.saleOf id) → stage = .LOST) ∧
      (stage ∈ STAGES_REQUIRE_PRICE → extra.salesPrice.all (1 / 200 ≤ ·))
  | _ => True

theorem saleFits_of_le (hsale : w'.db.saleOf k = w.db.saleOf k)
    (hle : w'.db.commissions k + w'.owed k ≤ w.db.commissions k + w.owed k) (h : SaleFits w k) : SaleFits w' k := by
  refine ⟨hle.trans h.once, fun hover => ?_, ?_⟩
  · rw [hsale] at hover
    have hzero := h.unpaid hover
    omega
  · rw [hsale]
    exact h.priced

theorem saleFits_step {a : SalesAction} (hfits : ∀ k, SaleFits w k) (hnext : SalesNext w a w')
    (hkeeps : KeepsSales ⟨w, a, w'⟩) (k : ℕ) : SaleFits w' k := by
  cases a with
  | setSalesStage env id stage extra =>
    obtain rfl := hnext
    rcases setSalesStage_cases env id stage extra w with hsame | ⟨_, _, price, hok, _, _, hprice, hsale, hpaid, howed⟩
    · rw [hsame]
      exact hfits k
    obtain ⟨hover, hcents⟩ := hkeeps (by rw [hok]; rfl)
    by_cases hk : k = id
    · subst hk
      specialize hsale k
      specialize howed k
      rw [if_pos rfl] at hsale
      have hnone : stage ≠ .LOST → w.db.commissions k + w.owed k = 0 := fun hne =>
        (hfits k).unpaid fun h => hne (hover h)
      refine ⟨?_, fun hnot => ?_, fun s hs hmem => ?_⟩
      · rw [hpaid, howed]
        by_cases hclosed : stage = .CLOSED
        · have hzero := hnone (by simp [hclosed])
          split_ifs <;> omega
        · rw [if_neg fun h => hclosed h.2]
          exact (hfits k).once
      · rw [hsale] at hnot
        have hopen : ¬ stage.IsOver := fun h => hnot ⟨_, rfl, h⟩
        rw [hpaid, howed, if_neg fun h => hopen (.inl h.2)]
        exact hnone fun h => hopen (.inr h)
      · rw [hsale] at hs
        obtain rfl := Option.some.inj hs
        exact hprice hmem (hcents hmem)
    · refine saleFits_of_le ?_ ?_ (hfits k)
      · rw [hsale, if_neg hk]
      · rw [hpaid, howed, if_neg fun h => hk h.1, Nat.add_zero]
  | accrue env config i =>
    obtain rfl := hnext
    obtain ⟨hsale, hle⟩ := accrue_cases env config i w k
    exact saleFits_of_le hsale hle (hfits k)
  | lose i =>
    obtain rfl := hnext
    refine saleFits_of_le ?_ ?_ (hfits k)
    · rfl
    · exact Nat.add_le_add_left (List.eraseIdx_sublist w.awaiting i).countP_le _
  | others db =>
    obtain ⟨hothers, rfl⟩ := hnext
    obtain ⟨hsale, hpaid⟩ := hothers k
    refine saleFits_of_le hsale ?_ (hfits k)
    change db.commissions k + w.owed k ≤ _
    rw [hpaid]

/-- A sale that a step starts is the unit's first, and starts in the warehouse. -/
theorem start_of_step {a : SalesAction} (hnext : SalesNext w a w') (hkeeps : KeepsSales ⟨w, a, w'⟩)
    (hstarts : startsSale k ⟨w, a, w'⟩) :
    w.db.saleOf k = none ∧ w'.db.saleOf k ≠ none ∧ ∃ u, w.db.findUnit k = some u ∧ u.status ∈ SALE_START_ALLOWED := by
  simp only [startsSale, decide_eq_true_eq] at hstarts
  obtain ⟨hbefore, hafter⟩ := hstarts
  -- a step that keeps the sale starts none
  have hkept : w'.db.saleOf k ≠ w.db.saleOf k := by
    intro hsame
    rw [hsame] at hbefore hafter
    rcases hbefore with hnone | ⟨hover, hnot⟩
    · exact hafter hnone
    · exact hnot hover
  cases a with
  | setSalesStage env id stage extra =>
    obtain rfl := hnext
    rcases setSalesStage_cases env id stage extra w with hsame | ⟨_, unit, price, hok, hunit, hstart, _, hsale, _, _⟩
    · rw [hsame] at hkept
      exact absurd rfl hkept
    obtain ⟨hover, -⟩ := hkeeps (by rw [hok]; rfl)
    have hk : k = id := by
      by_contra hne
      rw [hsale, if_neg hne] at hkept
      exact hkept rfl
    subst hk
    rcases hbefore with hnone | ⟨hended, hnot⟩
    · refine ⟨hnone, hafter, unit, hunit, hstart ?_⟩
      unfold Db.saleOf at hnone
      rw [hunit, Option.bind_some, Option.map_eq_none_iff] at hnone
      exact hnone
    · rw [hsale, if_pos rfl, hover hended] at hnot
      exact absurd ⟨_, rfl, .inr rfl⟩ hnot
  | accrue env config i =>
    obtain rfl := hnext
    exact absurd (accrue_cases env config i w k).1 hkept
  | lose i =>
    obtain rfl := hnext
    exact absurd rfl hkept
  | others db =>
    obtain ⟨hothers, rfl⟩ := hnext
    exact absurd (hothers k).1 hkept

/-- A sale that is there stays. -/
theorem sale_kept {a : SalesAction} (hnext : SalesNext w a w') (h : w.db.saleOf k ≠ none) : w'.db.saleOf k ≠ none := by
  cases a with
  | setSalesStage env id stage extra =>
    obtain rfl := hnext
    rcases setSalesStage_cases env id stage extra w with hsame | ⟨_, _, price, _, _, _, _, hsale, _, _⟩
    · rwa [hsame]
    · rw [hsale]
      split_ifs
      · simp
      · exact h
  | accrue env config i =>
    obtain rfl := hnext
    rwa [(accrue_cases env config i w k).1]
  | lose i =>
    obtain rfl := hnext
    exact h
  | others db =>
    obtain ⟨hothers, rfl⟩ := hnext
    change db.saleOf k ≠ none
    rwa [(hothers k).1]

/-- The sales of a run: each unit is sold once, out of the warehouse, with a price where one is needed, and is paid
for once. -/
structure SalesLaw (steps : List (Step SalesWorld SalesAction)) (w : SalesWorld) : Prop where
  paid : ∀ k, w.db.commissions k ≤ 1
  once : ∀ k, steps.countP (startsSale k) ≤ 1
  allowed : ∀ e ∈ steps, ∀ k, startsSale k e →
    ∃ u, e.before.db.findUnit k = some u ∧ u.status ∈ SALE_START_ALLOWED
  priced : ∀ k, ∀ s ∈ w.db.saleOf k, s.1 ∈ STAGES_REQUIRE_PRICE → s.2.any (0 < ·)

theorem starts_of_run {w₀ : SalesWorld} {steps : List (Step SalesWorld SalesAction)} (hrun : Run SalesNext w₀ steps w)
    (hkeeps : ∀ e ∈ steps, KeepsSales e) (k : ℕ) :
    steps.countP (startsSale k) ≤ 1 ∧ (w.db.saleOf k = none → steps.countP (startsSale k) = 0) := by
  induction hrun with
  | start => exact ⟨Nat.zero_le 1, fun _ => rfl⟩
  | @step steps w w' a _ hnext ih =>
    obtain ⟨hle, hzero⟩ := ih fun e he => hkeeps e (List.mem_append_left _ he)
    have hlast := hkeeps ⟨w, a, w'⟩ (List.mem_append_right _ (List.mem_singleton_self _))
    rw [List.countP_append, List.countP_singleton]
    by_cases hstarts : startsSale k ⟨w, a, w'⟩ = true
    · obtain ⟨hnone, hsome, _⟩ := start_of_step hnext hlast hstarts
      rw [if_pos hstarts]
      have hfirst := hzero hnone
      exact ⟨by omega, fun h => absurd h hsome⟩
    · rw [if_neg hstarts]
      refine ⟨hle, fun hnone => hzero ?_⟩
      by_contra hsome
      exact sale_kept hnext hsome hnone

theorem salesLaw_of_run {w₀ : SalesWorld} {steps : List (Step SalesWorld SalesAction)} (hrun : Run SalesNext w₀ steps w)
    (hstart : ∀ k, SaleFits w₀ k) (hkeeps : ∀ e ∈ steps, KeepsSales e) : SalesLaw steps w := by
  have hfits : ∀ k, SaleFits w k :=
    @Run.invariant_of _ _ SalesNext w₀ w steps (fun w => ∀ k, SaleFits w k) KeepsSales
      (fun _ _ _ hi hnext hk => saleFits_step hi hnext hk) hrun hstart hkeeps
  refine ⟨fun k => le_of_add_le_left (hfits k).once, fun k => (starts_of_run hrun hkeeps k).1, fun e he k hstarts => ?_,
    fun k => (hfits k).priced⟩
  obtain ⟨_, _, _, _, hnext, _⟩ := hrun.split he
  exact (start_of_step hnext (hkeeps e he) hstarts).2.2

/-! Runs on fixed calls. -/

def SalesWorld.serve (w : SalesWorld) : SalesAction → SalesWorld
  | .setSalesStage env id stage extra => w.setSalesStage env id stage extra
  | .accrue env config i => w.accrue env config i
  | .lose i => { w with awaiting := w.awaiting.eraseIdx i }
  | .others db => { w with db }

theorem run_serve (w : SalesWorld) {calls : List SalesAction} (h : ∀ a ∈ calls, ∀ db, a ≠ .others db) :
    Run SalesNext w (runActions SalesWorld.serve w calls).1 (runActions SalesWorld.serve w calls).2 := by
  refine (run_runActions SalesWorld.serve w calls).strengthen fun e he hnext => ?_
  have hcall := h e.action (action_mem_of_runActions he)
  rcases ha : e.action with _ | _ | _ | db
  case others => exact absurd ha (hcall db)
  all_goals
    rw [ha] at hnext
    exact hnext

/-- A loader in stock, whose freight is paid. -/
def stockedWorld : SalesWorld where
  db := { Db.empty with
    units := [⟨0, 1, none, "Loader", none, none, .IN_STOCK, none, none, some 200, none, none, none, none, none, none,
      none, none, none⟩]
    flows := [⟨0, .outgoing, 100, "UZS", none, 0, .actual, some "logistics", none, none, none, none, none, some 0, none,
      none, some 0⟩] }
  awaiting := []

def plainExtra : StageExtra := ⟨none, none, none⟩

def stageCall (stage : SalesStage) : SalesAction := .setSalesStage (yardEnv 1) 0 stage plainExtra

def accrualCall : SalesAction := .accrue (yardEnv 1) ⟨some "margin_rate", none⟩ 0

def oneDeal : List SalesAction := [stageCall .NEW_LEAD, stageCall .WAITING_ADVANCE, stageCall .CLOSED, accrualCall]

theorem saleFits_stockedWorld (k : ℕ) : SaleFits stockedWorld k := by
  have hnone : stockedWorld.db.saleOf k = none := by
    rcases k with _ | k
    · rfl
    · simp [stockedWorld, Db.saleOf, Db.findUnit, Table.lookup]
  have hzero : stockedWorld.db.commissions k + stockedWorld.owed k = 0 := by
    simp [stockedWorld, Db.commissions, isCommissionOf, SalesWorld.owed]
  refine ⟨by omega, fun _ => hzero, fun s hs => ?_⟩
  rw [hnone] at hs
  cases hs

theorem salesLaw_oneDeal :
    SalesLaw (runActions SalesWorld.serve stockedWorld oneDeal).1 (runActions SalesWorld.serve stockedWorld oneDeal).2 ∧
      (runActions SalesWorld.serve stockedWorld oneDeal).2.db.commissions 0 = 1 :=
  ⟨salesLaw_of_run (run_serve stockedWorld (by simp [oneDeal, stageCall, accrualCall])) saleFits_stockedWorld
    (by
      simp only [oneDeal, runActions, List.forall_mem_cons]
      refine ⟨?_, ?_, ?_, trivial, List.forall_mem_nil _⟩ <;> intro _ <;> decide +kernel), by decide +kernel⟩

/-- A closed deal is closed again, and paid for again. -/
def closedAgain : List SalesAction := [stageCall .CLOSED, accrualCall, stageCall .CLOSED, accrualCall]

theorem commission_paid_twice :
    ∃ steps w, Run SalesNext stockedWorld steps w ∧ w.db.commissions 0 = 2 ∧ ¬ SalesLaw steps w := by
  have hrun := @run_serve stockedWorld closedAgain (by simp [closedAgain, stageCall, accrualCall])
  have htwo : (runActions SalesWorld.serve stockedWorld closedAgain).2.db.commissions 0 = 2 := by decide +kernel
  refine ⟨_, _, hrun, htwo, fun hlaw => ?_⟩
  have hone := hlaw.paid 0
  omega

end Mydon.Globerent
