import Mydon.Contracts.Service
import Mydon.Lib.Run
import Mathlib.Data.List.Infix

/-! What settling writes off. The rows of a schedule that payments have closed are weighed against the payments that
are not rows of the schedule themselves. -/

namespace Mydon.Contracts

open Mydon.Lib Mydon.Finance Mydon.Stock

/-! The sums. -/

/-- A row of the schedule: payments have no due date. -/
def isScheduleRow (k : ℕ) (f : Flow) : Bool := f.contractId = some k && f.direction = .incoming && f.dueDate.isSome

/-- Closed by `settleCoveredSchedule`. -/
def isSettled (settled : List ℕ) (k : ℕ) (f : Flow) : Bool := f.contractId = some k && f.id ∈ settled

def Db.settledSum (g : ℚ → ℚ) (db : Db) (k : ℕ) : ℚ := Table.weigh (isSettled db.settled k) (fun f => g f.amount) db.flows

def Db.settledAmount : Db → ℕ → ℚ := Db.settledSum fun amount => amount

def Db.settledCount : Db → ℕ → ℚ := Db.settledSum fun _ => 1

/-- What the rows of the schedule that became payments themselves are paid with; they are in sums. -/
def directlyPaid (flows : List Flow) (k : ℕ) : ℚ :=
  Table.weigh (fun f => isScheduleRow k f && f.status = .actual) Finance.Flow.uzs flows

/-- A payment that came in by itself. -/
def isPayment (k : ℕ) (f : Flow) : Bool :=
  f.contractId = some k && f.direction = .incoming && f.dueDate.isNone && f.status = .actual

def received (flows : List Flow) (k : ℕ) : ℚ := Table.weigh (isPayment k) Finance.Flow.uzs flows

variable {env : Env} {db db' : Db} {id k : ℕ} {flows flows' : List Flow} {f : Flow}

theorem paidUzs_eq (flows : List Flow) (k : ℕ) : paidUzs flows k = directlyPaid flows k + received flows k := by
  unfold directlyPaid received
  rw [← Table.weigh_or]
  · unfold paidUzs Table.weigh
    congr 3
    funext f
    unfold isScheduleRow isPayment
    rcases f.dueDate with _ | d <;> simp [Bool.and_assoc]
  · rintro f - ⟨hrow, hpayment⟩
    simp only [isScheduleRow, isPayment, Bool.and_eq_true] at hrow hpayment
    rw [Option.isNone_iff_eq_none.mp hpayment.1.2] at hrow
    simp at hrow

/-! Covered rows. -/

theorem coveredRows_prefix (available : ℚ) (rows : List Flow) :
    coveredRows available rows <+: rows.filter fun f => f.status = .planned := by
  induction rows generalizing available with
  | nil => exact List.prefix_refl _
  | cons f rows ih =>
    unfold coveredRows
    split_ifs with hstatus hstop
    · rw [List.filter_cons_of_neg (by simpa using hstatus)]
      exact ih available
    · exact List.nil_prefix
    · rw [List.filter_cons_of_pos (by simpa using hstatus)]
      exact List.cons_prefix_cons.mpr ⟨rfl, ih _⟩

/-- The rows that are covered add up to what is available, and a cent more at most. -/
theorem sum_coveredRows_le {available : ℚ} {rows : List Flow} (h : -(1 / 100) ≤ available) :
    ((coveredRows available rows).map Finance.Flow.amount).sum ≤ available + 1 / 100 := by
  induction rows generalizing available with
  | nil =>
    simp only [coveredRows, List.map_nil, List.sum_nil]
    linarith
  | cons f rows ih =>
    unfold coveredRows
    split_ifs with hstatus hstop
    · exact ih h
    · rw [List.map_nil, List.sum_nil]
      linarith
    · push Not at hstop
      rw [List.map_cons, List.sum_cons]
      have hrest := @ih (available - f.amount) (by linarith)
      linarith

def openRows (flows : List Flow) (k : ℕ) : List Flow := (scheduleOf flows k).filter fun f => f.status = .planned

theorem mem_scheduleOf : f ∈ scheduleOf flows k ↔ f ∈ flows ∧ isScheduled k f = true := by
  unfold scheduleOf
  rw [(List.perm_insertionSort _ _).mem_iff, List.mem_filter]

theorem scheduleOf_nodup (h : flows.Nodup) : (scheduleOf flows k).Nodup := by
  unfold scheduleOf
  exact (List.perm_insertionSort _ _).nodup_iff.mpr (h.filter _)

/-! What holds of the tables. -/

structure LedgerFits (db : Db) : Prop where
  numbered : db.flows.map Finance.Flow.id = List.range db.flows.length
  /-- What is expected has a due date. -/
  due : ∀ f ∈ db.flows, f.contractId ≠ none → f.direction = .incoming → f.dueDate = none → f.status ≠ .planned
  closed : ∀ f ∈ db.flows, f.id ∈ db.settled → f.status = .cancelled
  known : ∀ i ∈ db.settled, i < db.flows.length

theorem LedgerFits.nodup (h : LedgerFits db) : (db.flows.map Finance.Flow.id).Nodup := by
  rw [h.numbered]
  exact List.nodup_range

theorem LedgerFits.id_lt (h : LedgerFits db) (hf : f ∈ db.flows) : f.id < db.flows.length := by
  have hmem : f.id ∈ db.flows.map Finance.Flow.id := List.mem_map_of_mem hf
  rw [h.numbered] at hmem
  exact List.mem_range.mp hmem

/-- Settling never writes off what is still owed, but for a cent a row. -/
def Covered (db : Db) (k : ℕ) : Prop :=
  db.settledAmount k ≤ paidUzs db.flows k - directlyPaid db.flows k + db.settledCount k / 100

theorem covered_iff : Covered db k ↔ db.settledAmount k ≤ received db.flows k + db.settledCount k / 100 := by
  unfold Covered
  rw [paidUzs_eq, add_sub_cancel_left]

/-! New flows. -/

structure Appended (flows news : List Flow) : Prop where
  numbered : (flows ++ news).map Finance.Flow.id = List.range (flows ++ news).length
  due : ∀ f ∈ news, f.direction = .incoming → f.dueDate = none → f.status ≠ .planned
  worth : ∀ f ∈ news, f.status = .actual → 0 ≤ f.uzs

theorem Appended.le_id {news : List Flow} (h : Appended flows news) (hf : f ∈ news) : flows.length ≤ f.id := by
  obtain ⟨i, hi, rfl⟩ := List.getElem_of_mem hf
  have hid : (news[i]).id = flows.length + i := by
    have hget := congrArg (fun l => l[flows.length + i]?) h.numbered
    simpa [List.getElem?_append_right, hi] using hget
  omega

theorem numbered_snoc (h : flows.map Finance.Flow.id = List.range flows.length) (hid : f.id = flows.length) :
    (flows ++ [f]).map Finance.Flow.id = List.range (flows ++ [f]).length := by
  rw [List.map_append, List.map_singleton, List.length_append, List.length_singleton, List.range_succ, h, hid]

theorem insertFlow_eq_ok {contract : ℕ} {input : CreateFlowInput} (h : insertFlow env contract input flows = .ok flows') :
    ∃ f, flows' = flows ++ [f] ∧ f.id = flows.length ∧ f.direction = input.direction ∧
      f.status = input.status.toStatus ∧ f.dueDate = input.dueDate ∧ f.contractId = some contract ∧
      ∃ created, createFlow env.finance flows.length env.now input = .ok created ∧ f.uzs = created.uzs := by
  obtain ⟨created, hcreated, h⟩ := Js.bind_eq_ok.mp h
  obtain ⟨hid, hdirection, hstatus, -, -, -, hdue, -⟩ := createFlow_eq_ok hcreated
  obtain rfl := Except.ok.inj h
  exact ⟨_, rfl, hid, hdirection, hstatus, hdue, rfl, created, hcreated, rfl⟩

theorem insertFlow_appended {contract : ℕ} {input : CreateFlowInput} {news : List Flow}
    (h : insertFlow env contract input (flows ++ news) = .ok flows') (hnews : Appended flows news)
    (hstatus : input.status = .planned) (hdue : input.direction = .incoming → input.dueDate ≠ none) :
    ∃ news', flows' = flows ++ news' ∧ Appended flows news' := by
  obtain ⟨f, rfl, hid, hdirection, hf, hfdue, -, -⟩ := insertFlow_eq_ok h
  have hplanned : f.status = .planned := by
    rw [hf, hstatus]
    rfl
  refine ⟨news ++ [f], List.append_assoc _ _ _, ⟨?_, fun g hg hin hnone => ?_, fun g hg hactual => ?_⟩⟩
  · rw [← List.append_assoc]
    exact numbered_snoc hnews.numbered hid
  · rcases List.mem_append.mp hg with hold | hnew
    · exact hnews.due g hold hin hnone
    · rw [List.mem_singleton.mp hnew] at hin hnone
      rw [hfdue] at hnone
      exact absurd hnone (hdue (hdirection ▸ hin))
  · rcases List.mem_append.mp hg with hold | hnew
    · exact hnews.worth g hold hactual
    · rw [List.mem_singleton.mp hnew, hplanned] at hactual
      cases hactual

theorem createPlannedSchedule_appended {payType : Option PayType} {p : DocParams} {row : Contract}
    (hnumbered : flows.map Finance.Flow.id = List.range flows.length)
    (h : createPlannedSchedule env payType p row flows = .ok flows') : ∃ news, flows' = flows ++ news ∧ Appended flows news := by
  unfold createPlannedSchedule at h
  have hstart : ∃ news, flows = flows ++ news ∧ Appended flows news :=
    ⟨[], (List.append_nil _).symm, ⟨by rwa [List.append_nil], List.forall_mem_nil _, List.forall_mem_nil _⟩⟩
  generalize plannedSchedule env payType p row = rows at h
  -- what the rows before have appended
  suffices hrows : ∀ (rows : List ScheduleRow) (cur : List Flow), (∃ news, cur = flows ++ news ∧ Appended flows news) →
      rows.foldlM (fun flows r => do
        let amount ← Js.orThrow r.amount (.badRequest "Сумма — положительное число")
        insertFlow env row.id (scheduleFlow row r amount) flows) cur = .ok flows' →
      ∃ news, flows' = flows ++ news ∧ Appended flows news from hrows rows flows hstart h
  intro rows
  induction rows with
  | nil =>
    intro cur hcur hrun
    obtain rfl := Except.ok.inj hrun
    exact hcur
  | cons r rows ih =>
    intro cur hcur hrun
    obtain ⟨news, rfl, hnews⟩ := hcur
    rw [List.foldlM_cons] at hrun
    obtain ⟨next, hnext, hrun⟩ := Js.bind_eq_ok.mp hrun
    obtain ⟨amount, -, hinsert⟩ := Js.bind_eq_ok.mp hnext
    exact ih next (insertFlow_appended hinsert hnews rfl fun _ => by simp [scheduleFlow]) hrun

theorem create_flows {input : CreateContractInput} (hnumbered : db.flows.map Finance.Flow.id = List.range db.flows.length)
    (h : create env input db = .ok db') :
    db'.settled = db.settled ∧ ∃ news, db'.flows = db.flows ++ news ∧ Appended db.flows news := by
  obtain ⟨row, flows₁, hschedule, hcommission, hsettled⟩ : ∃ row flows₁,
      createPlannedSchedule env input.payType input.docParams row db.flows = .ok flows₁ ∧
      (∃ amount, createCommission env row input.agentId amount input.agentCommissionCurrency flows₁ = .ok db'.flows) ∧
      db'.settled = db.settled := by
    unfold create at h
    iterate 12 obtain ⟨_, -, h⟩ := Js.bind_eq_ok.mp h
    obtain ⟨flows₁, hschedule, h⟩ := Js.bind_eq_ok.mp h
    obtain ⟨flows₂, hcommission, h⟩ := Js.bind_eq_ok.mp h
    obtain rfl := Except.ok.inj h
    exact ⟨_, flows₁, hschedule, ⟨_, hcommission⟩, rfl⟩
  obtain ⟨news, rfl, hnews⟩ := createPlannedSchedule_appended hnumbered hschedule
  refine ⟨hsettled, ?_⟩
  obtain ⟨amount, hcommission⟩ := hcommission
  unfold createCommission at hcommission
  split at hcommission
  · exact insertFlow_appended hcommission hnews rfl fun hin => by simp [commissionFlow] at hin
  · exact ⟨news, (Except.ok.inj hcommission).symm, hnews⟩

/-! What the operations do to the sums. -/

/-- A change that keeps what is settled of a contract, and takes nothing received away. -/
structure Keeps (db db' : Db) (k : ℕ) : Prop where
  settled : ∀ g, db'.settledSum g k = db.settledSum g k
  received : received db.flows k ≤ received db'.flows k

theorem Keeps.covered (h : Keeps db db' k) (hcovered : Covered db k) : Covered db' k := by
  rw [covered_iff] at hcovered ⊢
  unfold Db.settledAmount Db.settledCount at hcovered ⊢
  rw [h.settled, h.settled]
  exact hcovered.trans (add_le_add_left h.received _)

theorem append_keeps {news : List Flow} (hfits : LedgerFits db) (hflows : db'.flows = db.flows ++ news)
    (hsettled : db'.settled = db.settled) (hnews : Appended db.flows news) : LedgerFits db' ∧ ∀ k, Keeps db db' k := by
  have hnot : ∀ f ∈ news, f.id ∉ db.settled := by
    intro f hf hmem
    have hlt := hfits.known _ hmem
    have hle := hnews.le_id hf
    omega
  refine ⟨⟨by rw [hflows]; exact hnews.numbered, ?_, ?_, ?_⟩, fun k => ⟨fun g => ?_, ?_⟩⟩
  · rw [hflows]
    intro f hf hlink hin hdue
    rcases List.mem_append.mp hf with hold | hnew
    · exact hfits.due f hold hlink hin hdue
    · exact hnews.due f hnew hin hdue
  · rw [hflows, hsettled]
    intro f hf hmem
    rcases List.mem_append.mp hf with hold | hnew
    · exact hfits.closed f hold hmem
    · exact absurd hmem (hnot f hnew)
  · rw [hflows, hsettled, List.length_append]
    intro i hi
    exact lt_of_lt_of_le (hfits.known i hi) (Nat.le_add_right _ _)
  · have hzero : Table.weigh (isSettled db.settled k) (fun f => g f.amount) news = 0 :=
      Table.weigh_eq_zero fun f hf => by simp [isSettled, hnot f hf]
    unfold Db.settledSum
    rw [hflows, hsettled, Table.weigh_append, hzero, add_zero]
  · unfold received
    rw [hflows, Table.weigh_append]
    refine le_add_of_nonneg_right (Table.weigh_nonneg fun f hf hpay => hnews.worth f hf ?_)
    simp only [isPayment, Bool.and_eq_true, decide_eq_true_eq] at hpay
    exact hpay.2

/-- One row is written: its amount and its contract stay, and it is not a settled one. -/
theorem write_settled {old : Flow} (hfits : LedgerFits db) (hold : Table.lookup Finance.Flow.id db.flows f.id = some old)
    (hopen : old.status ≠ .cancelled) (g : ℚ → ℚ) :
    ({ db with flows := Table.write Finance.Flow.id db.flows f } : Db).settledSum g k = db.settledSum g k := by
  have holdId : old.id = f.id := Table.key_of_lookup hold
  have hnot : f.id ∉ db.settled := by
    rw [← holdId]
    exact fun hmem => hopen (hfits.closed old (Table.mem_of_lookup hold) hmem)
  have hfNot : isSettled db.settled k f = false := by simp [isSettled, hnot]
  have holdNot : isSettled db.settled k old = false := by simp [isSettled, holdId, hnot]
  have hweigh := @Table.weigh_write _ _ _ Finance.Flow.id db.flows f (isSettled db.settled k) (fun f => g f.amount) old
    hfits.nodup hold
  rw [hfNot, holdNot] at hweigh
  simp only [Bool.false_eq_true, if_false, add_zero] at hweigh
  exact hweigh

/-- The tables after one row is written, which stays as it was but for its state. -/
theorem write_fits {old : Flow} (hfits : LedgerFits db) (hold : Table.lookup Finance.Flow.id db.flows f.id = some old)
    (hopen : old.status ≠ .cancelled) (hf : f.status ≠ .planned) :
    LedgerFits { db with flows := Table.write Finance.Flow.id db.flows f } := by
  have holdId : old.id = f.id := Table.key_of_lookup hold
  have hlength : (Table.write Finance.Flow.id db.flows f).length = db.flows.length := List.length_map _
  refine ⟨?_, fun g hg hlink hin hdue => ?_, fun g hg hmem => ?_, fun i hi => ?_⟩
  · rw [hlength, Table.map_key_write]
    exact hfits.numbered
  · rcases Table.mem_write.mp hg with ⟨hold', -⟩ | ⟨rfl, -⟩
    · exact hfits.due g hold' hlink hin hdue
    · exact hf
  · rcases Table.mem_write.mp hg with ⟨hold', -⟩ | ⟨rfl, -⟩
    · exact hfits.closed g hold' hmem
    · rw [← holdId] at hmem
      exact absurd (hfits.closed old (Table.mem_of_lookup hold) hmem) hopen
  · rw [hlength]
    exact hfits.known i hi

theorem payFlow_keeps {rate : Option ℚ} (hfits : LedgerFits db) (h : payFlow env id rate db = .ok db') :
    LedgerFits db' ∧ ∀ k, Keeps db db' k := by
  obtain ⟨f, hf, rfl⟩ := Js.map_eq_ok.mp h
  obtain ⟨old, uzs, r, hold, hplanned, hrow⟩ := markPaid_eq_ok hf
  have holdId : old.id = id := Table.key_of_lookup hold
  have hid : f.id = id := by
    rw [hrow]
    exact holdId
  rw [← hid] at hold
  have hopen : old.status ≠ .cancelled := by rw [hplanned]; decide
  refine ⟨write_fits hfits hold hopen (by rw [hrow]; simp), fun k => ⟨write_settled hfits hold hopen, ?_⟩⟩
  have hweigh := @Table.weigh_write _ _ _ Finance.Flow.id db.flows f (isPayment k) Finance.Flow.uzs old hfits.nodup hold
  -- a row that was expected is no payment of its own
  have holdNot : isPayment k old = false := by simp [isPayment, hplanned]
  have hfNot : isPayment k f = false := by
    by_contra hpay
    simp only [isPayment, Bool.not_eq_false, Bool.and_eq_true, decide_eq_true_eq, Option.isNone_iff_eq_none] at hpay
    obtain ⟨⟨⟨hlink, hin⟩, hdue⟩, -⟩ := hpay
    rw [hrow] at hlink hin hdue
    exact hfits.due old (Table.mem_of_lookup hold) (by simp [show old.contractId = some k from hlink]) hin hdue hplanned
  rw [holdNot, hfNot] at hweigh
  simp only [Bool.false_eq_true, if_false, add_zero] at hweigh
  exact le_of_eq hweigh.symm

theorem cancelFlow_cases (hfits : LedgerFits db) (h : cancelFlow id db = .ok db') :
    LedgerFits db' ∧ ∃ old, Table.lookup Finance.Flow.id db.flows id = some old ∧ ∀ k,
      (∀ g, db'.settledSum g k = db.settledSum g k) ∧
      received db'.flows k + (if isPayment k old then old.uzs else 0) = received db.flows k := by
  obtain ⟨f, hf, rfl⟩ := Js.map_eq_ok.mp h
  obtain ⟨old, hold, hopen, hrow⟩ := cancelFlow_eq_ok hf
  have holdId : old.id = id := Table.key_of_lookup hold
  have hid : f.id = id := by
    rw [hrow]
    exact holdId
  have hfound := hold
  rw [← hid] at hold
  refine ⟨write_fits hfits hold hopen (by rw [hrow]; simp), old, hfound, fun k => ⟨write_settled hfits hold hopen, ?_⟩⟩
  have hweigh := @Table.weigh_write _ _ _ Finance.Flow.id db.flows f (isPayment k) Finance.Flow.uzs old hfits.nodup hold
  have hfNot : isPayment k f = false := by
    rw [hrow]
    simp [isPayment]
  rw [hfNot] at hweigh
  simp only [Bool.false_eq_true, if_false, add_zero] at hweigh
  exact hweigh

/-! Settling. -/

/-- The rows that are closed, among all flows. -/
theorem filter_mem_perm {rows : List Flow} (hflows : flows.Nodup) (hrows : rows.Nodup) (hsub : ∀ f ∈ rows, f ∈ flows) :
    (flows.filter (· ∈ rows)).Perm rows := by
  refine (List.perm_ext_iff_of_nodup (hflows.filter _) hrows).mpr fun f => ?_
  rw [List.mem_filter, decide_eq_true_eq]
  exact ⟨fun h => h.2, fun h => ⟨hsub f h, h⟩⟩

theorem settle_cases {paid : ℚ} {now : ℤ} (hfits : LedgerFits db) :
    let rows := coveredRows (max 0 (paid - alreadySettled db.flows id)) (scheduleOf db.flows id)
    let db' := settleCoveredSchedule id paid now db
    LedgerFits db' ∧ (∀ k, received db'.flows k = received db.flows k) ∧ ∀ k g,
      db'.settledSum g k = db.settledSum g k + if k = id then (rows.map fun f => g f.amount).sum else 0 := by
  intro rows db'
  have hleading : rows <+: (scheduleOf db.flows id).filter fun f => f.status = .planned := coveredRows_prefix _ _
  have hrows : ∀ f ∈ rows, f ∈ db.flows ∧ f.contractId = some id ∧ f.status = .planned := by
    intro f hf
    obtain ⟨hmem, hplanned⟩ := List.mem_filter.mp (hleading.subset hf)
    obtain ⟨hflow, hscheduled⟩ := mem_scheduleOf.mp hmem
    simp only [isScheduled, Bool.and_eq_true, decide_eq_true_eq] at hscheduled
    exact ⟨hflow, hscheduled.1.1, by simpa using hplanned⟩
  have hflowsNodup : db.flows.Nodup := hfits.nodup.of_map _
  have hrowsNodup : rows.Nodup := ((scheduleOf_nodup hflowsNodup).filter _).sublist hleading.sublist
  have hmem : ∀ f ∈ db.flows, f.id ∈ rows.map Finance.Flow.id ↔ f ∈ rows := by
    intro f hf
    refine ⟨fun h => ?_, List.mem_map_of_mem⟩
    obtain ⟨r, hr, hid⟩ := List.mem_map.mp h
    rwa [← Table.eq_of_key_eq hfits.nodup (hrows r hr).1 hf hid]
  have hflows' : db'.flows = db.flows.map fun f =>
      if f.id ∈ rows.map Finance.Flow.id then { f with status := .cancelled, paidAt := some now } else f := rfl
  have hsettled' : db'.settled = db.settled ++ rows.map Finance.Flow.id := rfl
  have hlength : db'.flows.length = db.flows.length := List.length_map _
  have hids : db'.flows.map Finance.Flow.id = db.flows.map Finance.Flow.id := by
    rw [hflows', List.map_map]
    refine List.map_congr_left fun f _ => ?_
    simp only [Function.comp_apply]
    split_ifs <;> rfl
  refine ⟨⟨?_, fun f hf hlink hin hdue => ?_, fun f hf hset => ?_, fun i hi => ?_⟩, fun k => ?_, fun k g => ?_⟩
  · rw [hids, hlength]
    exact hfits.numbered
  · rw [hflows'] at hf
    obtain ⟨f₀, hf₀, rfl⟩ := List.mem_map.mp hf
    split_ifs at hlink hin hdue ⊢ with hin'
    · simp
    · exact hfits.due f₀ hf₀ hlink hin hdue
  · rw [hflows'] at hf
    obtain ⟨f₀, hf₀, rfl⟩ := List.mem_map.mp hf
    split_ifs at hset ⊢ with hin'
    · rfl
    · rw [hsettled'] at hset
      exact hfits.closed f₀ hf₀ ((List.mem_append.mp hset).resolve_right hin')
  · rw [hlength]
    rw [hsettled'] at hi
    rcases List.mem_append.mp hi with hold | hnew
    · exact hfits.known i hold
    · obtain ⟨r, hr, rfl⟩ := List.mem_map.mp hnew
      exact hfits.id_lt (hrows r hr).1
  · unfold received
    rw [hflows', Table.weigh_map]
    refine Table.weigh_congr fun f hf => ?_
    split_ifs with hin'
    · have hplanned := (hrows f ((hmem f hf).mp hin')).2.2
      have hnot : isPayment k f = false := by simp [isPayment, hplanned]
      rw [hnot]
      simp [isPayment]
    · exact ⟨rfl, fun _ => rfl⟩
  · unfold Db.settledSum
    rw [hflows', Table.weigh_map, hsettled']
    have hsplit : Table.weigh (fun f => isSettled (db.settled ++ rows.map Finance.Flow.id) k
          (if f.id ∈ rows.map Finance.Flow.id then { f with status := .cancelled, paidAt := some now } else f))
        (fun f => g (if f.id ∈ rows.map Finance.Flow.id then { f with status := .cancelled, paidAt := some now } else f : Flow).amount)
        db.flows =
        Table.weigh (fun f => isSettled db.settled k f || (decide (k = id) && decide (f ∈ rows))) (fun f => g f.amount)
          db.flows := by
      refine Table.weigh_congr fun f hf => ⟨?_, fun _ => ?_⟩
      · have hrow := hmem f hf
        by_cases hin' : f ∈ rows
        · have hlink := (hrows f hin').2.1
          rw [if_pos (hrow.mpr hin')]
          simp only [isSettled, List.mem_append, hrow.mpr hin', hin', hlink, or_true, decide_true, Bool.and_true,
            Option.some.injEq]
          by_cases hk : k = id
          · subst hk
            simp
          · simp [hk, Ne.symm hk]
        · rw [if_neg fun h => hin' (hrow.mp h)]
          have hnotId : f.id ∉ rows.map Finance.Flow.id := fun h => hin' (hrow.mp h)
          simp only [isSettled, List.mem_append, hnotId, hin', or_false, decide_false, Bool.and_false, Bool.or_false]
      · split_ifs <;> rfl
    rw [hsplit, Table.weigh_or]
    · congr 1
      split_ifs with hk
      · have hperm := filter_mem_perm hflowsNodup hrowsNodup fun f hf => (hrows f hf).1
        unfold Table.weigh
        simp only [hk, decide_true, Bool.true_and]
        exact (hperm.map _).sum_eq
      · refine Table.weigh_eq_zero fun f _ => by simp [hk]
    · rintro f hf ⟨hset, hnew⟩
      simp only [isSettled, Bool.and_eq_true, decide_eq_true_eq] at hset hnew
      have hclosed := hfits.closed f hf hset.2
      rw [(hrows f hnew.2).2.2] at hclosed
      cases hclosed

/-! A payment. -/

theorem numeric_nonneg {precision scale : ℕ} {x y : ℚ} (hx : 0 ≤ x) (h : numeric precision scale x = .ok y) : 0 ≤ y := by
  unfold numeric at h
  dsimp only at h
  rw [if_neg (not_lt.mpr hx)] at h
  split_ifs at h
  obtain rfl := Except.ok.inj h
  have hfloor : (0 : ℤ) ≤ ⌊|x| * 10 ^ scale + 1 / 2⌋ := Int.floor_nonneg.mpr (by positivity)
  have hcast : (0 : ℚ) ≤ (⌊|x| * 10 ^ scale + 1 / 2⌋ : ℤ) := by exact_mod_cast hfloor
  positivity

/-- A rate is set only as a positive number. -/
def Env.RatesPositive (env : Env) : Prop := ∀ currency rate, env.finance.fxRate currency = some rate → 0 < rate

theorem createFlow_worth {now : ℤ} {input : CreateFlowInput} (hrates : env.RatesPositive)
    (h : createFlow env.finance id now input = .ok f) : 0 ≤ f.uzs := by
  obtain ⟨prep, hprep, hwrite⟩ := Js.bind_eq_ok.mp h
  obtain ⟨_, -, hprep⟩ := Js.bind_eq_ok.mp hprep
  obtain ⟨_, hpositive, hprep⟩ := Js.bind_eq_ok.mp hprep
  obtain ⟨_, -, hprep⟩ := Js.bind_eq_ok.mp hprep
  obtain ⟨_, hrate, hprep⟩ := Js.bind_eq_ok.mp hprep
  obtain ⟨_, -, hprep⟩ := Js.bind_eq_ok.mp hprep
  obtain rfl := Except.ok.inj hprep
  obtain ⟨amount, hamount, hwrite⟩ := Js.bind_eq_ok.mp hwrite
  obtain ⟨_, -, hwrite⟩ := Js.bind_eq_ok.mp hwrite
  obtain ⟨uzs, huzs, hwrite⟩ := Js.bind_eq_ok.mp hwrite
  obtain rfl := Except.ok.inj hwrite
  have hinput : 0 < input.amount := Js.require_eq_ok.mp hpositive
  unfold Finance.Flow.uzs
  dsimp only
  split_ifs with hcurrency
  · exact numeric_nonneg hinput.le hamount
  · rcases uzs with _ | value
    · exact le_rfl
    · dsimp only at huzs
      rw [if_neg hcurrency] at huzs
      generalize hchosen : input.rate.or _ = rate at huzs
      rcases rate with _ | rate
      · cases Except.ok.inj huzs
      · obtain ⟨y, hy, hvalue⟩ := Js.map_eq_ok.mp huzs
        obtain rfl := Option.some.inj hvalue
        have hpos : 0 < rate := by
          rcases hgiven : input.rate with _ | given
          · rw [hgiven, Option.none_or, if_neg hcurrency] at hchosen
            exact hrates _ _ hchosen
          · rw [hgiven, Option.some_or] at hchosen
            obtain rfl := Option.some.inj hchosen
            have hall := Js.require_eq_ok.mp hrate
            rw [hgiven] at hall
            simpa using hall
        exact numeric_nonneg (mul_nonneg hinput.le hpos.le) hy

theorem addPayment_eq_ok {input : AddPaymentInput} (hfits : LedgerFits db) (hrates : env.RatesPositive)
    (h : addPayment env id input db = .ok db') :
    ∃ row flows, db.findContract id = some row ∧ insertFlow env id (paymentFlow row input) db.flows = .ok flows ∧
      db' = settleCoveredSchedule id (paidUzs flows id) env.now { db with flows } ∧
      ∃ news, flows = db.flows ++ news ∧ Appended db.flows news := by
  obtain ⟨row, hrow, h⟩ := Js.bind_eq_ok.mp h
  obtain ⟨_, -, h⟩ := Js.bind_eq_ok.mp h
  obtain ⟨flows, hflows, h⟩ := Js.bind_eq_ok.mp h
  obtain rfl := Except.ok.inj h
  obtain ⟨f, hf, hid, -, hstatus, -, -, created, hcreated, huzs⟩ := insertFlow_eq_ok hflows
  have hactual : f.status = .actual := hstatus
  refine ⟨row, flows, Js.orThrow_eq_ok.mp hrow, hflows, rfl, [f], hf, ⟨?_, fun g hg _ _ => ?_, fun g hg _ => ?_⟩⟩
  · exact numbered_snoc hfits.numbered hid
  · rw [List.mem_singleton.mp hg, hactual]
    decide
  · rw [List.mem_singleton.mp hg, huzs]
    exact createFlow_worth hrates hcreated

/-! Runs. -/

inductive ContractOp
  | create (input : CreateContractInput)
  | setStatus (id : ℕ) (status : ContractStatus)
  | addPayment (id : ℕ) (input : AddPaymentInput)
  | markPaid (id : ℕ) (rate : Option ℚ)
  | cancelFlow (id : ℕ)

def ContractOp.perform (env : Env) (db : Db) : ContractOp → Except Js.HttpError Db
  | .create input => Contracts.create env input db
  | .setStatus id status => Contracts.setStatus id status db
  | .addPayment id input => Contracts.addPayment env id input db
  | .markPaid id rate => payFlow env id rate db
  | .cancelFlow id => Contracts.cancelFlow id db

structure ContractCall where
  env : Env
  op : ContractOp
  rates : env.RatesPositive

/-- An operation that is refused is rolled back. -/
def ContractCall.run (db : Db) (call : ContractCall) : Db :=
  match call.op.perform call.env db with
  | .ok db' => db'
  | .error _ => db

def ContractNext (db : Db) (call : ContractCall) (db' : Db) : Prop := db' = call.run db

/-- What is free to cover rows of the schedule: what came in, less what it has covered so far. -/
def free (flows : List Flow) (db : Db) (k : ℕ) : ℚ := paidUzs flows k - directlyPaid flows k - db.settledAmount k

/-- The code counts the direct payments of rows as free. Where that lets it see open rows as covered, what is really
free covers them; and a payment is cancelled only where what is left is enough for the rows it has covered. -/
structure KeepsReceivable (e : Step Db ContractCall) : Prop where
  covers : ∀ id input row flows, e.action.op = .addPayment id input → e.before.findContract id = some row →
    insertFlow e.action.env id (paymentFlow row input) e.before.flows = .ok flows →
    ∀ rows, rows <+: openRows flows id → rows ≠ [] →
      (rows.map Finance.Flow.amount).sum ≤ max 0 (paidUzs flows id - alreadySettled flows id) + 1 / 100 →
      (rows.map Finance.Flow.amount).sum ≤ free flows e.before id + (e.before.settledCount id + rows.length) / 100
  enough : ∀ id f k, e.action.op = .cancelFlow id → Table.lookup Finance.Flow.id e.before.flows id = some f →
    isPayment k f = true → 0 ≤ free e.before.flows e.before k - f.uzs + e.before.settledCount k / 100

/-- No run writes off what is owed. -/
def ReceivableLaw (db : Db) : Prop := ∀ k, Covered db k

theorem sum_map_one (rows : List Flow) : (rows.map fun _ => (1 : ℚ)).sum = rows.length := by
  rw [List.map_const', List.sum_replicate, nsmul_eq_mul, mul_one]

/-- What a payment does: it comes in, and the rows that the code sees covered are closed. -/
theorem addPayment_covered (hfits : LedgerFits db)
    (hlaw : ReceivableLaw db) {news : List Flow} (hflows : flows = db.flows ++ news) (hnews : Appended db.flows news)
    (hcovers : ∀ rows, rows <+: openRows flows id → rows ≠ [] →
      (rows.map Finance.Flow.amount).sum ≤ max 0 (paidUzs flows id - alreadySettled flows id) + 1 / 100 →
      (rows.map Finance.Flow.amount).sum ≤ free flows db id + (db.settledCount id + rows.length) / 100) :
    LedgerFits (settleCoveredSchedule id (paidUzs flows id) env.now { db with flows }) ∧
      ReceivableLaw (settleCoveredSchedule id (paidUzs flows id) env.now { db with flows }) := by
  obtain ⟨hfits₁, hkeeps⟩ := @append_keeps db { db with flows } news hfits hflows rfl hnews
  obtain ⟨hfits', hreceived, hsettled⟩ := @settle_cases { db with flows } id (paidUzs flows id) env.now hfits₁
  refine ⟨hfits', fun k => ?_⟩
  have hcovered := (hkeeps k).covered (hlaw k)
  rw [covered_iff] at hcovered ⊢
  rw [hreceived]
  unfold Db.settledAmount Db.settledCount at hcovered ⊢
  rw [hsettled, hsettled]
  split_ifs with hk
  · subst hk
    rw [sum_map_one]
    generalize hrows : coveredRows (max 0 (paidUzs flows k - alreadySettled flows k)) (scheduleOf flows k) = rows
    by_cases hnil : rows = []
    · rw [hnil]
      simpa using hcovered
    · have hleading : rows <+: openRows flows k := by
        rw [← hrows]
        exact coveredRows_prefix _ _
      have hseen : (rows.map Finance.Flow.amount).sum ≤ max 0 (paidUzs flows k - alreadySettled flows k) + 1 / 100 := by
        rw [← hrows]
        exact sum_coveredRows_le (le_max_of_le_left (by norm_num))
      have hfree := hcovers rows hleading hnil hseen
      have hsame : ({ db with flows } : Db).settledSum (fun amount => amount) k = db.settledAmount k := (hkeeps k).settled _
      have hcount : ({ db with flows } : Db).settledSum (fun _ => 1) k = db.settledCount k := (hkeeps k).settled _
      unfold free at hfree
      rw [paidUzs_eq] at hfree
      rw [hsame, hcount]
      linarith
  · simpa using hcovered

theorem perform_covered {call : ContractCall} (hfits : LedgerFits db) (hlaw : ReceivableLaw db)
    (hkeeps : KeepsReceivable ⟨db, call, db'⟩) (h : call.op.perform call.env db = .ok db') :
    LedgerFits db' ∧ ReceivableLaw db' := by
  obtain ⟨env, op, hrates⟩ := call
  cases op with
  | create input =>
    obtain ⟨hsettled, news, hflows, hnews⟩ := create_flows hfits.numbered h
    obtain ⟨hfits', hkept⟩ := append_keeps hfits hflows hsettled hnews
    exact ⟨hfits', fun k => (hkept k).covered (hlaw k)⟩
  | setStatus id status =>
    have hflows : db'.flows = db.flows ∧ db'.settled = db.settled := by
      obtain ⟨row, -, h⟩ := Js.bind_eq_ok.mp h
      split_ifs at h
      · obtain rfl := Except.ok.inj h
        exact ⟨rfl, rfl⟩
      · obtain ⟨_, -, h⟩ := Js.bind_eq_ok.mp h
        obtain rfl := Except.ok.inj h
        exact ⟨rfl, rfl⟩
    have hnews : Appended db.flows [] :=
      ⟨by rw [List.append_nil]; exact hfits.numbered, List.forall_mem_nil _, List.forall_mem_nil _⟩
    obtain ⟨hfits', hkept⟩ := append_keeps hfits (by rw [List.append_nil]; exact hflows.1) hflows.2 hnews
    exact ⟨hfits', fun k => (hkept k).covered (hlaw k)⟩
  | addPayment id input =>
    obtain ⟨row, flows, hrow, hinsert, rfl, news, hflows, hnews⟩ := addPayment_eq_ok hfits hrates h
    exact @addPayment_covered env db id flows hfits hlaw news hflows hnews
      (hkeeps.covers id input row flows rfl hrow hinsert)
  | markPaid id rate =>
    obtain ⟨hfits', hkept⟩ := payFlow_keeps hfits h
    exact ⟨hfits', fun k => (hkept k).covered (hlaw k)⟩
  | cancelFlow id =>
    obtain ⟨hfits', old, hold, hsums⟩ := cancelFlow_cases hfits h
    refine ⟨hfits', fun k => ?_⟩
    obtain ⟨hsettled, hreceived⟩ := hsums k
    have hcovered := hlaw k
    rw [covered_iff] at hcovered ⊢
    unfold Db.settledAmount Db.settledCount at hcovered ⊢
    rw [hsettled, hsettled]
    by_cases hpay : isPayment k old = true
    · rw [if_pos hpay] at hreceived
      have henough := hkeeps.enough id old k rfl hold hpay
      unfold free Db.settledAmount Db.settledCount at henough
      rw [paidUzs_eq] at henough
      linarith
    · rw [if_neg hpay, add_zero] at hreceived
      rw [hreceived]
      exact hcovered

theorem receivableLaw_of_run {db₀ : Db} {steps : List (Step Db ContractCall)} (hrun : Run ContractNext db₀ steps db)
    (hfits : LedgerFits db₀) (hstart : ReceivableLaw db₀) (hkeeps : ∀ e ∈ steps, KeepsReceivable e) : ReceivableLaw db := by
  have hall : LedgerFits db ∧ ReceivableLaw db := by
    refine @Run.invariant_of _ _ ContractNext db₀ db steps (fun d => LedgerFits d ∧ ReceivableLaw d) KeepsReceivable
      (fun d call d' hd hnext hkeep => ?_) hrun ⟨hfits, hstart⟩ hkeeps
    unfold ContractNext ContractCall.run at hnext
    rcases hok : call.op.perform call.env d with err | after
    · rw [hok] at hnext
      rw [hnext]
      exact hd
    · rw [hok] at hnext
      rw [hnext] at hkeep ⊢
      exact perform_covered hd.1 hd.2 hkeep hok
  exact hall.2

/-! Runs on fixed calls. -/

def emptyDb : Db := ⟨[], [], []⟩

def dealHost : Js.Host := ⟨fun s => s, fun _ => none, fun _ => "", fun _ => "", fun _ _ => 0, fun _ => ""⟩

def dealEnv : Env := ⟨dealHost, ⟨fun s => s, fun _ => none, fun _ => true⟩, fun _ _ => 0, 0⟩

theorem ratesPositive_dealEnv : dealEnv.RatesPositive := fun _ _ h => (nomatch h)

def dealCall (op : ContractOp) : ContractCall := ⟨dealEnv, op, ratesPositive_dealEnv⟩

/-- A loader for 100, in two halves. -/
def twoHalves : CreateContractInput :=
  ⟨none, some 0, none, none, [⟨"Loader", 1, 100⟩], some .tranches,
    ⟨none, [⟨some 50, some 0⟩, ⟨some 50, some 30⟩], none, none, none, none⟩, none, none, none⟩

def payment (amount : ℚ) : ContractOp := .addPayment 0 ⟨amount, none, none, none, none⟩

/-- `KeepsReceivable` of a step that cancels nothing, as it is computed. -/
def coversChecked (e : Step Db ContractCall) : Bool :=
  match e.action.op with
  | .addPayment id input =>
    match e.before.findContract id with
    | none => true
    | some row =>
      match insertFlow e.action.env id (paymentFlow row input) e.before.flows with
      | .error _ => true
      | .ok flows => (openRows flows id).inits.all fun rows => decide (rows ≠ [] →
          (rows.map Finance.Flow.amount).sum ≤ max 0 (paidUzs flows id - alreadySettled flows id) + 1 / 100 →
          (rows.map Finance.Flow.amount).sum ≤ free flows e.before id + (e.before.settledCount id + rows.length) / 100)
  | .cancelFlow _ => false
  | _ => true

theorem keepsReceivable_of_check {e : Step Db ContractCall} (h : coversChecked e = true) : KeepsReceivable e := by
  unfold coversChecked at h
  refine ⟨fun id input row flows hop hrow hinsert rows hleading hne hseen => ?_, fun id f k hop => ?_⟩
  · rw [hop] at h
    dsimp only at h
    rw [hrow] at h
    dsimp only at h
    rw [hinsert] at h
    have hrows := List.all_eq_true.mp h rows ((List.mem_inits _ _).mpr hleading)
    exact of_decide_eq_true hrows hne hseen
  · rw [hop] at h
    simp at h

theorem ledgerFits_emptyDb : LedgerFits emptyDb :=
  ⟨rfl, List.forall_mem_nil _, List.forall_mem_nil _, List.forall_mem_nil _⟩

theorem receivableLaw_emptyDb : ReceivableLaw emptyDb := by
  intro k
  rw [covered_iff]
  simp [Db.settledAmount, Db.settledCount, Db.settledSum, Table.weigh, received, emptyDb]

/-- The halves are paid with two payments, of 60 and of 40. -/
def paidInTwo : List ContractCall := [dealCall (.create twoHalves), dealCall (payment 60), dealCall (payment 40)]

theorem receivableLaw_paidInTwo :
    ReceivableLaw (runActions ContractCall.run emptyDb paidInTwo).2 ∧
      (runActions ContractCall.run emptyDb paidInTwo).2.settled = [0, 1] := by
  refine ⟨receivableLaw_of_run (run_runActions ContractCall.run emptyDb paidInTwo) ledgerFits_emptyDb
    receivableLaw_emptyDb fun e he => keepsReceivable_of_check ?_, by decide +kernel⟩
  have hall : (runActions ContractCall.run emptyDb paidInTwo).1.all coversChecked = true := by decide +kernel
  exact List.all_eq_true.mp hall e he

/-- The first half is marked as paid, and 1 comes in: the second half is closed. -/
def paidDirectly : List ContractCall :=
  [dealCall (.create twoHalves), dealCall (.markPaid 0 none), dealCall (payment 1)]

theorem receivable_written_off :
    ∃ steps db, Run ContractNext emptyDb steps db ∧ db.settledAmount 0 = 50 ∧ paidUzs db.flows 0 = 51 ∧
      directlyPaid db.flows 0 = 50 ∧ ¬ ReceivableLaw db := by
  have hsums : (runActions ContractCall.run emptyDb paidDirectly).2.settledAmount 0 = 50 ∧
      paidUzs (runActions ContractCall.run emptyDb paidDirectly).2.flows 0 = 51 ∧
      directlyPaid (runActions ContractCall.run emptyDb paidDirectly).2.flows 0 = 50 ∧
      (runActions ContractCall.run emptyDb paidDirectly).2.settledCount 0 = 1 := by decide +kernel
  obtain ⟨hsettled, hpaid, hdirect, hcount⟩ := hsums
  refine ⟨_, _, run_runActions ContractCall.run emptyDb paidDirectly, hsettled, hpaid, hdirect, fun hlaw => ?_⟩
  have hcovered := hlaw 0
  unfold Covered at hcovered
  rw [hsettled, hpaid, hdirect, hcount] at hcovered
  norm_num at hcovered

end Mydon.Contracts
