import Mydon.Globerent.Lifecycle

/-! The life cycle moves forward where no recomputation writes over a change it has not read. What a
transaction does is read off contract by contract: the status, and the life cycle. -/

namespace Mydon.Globerent

open Mydon.Lib Mydon.Finance Mydon.Stock

def Db.importState (db : Db) (k : ℕ) : Option (ImportStatus × ImportLifecycle) :=
  (db.findImport k).map fun c => (c.status, c.lifecycleStatus)

def Db.lifecycleOf (db : Db) (k : ℕ) : Option ImportLifecycle := (db.importState k).map Prod.snd

/-- What one operation may do to one contract. -/
inductive LifeMove (op : ImportOp) (k : ℕ) :
    Option (ImportStatus × ImportLifecycle) → Option (ImportStatus × ImportLifecycle) → Prop
  | same (st : Option (ImportStatus × ImportLifecycle)) : LifeMove op k st st
  | created : LifeMove op k none (some (.draft, .draft))
  | signed (l : ImportLifecycle) : LifeMove op k (some (.draft, l)) (some (.in_progress, .signed))
  | marked (s : ImportStatus) : LifeMove op k (some (s, .signed)) (some (s, .paying))
  | cancelled (s : ImportStatus) (l : ImportLifecycle) (h : op = .cancel k) :
    LifeMove op k (some (s, l)) (some (.cancelled, .cancelled))

variable {env : Env} {db db' : Db} {id k : ℕ} {op : ImportOp} {w w' : LifecycleWorld}
  {steps : List (Step LifecycleWorld LifecycleAction)}

theorem importState_eq {c : ImportContract} (h : db.findImport k = some c) :
    db.importState k = some (c.status, c.lifecycleStatus) := by
  unfold Db.importState
  rw [h, Option.map_some]

theorem importState_congr (db : Db) (h : db'.imports = db.imports) : db'.importState k = db.importState k := by
  unfold Db.importState Db.findImport
  rw [h]

theorem findImport_id {c : ImportContract} (h : db.findImport id = some c) : c.id = id := Table.key_of_lookup h

theorem importState_writeImport {c old : ImportContract} (hold : db.findImport c.id = some old) :
    (db.writeImport c).importState k = if k = c.id then some (c.status, c.lifecycleStatus) else db.importState k := by
  unfold Db.importState Db.writeImport Db.findImport
  split_ifs with hk
  · subst hk
    rw [Table.lookup_write_self hold, Option.map_some]
  · rw [Table.lookup_write_of_ne hk]

/-- One contract is written. -/
theorem lifeMove_write {c old : ImportContract} (hold : db.findImport c.id = some old)
    (himports : db'.imports = (db.writeImport c).imports)
    (hmove : LifeMove op c.id (some (old.status, old.lifecycleStatus)) (some (c.status, c.lifecycleStatus))) :
    LifeMove op k (db.importState k) (db'.importState k) := by
  rw [importState_congr (db.writeImport c) himports, importState_writeImport hold]
  by_cases hk : k = c.id
  · subst hk
    rw [if_pos rfl, importState_eq hold]
    exact hmove
  · rw [if_neg hk]
    exact .same _

theorem lifeMove_congr (himports : db'.imports = db.imports) :
    LifeMove op k (db.importState k) (db'.importState k) := by
  rw [importState_congr db himports]
  exact .same _

/-! The operations. -/

theorem create_lifeMove {input : CreateImportInput} (h : createImport env input db = .ok db') :
    LifeMove op k (db.importState k) (db'.importState k) := by
  obtain ⟨c, himports, hstatus, hlifecycle⟩ :
      ∃ c : ImportContract, db'.imports = db.imports ++ [c] ∧ c.status = .draft ∧ c.lifecycleStatus = .draft := by
    unfold createImport at h
    repeat first
      | obtain rfl := Except.ok.inj h; exact ⟨_, rfl, rfl, rfl⟩
      | obtain ⟨_, -, h⟩ := Js.bind_eq_ok.mp h
  unfold Db.importState Db.findImport
  rw [himports, Table.lookup_append]
  rcases hk : Table.lookup ImportContract.id db.imports k with _ | old
  · rcases hnew : Table.lookup ImportContract.id [c] k with _ | c'
    · exact .same _
    · obtain rfl := List.mem_singleton.mp (Table.mem_of_lookup hnew)
      simp only [Option.none_or, Option.map_none, Option.map_some, hstatus, hlifecycle]
      exact .created
  · exact .same _

def ImportContract.signed (c : ImportContract) : ImportContract :=
  { c with status := .in_progress, lifecycleStatus := .signed }

def ImportContract.annulled (c : ImportContract) : ImportContract :=
  { c with status := .cancelled, lifecycleStatus := .cancelled }

/-- What signing writes to the table of contracts, and to that of units. -/
theorem sign_eq_ok (h : sign env id db = .ok db') :
    ∃ c, db.findImport id = some c ∧ c.status = .draft ∧ db'.imports = (db.writeImport c.signed).imports ∧
      db'.units = (materialize c.signed (db.writeImport c.signed)).units ∧
      createPaymentPlan env c.signed (materialize c.signed (db.writeImport c.signed)) = .ok db' := by
  obtain ⟨c, hc, h⟩ := Js.bind_eq_ok.mp h
  obtain ⟨_, hdraft, h⟩ := Js.bind_eq_ok.mp h
  have hplan := h
  obtain ⟨db₁, h₁, h⟩ := Js.bind_eq_ok.mp h
  obtain ⟨hunits₁, -, himports₁⟩ := planPayment_tables h₁
  obtain ⟨hunits, -, himports⟩ := planPayment_tables h
  refine ⟨c, Js.orThrow_eq_ok.mp hc, Js.require_eq_ok.mp hdraft, ?_, ?_, hplan⟩
  · rw [himports, himports₁]
    unfold materialize
    split_ifs <;> rfl
  · rw [hunits, hunits₁]
    rfl

theorem sign_lifeMove (h : sign env id db = .ok db') :
    LifeMove op k (db.importState k) (db'.importState k) := by
  obtain ⟨c, hc, hdraft, himports, -⟩ := sign_eq_ok h
  obtain rfl := findImport_id hc
  refine lifeMove_write (c := c.signed) hc himports ?_
  rw [hdraft]
  exact .signed _

theorem markImportPaid_eq_ok {kind : PaymentKind} (h : markImportPaid env id kind db = .ok db') :
    ∃ c, db.findImport id = some c ∧ c.paidAtOf kind = none ∧ db'.units = db.units ∧
      db'.imports = (db.writeImport (markedContract c kind env.now)).imports := by
  obtain ⟨c, hc, h⟩ := Js.bind_eq_ok.mp h
  obtain ⟨_, hnone, h⟩ := Js.bind_eq_ok.mp h
  refine ⟨c, Js.orThrow_eq_ok.mp hc, Js.require_eq_ok.mp hnone, ?_⟩
  dsimp only at h
  split at h
  · obtain rfl := Except.ok.inj h
    exact ⟨rfl, rfl⟩
  · obtain ⟨_, -, h⟩ := Js.bind_eq_ok.mp h
    obtain rfl := Except.ok.inj h
    exact ⟨rfl, rfl⟩

@[simp] theorem markedContract_id (c : ImportContract) (kind : PaymentKind) (now : ℤ) :
    (markedContract c kind now).id = c.id := by
  cases kind <;> rfl

@[simp] theorem markedContract_status (c : ImportContract) (kind : PaymentKind) (now : ℤ) :
    (markedContract c kind now).status = c.status := by
  cases kind <;> rfl

theorem markImportPaid_lifeMove {kind : PaymentKind} (h : markImportPaid env id kind db = .ok db') :
    LifeMove op k (db.importState k) (db'.importState k) := by
  obtain ⟨c, hc, -, -, himports⟩ := markImportPaid_eq_ok h
  obtain rfl := findImport_id hc
  refine lifeMove_write (by rw [markedContract_id]; exact hc) himports ?_
  rw [markedContract_status]
  cases kind with
  | prepayment =>
    dsimp only [markedContract]
    split_ifs with hsigned
    · rw [hsigned]
      exact .marked _
    · exact .same _
  | balance => exact .same _

theorem cancelImport_eq_ok (h : cancelImport id db = .ok db') :
    ∃ c, db.findImport id = some c ∧ c.status ≠ .cancelled ∧
      db' = db.writeImport c.annulled := by
  obtain ⟨c, hc, h⟩ := Js.bind_eq_ok.mp h
  obtain ⟨_, hnot, h⟩ := Js.bind_eq_ok.mp h
  obtain ⟨_, -, h⟩ := Js.bind_eq_ok.mp h
  exact ⟨c, Js.orThrow_eq_ok.mp hc, Js.require_eq_ok.mp hnot, (Except.ok.inj h).symm⟩

theorem cancelImport_lifeMove (h : cancelImport id db = .ok db') :
    LifeMove (.cancel id) k (db.importState k) (db'.importState k) := by
  obtain ⟨c, hc, -, rfl⟩ := cancelImport_eq_ok h
  obtain rfl := findImport_id hc
  exact lifeMove_write (c := c.annulled) hc rfl (.cancelled _ _ rfl)

theorem bulkUnitAction_eq_ok {action : UnitAction} {extra : ActionExtra} {r : Db × BulkResult}
    (h : bulkUnitAction env id action extra db = .ok r) :
    ∃ f : GloberentUnit → GloberentUnit, r.1 = { db with units := db.units.map f } ∧
      ∀ u, (f u).importContractId = u.importContractId := by
  obtain ⟨_, -, h⟩ := Js.bind_eq_ok.mp h
  obtain ⟨_, -, h⟩ := Js.bind_eq_ok.mp h
  obtain rfl := Except.ok.inj h
  refine ⟨_, rfl, fun u => ?_⟩
  unfold bulkUnit
  split_ifs
  · rfl
  · cases action <;> rfl
  · rfl

theorem payFlow_eq_ok {rate : Option ℚ} (h : payFlow env id rate db = .ok db') :
    ∃ f, markPaid db.flows id rate env.now = .ok f ∧ db' = { db with flows := Table.write Finance.Flow.id db.flows f } := by
  obtain ⟨f, hf, rfl⟩ := Js.map_eq_ok.mp h
  exact ⟨f, hf, rfl⟩

theorem perform_lifeMove (h : op.perform env db = .ok db') :
    LifeMove op k (db.importState k) (db'.importState k) := by
  cases op with
  | create input => exact create_lifeMove h
  | sign id => exact sign_lifeMove h
  | markPaid id kind => exact markImportPaid_lifeMove h
  | bulkUnitAction id action extra =>
    obtain ⟨r, hr, rfl⟩ := Js.map_eq_ok.mp h
    obtain ⟨f, hf, -⟩ := bulkUnitAction_eq_ok hr
    rw [hf]
    exact lifeMove_congr rfl
  | cancel id => exact cancelImport_lifeMove h
  | payFlow id rate =>
    obtain ⟨f, -, rfl⟩ := payFlow_eq_ok h
    exact lifeMove_congr rfl

theorem mem_unitsOf {u : GloberentUnit} : u ∈ db.unitsOf k ↔ u ∈ db.units ∧ u.importContractId = some k := by
  simp [Db.unitsOf]

/-- Signing brings the units of a contract, and nothing else does. -/
theorem perform_unitsOf (h : op.perform env db = .ok db') (hnone : db.unitsOf k = []) :
    db'.unitsOf k = [] ∨ db'.importState k = some (.in_progress, .signed) := by
  have hsame : db'.units = db.units → db'.unitsOf k = [] := by
    intro hunits
    unfold Db.unitsOf
    rw [hunits]
    exact hnone
  cases op with
  | create input =>
    refine .inl (hsame ?_)
    simp only [ImportOp.perform] at h
    unfold createImport at h
    repeat first
      | obtain rfl := Except.ok.inj h; rfl
      | obtain ⟨_, -, h⟩ := Js.bind_eq_ok.mp h
  | sign id =>
    obtain ⟨c, hc, hdraft, himports, hunits, -⟩ := sign_eq_ok h
    obtain rfl := findImport_id hc
    by_cases hk : k = c.id
    · right
      rw [importState_congr _ himports, importState_writeImport (c := c.signed) hc]
      exact if_pos hk
    · left
      unfold materialize at hunits
      split_ifs at hunits
      · exact hsame hunits
      · rw [List.eq_nil_iff_forall_not_mem]
        intro u hu
        rw [mem_unitsOf, hunits, List.mem_append] at hu
        obtain ⟨hu | hu, hcontract⟩ := hu
        · have hmem : u ∈ db.unitsOf k := mem_unitsOf.mpr ⟨hu, hcontract⟩
          rw [hnone] at hmem
          cases hmem
        · obtain ⟨item, -, rfl⟩ := List.mem_map.mp hu
          exact hk (Option.some.inj hcontract).symm
  | markPaid id kind =>
    obtain ⟨_, _, _, hunits, _⟩ := markImportPaid_eq_ok h
    exact .inl (hsame hunits)
  | bulkUnitAction id action extra =>
    left
    obtain ⟨r, hr, rfl⟩ := Js.map_eq_ok.mp h
    obtain ⟨f, hf, hkept⟩ := bulkUnitAction_eq_ok hr
    rw [hf, List.eq_nil_iff_forall_not_mem]
    intro u hu
    obtain ⟨hmem, hcontract⟩ := mem_unitsOf.mp hu
    obtain ⟨u₀, hu₀, rfl⟩ := List.mem_map.mp hmem
    rw [hkept] at hcontract
    have hmem₀ := mem_unitsOf.mpr ⟨hu₀, hcontract⟩
    rw [hnone] at hmem₀
    cases hmem₀
  | cancel id =>
    obtain ⟨_, _, _, rfl⟩ := cancelImport_eq_ok h
    exact .inl (hsame rfl)
  | payFlow id rate =>
    obtain ⟨f, -, rfl⟩ := payFlow_eq_ok h
    exact .inl (hsame rfl)

/-! The recomputations. -/

/-- Some step took the contract from the one life cycle to the other. -/
def Followed (steps : List (Step LifecycleWorld LifecycleAction)) (k : ℕ) (old new : ImportLifecycle) : Prop :=
  ∃ e ∈ steps, e.before.db.lifecycleOf k = some old ∧ e.after.db.lifecycleOf k = some new

/-- The contract is there, and signed. -/
def Signed (db : Db) (k : ℕ) : Prop := ∃ s l, db.importState k = some (s, l) ∧ s ≠ .draft

/-- What a recomputation may rely on: it has units only of a signed contract, and is to write only forward. -/
def Recompute.Fits (steps : List (Step LifecycleWorld LifecycleAction)) (db : Db) : Recompute → Prop
  | .readUnits _ => True
  | .readActs c _ => Signed db c.id
  | .readSales c _ _ => Signed db c.id
  | .write c step => Signed db c.id ∧ c.lifecycleStatus ≠ .closed ∧ c.lifecycleStatus ≠ .cancelled ∧
      c.lifecycleStatus.rank < step.rank
  | .record c step => Followed steps c.id c.lifecycleStatus step
  | .done _ => True

theorem monotonicLifecycleStep_eq_some {current new : ImportLifecycle} {computed : Option ImportLifecycle}
    (h : monotonicLifecycleStep current computed = some new) :
    current ≠ .closed ∧ current ≠ .cancelled ∧ current.rank < new.rank := by
  obtain ⟨target, -, h⟩ := Option.bind_eq_some_iff.mp h
  split_ifs at h with hfrozen hlt
  obtain rfl := Option.some.inj h
  push Not at hfrozen
  exact ⟨hfrozen.1, hfrozen.2, hlt⟩

theorem decided_fits {c : ImportContract}
    {target : Option ImportLifecycle} (h : Signed db c.id) : (Recompute.decided c target).Fits steps db := by
  unfold Recompute.decided
  split
  · trivial
  · rename_i hstep
    exact ⟨h, monotonicLifecycleStep_eq_some hstep⟩

theorem LifeMove.signed_kept {st st' : Option (ImportStatus × ImportLifecycle)} (h : LifeMove op k st st')
    (hst : ∃ s l, st = some (s, l) ∧ s ≠ .draft) : ∃ s l, st' = some (s, l) ∧ s ≠ .draft := by
  obtain ⟨s, l, rfl, hs⟩ := hst
  cases h with
  | same => exact ⟨s, l, rfl, hs⟩
  | signed => exact absurd rfl hs
  | marked => exact ⟨s, .paying, rfl, hs⟩
  | cancelled => exact ⟨.cancelled, .cancelled, rfl, by simp⟩

/-- Signed contracts stay signed. -/
def Onward (db db' : Db) : Prop := ∀ k, Signed db k → Signed db' k

theorem Recompute.Fits.mono {steps more : List (Step LifecycleWorld LifecycleAction)} {r : Recompute}
    (hon : Onward db db') (h : r.Fits steps db) : r.Fits (steps ++ more) db' := by
  cases r with
  | readUnits => trivial
  | readActs c units => exact hon _ h
  | readSales c units acts => exact hon _ h
  | write c step => exact ⟨hon _ h.1, h.2⟩
  | record c step =>
    obtain ⟨e, he, hfollow⟩ := h
    exact ⟨e, List.mem_append_left _ he, hfollow⟩
  | done => trivial

/-! A run. -/

/-- Drafts are as they were made; only a signed contract has units. -/
structure DraftsFit (db : Db) : Prop where
  fresh : ∀ k l, db.importState k = some (.draft, l) → l = .draft
  units : ∀ k, db.unitsOf k ≠ [] → Signed db k

structure LifecycleFits (steps : List (Step LifecycleWorld LifecycleAction)) (w : LifecycleWorld) : Prop where
  drafts : DraftsFit w.db
  recomputes : ∀ r ∈ w.recomputes, r.Fits steps w.db
  events : ∀ e ∈ w.events, Followed steps e.contract e.old e.new

/-- A recomputation writes over the life cycle that it read, or writes again what followed that; a closed contract is
not cancelled. -/
structure KeepsLifecycle (earlier : List (Step LifecycleWorld LifecycleAction))
    (e : Step LifecycleWorld LifecycleAction) : Prop where
  read : ∀ i c step, e.action = .proceed i → e.before.recomputes[i]? = some (.write c step) →
    e.before.db.lifecycleOf c.id = some c.lifecycleStatus ∨
      e.before.db.lifecycleOf c.id = some step ∧ Followed earlier c.id c.lifecycleStatus step
  closed : ∀ env k, e.action = .request env (.cancel k) → (cancelImport k e.before.db).isOk →
    e.before.db.lifecycleOf k ≠ some .closed

/-- What one step does to the life cycle of one contract. -/
structure GoesForward (e : Step LifecycleWorld LifecycleAction) : Prop where
  forward : ∀ k l l', e.before.db.lifecycleOf k = some l → e.after.db.lifecycleOf k = some l' →
    l.rank ≤ l'.rank ∨ ∃ env, e.action = .request env (.cancel k)
  frozen : ∀ k l, e.before.db.lifecycleOf k = some l → l = .closed ∨ l = .cancelled →
    e.after.db.lifecycleOf k = some l

/-- The life cycle of every contract moves forward, and its events tell what happened. -/
structure LifecycleLaw (steps : List (Step LifecycleWorld LifecycleAction)) (w : LifecycleWorld) : Prop where
  moves : ∀ e ∈ steps, GoesForward e
  events : ∀ e ∈ w.events, Followed steps e.contract e.old e.new

theorem lifecycleOf_eq_some {l : ImportLifecycle} : db.lifecycleOf k = some l ↔ ∃ s, db.importState k = some (s, l) := by
  unfold Db.lifecycleOf
  rw [Option.map_eq_some_iff]
  exact ⟨fun ⟨⟨s, _⟩, h, hl⟩ => ⟨s, hl ▸ h⟩, fun ⟨s, h⟩ => ⟨(s, l), h, rfl⟩⟩

theorem request_cases (env : Env) (op : ImportOp) (w : LifecycleWorld) :
    w.request env op = w ∨ ∃ db, op.perform env w.db = .ok db ∧ w.request env op = { w with db } := by
  unfold LifecycleWorld.request
  rcases h : op.perform env w.db with _ | db
  · exact .inl rfl
  · exact .inr ⟨db, rfl, rfl⟩

theorem perform_onward (h : op.perform env db = .ok db') : Onward db db' :=
  fun _ hk => (perform_lifeMove h).signed_kept hk

theorem perform_draftsFit (h : op.perform env db = .ok db') (hfits : DraftsFit db) : DraftsFit db' := by
  refine ⟨fun k l hk => ?_, fun k hk => ?_⟩
  · have hmove : LifeMove op k (db.importState k) (db'.importState k) := perform_lifeMove h
    generalize hst : db.importState k = st at hmove
    rw [hk] at hmove
    cases hmove with
    | same => exact hfits.fresh k l hst
    | created => rfl
    | marked => exact absurd (hfits.fresh k _ hst) (by simp)
  · by_cases hnone : db.unitsOf k = []
    · rcases perform_unitsOf h hnone with hnone' | hsigned
      · exact absurd hnone' hk
      · exact ⟨_, _, hsigned, by simp⟩
    · exact perform_onward h k (hfits.units k hnone)

/-- A request moves no contract back but by cancelling it, and leaves a frozen one where it is. -/
theorem request_goesForward (hfits : DraftsFit w.db)
    (hopen : ∀ k, op = .cancel k → (cancelImport k w.db).isOk → w.db.lifecycleOf k ≠ some .closed) :
    GoesForward ⟨w, .request env op, w.request env op⟩ := by
  rcases request_cases env op w with hsame | ⟨db, hok, hafter⟩
  · rw [hsame]
    exact ⟨fun k l l' hl hl' => .inl (le_of_eq (congrArg _ (Option.some.inj (hl.symm.trans hl')))), fun k l hl _ => hl⟩
  · rw [hafter]
    refine ⟨fun k l l' hl hl' => ?_, fun k l hl hfrozen => ?_⟩
    · obtain ⟨s, hs⟩ := lifecycleOf_eq_some.mp hl
      obtain ⟨s', hs'⟩ := lifecycleOf_eq_some.mp hl'
      have hmove : LifeMove op k (w.db.importState k) (db.importState k) := perform_lifeMove hok
      rw [hs] at hmove
      rw [hs'] at hmove
      cases hmove with
      | same => exact .inl le_rfl
      | signed =>
        rw [hfits.fresh k l hs]
        exact .inl (by decide)
      | marked => exact .inl (by decide)
      | cancelled _ _ hop => exact .inr ⟨env, by rw [hop]⟩
    · obtain ⟨s, hs⟩ := lifecycleOf_eq_some.mp hl
      have hmove : LifeMove op k (w.db.importState k) (db.importState k) := perform_lifeMove hok
      rw [hs] at hmove
      generalize hst' : db.importState k = st' at hmove
      cases hmove with
      | same => exact lifecycleOf_eq_some.mpr ⟨s, hst'⟩
      | signed =>
        rw [hfits.fresh k l hs] at hfrozen
        simp at hfrozen
      | marked => simp at hfrozen
      | cancelled _ _ hop =>
        subst hop
        have hclosed := hopen k rfl (by rw [show cancelImport k w.db = .ok db from hok]; rfl)
        rcases hfrozen with rfl | rfl
        · exact absurd hl hclosed
        · exact lifecycleOf_eq_some.mpr ⟨_, hst'⟩

/-- Where the tables stay, every contract stays. -/
theorem goesForward_of_eq {a : LifecycleAction} (h : ∀ k, w'.db.importState k = w.db.importState k) :
    GoesForward ⟨w, a, w'⟩ := by
  have hkept : ∀ k, w'.db.lifecycleOf k = w.db.lifecycleOf k := fun k => congrArg (Option.map Prod.snd) (h k)
  refine ⟨fun k l l' hl hl' => .inl (le_of_eq (congrArg _ ?_)), fun k l hl _ => (hkept k).trans hl⟩
  rw [hkept, hl] at hl'
  exact Option.some.inj hl'

/-- What a step leaves to be shown, where it touches one recomputation at most. -/
theorem fits_after {e : Step LifecycleWorld LifecycleAction}
    (hfits : LifecycleFits steps w) (hon : Onward w.db w'.db) (hdrafts : DraftsFit w'.db)
    (hrecomputes : ∀ r ∈ w'.recomputes, r ∈ w.recomputes ∨ r.Fits (steps ++ [e]) w'.db)
    (hevents : ∀ ev ∈ w'.events, ev ∈ w.events ∨ Followed steps ev.contract ev.old ev.new) :
    LifecycleFits (steps ++ [e]) w' := by
  refine ⟨hdrafts, fun r hr => ?_, fun ev hev => ?_⟩
  · rcases hrecomputes r hr with hold | hnew
    · exact (hfits.recomputes r hold).mono hon
    · exact hnew
  · have hfollowed : Followed steps ev.contract ev.old ev.new := by
      rcases hevents ev hev with hold | hnew
      · exact hfits.events ev hold
      · exact hnew
    obtain ⟨e', he', hfollow⟩ := hfollowed
    exact ⟨e', List.mem_append_left _ he', hfollow⟩

theorem onward_congr (h : ∀ k, db'.importState k = db.importState k) : Onward db db' := by
  intro k hk
  unfold Signed
  rwa [h]

/-- A statement that only reads leaves a recomputation that may rely on what it needs. -/
theorem proceed_reads {e : Step LifecycleWorld LifecycleAction}
    {i : ℕ} {r : Recompute} (hfits : LifecycleFits steps w) (hr : w.recomputes[i]? = some r)
    (hread : (r.proceed w.db).1 = w.db)
    (hevents : ∀ ev ∈ (r.proceed w.db).2.1, Followed steps ev.contract ev.old ev.new)
    (hnext : (r.proceed w.db).2.2.Fits (steps ++ [e]) w.db) :
    LifecycleFits (steps ++ [e]) (w.proceed i) ∧ (w.proceed i).db = w.db := by
  have hafter : w.proceed i = ⟨w.db, w.recomputes.set i (r.proceed w.db).2.2, w.events ++ (r.proceed w.db).2.1⟩ := by
    unfold LifecycleWorld.proceed
    rw [hr]
    dsimp only
    rw [hread]
  rw [hafter]
  refine ⟨fits_after hfits (fun _ hk => hk) hfits.drafts (fun r' hr' => ?_) fun ev hev => ?_, rfl⟩
  · rcases List.mem_or_eq_of_mem_set hr' with hold | rfl
    · exact .inl hold
    · exact .inr hnext
  · rcases List.mem_append.mp hev with hold | hnew
    · exact .inl hold
    · exact .inr (hevents ev hnew)

theorem readUnits_fits {c : ImportContract}
    (hdrafts : DraftsFit db) :
    ((Recompute.readUnits c).proceed db).2.2.Fits steps db := by
  by_cases hunits : db.unitsOf c.id = []
  · -- without units there is nothing to move to
    have htarget : lifecycleFromUnits ((db.unitsOf c.id).map GloberentUnit.status) = none := by
      rw [hunits]
      rfl
    have hsales : saleContractsOf (db.unitsOf c.id) = [] := by
      rw [hunits]
      rfl
    unfold Recompute.proceed
    dsimp only
    rw [if_pos hsales, htarget]
    trivial
  · have hsigned := hdrafts.units c.id hunits
    unfold Recompute.proceed
    dsimp only
    split_ifs
    · exact decided_fits hsigned
    · exact hsigned

/-- The write of a recomputation. -/
theorem proceed_writes {i : ℕ} {c : ImportContract}
    {step : ImportLifecycle} (hfits : LifecycleFits steps w) (hr : w.recomputes[i]? = some (.write c step))
    (hkeeps : KeepsLifecycle steps ⟨w, .proceed i, w.proceed i⟩) :
    GoesForward ⟨w, .proceed i, w.proceed i⟩ ∧
      LifecycleFits (steps ++ [⟨w, .proceed i, w.proceed i⟩]) (w.proceed i) := by
  obtain ⟨⟨s, l, hstate, hs⟩, hnotClosed, hnotCancelled, hrank⟩ := hfits.recomputes _ (List.mem_of_getElem? hr)
  obtain ⟨row, hrow, hrowState⟩ := Option.map_eq_some_iff.mp hstate
  have hid := findImport_id hrow
  have hafter : w.proceed i =
      ⟨w.db.writeImport { row with lifecycleStatus := step }, w.recomputes.set i (.record c step), w.events ++ []⟩ := by
    unfold LifecycleWorld.proceed
    rw [hr]
    dsimp only [Recompute.proceed]
    rw [hrow]
  have hwritten : ∀ k, (w.proceed i).db.importState k = if k = c.id then some (s, step) else w.db.importState k := by
    intro k
    rw [hafter]
    have hw := @importState_writeImport w.db k { row with lifecycleStatus := step } row (by rw [← hid] at hrow; exact hrow)
    have hstatus : row.status = s := congrArg Prod.fst hrowState
    rw [hw, ← hid, ← hstatus]
  have hlife : w.db.lifecycleOf c.id = some l := lifecycleOf_eq_some.mpr ⟨s, hstate⟩
  have hlife' : (w.proceed i).db.lifecycleOf c.id = some step := by
    refine lifecycleOf_eq_some.mpr ⟨s, ?_⟩
    rw [hwritten, if_pos rfl]
  have hother : ∀ k, k ≠ c.id → (w.proceed i).db.lifecycleOf k = w.db.lifecycleOf k := by
    intro k hk
    unfold Db.lifecycleOf
    rw [hwritten, if_neg hk]
  have hstored : l = c.lifecycleStatus ∨ l = step ∧ Followed steps c.id c.lifecycleStatus step := by
    rcases hkeeps.read i c step rfl hr with hold | ⟨hnew, hfollowed⟩
    · exact .inl (Option.some.inj (hlife.symm.trans hold))
    · exact .inr ⟨Option.some.inj (hlife.symm.trans hnew), hfollowed⟩
  refine ⟨⟨fun k l₀ l₁ hl₀ hl₁ => ?_, fun k l₀ hl₀ hfrozen => ?_⟩, ?_⟩
  · left
    by_cases hk : k = c.id
    · subst hk
      obtain rfl := Option.some.inj (hlife.symm.trans hl₀)
      obtain rfl := Option.some.inj (hlife'.symm.trans hl₁)
      rcases hstored with rfl | ⟨rfl, -⟩
      · exact hrank.le
      · exact le_rfl
    · rw [hother k hk] at hl₁
      exact le_of_eq (congrArg _ (Option.some.inj (hl₀.symm.trans hl₁)))
  · by_cases hk : k = c.id
    · subst hk
      obtain rfl := Option.some.inj (hlife.symm.trans hl₀)
      rcases hstored with rfl | ⟨rfl, -⟩
      · rcases hfrozen with h | h
        · exact absurd h hnotClosed
        · exact absurd h hnotCancelled
      · exact hlife'
    · exact (hother k hk).trans hl₀
  · have hon : Onward w.db (w.proceed i).db := by
      intro k hk
      unfold Signed
      rw [hwritten]
      split_ifs
      · exact ⟨s, step, rfl, hs⟩
      · exact hk
    refine fits_after hfits hon ⟨fun k l₀ hl₀ => ?_, fun k hk => ?_⟩ (fun r hr' => ?_) fun ev hev => ?_
    · rw [hwritten] at hl₀
      split_ifs at hl₀
      · exact absurd (congrArg Prod.fst (Option.some.inj hl₀)) hs
      · exact hfits.drafts.fresh k l₀ hl₀
    · refine hon k (hfits.drafts.units k ?_)
      rw [hafter] at hk
      exact hk
    · rw [hafter] at hr'
      rcases List.mem_or_eq_of_mem_set hr' with hold | rfl
      · exact .inl hold
      · right
        rcases hstored with rfl | ⟨-, e, he, hfollow⟩
        · exact ⟨_, List.mem_append_right _ (List.mem_singleton_self _), hlife, hlife'⟩
        · exact ⟨e, List.mem_append_left _ he, hfollow⟩
    · rw [hafter, List.append_nil] at hev
      exact .inl hev

theorem lifecycle_step {a : LifecycleAction}
    (hfits : LifecycleFits steps w) (hnext : LifecycleNext w a w') (hkeeps : KeepsLifecycle steps ⟨w, a, w'⟩) :
    GoesForward ⟨w, a, w'⟩ ∧ LifecycleFits (steps ++ [⟨w, a, w'⟩]) w' := by
  cases a with
  | request env op =>
    obtain rfl := hnext
    refine ⟨request_goesForward hfits.drafts fun k hk => hkeeps.closed env k (by rw [hk]), ?_⟩
    rcases request_cases env op w with hsame | ⟨db, hok, hafter⟩
    · refine fits_after hfits (onward_congr fun k => by rw [hsame]) ?_ (fun r hr => .inl ?_) fun ev hev => .inl ?_
      · rw [hsame]
        exact hfits.drafts
      · rwa [hsame] at hr
      · rwa [hsame] at hev
    · rw [hafter]
      exact fits_after hfits (perform_onward hok) (perform_draftsFit hok hfits.drafts) (fun _ hr => .inl hr)
        fun _ hev => .inl hev
  | recompute id =>
    obtain rfl := hnext
    unfold LifecycleWorld.recompute
    rcases hc : w.db.findImport id with _ | c
    · exact ⟨goesForward_of_eq fun _ => rfl,
        fits_after hfits (fun _ hk => hk) hfits.drafts (fun _ hr => .inl hr) fun _ hev => .inl hev⟩
    · refine ⟨goesForward_of_eq fun _ => rfl,
        fits_after hfits (fun _ hk => hk) hfits.drafts (fun r hr => ?_) fun _ hev => .inl hev⟩
      rcases List.mem_append.mp hr with hold | hnew
      · exact .inl hold
      · rw [List.mem_singleton.mp hnew]
        exact .inr trivial
  | proceed i =>
    obtain rfl := hnext
    rcases hr : w.recomputes[i]? with _ | r
    · have hsame : w.proceed i = w := by
        unfold LifecycleWorld.proceed
        rw [hr]
      rw [hsame]
      exact ⟨goesForward_of_eq fun _ => rfl,
        fits_after hfits (fun _ hk => hk) hfits.drafts (fun _ hr => .inl hr) fun _ hev => .inl hev⟩
    have hold := hfits.recomputes r (List.mem_of_getElem? hr)
    have hreads : ∀ hread : (r.proceed w.db).1 = w.db,
        (∀ ev ∈ (r.proceed w.db).2.1, Followed steps ev.contract ev.old ev.new) →
        (r.proceed w.db).2.2.Fits (steps ++ [⟨w, .proceed i, w.proceed i⟩]) w.db →
        GoesForward ⟨w, .proceed i, w.proceed i⟩ ∧
          LifecycleFits (steps ++ [⟨w, .proceed i, w.proceed i⟩]) (w.proceed i) := by
      intro hread hevents hfitsNext
      obtain ⟨hafter, hdb⟩ := proceed_reads hfits hr hread hevents hfitsNext
      exact ⟨goesForward_of_eq fun k => by rw [hdb], hafter⟩
    cases r with
    | readUnits c => exact hreads rfl (List.forall_mem_nil _) (readUnits_fits hfits.drafts)
    | readActs c units => exact hreads rfl (List.forall_mem_nil _) hold
    | readSales c units acts => exact hreads rfl (List.forall_mem_nil _) (decided_fits hold)
    | write c step => exact proceed_writes hfits hr hkeeps
    | record c step => exact hreads rfl (List.forall_mem_singleton.mpr hold) trivial
    | done lifecycle => exact hreads rfl (List.forall_mem_nil _) trivial
  | others db =>
    obtain ⟨⟨himports, hunits⟩, rfl⟩ := hnext
    have hsame : ∀ k, db.importState k = w.db.importState k := fun k => importState_congr w.db himports
    refine ⟨goesForward_of_eq hsame, fits_after hfits (onward_congr hsame) ⟨fun k l hl => ?_, fun k hk => ?_⟩
      (fun _ hr => .inl hr) fun _ hev => .inl hev⟩
    · exact hfits.drafts.fresh k l ((hsame k).symm.trans hl)
    · have hsigned := hfits.drafts.units k fun hnone => hk (hunits k hnone)
      exact onward_congr hsame k hsigned

theorem lifecycleLaw_of_run {db : Db} {steps : List (Step LifecycleWorld LifecycleAction)}
    (hrun : Run LifecycleNext ⟨db, [], []⟩ steps w) (hstart : DraftsFit db)
    (hkeeps : ∀ earlier e later, steps = earlier ++ e :: later → KeepsLifecycle earlier e) : LifecycleLaw steps w := by
  have hall : (∀ e ∈ steps, GoesForward e) ∧ LifecycleFits steps w := by
    induction hrun with
    | start => exact ⟨List.forall_mem_nil _, hstart, List.forall_mem_nil _, List.forall_mem_nil _⟩
    | step hrun hnext ih =>
      obtain ⟨hmoves, hfits⟩ := ih fun earlier e later hsplit =>
        hkeeps earlier e (later ++ [_]) (by rw [hsplit, List.append_assoc, List.cons_append])
      obtain ⟨hmove, hfits'⟩ := lifecycle_step hfits hnext (hkeeps _ _ [] rfl)
      exact ⟨List.forall_mem_append.mpr ⟨hmoves, List.forall_mem_singleton.mpr hmove⟩, hfits'⟩
  exact ⟨hall.1, hall.2.events⟩

/-! Runs on fixed calls. -/

def LifecycleWorld.serve (w : LifecycleWorld) : LifecycleAction → LifecycleWorld
  | .request env op => w.request env op
  | .recompute id => w.recompute id
  | .proceed i => w.proceed i
  | .others db => { w with db }

theorem run_lifecycle (w : LifecycleWorld) {calls : List LifecycleAction} (h : ∀ a ∈ calls, ∀ db, a ≠ .others db) :
    Run LifecycleNext w (runActions LifecycleWorld.serve w calls).1 (runActions LifecycleWorld.serve w calls).2 := by
  refine (run_runActions LifecycleWorld.serve w calls).strengthen fun e he hnext => ?_
  have hcall := h e.action (action_mem_of_runActions he)
  rcases ha : e.action with _ | _ | _ | db
  case others => exact absurd ha (hcall db)
  all_goals
    rw [ha] at hnext
    exact hnext

theorem draftsFit_empty : DraftsFit Db.empty :=
  ⟨fun _ _ h => (nomatch h), fun _ h => absurd rfl h⟩

/-- The recomputation writes over what it has read, and nothing is cancelled. -/
def writesOverRead (e : Step LifecycleWorld LifecycleAction) : Bool :=
  match e.action with
  | .proceed i =>
    match e.before.recomputes[i]? with
    | some (.write c _) => e.before.db.lifecycleOf c.id = some c.lifecycleStatus
    | _ => true
  | .request _ (.cancel _) => false
  | _ => true

theorem keepsLifecycle_of_read {earlier : List (Step LifecycleWorld LifecycleAction)}
    {e : Step LifecycleWorld LifecycleAction} (h : writesOverRead e = true) : KeepsLifecycle earlier e := by
  unfold writesOverRead at h
  refine ⟨fun i c step ha hr => .inl ?_, fun env k ha => ?_⟩
  · rw [ha] at h
    simpa [hr] using h
  · rw [ha] at h
    simp at h

def shipment (action : UnitAction) : LifecycleAction := .request (yardEnv 1) (.bulkUnitAction 0 action plainAction)

/-- A contract is signed, paid for and shipped, and its life cycle computed. -/
def shippedContract : List LifecycleAction :=
  [.request (yardEnv 1) (.create oneLoader), .request (yardEnv 1) (.sign 0),
    .request (yardEnv 1) (.markPaid 0 .prepayment), shipment .markReadyToShip, .recompute 0, .proceed 0, .proceed 0, .proceed 0]

theorem lifecycleLaw_shippedContract :
    LifecycleLaw (runActions LifecycleWorld.serve ⟨Db.empty, [], []⟩ shippedContract).1
        (runActions LifecycleWorld.serve ⟨Db.empty, [], []⟩ shippedContract).2 ∧
      (runActions LifecycleWorld.serve ⟨Db.empty, [], []⟩ shippedContract).2.events = [⟨0, .paying, .shipping⟩] := by
  refine ⟨lifecycleLaw_of_run (run_lifecycle _ (by simp [shippedContract, shipment])) draftsFit_empty
    fun earlier e later hsplit => ?_, by decide +kernel⟩
  have hread : ∀ e ∈ (runActions LifecycleWorld.serve ⟨Db.empty, [], []⟩ shippedContract).1, writesOverRead e = true := by
    rw [← List.all_eq_true]
    decide +kernel
  refine keepsLifecycle_of_read (hread e ?_)
  rw [hsplit]
  exact List.mem_append_right _ List.mem_cons_self

/-- The units reach the border while a recomputation still holds that they were ready to ship. -/
def lateRecompute : List LifecycleAction :=
  [.request (yardEnv 1) (.create oneLoader), .request (yardEnv 1) (.sign 0), shipment .markReadyToShip, .recompute 0,
    .proceed 0, shipment .markAtBorder, .recompute 0, .proceed 1, .proceed 1, .proceed 0]

theorem lifecycle_goes_back :
    ∃ steps w, Run LifecycleNext ⟨Db.empty, [], []⟩ steps w ∧
      (∃ e ∈ steps, e.before.db.lifecycleOf 0 = some .customs ∧ e.after.db.lifecycleOf 0 = some .shipping) ∧
      ¬ LifecycleLaw steps w := by
  have hback : ∃ e ∈ (runActions LifecycleWorld.serve ⟨Db.empty, [], []⟩ lateRecompute).1,
      (e.before.db.lifecycleOf 0 = some .customs ∧ e.after.db.lifecycleOf 0 = some .shipping) ∧
        (match e.action with | .proceed _ => true | _ => false) = true := by
    have hany : (runActions LifecycleWorld.serve ⟨Db.empty, [], []⟩ lateRecompute).1.any (fun e =>
        decide (e.before.db.lifecycleOf 0 = some .customs ∧ e.after.db.lifecycleOf 0 = some .shipping) &&
          (match e.action with | .proceed _ => true | _ => false)) = true := by decide +kernel
    obtain ⟨e, he, h⟩ := List.any_eq_true.mp hany
    rw [Bool.and_eq_true, decide_eq_true_eq] at h
    exact ⟨e, he, h⟩
  obtain ⟨e, he, hstates, haction⟩ := hback
  refine ⟨_, _, run_lifecycle _ (by simp [lateRecompute, shipment]), ⟨e, he, hstates⟩, fun hlaw => ?_⟩
  rcases (hlaw.moves e he).forward 0 _ _ hstates.1 hstates.2 with hrank | ⟨env, hcancel⟩
  · exact absurd hrank (by decide)
  · rw [hcancel] at haction
    simp at haction

end Mydon.Globerent
