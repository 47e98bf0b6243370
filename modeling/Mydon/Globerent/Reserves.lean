import Mydon.Globerent.Imports
import Mydon.Lib.Run

/-! Reserves against statuses, over the runs of all the operations that write units. What an operation
does is read off unit by unit: a status, and a number of active reserves. -/

namespace Mydon.Globerent

open Mydon.Lib Mydon.Finance Mydon.Stock

inductive UnitOp
  | create (input : CreateUnitInput)
  | list (group : Option UnitGroup)
  | applyAction (id : ℕ) (action : UnitAction) (extra : ActionExtra)
  | setVin (id : ℕ) (vin : String)
  | unbindVin (id : ℕ)
  | reserve (id : ℕ) (input : ReserveInput)
  | cancelReserve (id : ℕ)
  | setSalesStage (id : ℕ) (stage : SalesStage) (extra : StageExtra)
  | createImport (input : CreateImportInput)
  | sign (contract : ℕ)
  | bulkUnitAction (contract : ℕ) (action : UnitAction) (extra : ActionExtra)

def UnitOp.perform (env : Env) (db : Db) : UnitOp → Except Js.HttpError Db
  | .create input => Globerent.create env input db
  | .list group => .ok (Globerent.list env group db).1
  | .applyAction id action extra => Globerent.applyAction env id action extra db
  | .setVin id vin => Globerent.setVin id vin db
  | .unbindVin id => Globerent.unbindVin id db
  | .reserve id input => Globerent.reserve env id input db
  | .cancelReserve id => Globerent.cancelReserve id db
  | .setSalesStage id stage extra => Globerent.setSalesStage env id stage extra db
  | .createImport input => Globerent.createImport env input db
  | .sign contract => Globerent.sign env contract db
  | .bulkUnitAction contract action extra => (Globerent.bulkUnitAction env contract action extra db).map Prod.fst

structure UnitCall where
  env : Env
  op : UnitOp

/-- An operation that is refused is rolled back. -/
def UnitCall.run (db : Db) (call : UnitCall) : Db :=
  match call.op.perform call.env db with
  | .ok db' => db'
  | .error _ => db

def UnitNext (db : Db) (call : UnitCall) (db' : Db) : Prop := db' = call.run db

/-! One unit: its status, and its active reserves. -/

def Db.statusOf (db : Db) (id : ℕ) : Option UnitStatus := (db.findUnit id).map GloberentUnit.status

def Db.activeReserves (db : Db) (id : ℕ) : ℕ := db.reserves.countP (Reserve.isActiveOf id)

/-- What one operation may do to one unit. -/
inductive UnitMove : Option UnitStatus → ℕ → Option UnitStatus → ℕ → Prop
  | same (st : Option UnitStatus) (n : ℕ) : UnitMove st n st n
  | born (st : UnitStatus) (n : ℕ) (h : st ∈ [UnitStatus.NEW_REQUEST, .IN_STOCK, .CONTRACT_SIGNED]) :
    UnitMove none n (some st) n
  | acted (action : UnitAction) (st : UnitStatus) (n : ℕ) (h : st ∈ (UNIT_TRANSITIONS action).sources) :
    UnitMove (some st) n (some (UNIT_TRANSITIONS action).target) n
  | reserved (st : UnitStatus) (h : st ∈ RESERVE_ALLOWED) : UnitMove (some st) 0 (some .RESERVED) 1
  | released (n : ℕ) : UnitMove (some .RESERVED) n (some .IN_STOCK) 0
  | expired (st : Option UnitStatus) (n n' : ℕ) (hle : n' ≤ n) (h : st = some .RESERVED → n' ≠ 0) : UnitMove st n st n'
  | rolledBack (st : UnitStatus) (n : ℕ) (h : st ∈ VIN_UNBIND_ALLOWED) :
    UnitMove (some st) n (some .CONTRACT_SIGNED) n

/-! The units and the reserves after each operation. -/

variable {env : Env} {db db' : Db} {id k : ℕ}

/-- A written unit shows its new status, and no other unit changes. -/
theorem statusOf_writeUnit {u old : GloberentUnit} (hold : db.findUnit u.id = some old) :
    (db.writeUnit u).statusOf k = if k = u.id then some u.status else db.statusOf k := by
  unfold Db.statusOf Db.writeUnit Db.findUnit
  split_ifs with hk
  · subst hk
    rw [Table.lookup_write_self hold, Option.map_some]
  · rw [Table.lookup_write_of_ne hk]

theorem statusOf_append {news : List GloberentUnit} :
    ({ db with units := db.units ++ news } : Db).statusOf k =
      (db.statusOf k).or ((Table.lookup GloberentUnit.id news k).map GloberentUnit.status) := by
  unfold Db.statusOf Db.findUnit
  rw [Table.lookup_append, Option.map_or]

theorem statusOf_map {f : GloberentUnit → GloberentUnit} (hf : ∀ u, (f u).id = u.id) {reserves : List Reserve} :
    ({ db with units := db.units.map f, reserves := reserves } : Db).statusOf k =
      (db.findUnit k).map fun u => (f u).status := by
  unfold Db.statusOf Db.findUnit
  rw [Table.lookup_map hf, Option.map_map]
  rfl

theorem findUnit_id {u : GloberentUnit} (h : db.findUnit id = some u) : u.id = id := Table.key_of_lookup h

theorem statusOf_eq {u : GloberentUnit} (h : db.findUnit id = some u) : db.statusOf id = some u.status := by
  unfold Db.statusOf
  rw [h, Option.map_some]

theorem statusOf_congr (db : Db) (h : db'.units = db.units) : db'.statusOf k = db.statusOf k := by
  unfold Db.statusOf Db.findUnit
  rw [h]

theorem activeReserves_append (db : Db) {created : Reserve} (h : db'.reserves = db.reserves ++ [created]) :
    db'.activeReserves k = db.activeReserves k + if created.isActiveOf k then 1 else 0 := by
  unfold Db.activeReserves
  rw [h, List.countP_append, List.countP_singleton]

theorem any_isActiveOf {reserves : List Reserve} :
    reserves.any (Reserve.isActiveOf k) = true ↔ reserves.countP (Reserve.isActiveOf k) ≠ 0 := by
  rw [List.any_eq_true, ← Nat.pos_iff_ne_zero, List.countP_pos_iff]

/-- Each unit moves as the operation says, with its status and its active reserves. -/
def Moves (db db' : Db) : Prop :=
  ∀ k, UnitMove (db.statusOf k) (db.activeReserves k) (db'.statusOf k) (db'.activeReserves k)

theorem moves_of_eq (hunits : db'.units = db.units) (hreserves : db'.reserves = db.reserves) : Moves db db' := by
  intro k
  unfold Db.statusOf Db.activeReserves Db.findUnit
  rw [hunits, hreserves]
  exact .same _ _

/-- One unit is written, and its active reserves become `n`. -/
theorem moves_write (n : ℕ) {u old : GloberentUnit} (hold : db.findUnit u.id = some old)
    (hunits : db'.units = (db.writeUnit u).units)
    (hreserves : ∀ k, db'.activeReserves k = if k = u.id then n else db.activeReserves k)
    (hmove : UnitMove (some old.status) (db.activeReserves u.id) (some u.status) n) : Moves db db' := by
  intro k
  rw [statusOf_congr (db.writeUnit u) hunits, statusOf_writeUnit hold, hreserves]
  by_cases hk : k = u.id
  · subst hk
    rw [if_pos rfl, if_pos rfl, statusOf_eq hold]
    exact hmove
  · rw [if_neg hk, if_neg hk]
    exact .same _ _

theorem moves_writeUnit {u old : GloberentUnit} (hold : db.findUnit u.id = some old)
    (hmove : UnitMove (some old.status) (db.activeReserves u.id) (some u.status) (db.activeReserves u.id)) :
    Moves db (db.writeUnit u) := by
  refine moves_write _ hold rfl (fun k => ?_) hmove
  split_ifs with hk
  · rw [hk]
    rfl
  · rfl

/-- New units show one of the statuses that a unit begins with. -/
theorem moves_append {news : List GloberentUnit} (hunits : db'.units = db.units ++ news)
    (hreserves : db'.reserves = db.reserves)
    (hnews : ∀ u ∈ news, u.status ∈ [UnitStatus.NEW_REQUEST, .IN_STOCK, .CONTRACT_SIGNED]) : Moves db db' := by
  intro k
  have hstatus : db'.statusOf k =
      (db.statusOf k).or ((Table.lookup GloberentUnit.id news k).map GloberentUnit.status) := by
    rw [← statusOf_append]
    unfold Db.statusOf Db.findUnit
    rw [hunits]
  have hactive : db'.activeReserves k = db.activeReserves k := by
    unfold Db.activeReserves
    rw [hreserves]
  rw [hstatus, hactive]
  rcases hold : db.statusOf k with _ | st
  · rw [Option.none_or]
    rcases hnew : Table.lookup GloberentUnit.id news k with _ | u
    · exact .same _ _
    · exact .born _ _ (hnews u (Table.mem_of_lookup hnew))
  · exact .same _ _

theorem create_moves {input : CreateUnitInput} (h : create env input db = .ok db') : Moves db db' := by
  obtain ⟨_, -, h⟩ := Js.bind_eq_ok.mp h
  obtain ⟨_, -, h⟩ := Js.bind_eq_ok.mp h
  obtain ⟨_, -, h⟩ := Js.bind_eq_ok.mp h
  obtain ⟨_, -, h⟩ := Js.bind_eq_ok.mp h
  obtain ⟨_, -, h⟩ := Js.bind_eq_ok.mp h
  obtain rfl := Except.ok.inj h
  refine moves_append rfl rfl (List.forall_mem_singleton.mpr ?_)
  split_ifs <;> simp

theorem list_moves {group : Option UnitGroup} : Moves db (list env group db).1 := by
  intro k
  unfold list expireReserves
  rw [statusOf_map fun u => by unfold releaseUnit; split_ifs <;> rfl]
  have hle : (db.reserves.map (expireReserve env.today)).countP (Reserve.isActiveOf k) ≤
      db.reserves.countP (Reserve.isActiveOf k) := by
    rw [List.countP_map]
    refine List.countP_mono_left fun r _ hr => ?_
    unfold Function.comp expireReserve Reserve.isActiveOf at hr
    split_ifs at hr with hexpired
    · simp at hr
    · exact hr
  generalize hreserves : db.reserves.map (expireReserve env.today) = reserves at hle ⊢
  unfold Db.statusOf Db.activeReserves
  rcases hu : db.findUnit k with _ | u
  · exact .expired _ _ _ hle (fun hnone => nomatch hnone)
  · obtain rfl := findUnit_id hu
    rw [Option.map_some, Option.map_some]
    unfold releaseUnit
    by_cases hreserved : u.status = .RESERVED
    · by_cases hactive : reserves.countP (Reserve.isActiveOf u.id) = 0
      · rw [if_pos ⟨hreserved, fun hany => any_isActiveOf.mp hany hactive⟩, hreserved, hactive]
        exact .released _
      · rw [if_neg fun hboth => hboth.2 (any_isActiveOf.mpr hactive)]
        exact .expired _ _ _ hle fun _ => hactive
    · rw [if_neg fun hboth => hreserved hboth.1]
      exact .expired _ _ _ hle fun heq => absurd (Option.some.inj heq) hreserved

theorem applyAction_eq_ok {action : UnitAction} {extra : ActionExtra}
    (h : applyAction env id action extra db = .ok db') :
    ∃ before, db.findUnit id = some before ∧ before.status ∈ (UNIT_TRANSITIONS action).sources ∧
      db' = db.writeUnit
        { actedUnit action extra env.today before with status := (UNIT_TRANSITIONS action).target } := by
  obtain ⟨_, -, h⟩ := Js.bind_eq_ok.mp h
  obtain ⟨before, hbefore, h⟩ := Js.bind_eq_ok.mp h
  rcases herr : unitTransitionError action before.status with _ | err
  · rw [herr] at h
    exact ⟨before, Js.orThrow_eq_ok.mp hbefore, unitTransitionError_eq_none.mp herr, (Except.ok.inj h).symm⟩
  · rw [herr] at h
    cases h

@[simp] theorem actedUnit_id (action : UnitAction) (extra : ActionExtra) (today : ℤ) (u : GloberentUnit) :
    (actedUnit action extra today u).id = u.id := by
  cases action <;> rfl

theorem applyAction_moves {action : UnitAction} {extra : ActionExtra}
    (h : applyAction env id action extra db = .ok db') : Moves db db' := by
  obtain ⟨before, hbefore, hsource, rfl⟩ := applyAction_eq_ok h
  obtain rfl := findUnit_id hbefore
  refine @moves_writeUnit db _ before ?_ (.acted action before.status _ hsource)
  rw [← hbefore]
  exact congrArg db.findUnit (actedUnit_id action extra env.today before)

theorem setVin_moves {vin : String} (h : setVin id vin db = .ok db') : Moves db db' := by
  obtain ⟨_, -, h⟩ := Js.bind_eq_ok.mp h
  obtain ⟨before, hbefore, h⟩ := Js.bind_eq_ok.mp h
  obtain ⟨_, -, h⟩ := Js.bind_eq_ok.mp h
  obtain rfl := Except.ok.inj h
  rw [Js.orThrow_eq_ok] at hbefore
  obtain rfl := findUnit_id hbefore
  exact moves_writeUnit hbefore (.same _ _)

theorem unbindVin_moves (h : unbindVin id db = .ok db') : Moves db db' := by
  obtain ⟨before, hbefore, h⟩ := Js.bind_eq_ok.mp h
  obtain ⟨_, hallowed, h⟩ := Js.bind_eq_ok.mp h
  obtain rfl := Except.ok.inj h
  rw [Js.orThrow_eq_ok] at hbefore
  obtain rfl := findUnit_id hbefore
  exact moves_writeUnit hbefore (.rolledBack _ _ (Js.require_eq_ok.mp hallowed))

theorem setSalesStage_moves {stage : SalesStage} {extra : StageExtra}
    (h : setSalesStage env id stage extra db = .ok db') : Moves db db' := by
  obtain ⟨u, hstaged, rfl⟩ := Js.map_eq_ok.mp h
  obtain ⟨_, -, hstaged⟩ := Js.bind_eq_ok.mp hstaged
  obtain ⟨_, -, hstaged⟩ := Js.bind_eq_ok.mp hstaged
  obtain ⟨unit, hunit, hstaged⟩ := Js.bind_eq_ok.mp hstaged
  obtain ⟨_, -, hstaged⟩ := Js.bind_eq_ok.mp hstaged
  obtain ⟨_, -, hstaged⟩ := Js.bind_eq_ok.mp hstaged
  obtain ⟨_, -, hstaged⟩ := Js.bind_eq_ok.mp hstaged
  obtain ⟨_, -, hstaged⟩ := Js.bind_eq_ok.mp hstaged
  obtain rfl := Except.ok.inj hstaged
  rw [Js.orThrow_eq_ok] at hunit
  obtain rfl := findUnit_id hunit
  exact moves_writeUnit hunit (.same _ _)

theorem reserve_moves {input : ReserveInput} (h : reserve env id input db = .ok db') : Moves db db' := by
  obtain ⟨endDate, -, h⟩ := Js.bind_eq_ok.mp h
  obtain ⟨_, -, h⟩ := Js.bind_eq_ok.mp h
  obtain ⟨unit, hunit, h⟩ := Js.bind_eq_ok.mp h
  obtain ⟨_, hallowed, h⟩ := Js.bind_eq_ok.mp h
  obtain ⟨_, hfree, h⟩ := Js.bind_eq_ok.mp h
  obtain ⟨_, -, h⟩ := Js.bind_eq_ok.mp h
  obtain rfl := Except.ok.inj h
  rw [Js.orThrow_eq_ok] at hunit
  obtain rfl := findUnit_id hunit
  rw [Js.require_eq_ok, any_isActiveOf, not_not] at hfree
  refine moves_write 1 (u := { unit with status := .RESERVED }) hunit rfl (fun k => ?_) ?_
  · rw [activeReserves_append db rfl]
    by_cases hk : k = unit.id
    · subst hk
      rw [if_pos rfl, show db.activeReserves unit.id = 0 from hfree]
      simp [Reserve.isActiveOf]
    · simp [Reserve.isActiveOf, hk, Ne.symm hk]
  · rw [show db.activeReserves unit.id = 0 from hfree]
    exact .reserved _ (Js.require_eq_ok.mp hallowed)

theorem cancelReserve_moves (h : cancelReserve id db = .ok db') : Moves db db' := by
  obtain ⟨unit, hunit, h⟩ := Js.bind_eq_ok.mp h
  obtain rfl := Except.ok.inj h
  rw [Js.orThrow_eq_ok] at hunit
  obtain rfl := findUnit_id hunit
  have hid : (if unit.status = .RESERVED then { unit with status := .IN_STOCK } else unit).id = unit.id := by
    split_ifs <;> rfl
  refine moves_write 0 (by rw [hid]; exact hunit) rfl (fun k => ?_) ?_
  · unfold Db.activeReserves
    rw [hid, List.countP_map]
    split_ifs with hk
    · subst hk
      refine List.countP_eq_zero.mpr fun r _ hr => ?_
      rw [Function.comp_apply] at hr
      split_ifs at hr with hactive
      · simp [Reserve.isActiveOf] at hr
      · exact hactive hr
    · refine List.countP_congr fun r _ => ?_
      rw [Function.comp_apply]
      split_ifs with hactive
      · have hunitId : r.unitId = unit.id := by
          simp only [Reserve.isActiveOf, Bool.and_eq_true, decide_eq_true_eq] at hactive
          exact hactive.1
        simp [Reserve.isActiveOf, hunitId, Ne.symm hk]
      · rfl
  · by_cases hreserved : unit.status = .RESERVED
    · rw [if_pos hreserved, hreserved]
      exact .released _
    · rw [if_neg hreserved]
      exact .expired _ _ _ (Nat.zero_le _) fun heq => absurd (Option.some.inj heq) hreserved

theorem createImport_moves {input : CreateImportInput} (h : createImport env input db = .ok db') : Moves db db' := by
  suffices htables : db'.units = db.units ∧ db'.reserves = db.reserves from moves_of_eq htables.1 htables.2
  unfold createImport at h
  repeat
    first
      | obtain rfl := Except.ok.inj h
        exact ⟨rfl, rfl⟩
      | obtain ⟨_, -, h⟩ := Js.bind_eq_ok.mp h

theorem planPayment_tables {c : ImportContract} {kind : PaymentKind} (h : planPayment env c kind db = .ok db') :
    db'.units = db.units ∧ db'.reserves = db.reserves ∧ db'.imports = db.imports := by
  unfold planPayment at h
  split at h
  · obtain rfl := Except.ok.inj h
    exact ⟨rfl, rfl, rfl⟩
  · obtain ⟨_, -, h⟩ := Js.bind_eq_ok.mp h
    obtain rfl := Except.ok.inj h
    exact ⟨rfl, rfl, rfl⟩

theorem sign_moves {contract : ℕ} (h : sign env contract db = .ok db') : Moves db db' := by
  obtain ⟨c, -, h⟩ := Js.bind_eq_ok.mp h
  obtain ⟨_, -, h⟩ := Js.bind_eq_ok.mp h
  obtain ⟨db₁, h₁, h⟩ := Js.bind_eq_ok.mp h
  obtain ⟨hunits₁, hreserves₁, -⟩ := planPayment_tables h₁
  obtain ⟨hunits, hreserves, -⟩ := planPayment_tables h
  rw [hunits₁] at hunits
  rw [hreserves₁] at hreserves
  unfold materialize at hunits hreserves
  split_ifs at hunits hreserves
  · exact moves_of_eq hunits hreserves
  · refine moves_append hunits hreserves fun u hu => ?_
    obtain ⟨item, -, rfl⟩ := List.mem_map.mp hu
    simp [signedUnit]

@[simp] theorem bulkUnit_id (action : UnitAction) (extra : ActionExtra) (today : ℤ) (u : GloberentUnit) :
    (bulkUnit action extra today u).id = u.id := by
  unfold bulkUnit
  split_ifs
  · rfl
  · exact actedUnit_id action extra today u

theorem bulkUnitAction_moves {contract : ℕ} {action : UnitAction} {extra : ActionExtra} {r : Db × BulkResult}
    (h : bulkUnitAction env contract action extra db = .ok r) : Moves db r.1 := by
  obtain ⟨_, -, h⟩ := Js.bind_eq_ok.mp h
  obtain ⟨_, -, h⟩ := Js.bind_eq_ok.mp h
  obtain rfl := Except.ok.inj h
  intro k
  rw [statusOf_map fun u => by split_ifs <;> simp]
  rcases hu : db.findUnit k with _ | u
  · unfold Db.statusOf
    rw [hu]
    exact .same _ _
  · rw [statusOf_eq hu, Option.map_some]
    split_ifs with heligible
    · simp only [isEligible, Bool.and_eq_true, decide_eq_true_eq] at heligible
      exact .acted action _ _ heligible.2
    · exact .same _ _

theorem perform_moves {op : UnitOp} (h : op.perform env db = .ok db') : Moves db db' := by
  cases op with
  | create input => exact create_moves h
  | list group =>
    obtain rfl := Except.ok.inj h
    exact list_moves
  | applyAction id action extra => exact applyAction_moves h
  | setVin id vin => exact setVin_moves h
  | unbindVin id => exact unbindVin_moves h
  | reserve id input => exact reserve_moves h
  | cancelReserve id => exact cancelReserve_moves h
  | setSalesStage id stage extra => exact setSalesStage_moves h
  | createImport input => exact createImport_moves h
  | sign contract => exact sign_moves h
  | bulkUnitAction contract action extra =>
    obtain ⟨r, hr, rfl⟩ := Js.map_eq_ok.mp h
    exact bulkUnitAction_moves hr

theorem moves_of_next {call : UnitCall} (h : UnitNext db call db') : Moves db db' := by
  unfold UnitNext UnitCall.run at h
  subst h
  split
  · rename_i hok
    exact perform_moves hok
  · exact fun k => .same _ _

/-! What the moves keep, for one unit and then over a run. -/

/-- An active reserve is the only one; a unit that holds one is reserved, or was sold out of its reserve. -/
structure Fits (st : Option UnitStatus) (n : ℕ) : Prop where
  one : n ≤ 1
  held : st = some .RESERVED → n ≠ 0
  holder : n ≠ 0 → st ∈ [some UnitStatus.RESERVED, some .SOLD, some .DELIVERED_TO_CLIENT, some .ARCHIVED]

/-- The unit holds an active reserve exactly while it is reserved. -/
def Tight (st : Option UnitStatus) (n : ℕ) : Prop := n ≤ 1 ∧ (n ≠ 0 ↔ st = some .RESERVED)

variable {st st' : Option UnitStatus} {n n' : ℕ}

theorem Tight.fits (h : Tight st n) : Fits st n :=
  ⟨h.1, h.2.mpr, fun hn => by simp [h.2.mp hn]⟩

theorem target_of_holder {action : UnitAction} {s : UnitStatus} (h : s ∈ (UNIT_TRANSITIONS action).sources)
    (hholder : some s ∈ [some UnitStatus.RESERVED, some .SOLD, some .DELIVERED_TO_CLIENT, some .ARCHIVED]) :
    some (UNIT_TRANSITIONS action).target ∈
      [some UnitStatus.RESERVED, some .SOLD, some .DELIVERED_TO_CLIENT, some .ARCHIVED] := by
  revert h hholder
  cases action <;> cases s <;> decide

theorem target_ne_reserved (action : UnitAction) : (UNIT_TRANSITIONS action).target ≠ .RESERVED := by
  cases action <;> decide

/-- Sold is the only status that an action leads to from the reserve. -/
theorem target_of_reserved {action : UnitAction} (h : UnitStatus.RESERVED ∈ (UNIT_TRANSITIONS action).sources) :
    (UNIT_TRANSITIONS action).target = .SOLD := by
  revert h
  cases action <;> decide

theorem UnitMove.fits (h : UnitMove st n st' n') (hfits : Fits st n) : Fits st' n' := by
  cases h with
  | same => exact hfits
  | born s _ hs =>
    have hzero : n = 0 := by
      by_contra hn
      simpa using hfits.holder hn
    refine ⟨hfits.one, fun heq => ?_, fun hn => absurd hzero hn⟩
    rw [Option.some.inj heq] at hs
    simp at hs
  | acted action s _ hs =>
    exact ⟨hfits.one, fun heq => absurd (Option.some.inj heq) (target_ne_reserved action),
      fun hn => target_of_holder hs (hfits.holder hn)⟩
  | reserved s hs => exact ⟨le_rfl, fun _ => Nat.one_ne_zero, fun _ => List.mem_cons_self⟩
  | released => exact ⟨Nat.zero_le 1, fun heq => by simp at heq, fun hn => absurd rfl hn⟩
  | expired _ _ _ hle hheld =>
    exact ⟨hle.trans hfits.one, hheld, fun hn => hfits.holder fun hzero => hn (Nat.le_zero.mp (hzero ▸ hle))⟩
  | rolledBack s _ hs =>
    have hzero : n = 0 := by
      by_contra hn
      have hholder := hfits.holder hn
      simp only [VIN_UNBIND_ALLOWED, List.mem_cons, List.not_mem_nil, or_false] at hs
      rcases hs with rfl | rfl <;> simp at hholder
    exact ⟨hfits.one, fun heq => by simp at heq, fun hn => absurd hzero hn⟩

/-- Only a sale out of the reserve leaves a reserve behind. -/
theorem UnitMove.tight (h : UnitMove st n st' n') (htight : Tight st n)
    (hsold : ¬ (st = some .RESERVED ∧ st' = some .SOLD)) : Tight st' n' := by
  have hfits := h.fits htight.fits
  refine ⟨hfits.one, fun hn => ?_, hfits.held⟩
  cases h with
  | same => exact htight.2.mp hn
  | born => exact absurd (htight.2.mp hn) (by simp)
  | acted action s _ hs =>
    obtain rfl := Option.some.inj (htight.2.mp hn)
    exact absurd ⟨rfl, congrArg some (target_of_reserved hs)⟩ hsold
  | reserved => rfl
  | released => exact absurd rfl hn
  | expired _ _ _ hle _ => exact htight.2.mp fun hzero => hn (Nat.le_zero.mp (hzero ▸ hle))
  | rolledBack s _ hs =>
    obtain rfl := Option.some.inj (htight.2.mp hn)
    simp [VIN_UNBIND_ALLOWED] at hs

/-- The changes of a status: an action of the matrix, the pair of a reserve and its release, the rollback of the VIN. -/
inductive StatusChange : UnitStatus → UnitStatus → Prop
  | transition (action : UnitAction) (s : UnitStatus) (h : s ∈ (UNIT_TRANSITIONS action).sources) :
    StatusChange s (UNIT_TRANSITIONS action).target
  | reserve (s : UnitStatus) (h : s ∈ RESERVE_ALLOWED) : StatusChange s .RESERVED
  | unreserve : StatusChange .RESERVED .IN_STOCK
  | rollback (s : UnitStatus) (h : s ∈ VIN_UNBIND_ALLOWED) : StatusChange s .CONTRACT_SIGNED

theorem UnitMove.change {s : UnitStatus} (h : UnitMove (some s) n st' n') :
    ∃ s', st' = some s' ∧ (s' = s ∨ StatusChange s s') := by
  generalize hst : some s = st at h
  cases h with
  | same => exact ⟨s, hst.symm, .inl rfl⟩
  | born => cases hst
  | acted action s₀ _ hs =>
    obtain rfl := Option.some.inj hst
    exact ⟨_, rfl, .inr (.transition action s hs)⟩
  | reserved s₀ hs =>
    obtain rfl := Option.some.inj hst
    exact ⟨_, rfl, .inr (.reserve s hs)⟩
  | released =>
    obtain rfl := Option.some.inj hst
    exact ⟨_, rfl, .inr .unreserve⟩
  | expired => exact ⟨s, hst.symm, .inl rfl⟩
  | rolledBack s₀ _ hs =>
    obtain rfl := Option.some.inj hst
    exact ⟨_, rfl, .inr (.rollback s hs)⟩

theorem StatusChange.declared {s s' : UnitStatus} (h : StatusChange s s') (hdeclared : s.Declared) :
    s'.Declared ∧ s.phase ≤ s'.phase := by
  cases h with
  | transition action _ hs => exact declared_of_transition hs hdeclared
  | reserve _ hs =>
    revert hs hdeclared
    cases s <;> decide
  | unreserve => decide
  | rollback _ hs =>
    revert hs hdeclared
    cases s <;> decide

/-- The ways back to an earlier phase: to the transit from the border or the clearance, and the rollback. -/
def GoesBack (s s' : UnitStatus) : Prop :=
  (s = .AT_BORDER ∨ s = .CUSTOMS_CLEARANCE) ∧ s' = .IN_TRANSIT_TO_UZ ∨ s = .IN_TRANSIT_TO_UZ ∧ s' = .CONTRACT_SIGNED

theorem StatusChange.goesBack {s s' : UnitStatus} (h : StatusChange s s') (hlt : s'.phase < s.phase) :
    GoesBack s s' := by
  unfold GoesBack
  cases h with
  | transition action _ hs =>
    by_cases hback : action = .markInTransit ∧ (s = .AT_BORDER ∨ s = .CUSTOMS_CLEARANCE)
    · obtain ⟨rfl, hst⟩ := hback
      exact .inl ⟨hst, rfl⟩
    · exact absurd (phase_le_of_transition hs hback) (not_le.mpr hlt)
  | reserve _ hs =>
    revert hs hlt
    cases s <;> decide
  | unreserve => exact absurd hlt (by decide)
  | rollback _ hs =>
    revert hs hlt
    cases s <;> decide

/-- A step that marks a reserved unit sold. -/
def SoldReserved (k : ℕ) (e : Step Db UnitCall) : Prop :=
  e.before.statusOf k = some .RESERVED ∧ e.after.statusOf k = some .SOLD

/-- Reserves and statuses do not contradict each other. -/
structure ReserveLaw (steps : List (Step Db UnitCall)) (db : Db) : Prop where
  one : ∀ k, db.activeReserves k ≤ 1
  iff : ∀ k, (∀ e ∈ steps, ¬ SoldReserved k e) → (db.activeReserves k ≠ 0 ↔ db.statusOf k = some .RESERVED)
  changes : ∀ e ∈ steps, ∀ k s, e.before.statusOf k = some s →
    ∃ s', e.after.statusOf k = some s' ∧ (s' = s ∨ StatusChange s s')
  back : ∀ e ∈ steps, ∀ k s s', e.before.statusOf k = some s → e.after.statusOf k = some s' → s'.phase < s.phase →
    GoesBack s s'
  forward : ∀ e ∈ steps, ∀ k s, e.before.statusOf k = some s → s.Declared →
    ∃ s', db.statusOf k = some s' ∧ s'.Declared ∧ s.phase ≤ s'.phase

theorem reserveLaw_of_run {db₀ db : Db} {steps : List (Step Db UnitCall)} (hrun : Run UnitNext db₀ steps db)
    (hstart : ∀ k, Tight (db₀.statusOf k) (db₀.activeReserves k)) : ReserveLaw steps db := by
  have hstep : ∀ e ∈ steps, Moves e.before e.after := by
    intro e he
    obtain ⟨_, _, _, _, hnext, _⟩ := hrun.split he
    exact moves_of_next hnext
  refine ⟨fun k => ?_, fun k hsold => ?_, fun e he k s hs => ?_, fun e he k s s' hs hs' hlt => ?_,
    fun e he k s hs hdeclared => ?_⟩
  · have hfits : Fits (db.statusOf k) (db.activeReserves k) :=
      @Run.invariant _ _ UnitNext db₀ db steps (fun d => Fits (d.statusOf k) (d.activeReserves k))
        (fun _ _ _ hi hnext => (moves_of_next hnext k).fits hi) hrun (hstart k).fits
    exact hfits.one
  · have htight : Tight (db.statusOf k) (db.activeReserves k) :=
      @Run.invariant_of _ _ UnitNext db₀ db steps (fun d => Tight (d.statusOf k) (d.activeReserves k))
        (fun e => ¬ SoldReserved k e) (fun _ _ _ hi hnext hnot => (moves_of_next hnext k).tight hi hnot) hrun
        (hstart k) hsold
    exact htight.2
  · have hmove := hstep e he k
    rw [hs] at hmove
    exact hmove.change
  · have hmove := hstep e he k
    rw [hs] at hmove
    obtain ⟨s'', hs'', hchange⟩ := hmove.change
    obtain rfl := Option.some.inj (hs'.symm.trans hs'')
    rcases hchange with rfl | hchange
    · exact absurd hlt (lt_irrefl _)
    · exact hchange.goesBack hlt
  · -- from the state before the step on, the unit stays declared and its phase does not fall
    obtain ⟨_, _, _, _, hnext, hrest⟩ := hrun.split he
    have hkept : ∀ d call d', (∃ s', d.statusOf k = some s' ∧ s'.Declared ∧ s.phase ≤ s'.phase) → UnitNext d call d' →
        ∃ s', d'.statusOf k = some s' ∧ s'.Declared ∧ s.phase ≤ s'.phase := by
      rintro d call d' ⟨s₁, hs₁, hdeclared₁, hle₁⟩ hnext
      have hmove := moves_of_next hnext k
      rw [hs₁] at hmove
      obtain ⟨s₂, hs₂, rfl | hchange⟩ := hmove.change
      · exact ⟨s₂, hs₂, hdeclared₁, hle₁⟩
      · obtain ⟨hdeclared₂, hle₂⟩ := hchange.declared hdeclared₁
        exact ⟨s₂, hs₂, hdeclared₂, hle₁.trans hle₂⟩
    exact @Run.invariant _ _ UnitNext _ db _ (fun d => ∃ s', d.statusOf k = some s' ∧ s'.Declared ∧ s.phase ≤ s'.phase)
      hkept hrest (hkept _ _ _ ⟨s, hs, hdeclared, le_rfl⟩ hnext)

/-! A unit is sold once. -/

/-- The step sells the unit. -/
def sells (k : ℕ) (e : Step Db UnitCall) : Bool := e.before.statusOf k ≠ some .SOLD && e.after.statusOf k = some .SOLD

/-- A sold unit is handed over and archived, and a unit that is handed over was sold. -/
theorem UnitMove.sold (h : UnitMove st n st' n') :
    (st ∈ [some UnitStatus.SOLD, some .DELIVERED_TO_CLIENT, some .ARCHIVED] →
      st' ∈ [some UnitStatus.SOLD, some .DELIVERED_TO_CLIENT, some .ARCHIVED] ∧ (st' = some .SOLD → st = some .SOLD)) ∧
    (st' = some .DELIVERED_TO_CLIENT → st ∈ [some UnitStatus.SOLD, some .DELIVERED_TO_CLIENT]) := by
  cases h with
  | same => exact ⟨fun hst => ⟨hst, id⟩, fun hst => by simp [hst]⟩
  | born s _ hs =>
    revert hs
    cases s <;> decide
  | acted action s _ hs =>
    revert hs
    cases action <;> cases s <;> decide
  | reserved s hs =>
    revert hs
    cases s <;> decide
  | released => decide
  | expired => exact ⟨fun hst => ⟨hst, id⟩, fun hst => by simp [hst]⟩
  | rolledBack s _ hs =>
    revert hs
    cases s <;> decide

/-- No unit is sold twice, a sold one is never back on the yard, and every unit that is handed over was sold. -/
theorem sold_once {steps : List (Step Db UnitCall)} (hrun : Run UnitNext Db.empty steps db) (k : ℕ) :
    steps.countP (sells k) ≤ 1 ∧
      (steps.countP (sells k) = 1 → db.statusOf k ∈ [some .SOLD, some .DELIVERED_TO_CLIENT, some .ARCHIVED]) ∧
      (db.statusOf k ∈ [some .SOLD, some .DELIVERED_TO_CLIENT] → steps.countP (sells k) = 1) := by
  induction hrun with
  | start => simp [Db.empty, Db.statusOf, Db.findUnit, Table.lookup]
  | @step steps s s' call _ hnext ih =>
    obtain ⟨hgone, hdelivered⟩ := (moves_of_next hnext k).sold
    obtain ⟨hone, hsold, hcount⟩ := ih
    rw [List.countP_append, List.countP_singleton]
    by_cases hsells : sells k ⟨s, call, s'⟩ = true
    · simp only [sells, Bool.and_eq_true, decide_eq_true_eq] at hsells
      have hnone : steps.countP (sells k) = 0 := by
        by_contra hne
        exact hsells.1 ((hgone (hsold (by omega))).2 hsells.2)
      simp [sells, hsells, hnone]
    · rw [if_neg hsells]
      refine ⟨hone, fun h => (hgone (hsold h)).1, fun hst => hcount ?_⟩
      simp only [List.mem_cons, List.not_mem_nil, or_false] at hst
      rcases hst with hst | hst
      · by_contra hne
        refine hsells ?_
        simp only [sells, Bool.and_eq_true, decide_eq_true_eq]
        exact ⟨fun h => hne (by simp [h]), hst⟩
      · exact hdelivered hst

/-! Runs on fixed calls. -/

def yardHost : Js.Host := ⟨fun s => s, fun _ => none, fun _ => "", fun _ => "", fun _ _ => 0, fun _ => ""⟩

def yardEnv (today : ℤ) : Env := ⟨yardHost, ⟨fun s => s, fun _ => none, fun _ => true⟩, "owner", today, 0⟩

def plainAction : ActionExtra := ⟨some "Trans", some "1", some 1, none⟩

/-- A unit of the warehouse is reserved, its reserve expires, and it is reserved again and sold. -/
def yardCalls : List UnitCall :=
  [⟨yardEnv 1, .create ⟨"Loader", none, none, none, true, none, none⟩⟩, ⟨yardEnv 1, .reserve 0 ⟨some 3, none, none⟩⟩,
    ⟨yardEnv 4, .list none⟩, ⟨yardEnv 4, .reserve 0 ⟨some 9, none, none⟩⟩, ⟨yardEnv 5, .cancelReserve 0⟩,
    ⟨yardEnv 5, .applyAction 0 .markSold plainAction⟩]

theorem tight_empty (k : ℕ) : Tight (Db.empty.statusOf k) (Db.empty.activeReserves k) :=
  ⟨Nat.zero_le 1, by simp [Db.empty, Db.activeReserves, Db.statusOf, Db.findUnit, Table.lookup]⟩

theorem reserveLaw_yardCalls :
    ReserveLaw (runActions UnitCall.run Db.empty yardCalls).1 (runActions UnitCall.run Db.empty yardCalls).2 :=
  reserveLaw_of_run (run_runActions UnitCall.run Db.empty yardCalls) tight_empty

theorem sold_once_yardCalls : (runActions UnitCall.run Db.empty yardCalls).1.countP (sells 0) = 1 :=
  (sold_once (run_runActions UnitCall.run Db.empty yardCalls) 0).2.2 (by decide +kernel)

def oneLoader : CreateImportInput :=
  ⟨"A1", some 0, none, none, [⟨none, "Loader", 1, 100⟩], none, none, none, none, none, none, none⟩

/-- A unit goes from the border back into the transit, and from there to the signed contract. -/
def backCalls : List UnitCall :=
  [⟨yardEnv 1, .createImport oneLoader⟩, ⟨yardEnv 1, .sign 0⟩, ⟨yardEnv 2, .applyAction 0 .markReadyToShip plainAction⟩,
    ⟨yardEnv 3, .applyAction 0 .markAtBorder plainAction⟩, ⟨yardEnv 4, .applyAction 0 .markInTransit plainAction⟩,
    ⟨yardEnv 5, .unbindVin 0⟩]

/-- A unit is sold out of its reserve, which stays active. -/
def soldCalls : List UnitCall :=
  [⟨yardEnv 1, .create ⟨"Loader", none, none, none, true, none, none⟩⟩, ⟨yardEnv 1, .reserve 0 ⟨some 3, none, none⟩⟩,
    ⟨yardEnv 1, .applyAction 0 .markSold plainAction⟩]

/-- The border and the clearance do not hold a unit, and a sale out of the reserve leaves the reserve active. -/
theorem unit_goes_back :
    (∃ steps db, Run UnitNext Db.empty steps db ∧ (∃ e ∈ steps, e.before.statusOf 0 = some .AT_BORDER) ∧
      db.statusOf 0 = some .CONTRACT_SIGNED) ∧
    ∃ steps db, Run UnitNext Db.empty steps db ∧ db.statusOf 0 = some .SOLD ∧ db.activeReserves 0 = 1 := by
  refine ⟨⟨_, _, run_runActions UnitCall.run Db.empty backCalls, ?_, by decide +kernel⟩,
    ⟨_, _, run_runActions UnitCall.run Db.empty soldCalls, by decide +kernel, by decide +kernel⟩⟩
  have hstatuses : ((runActions UnitCall.run Db.empty backCalls).1.map fun e => e.before.statusOf 0) =
      [none, none, some .CONTRACT_SIGNED, some .READY_FOR_SHIPMENT, some .AT_BORDER, some .IN_TRANSIT_TO_UZ] := by
    decide +kernel
  have hborder : some UnitStatus.AT_BORDER ∈
      (runActions UnitCall.run Db.empty backCalls).1.map fun e => e.before.statusOf 0 := by
    rw [hstatuses]
    decide
  exact List.mem_map.mp hborder

end Mydon.Globerent
