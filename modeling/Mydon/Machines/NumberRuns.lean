import Mydon.Machines.Numbering

/-! Numbers over runs. As long as no machine changes its kind under a number, and no number goes off the top of its
series, every number that was ever given is covered by a present one, and a plan begins above it. -/

namespace Mydon.Machines

open Mydon.Lib Mydon.Js

variable {host : Host} {beyond : Char → List Char} {s s' start : Numbering} {a : NumberingAction}
  {steps : List (Step Numbering NumberingAction)}

/-- The plans that wait name every machine and every number once. -/
structure Sound (beyond : Char → List Char) (s : Numbering) : Prop where
  numbered : Numbered beyond s.db
  plans : ∀ plan ∈ s.plans, (plan.map PlannedNo.inventoryNo).Nodup ∧ (plan.map PlannedNo.id).Nodup

theorem sound_empty : Sound beyond .empty :=
  ⟨⟨List.nodup_nil, List.forall_mem_nil _, List.forall_mem_nil _, List.forall_mem_nil _⟩, List.forall_mem_nil _⟩

theorem Sound.commit {outcome : Except HttpError Db} (h : Sound beyond s)
    (hok : ∀ db, outcome = .ok db → Numbered beyond db ∧ Covers beyond s.db db) :
    Sound beyond (s.commit outcome) ∧ Covers beyond s.db (s.commit outcome).db := by
  rcases outcome with e | db
  · exact ⟨h, Covers.refl _⟩
  · obtain ⟨hnumbered, hcovers⟩ := hok db rfl
    exact ⟨⟨hnumbered, h.plans⟩, hcovers⟩

theorem nodup_machineNumberPlan (h : Numbered beyond s.db) (hroom : Room beyond (numberingRows s.db)) :
    ((machineNumberPlan host beyond s.db).map PlannedNo.inventoryNo).Nodup ∧
      ((machineNumberPlan host beyond s.db).map PlannedNo.id).Nodup := by
  obtain ⟨-, hnos, hids⟩ := @plan_spec _ host _ hroom
  refine ⟨hnos, hids.nodup_iff.mpr ?_⟩
  exact (nodup_numberingRows h).sublist (List.filter_sublist.map _)

/-- What is written when a plan is applied. -/
theorem applied_of_suits {i : ℕ} {plan : List PlannedNo} (h : Sound beyond s) (hplan : s.plans[i]? = some plan)
    (hsuits : Suits beyond s (.applyPlan i)) :
    ∃ r, applyMachineNumberPlan s.db plan = .ok r ∧ Numbered beyond r.1 ∧ Covers beyond s.db r.1 ∧
      ∀ p ∈ plan, ∀ c ∈ s.db.machineCard p.id, c.inventoryNo = none →
        r.1.machineCard p.id = some { c with inventoryNo := some p.inventoryNo, labelPending := true } := by
  obtain ⟨hnos, hids⟩ := h.plans plan (List.mem_of_getElem? hplan)
  have hnumbered : Numbered beyond (s.db, ([] : List PlannedNo)).1 := h.numbered
  obtain ⟨r, hr, hdone, hcovers, -, hgiven⟩ := applyPlan_keeps hnumbered hnos hids (hsuits plan hplan)
  exact ⟨r, hr, hdone, hcovers, hgiven⟩

theorem step_applyPlan {i : ℕ} {plan : List PlannedNo} {r : Db × List PlannedNo} (hplan : s.plans[i]? = some plan)
    (hr : applyMachineNumberPlan s.db plan = .ok r) : s.step host beyond (.applyPlan i) = ⟨r.1, s.plans.eraseIdx i⟩ := by
  unfold Numbering.step
  dsimp only
  rw [hplan]
  dsimp only
  rw [hr]
  rfl

theorem step_applyPlan_none {i : ℕ} (hplan : s.plans[i]? = none) : s.step host beyond (.applyPlan i) = s := by
  unfold Numbering.step
  dsimp only
  rw [hplan]

theorem Sound.step (h : Sound beyond s) (hsuits : Suits beyond s a) :
    Sound beyond (s.step host beyond a) ∧ Covers beyond s.db (s.step host beyond a).db := by
  cases a with
  | create row =>
    refine ⟨⟨h.numbered.create, h.plans⟩, Covers.same ?_⟩
    show (s.db.create row).machineCards = s.db.machineCards
    unfold Db.create
    split <;> rfl
  | setKind id kind => exact h.commit fun db hok => setMachineKind_keeps h.numbered hsuits hok
  | setNumber id input => exact h.commit fun db hok => setMachineNumber_keeps h.numbered hsuits hok
  | readPlan =>
    refine ⟨⟨h.numbered, fun plan hplan => ?_⟩, Covers.refl _⟩
    rcases List.mem_append.mp hplan with hold | hnew
    · exact h.plans plan hold
    · rw [List.mem_singleton.mp hnew]
      exact nodup_machineNumberPlan h.numbered hsuits
  | applyPlan i =>
    rcases hplan : s.plans[i]? with _ | plan
    · rw [step_applyPlan_none hplan]
      exact ⟨h, Covers.refl _⟩
    · obtain ⟨r, hr, hnumbered, hcovers, -⟩ := applied_of_suits h hplan hsuits
      rw [step_applyPlan hplan hr]
      exact ⟨⟨hnumbered, fun p hp => h.plans p (List.mem_of_mem_eraseIdx hp)⟩, hcovers⟩

/-- Each series covers every number that it had before. -/
theorem covered_of_run (hrun : Run (NumberingNext host beyond) start steps s) (hstart : Sound beyond start)
    (hsuits : ∀ e ∈ steps, Suits beyond e.before e.action) :
    Sound beyond s ∧ ∀ e ∈ steps, Sound beyond e.after ∧ Covers beyond e.after.db s.db := by
  induction hrun with
  | start => exact ⟨hstart, List.forall_mem_nil _⟩
  | @step steps s' s'' a _ hnext ih =>
    obtain rfl : s'' = s'.step host beyond a := hnext
    obtain ⟨hsound, hcovered⟩ := ih fun e he => hsuits e (List.mem_append_left _ he)
    obtain ⟨hsound', hcovers⟩ := @Sound.step host _ _ _ hsound
      (hsuits ⟨s', a, _⟩ (List.mem_append_right _ (List.mem_singleton_self _)))
    refine ⟨hsound', fun e he => ?_⟩
    rcases List.mem_append.mp he with hold | hnew
    · exact ⟨(hcovered e hold).1, (hcovered e hold).2.trans hcovers⟩
    · rw [List.mem_singleton.mp hnew]
      exact ⟨hsound', Covers.refl _⟩

/-- A number that a plan proposes was never given. -/
theorem plan_fresh {db : Db} (hnow : Sound beyond s) (hroom : Room beyond (numberingRows s.db))
    (hthen : Numbered beyond db) (hcovers : Covers beyond db s.db) {p : PlannedNo}
    (hp : p ∈ machineNumberPlan host beyond s.db) {c : MachineCard} (hc : c ∈ db.machineCards) :
    c.inventoryNo ≠ some p.inventoryNo := by
  intro hno
  have hcanonical := hthen.canonical c hc p.inventoryNo hno
  obtain ⟨n, hn, hformat⟩ := canonical_iff.mp hcanonical
  have hread : machineSeriesNumber beyond c.kind p.inventoryNo = some n := machineSeriesNumber_format hn hformat
  have hnumber : c.number beyond = some n := by
    unfold MachineCard.number
    rw [hno, Option.bind_some, hread]
  obtain ⟨c', hc', hkind, n', hn', hle⟩ := hcovers c hc n hnumber
  exact absurd hle (Nat.not_le_of_lt (plan_above hnow.numbered hroom hp hc' hcanonical hkind hn' hread))

/-- Numbers are of the kind of their machine and differ; a plan repeats no number, neither a present one nor one that
another machine had before; and a plan is applied with all its numbers. -/
structure NumbersLaw (host : Host) (beyond : Char → List Char) (steps : List (Step Numbering NumberingAction))
    (s : Numbering) : Prop where
  canonical : ∀ c ∈ s.db.machineCards, ∀ no ∈ c.inventoryNo, Canonical beyond c.kind no
  distinct : ∀ c ∈ s.db.machineCards, ∀ c' ∈ s.db.machineCards, ∀ no ∈ c.inventoryNo, c'.inventoryNo = some no → c' = c
  planned : ∀ earlier e later, steps = earlier ++ e :: later → e.action = .readPlan →
    ((machineNumberPlan host beyond e.before.db).map PlannedNo.inventoryNo).Nodup ∧
      ∀ p ∈ machineNumberPlan host beyond e.before.db,
        (∀ c ∈ e.before.db.machineCards, c.inventoryNo ≠ some p.inventoryNo) ∧
          ∀ e' ∈ earlier, ∀ c ∈ e'.after.db.machineCards, c.inventoryNo = some p.inventoryNo → c.entityId = p.id
  applied : ∀ e ∈ steps, ∀ i plan, e.action = .applyPlan i → e.before.plans[i]? = some plan →
    ∃ assigned, applyMachineNumberPlan e.before.db plan = .ok (e.after.db, assigned) ∧
      ∀ p ∈ plan, ∀ c ∈ e.before.db.machineCard p.id, c.inventoryNo = none →
        e.after.db.machineCard p.id = some { c with inventoryNo := some p.inventoryNo, labelPending := true }

/-- The law holds after every run in which a machine with a number keeps its kind, a number that goes is not the largest
of its series, a plan that is read finds room in the series, and one that is applied still suits its machines. -/
theorem numbersLaw_of_run (hrun : Run (NumberingNext host beyond) .empty steps s)
    (hsuits : ∀ e ∈ steps, Suits beyond e.before e.action) : NumbersLaw host beyond steps s := by
  obtain ⟨hsound, -⟩ := covered_of_run hrun sound_empty hsuits
  refine ⟨hsound.numbered.canonical, fun c hc c' hc' no hno hno' => ?_, fun earlier e later hsteps hread => ?_,
    fun e he i plan haction hplan => ?_⟩
  · exact Table.eq_of_key_eq hsound.numbered.keys hc' hc (hsound.numbered.distinct c hc c' hc' no hno hno')
  · subst hsteps
    obtain ⟨hbefore, -, -⟩ := hrun.of_append
    have hroom : Room beyond (numberingRows e.before.db) := by
      have := hsuits e (List.mem_append_right _ List.mem_cons_self)
      rwa [hread] at this
    obtain ⟨hnow, hcovered⟩ := covered_of_run hbefore sound_empty fun e' he' => hsuits e' (List.mem_append_left _ he')
    refine ⟨(nodup_machineNumberPlan hnow.numbered hroom).1, fun p hp => ⟨fun c hc => ?_, fun e' he' c hc hno => ?_⟩⟩
    · exact plan_fresh hnow hroom hnow.numbered (Covers.refl _) hp hc
    · obtain ⟨hthen, hcovers⟩ := hcovered e' he'
      exact absurd hno (plan_fresh hnow hroom hthen.numbered hcovers hp hc)
  · obtain ⟨earlier, later, rfl, hbefore, hnext, -⟩ := hrun.split he
    obtain ⟨hnow, -⟩ := covered_of_run hbefore sound_empty fun e' he' => hsuits e' (List.mem_append_left _ he')
    have hfits := hsuits e he
    rw [haction] at hfits
    obtain ⟨r, hr, -, -, hgiven⟩ := applied_of_suits hnow hplan hfits
    have hafter : e.after.db = r.1 := by
      rw [show e.after = e.before.step host beyond e.action from hnext, haction, step_applyPlan hplan hr]
    rw [hafter]
    exact ⟨r.2, hr, hgiven⟩

/-! A run that keeps the law, and one that breaks it. -/

instance (m : NumberingMachine) (kind : MachineKind) : Decidable (waits kind m = true) := inferInstance

instance (machines : List NumberingMachine) : Decidable (Room beyond machines) :=
  let fits := fun kind => topNo beyond machines kind + machines.countP (waits kind) < 1000000
  decidable_of_iff (fits .coffee ∧ fits .snack ∧ fits .drink ∧ fits .combo ∧ fits .other)
    ⟨fun ⟨h₁, h₂, h₃, h₄, h₅⟩ kind => by cases kind <;> assumption, fun h => ⟨h _, h _, h _, h _, h _⟩⟩

instance (db : Db) (c : MachineCard) (n : ℕ) : Decidable (Reached beyond db c n) := by
  unfold Reached
  infer_instance

instance (db : Db) (id : String) (input : NumberInput) : Decidable (KeepsTop beyond db id input) := by
  unfold KeepsTop
  infer_instance

instance (db : Db) (p : PlannedNo) : Decidable (Fits beyond db p) := by
  unfold Fits
  infer_instance

instance (s : Numbering) (a : NumberingAction) : Decidable (Suits beyond s a) := by
  cases a <;> unfold Suits <;> infer_instance

def labelHost : Host :=
  ⟨fun s => s, fun _ => none, fun _ => "", fun _ => "", fun a b => if before a b then -1 else if a = b then 0 else 1,
    fun _ => ""⟩

def latinOnly (c : Char) : List Char := [c]

def newMachine (id : String) : NumberingAction := .create ⟨id, "machine", id, "2026-09-11T00:00:00.000Z", none, none⟩

/-- The first machine is renumbered upwards between the reading of a plan for the second and its writing. -/
def secondNumbered : List NumberingAction :=
  [newMachine "a", .setKind "a" .snack, .setNumber "a" ⟨some (some " s-7"), false⟩, newMachine "b", .setKind "b" .snack,
    .readPlan, .setNumber "a" ⟨some (some "S-9"), true⟩, .applyPlan 0]

theorem numbersLaw_secondNumbered :
    NumbersLaw labelHost latinOnly (runActions (Numbering.step labelHost latinOnly) .empty secondNumbered).1
      (runActions (Numbering.step labelHost latinOnly) .empty secondNumbered).2 :=
  numbersLaw_of_run (run_runActions (Numbering.step labelHost latinOnly) .empty secondNumbered) (by decide +kernel)

/-- A machine with a number becomes one of another kind. -/
def kindChanged : List NumberingAction :=
  [newMachine "a", .setKind "a" .snack, .setNumber "a" ⟨some (some "S-1"), false⟩, .setKind "a" .coffee]

theorem number_of_another_kind :
    ¬ ∀ (host : Host) (beyond : Char → List Char) (s : Numbering) (steps : List (Step Numbering NumberingAction)),
      Run (NumberingNext host beyond) .empty steps s → NumbersLaw host beyond steps s := by
  intro h
  have hlaw := h labelHost latinOnly _ _ (run_runActions (Numbering.step labelHost latinOnly) .empty kindChanged)
  have hcanonical := hlaw.canonical
  revert hcanonical
  decide +kernel

end Mydon.Machines
