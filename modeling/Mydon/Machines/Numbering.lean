import Mydon.Lib.Run
import Mydon.Machines.Tables

/-! Numbers of machines over the operations that give them: the kind of a machine is named, a number is entered or taken
off, and a plan for the machines without a number is read first and written later. -/

namespace Mydon.Machines

open Mydon.Lib Mydon.Js

/-! `EntitiesService`. -/

def setMachineKind (db : Db) (entityId : String) (kind : MachineKind) : Except HttpError Db := do
  let card ← orThrow (db.entity entityId) (.notFound "Карточки нет")
  require (card.type = "machine") (.badRequest s!"Вид задаётся только автоматам, а это «{card.type}»")
  db.saveMachineCard (match db.machineCard entityId with
    | some before => { before with kind }
    | none => ⟨entityId, kind, .in_service, none, false⟩)

/-- `inventoryNo` may be left out, null or a text. -/
structure NumberInput where
  inventoryNo : Option (Option String)
  confirmLabel : Bool
  deriving DecidableEq

structure NumberSet where
  inventoryNo : Option (Option String)
  labelPending : Option Bool
  deriving DecidableEq

/-- The name of another machine that has the number. -/
def clashOf (db : Db) (entityId no : String) : Option String :=
  db.machineCards.findSome? fun c =>
    if c.inventoryNo = some no ∧ c.entityId ≠ entityId then (db.entity c.entityId).map EntityRow.name else none

def namedNo (beyond : Char → List Char) (db : Db) (before : MachineCard) (raw : String) : Except HttpError String := do
  match machineNoProblem beyond before.kind raw with
  | some problem => .error (.badRequest problem)
  | none => do
    let norm ← orThrow (canonicalMachineNo beyond before.kind raw) (.internal "canonicalMachineNo")
    match clashOf db before.entityId norm with
    | some name => .error (.conflict s!"Номер {norm} уже у автомата «{name}»")
    | none => return norm

def numberSet (beyond : Char → List Char) (db : Db) (before : MachineCard) (input : NumberInput) :
    Except HttpError NumberSet := do
  let set : NumberSet ← (match input.inventoryNo with
    | none => .ok ⟨none, none⟩
    | some none => .ok ⟨some none, some false⟩
    | some (some raw) => (namedNo beyond db before raw).map fun no => ⟨some (some no), some false⟩)
  require (input.confirmLabel = false ∨ (set.inventoryNo.join.or before.inventoryNo).isSome)
    (.badRequest "Подтверждать нечего: номера нет")
  return if input.confirmLabel then { set with labelPending := some false } else set

def NumberSet.isEmpty (set : NumberSet) : Bool := set.inventoryNo.isNone && set.labelPending.isNone

def MachineCard.renumber (c : MachineCard) (set : NumberSet) : MachineCard :=
  { c with inventoryNo := set.inventoryNo.getD c.inventoryNo, labelPending := set.labelPending.getD c.labelPending }

def setMachineNumber (beyond : Char → List Char) (db : Db) (entityId : String) (input : NumberInput) :
    Except HttpError Db := do
  let before ← orThrow (db.machineCard entityId) (.notFound "У автомата нет карточки вида — сначала назовите вид")
  let set ← numberSet beyond db before input
  if set.isEmpty then .ok db else db.saveMachineCard (before.renumber set)

def numberingRow (db : Db) (c : MachineCard) : Option NumberingMachine :=
  (db.entity c.entityId).bind fun e =>
    if e.type = "machine" then some ⟨e.id, some c.kind, e.createdAt, e.externalRef, c.inventoryNo⟩ else none

def numberingRows (db : Db) : List NumberingMachine := db.machineCards.filterMap (numberingRow db)

def machineNumberPlan (host : Host) (beyond : Char → List Char) (db : Db) : List PlannedNo :=
  planMachineNumbers host beyond (numberingRows db)

/-- The number is for a machine that has none still. -/
def assignNo (state : Db × List PlannedNo) (p : PlannedNo) : Except HttpError (Db × List PlannedNo) :=
  match state.1.machineCard p.id with
  | some c =>
    if c.inventoryNo = none then do
      let db ← state.1.saveMachineCard { c with inventoryNo := some p.inventoryNo, labelPending := true }
      return (db, state.2 ++ [p])
    else .ok state
  | none => .ok state

/-- `applyMachineNumberPlan`, after it has read the plan. -/
def applyMachineNumberPlan (db : Db) (plan : List PlannedNo) : Except HttpError (Db × List PlannedNo) :=
  plan.foldlM assignNo (db, [])

/-! The system. A plan that was read waits until it is applied. -/

structure Numbering where
  db : Db
  plans : List (List PlannedNo)

inductive NumberingAction
  | create (row : EntityRow)
  | setKind (id : String) (kind : MachineKind)
  | setNumber (id : String) (input : NumberInput)
  | readPlan
  | applyPlan (i : ℕ)

def Numbering.commit (s : Numbering) (outcome : Except HttpError Db) : Numbering :=
  match outcome with
  | .ok db => { s with db }
  | .error _ => s

def Numbering.step (host : Host) (beyond : Char → List Char) (s : Numbering) : NumberingAction → Numbering
  | .create row => { s with db := s.db.create row }
  | .setKind id kind => s.commit (setMachineKind s.db id kind)
  | .setNumber id input => s.commit (setMachineNumber beyond s.db id input)
  | .readPlan => { s with plans := s.plans ++ [machineNumberPlan host beyond s.db] }
  | .applyPlan i =>
    match s.plans[i]? with
    | some plan => ({ s with plans := s.plans.eraseIdx i }).commit ((applyMachineNumberPlan s.db plan).map Prod.fst)
    | none => s

def Numbering.empty : Numbering := ⟨⟨[], [], []⟩, []⟩

def NumberingNext (host : Host) (beyond : Char → List Char) (s : Numbering) (a : NumberingAction) (s' : Numbering) :
    Prop := s' = s.step host beyond a

/-! What every state keeps: the numbers are of the kinds that the machines have, and each machine has its own. -/

structure Numbered (beyond : Char → List Char) (db : Db) : Prop where
  keys : (db.machineCards.map MachineCard.entityId).Nodup
  machines : ∀ c ∈ db.machineCards, ∃ e, db.entity c.entityId = some e ∧ e.type = "machine"
  canonical : ∀ c ∈ db.machineCards, ∀ no ∈ c.inventoryNo, Canonical beyond c.kind no
  distinct : ∀ c ∈ db.machineCards, ∀ c' ∈ db.machineCards, ∀ no ∈ c.inventoryNo, c'.inventoryNo = some no →
    c'.entityId = c.entityId

/-- The number of a card within its series. -/
def MachineCard.number (beyond : Char → List Char) (c : MachineCard) : Option ℕ :=
  c.inventoryNo.bind (machineSeriesNumber beyond c.kind)

/-- For every number there is one of its series that is as large. -/
def Covers (beyond : Char → List Char) (db db' : Db) : Prop :=
  ∀ c ∈ db.machineCards, ∀ n ∈ c.number beyond, ∃ c' ∈ db'.machineCards, c'.kind = c.kind ∧
    ∃ n' ∈ c'.number beyond, n ≤ n'

variable {host : Host} {beyond : Char → List Char} {db db' db'' : Db} {c old row : MachineCard} {n : ℕ} {no : String}

theorem Covers.refl (db : Db) : Covers beyond db db := fun c hc n hn => ⟨c, hc, rfl, n, hn, le_rfl⟩

theorem Covers.trans (h : Covers beyond db db') (h' : Covers beyond db' db'') : Covers beyond db db'' := by
  intro c hc n hn
  obtain ⟨c', hc', hkind, n', hn', hle⟩ := h c hc n hn
  obtain ⟨c'', hc'', hkind', n'', hn'', hle'⟩ := h' c' hc' n' hn'
  exact ⟨c'', hc'', hkind'.trans hkind, n'', hn'', hle.trans hle'⟩

theorem Covers.same (h : db'.machineCards = db.machineCards) : Covers beyond db db' := by
  unfold Covers
  rw [h]
  exact Covers.refl db

theorem mem_of_machineCard {id : String} (h : db.machineCard id = some c) : c ∈ db.machineCards ∧ c.entityId = id :=
  ⟨Table.mem_of_lookup h, Table.key_of_lookup h⟩

theorem Numbered.create {e : EntityRow} (h : Numbered beyond db) : Numbered beyond (db.create e) := by
  have hcards : (db.create e).machineCards = db.machineCards := by
    unfold Db.create
    split <;> rfl
  refine ⟨by rw [hcards]; exact h.keys, fun c hc => ?_, by rw [hcards]; exact h.canonical, by rw [hcards]; exact h.distinct⟩
  rw [hcards] at hc
  obtain ⟨card, hcard, htype⟩ := h.machines c hc
  exact ⟨card, by rw [entity_create, hcard, Option.some_or], htype⟩

/-- A saved card. -/
theorem Numbered.save (h : Numbered beyond db) (hsaved : db.saveMachineCard row = .ok db')
    (hmachine : ∃ e, db.entity row.entityId = some e ∧ e.type = "machine")
    (hcanonical : ∀ no ∈ row.inventoryNo, Canonical beyond row.kind no) : Numbered beyond db' := by
  obtain ⟨-, hkey, rfl⟩ := saveMachineCard_eq_ok.mp hsaved
  refine ⟨Table.nodup_upsert h.keys, fun c hc => ?_, fun c hc no hno => ?_, fun c hc c' hc' no hno hno' => ?_⟩
  · rcases (Table.mem_upsert h.keys).mp hc with rfl | ⟨hc, -⟩
    · exact hmachine
    · exact h.machines c hc
  · rcases (Table.mem_upsert h.keys).mp hc with rfl | ⟨hc, -⟩
    · exact hcanonical no hno
    · exact h.canonical c hc no hno
  · rcases (Table.mem_upsert h.keys).mp hc with rfl | ⟨hmem, hne⟩ <;>
      rcases (Table.mem_upsert h.keys).mp hc' with rfl | ⟨hmem', hne'⟩
    · rfl
    · exact absurd hno' (hkey c' hmem' hne' no hno)
    · exact absurd hno (hkey c hmem hne no hno')
    · exact h.distinct c hmem c' hmem' no hno hno'

/-- Only the number of the saved card may have gone. -/
theorem Covers.save (h : Numbered beyond db) (hsaved : db.saveMachineCard row = .ok db')
    (hcovered : ∀ old, db.machineCard row.entityId = some old → ∀ n ∈ old.number beyond,
      (row.kind = old.kind ∧ ∃ n' ∈ row.number beyond, n ≤ n') ∨
        ∃ c ∈ db.machineCards, c.entityId ≠ row.entityId ∧ c.kind = old.kind ∧ ∃ n' ∈ c.number beyond, n ≤ n') :
    Covers beyond db db' := by
  obtain ⟨-, -, rfl⟩ := saveMachineCard_eq_ok.mp hsaved
  intro c hc n hn
  by_cases hid : c.entityId = row.entityId
  · have hold : db.machineCard row.entityId = some c := (Table.lookup_eq_some_iff h.keys).mpr ⟨hc, hid⟩
    rcases hcovered c hold n hn with ⟨hkind, hlarge⟩ | ⟨other, hother, hne, hkind, hlarge⟩
    · exact ⟨row, (Table.mem_upsert h.keys).mpr (.inl rfl), hkind, hlarge⟩
    · exact ⟨other, (Table.mem_upsert h.keys).mpr (.inr ⟨hother, hne⟩), hkind, hlarge⟩
  · exact ⟨c, (Table.mem_upsert h.keys).mpr (.inr ⟨hc, hid⟩), rfl, n, hn, le_rfl⟩

/-! When a call keeps the numbers. -/

/-- Another machine of the kind has a number that is as large. -/
def Reached (beyond : Char → List Char) (db : Db) (c : MachineCard) (n : ℕ) : Prop :=
  ∃ c' ∈ db.machineCards, c'.entityId ≠ c.entityId ∧ c'.kind = c.kind ∧ ∃ n' ∈ c'.number beyond, n ≤ n'

/-- A number that is replaced or taken off is not the largest of its series then. -/
def KeepsTop (beyond : Char → List Char) (db : Db) (id : String) (input : NumberInput) : Prop :=
  ∀ c ∈ db.machineCard id, ∀ n ∈ c.number beyond, (numberSet beyond db c input).isOk = true →
    input.inventoryNo = none ∨ Reached beyond db c n ∨
      ∃ n' ∈ input.inventoryNo.join.bind (machineSeriesNumber beyond c.kind), n ≤ n'

/-- A planned number still suits the machine that waits for it, and nobody has it. -/
def Fits (beyond : Char → List Char) (db : Db) (p : PlannedNo) : Prop :=
  ∀ c ∈ db.machineCard p.id, c.inventoryNo = none →
    Canonical beyond c.kind p.inventoryNo ∧ ∀ c' ∈ db.machineCards, c'.inventoryNo ≠ some p.inventoryNo

def Suits (beyond : Char → List Char) (s : Numbering) : NumberingAction → Prop
  | .create _ => True
  | .setKind id kind => ∀ c ∈ s.db.machineCard id, c.inventoryNo = none ∨ c.kind = kind
  | .setNumber id input => KeepsTop beyond s.db id input
  | .readPlan => Room beyond (numberingRows s.db)
  | .applyPlan i => ∀ plan ∈ s.plans[i]?, ∀ p ∈ plan, Fits beyond s.db p

theorem number_of_none (h : c.inventoryNo = none) : c.number beyond = none := by
  unfold MachineCard.number
  rw [h]
  rfl

theorem setMachineKind_keeps {id : String} {kind : MachineKind} (h : Numbered beyond db)
    (hkind : ∀ c ∈ db.machineCard id, c.inventoryNo = none ∨ c.kind = kind) (hok : setMachineKind db id kind = .ok db') :
    Numbered beyond db' ∧ Covers beyond db db' := by
  obtain ⟨e, he, hok⟩ := bind_eq_ok.mp hok
  obtain ⟨_, htype, hok⟩ := bind_eq_ok.mp hok
  replace he := orThrow_eq_ok.mp he
  replace htype := require_eq_ok.mp htype
  rcases hold : db.machineCard id with _ | old
  · rw [hold] at hok
    refine ⟨h.save hok ⟨e, he, htype⟩ (by simp), Covers.save h hok fun c hc => ?_⟩
    exact absurd (hold.symm.trans hc) (by simp)
  · rw [hold] at hok
    obtain ⟨hmem, rfl⟩ := mem_of_machineCard hold
    refine ⟨h.save hok ⟨e, he, htype⟩ fun no hno => ?_, Covers.save h hok fun c hc n hn => ?_⟩
    · rcases hkind old hold with hnone | rfl
      · exact absurd (hnone.symm.trans hno) (by simp)
      · exact h.canonical old hmem no hno
    · obtain rfl := Option.some.inj (hold.symm.trans hc)
      rcases hkind old hold with hnone | rfl
      · rw [number_of_none hnone] at hn
        cases hn
      · exact .inl ⟨rfl, n, hn, le_rfl⟩

theorem number_of_raw {kind : MachineKind} {raw : String} (h : canonicalMachineNo beyond kind raw = some no) :
    machineSeriesNumber beyond kind no = machineSeriesNumber beyond kind raw := by
  obtain ⟨n, hn, hformat⟩ := Option.bind_eq_some_iff.mp h
  rw [machineSeriesNumber_format (machineSeriesNumber_lt hn) hformat, hn]

theorem namedNo_eq_ok {raw : String} (h : namedNo beyond db c raw = .ok no) :
    canonicalMachineNo beyond c.kind raw = some no := by
  unfold namedNo at h
  split at h
  · cases h
  · obtain ⟨norm, hnorm, h⟩ := bind_eq_ok.mp h
    split at h
    · cases h
    · rw [← Except.ok.inj h]
      exact orThrow_eq_ok.mp hnorm

/-- What is set: no number, or the one that was named. -/
theorem numberSet_eq_ok {input : NumberInput} {set : NumberSet} (h : numberSet beyond db c input = .ok set) :
    (input.inventoryNo = none ∧ set.inventoryNo = none) ∨ (input.inventoryNo = some none ∧ set.inventoryNo = some none) ∨
      ∃ raw no, input.inventoryNo = some (some raw) ∧ set.inventoryNo = some (some no) ∧
        canonicalMachineNo beyond c.kind raw = some no := by
  obtain ⟨base, hbase, h⟩ := bind_eq_ok.mp h
  obtain ⟨_, -, h⟩ := bind_eq_ok.mp h
  have hset : set.inventoryNo = base.inventoryNo := by
    rw [← Except.ok.inj h]
    split_ifs <;> rfl
  rw [hset]
  rcases hinput : input.inventoryNo with _ | _ | raw
  · rw [hinput] at hbase
    rw [← Except.ok.inj hbase]
    exact .inl ⟨rfl, rfl⟩
  · rw [hinput] at hbase
    rw [← Except.ok.inj hbase]
    exact .inr (.inl ⟨rfl, rfl⟩)
  · rw [hinput] at hbase
    obtain ⟨no, hno, rfl⟩ := map_eq_ok.mp hbase
    exact .inr (.inr ⟨raw, no, rfl, rfl, namedNo_eq_ok hno⟩)

theorem setMachineNumber_keeps {id : String} {input : NumberInput} (h : Numbered beyond db)
    (htop : KeepsTop beyond db id input) (hok : setMachineNumber beyond db id input = .ok db') :
    Numbered beyond db' ∧ Covers beyond db db' := by
  obtain ⟨old, hold, hrest⟩ := bind_eq_ok.mp hok
  obtain ⟨set, hset, hsave⟩ := bind_eq_ok.mp hrest
  replace hold := orThrow_eq_ok.mp hold
  obtain ⟨hmem, rfl⟩ := mem_of_machineCard hold
  clear hok hrest
  split_ifs at hsave
  · rw [← Except.ok.inj hsave]
    exact ⟨h, Covers.refl db⟩
  have hkeeps := htop old hold
  rw [hset] at hkeeps
  refine ⟨h.save hsave (h.machines old hmem) fun no hno => ?_, Covers.save h hsave fun c hc n hn => ?_⟩
  · rcases numberSet_eq_ok hset with ⟨-, hno'⟩ | ⟨-, hno'⟩ | ⟨raw, no', -, hno', hcanonical⟩ <;>
      rw [MachineCard.renumber, hno'] at hno
    · exact h.canonical old hmem no hno
    · cases hno
    · obtain rfl := Option.some.inj hno
      exact canonical_of_canonicalMachineNo hcanonical
  · obtain rfl := Option.some.inj (hold.symm.trans hc)
    rcases hkeeps n hn rfl with hnone | hreached | ⟨n', hn', hle⟩
    · rcases numberSet_eq_ok hset with ⟨-, hno'⟩ | ⟨hsome, -⟩ | ⟨raw, no', hsome, -⟩
      · refine .inl ⟨rfl, n, ?_, le_rfl⟩
        rw [MachineCard.renumber, hno']
        exact hn
      · cases hnone.symm.trans hsome
      · cases hnone.symm.trans hsome
    · exact .inr hreached
    · rcases numberSet_eq_ok hset with ⟨hsome, -⟩ | ⟨hsome, -⟩ | ⟨raw, no', hsome, hno', hcanonical⟩ <;>
        rw [hsome] at hn'
      · cases hn'
      · cases hn'
      · refine .inl ⟨rfl, n', ?_, hle⟩
        rw [MachineCard.renumber, hno']
        exact (number_of_raw hcanonical).trans hn'

/-- A number is given to a machine that has none. -/
theorem assign_keeps {p : PlannedNo} (h : Numbered beyond db) (hc : db.machineCard p.id = some c)
    (hnone : c.inventoryNo = none) (hfits : Fits beyond db p) :
    ∃ db', db.saveMachineCard { c with inventoryNo := some p.inventoryNo, labelPending := true } = .ok db' ∧
      Numbered beyond db' ∧ Covers beyond db db' ∧ ∀ id, db'.machineCard id =
        if id = p.id then some { c with inventoryNo := some p.inventoryNo, labelPending := true }
        else db.machineCard id := by
  obtain ⟨hcanonical, hfree⟩ := hfits c hc hnone
  obtain ⟨hmem, hid⟩ := mem_of_machineCard hc
  have hsaved : db.saveMachineCard { c with inventoryNo := some p.inventoryNo, labelPending := true } = .ok _ :=
    saveMachineCard_eq_ok.mpr ⟨fun no hno => Option.some.inj hno ▸ inventoryNoCanonical_of_canonical hcanonical,
      fun c' hc' _ no hno => Option.some.inj hno ▸ hfree c' hc', rfl⟩
  refine ⟨_, hsaved, h.save hsaved (h.machines c hmem) fun no hno => ?_, Covers.save h hsaved fun old hold n hn => ?_,
    fun id => ?_⟩
  · rw [← Option.some.inj hno]
    exact hcanonical
  · obtain rfl := Option.some.inj (hc.symm.trans (hid ▸ hold))
    rw [number_of_none hnone] at hn
    cases hn
  · unfold Db.machineCard
    rw [Table.lookup_upsert, hid]

/-- The plan is written as a whole: every machine of it that has no number gets the planned one. -/
theorem applyPlan_keeps {plan : List PlannedNo} {state : Db × List PlannedNo} (h : Numbered beyond state.1)
    (hnos : (plan.map PlannedNo.inventoryNo).Nodup) (hids : (plan.map PlannedNo.id).Nodup)
    (hfits : ∀ p ∈ plan, Fits beyond state.1 p) :
    ∃ r, plan.foldlM assignNo state = .ok r ∧ Numbered beyond r.1 ∧ Covers beyond state.1 r.1 ∧
      (∀ id ∉ plan.map PlannedNo.id, r.1.machineCard id = state.1.machineCard id) ∧
      ∀ p ∈ plan, ∀ c ∈ state.1.machineCard p.id, c.inventoryNo = none →
        r.1.machineCard p.id = some { c with inventoryNo := some p.inventoryNo, labelPending := true } := by
  induction plan generalizing state with
  | nil => exact ⟨state, rfl, h, Covers.refl _, fun _ _ => rfl, List.forall_mem_nil _⟩
  | cons p rest ih =>
    rw [List.map_cons, List.nodup_cons] at hnos hids
    have hother : ∀ q ∈ rest, q.id ≠ p.id := fun q hq hid => hids.1 (List.mem_map.mpr ⟨q, hq, hid⟩)
    by_cases hwaits : ∃ c, state.1.machineCard p.id = some c ∧ c.inventoryNo = none
    · obtain ⟨c, hc, hnone⟩ := hwaits
      obtain ⟨db', hsaved, hnumbered, hcovers, hlookup⟩ := assign_keeps h hc hnone (hfits p List.mem_cons_self)
      have hrest : ∀ q ∈ rest, Fits beyond db' q := by
        intro q hq c' hc' hnone'
        rw [hlookup, if_neg (hother q hq)] at hc'
        obtain ⟨hcanonical, hfree⟩ := hfits q (List.mem_cons_of_mem _ hq) c' hc' hnone'
        refine ⟨hcanonical, fun c'' hc'' hno => ?_⟩
        have hfound := (Table.lookup_eq_some_iff hnumbered.keys).mpr ⟨hc'', rfl⟩
        rw [← Db.machineCard, hlookup] at hfound
        split_ifs at hfound with hid
        · rw [← Option.some.inj hfound] at hno
          exact hnos.1 (List.mem_map.mpr ⟨q, hq, (Option.some.inj hno).symm⟩)
        · exact hfree c'' (mem_of_machineCard hfound).1 hno
      have hnext : Numbered beyond (db', state.2 ++ [p]).1 := hnumbered
      obtain ⟨r, hr, hdone, hall, hsame, hgiven⟩ := ih hnext hnos.2 hids.2 hrest
      refine ⟨r, ?_, hdone, hcovers.trans hall, fun id hid => ?_, fun q hq c' hc' hnone' => ?_⟩
      · have hstep : assignNo state p = .ok (db', state.2 ++ [p]) := by
          unfold assignNo
          rw [hc]
          dsimp only
          rw [if_pos hnone, hsaved]
          rfl
        rw [List.foldlM_cons, hstep]
        exact hr
      · rw [List.map_cons, List.mem_cons, not_or] at hid
        rw [hsame id hid.2, hlookup, if_neg hid.1]
      · rcases List.mem_cons.mp hq with rfl | hq
        · obtain rfl := Option.some.inj (hc.symm.trans hc')
          rw [hsame _ hids.1, hlookup, if_pos rfl]
        · refine hgiven q hq c' ?_ hnone'
          rw [hlookup, if_neg (hother q hq)]
          exact hc'
    · obtain ⟨r, hr, hdone, hall, hsame, hgiven⟩ :=
        ih h hnos.2 hids.2 fun q hq => hfits q (List.mem_cons_of_mem _ hq)
      refine ⟨r, ?_, hdone, hall, fun id hid => ?_, fun q hq c' hc' hnone' => ?_⟩
      · have hstep : assignNo state p = .ok state := by
          unfold assignNo
          rcases hc : state.1.machineCard p.id with _ | c
          · rfl
          · exact if_neg fun hnone => hwaits ⟨c, hc, hnone⟩
        rw [List.foldlM_cons, hstep]
        exact hr
      · rw [List.map_cons, List.mem_cons, not_or] at hid
        exact hsame id hid.2
      · rcases List.mem_cons.mp hq with rfl | hq
        · exact absurd ⟨c', hc', hnone'⟩ hwaits
        · exact hgiven q hq c' hc' hnone'

/-! The plan of a state. -/

theorem numberingRows_of_card (h : Numbered beyond db) (hc : c ∈ db.machineCards) :
    ∃ m ∈ numberingRows db, m.id = c.entityId ∧ m.kind = some c.kind ∧ m.inventoryNo = c.inventoryNo := by
  obtain ⟨e, he, htype⟩ := h.machines c hc
  have hid : e.id = c.entityId := Table.key_of_lookup he
  refine ⟨⟨e.id, some c.kind, e.createdAt, e.externalRef, c.inventoryNo⟩, List.mem_filterMap.mpr ⟨c, hc, ?_⟩,
    hid, rfl, rfl⟩
  unfold numberingRow
  rw [he, Option.bind_some, if_pos htype]

theorem nodup_numberingRows (h : Numbered beyond db) : ((numberingRows db).map (·.id)).Nodup := by
  have hids : (numberingRows db).map (·.id) = db.machineCards.map MachineCard.entityId := by
    unfold numberingRows
    rw [List.map_filterMap, ← List.filterMap_eq_map]
    refine List.filterMap_congr fun c hc => ?_
    obtain ⟨e, he, htype⟩ := h.machines c hc
    have hid : e.id = c.entityId := Table.key_of_lookup he
    unfold numberingRow
    rw [he, Option.bind_some, if_pos htype]
    exact congrArg some hid
  rw [hids]
  exact h.keys

/-- A planned number is above every number of its series. -/
theorem plan_above (h : Numbered beyond db) (hroom : Room beyond (numberingRows db)) {p : PlannedNo}
    (hp : p ∈ machineNumberPlan host beyond db) (hc : c ∈ db.machineCards) {kind : MachineKind}
    (hcanonical : Canonical beyond kind p.inventoryNo) (hkind : c.kind = kind) {n' : ℕ} (hn : n ∈ c.number beyond)
    (hn' : machineSeriesNumber beyond kind p.inventoryNo = some n') : n < n' := by
  obtain ⟨m, -, -, -, kind', top, -, hformat, hlow, hlt⟩ := (plan_spec hroom).1 p hp
  obtain ⟨n'', hlt'', hformat''⟩ := canonical_iff.mp hcanonical
  obtain ⟨rfl, rfl⟩ := format_inj hlt hlt'' hformat hformat''
  rw [machineSeriesNumber_format hlt hformat] at hn'
  obtain rfl := Option.some.inj hn'
  obtain ⟨row, hrow, -, hrowkind, hrowno⟩ := numberingRows_of_card h hc
  obtain ⟨no, hno, hnumber⟩ := Option.bind_eq_some_iff.mp hn
  rw [hkind] at hrowkind hnumber
  exact lt_of_le_of_lt (le_topNo hrow hrowkind (hrowno.trans hno) hnumber) hlow

end Mydon.Machines
