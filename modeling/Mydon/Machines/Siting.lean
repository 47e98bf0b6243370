import Mydon.Lib.Run
import Mydon.Machines.Places

/-! Status and place of machines over the operations that change them. An operation reads what it reads in steps of its
own and then writes in one; what it has read may have changed by then. -/

namespace Mydon.Machines

open Mydon.Lib Mydon.Js

/-- An operation between its steps, with what it has read. -/
inductive Pending
  | status (id : String) (before : Option MachineStatus) (status : MachineStatus) (placeId : Option String)
  | link (locationId id : String) (day : ℤ) (rest : List (String × String))
  | autoStatuses (places : List LocationRow) (machines : List MachineCandidate)
  | auto (locationId id : String) (rest : List (String × String))
  deriving DecidableEq

structure Siting where
  db : Db
  today : ℤ
  pending : List Pending
  deriving DecidableEq

inductive SitingAction
  | nextDay (days : ℕ)
  | setStatus (id : String) (status : MachineStatus) (placeId : Option String)
  | link (locationId : String) (id : Option String)
  | unlink (id : String)
  | autoLink
  | proceed (i : ℕ)
  deriving DecidableEq

/-- The next link of an automatic run. -/
def nextLink : List (String × String) → Option Pending
  | [] => none
  | (locationId, id) :: rest => some (.auto locationId id rest)

/-- A read of an operation, or its write; where it fails, the rest of the operation is given up. -/
def Pending.proceed (host : Host) (db : Db) (today : ℤ) : Pending → Db × Option Pending
  | .status id before after placeId => ((setMachineStatusTx host db id before after placeId today).toOption.getD db, none)
  | .link locationId id day rest =>
    match linkTx db locationId id day with
    | .ok linked => (linked, nextLink rest)
    | .error _ => (db, none)
  | .autoStatuses places machines =>
    (db, nextLink (autoLinks host places machines (db.machineCards.map fun c => (c.entityId, c.status))).1)
  | .auto locationId id rest =>
    match linkReads host db locationId (some id) with
    | .ok id => (db, some (.link locationId id today rest))
    | .error _ => (db, none)

def Siting.step (host : Host) (s : Siting) : SitingAction → Siting
  | .nextDay days => { s with today := s.today + days }
  | .setStatus id status placeId =>
    match statusReads s.db id with
    | .ok before => { s with pending := s.pending ++ [.status id before status placeId] }
    | .error _ => s
  | .link locationId id =>
    match linkReads host s.db locationId id with
    | .ok id => { s with pending := s.pending ++ [.link locationId id s.today []] }
    | .error _ => s
  | .unlink id =>
    match unlinkMachine s.db id s.today with
    | .ok (db, _) => { s with db }
    | .error _ => s
  | .autoLink => { s with pending := s.pending ++ [.autoStatuses (locations s.db) (machineCandidates host s.db)] }
  | .proceed i =>
    match s.pending[i]? with
    | some p =>
      { s with
        db := (p.proceed host s.db s.today).1
        pending := s.pending.eraseIdx i ++ (p.proceed host s.db s.today).2.toList }
    | none => s

def SitingNext (host : Host) (s : Siting) (a : SitingAction) (s' : Siting) : Prop := s' = s.step host a

/-! The law. -/

/-- A day of the period. -/
def Placement.covers (p : Placement) (d : ℤ) : Prop := (∀ start ∈ p.startDate, start ≤ d) ∧ ∀ finish ∈ p.endDate, d ≤ finish

/-- One of the periods ends when the other begins, or before. -/
def Placement.Apart (p p' : Placement) : Prop :=
  (∃ finish ∈ p.endDate, ∃ start ∈ p'.startDate, finish ≤ start) ∨
    ∃ finish ∈ p'.endDate, ∃ start ∈ p.startDate, finish ≤ start

/-- A place that suits the status of a machine. -/
def Suitable (host : Host) (db : Db) (status : Option MachineStatus) (locationId : String) : Prop :=
  ∀ place ∈ db.entity locationId, placeStatusConflict host status place.type place.name = none

/-- A machine stands at one place at most, which suits its status, and its periods share a day only where one ends and
the other begins. -/
structure PlacesLaw (host : Host) (db : Db) : Prop where
  single : db.placements.Pairwise fun p p' => p.entityId = p'.entityId → ¬ (p.endDate = none ∧ p'.endDate = none)
  agrees : ∀ p ∈ db.placements, p.endDate = none → Suitable host db (db.statusOf p.entityId) p.locationId
  shares : db.placements.Pairwise fun p p' => p.entityId = p'.entityId → ∀ d, p.covers d → p'.covers d →
    (p.endDate = some d ∧ p'.startDate = some d) ∨ (p'.endDate = some d ∧ p.startDate = some d)

/-! What a step keeps. -/

structure Placed (host : Host) (db : Db) (today : ℤ) : Prop where
  apart : db.placements.Pairwise fun p p' => p.entityId = p'.entityId → p.Apart p'
  past : ∀ p ∈ db.placements, ∀ finish ∈ p.endDate, finish ≤ today
  agrees : ∀ p ∈ db.placements, p.endDate = none → Suitable host db (db.statusOf p.entityId) p.locationId

/-- A link is not of a day to come. -/
structure Sited (host : Host) (s : Siting) : Prop where
  placed : Placed host s.db s.today
  days : ∀ locationId id day rest, .link locationId id day rest ∈ s.pending → day ≤ s.today

variable {host : Host} {db db' : Db} {s s' start : Siting} {a : SitingAction} {id locationId : String} {today day : ℤ}
  {status : MachineStatus} {p p' : Placement} {steps : List (Step Siting SitingAction)}

theorem Placement.Apart.closed (h : p.Apart p') : ¬ (p.endDate = none ∧ p'.endDate = none) := by
  rintro ⟨hopen, hopen'⟩
  rcases h with ⟨finish, hfinish, -⟩ | ⟨finish, hfinish, -⟩
  · rw [hopen] at hfinish
    cases hfinish
  · rw [hopen'] at hfinish
    cases hfinish

theorem Placement.Apart.boundary {d : ℤ} (h : p.Apart p') (hp : p.covers d) (hp' : p'.covers d) :
    (p.endDate = some d ∧ p'.startDate = some d) ∨ (p'.endDate = some d ∧ p.startDate = some d) := by
  rcases h with ⟨finish, hfinish, first, hfirst, hle⟩ | ⟨finish, hfinish, first, hfirst, hle⟩
  · obtain rfl : finish = d := le_antisymm (hle.trans (hp'.1 first hfirst)) (hp.2 finish hfinish)
    obtain rfl : first = finish := le_antisymm (hp'.1 first hfirst) hle
    exact .inl ⟨hfinish, hfirst⟩
  · obtain rfl : finish = d := le_antisymm (hle.trans (hp.1 first hfirst)) (hp'.2 finish hfinish)
    obtain rfl : first = finish := le_antisymm (hp.1 first hfirst) hle
    exact .inr ⟨hfinish, hfirst⟩

theorem Placed.law (h : Placed host db today) : PlacesLaw host db := by
  refine ⟨h.apart.imp fun hapart hid => (hapart hid).closed, h.agrees, h.apart.imp ?_⟩
  intro p p' hapart hid d hp hp'
  exact (hapart hid).boundary hp hp'

theorem isOpenOf_iff : p.isOpenOf id = true ↔ p.entityId = id ∧ p.endDate = none := by
  simp [Placement.isOpenOf]

@[simp] theorem endOn_entityId : (p.endOn id today).entityId = p.entityId := by
  unfold Placement.endOn
  split_ifs <;> rfl

@[simp] theorem endOn_startDate : (p.endOn id today).startDate = p.startDate := by
  unfold Placement.endOn
  split_ifs <;> rfl

theorem endOn_of_not_open (h : p.isOpenOf id = false) : p.endOn id today = p := by
  unfold Placement.endOn
  rw [h]
  rfl

/-- A period that has ended does not end again. -/
theorem endOn_endDate {finish : ℤ} (h : finish ∈ p.endDate) : finish ∈ (p.endOn id today).endDate := by
  rw [endOn_of_not_open (by simp [Placement.isOpenOf, show p.endDate = some finish from h])]
  exact h

theorem Placement.Apart.endOn (h : p.Apart p') : (p.endOn id today).Apart (p'.endOn id today) := by
  rcases h with ⟨finish, hfinish, first, hfirst, hle⟩ | ⟨finish, hfinish, first, hfirst, hle⟩
  · exact .inl ⟨finish, endOn_endDate hfinish, first, by rw [endOn_startDate]; exact hfirst, hle⟩
  · exact .inr ⟨finish, endOn_endDate hfinish, first, by rw [endOn_startDate]; exact hfirst, hle⟩

theorem closeOpen_eq_ok (h : db.closeOpen id today = .ok db') :
    db' = { db with placements := db.placements.map (Placement.endOn id today) } := by
  obtain ⟨_, -, h⟩ := bind_eq_ok.mp h
  exact (Except.ok.inj h).symm

/-- The periods of a machine after its open one has ended. -/
theorem mem_closed (h : db.closeOpen id today = .ok db') (hp : p ∈ db'.placements) :
    (p ∈ db.placements ∧ p.isOpenOf id = false) ∨ (p.entityId = id ∧ p.endDate = some today) := by
  obtain rfl := closeOpen_eq_ok h
  obtain ⟨q, hq, rfl⟩ := List.mem_map.mp hp
  by_cases hopen : q.isOpenOf id = true
  · refine .inr ⟨by rw [endOn_entityId]; exact (isOpenOf_iff.mp hopen).1, ?_⟩
    unfold Placement.endOn
    rw [if_pos hopen]
  · rw [endOn_of_not_open (by simpa using hopen)]
    exact .inl ⟨hq, by simpa using hopen⟩

theorem apart_closed (h : db.closeOpen id today = .ok db')
    (hapart : db.placements.Pairwise fun p p' => p.entityId = p'.entityId → p.Apart p') :
    db'.placements.Pairwise fun p p' => p.entityId = p'.entityId → p.Apart p' := by
  obtain rfl := closeOpen_eq_ok h
  refine List.pairwise_map.mpr (hapart.imp fun happ hid => ?_)
  rw [endOn_entityId, endOn_entityId] at hid
  exact (happ hid).endOn

/-- What holds while one machine is on its way. -/
structure PlacedBesides (host : Host) (db : Db) (today : ℤ) (id : String) : Prop where
  apart : db.placements.Pairwise fun p p' => p.entityId = p'.entityId → p.Apart p'
  past : ∀ p ∈ db.placements, ∀ finish ∈ p.endDate, finish ≤ today
  agrees : ∀ p ∈ db.placements, p.endDate = none → p.entityId ≠ id →
    Suitable host db (db.statusOf p.entityId) p.locationId

theorem Placed.besides (h : Placed host db today) : PlacedBesides host db today id :=
  ⟨h.apart, h.past, fun p hp hopen _ => h.agrees p hp hopen⟩

/-- The machine has left the place where it stood. -/
theorem PlacedBesides.close (h : PlacedBesides host db today id) (hday : day ≤ today)
    (hclosed : db.closeOpen id day = .ok db') : Placed host db' today := by
  refine ⟨apart_closed hclosed h.apart, fun p hp finish hfinish => ?_, fun p hp hopen => ?_⟩
  · rcases mem_closed hclosed hp with ⟨hold, -⟩ | ⟨-, hended⟩
    · exact h.past p hold finish hfinish
    · rw [hended] at hfinish
      exact Option.some.inj hfinish ▸ hday
  · rcases mem_closed hclosed hp with ⟨hold, hnot⟩ | ⟨-, hended⟩
    · obtain rfl := closeOpen_eq_ok hclosed
      refine h.agrees p hold hopen fun hid => ?_
      rw [isOpenOf_iff.mpr ⟨hid, hopen⟩] at hnot
      cases hnot
    · rw [hended] at hopen
      cases hopen

/-- It has moved to a place that suits it; no period of it ended after that day. -/
theorem PlacedBesides.move (h : PlacedBesides host db today id) (hday : day ≤ today)
    (hmoved : db.moveTo locationId id day = .ok db') (hsuits : Suitable host db (db.statusOf id) locationId)
    (hends : ∀ p ∈ db.placements, p.entityId = id → ∀ finish ∈ p.endDate, finish ≤ day) : Placed host db' today := by
  obtain ⟨mid, hclosed, hplaced⟩ := bind_eq_ok.mp hmoved
  obtain ⟨_, hfree, hplaced⟩ := bind_eq_ok.mp hplaced
  have hmid := h.close hday hclosed
  obtain rfl := Except.ok.inj hplaced
  refine ⟨List.pairwise_append.mpr ⟨hmid.apart, List.pairwise_singleton _ _, fun p hp p' hp' hid => ?_⟩,
    fun p hp finish hfinish => ?_, fun p hp hopen => ?_⟩
  · obtain rfl := List.mem_singleton.mp hp'
    rcases mem_closed hclosed hp with ⟨hold, hnot⟩ | ⟨-, hended⟩
    · rcases hfinish : p.endDate with _ | finish
      · exact absurd (isOpenOf_iff.mpr ⟨hid, hfinish⟩) (by simp [hnot])
      · exact .inl ⟨finish, hfinish, day, rfl, hends p hold hid finish hfinish⟩
    · exact .inl ⟨day, hended, day, rfl, le_rfl⟩
  · rcases List.mem_append.mp hp with hold | hnew
    · exact hmid.past p hold finish hfinish
    · rw [List.mem_singleton.mp hnew] at hfinish
      cases hfinish
  · rcases List.mem_append.mp hp with hold | hnew
    · exact hmid.agrees p hold hopen
    · rw [List.mem_singleton.mp hnew]
      obtain rfl := closeOpen_eq_ok hclosed
      exact hsuits

theorem statusOf_saveStatus {id' : String} :
    (db.saveStatus id status).statusOf id' = if id' = id then some status else db.statusOf id' := by
  unfold Db.statusOf Db.saveStatus Db.machineCard
  rw [Table.lookup_upsert]
  rcases hcard : Table.lookup MachineCard.entityId db.machineCards id with _ | card
  · dsimp only
    split_ifs <;> rfl
  · dsimp only
    rw [Table.key_of_lookup hcard]
    split_ifs <;> rfl

theorem Placed.saveStatus (h : Placed host db today) : PlacedBesides host (db.saveStatus id status) today id := by
  refine ⟨h.apart, h.past, fun p hp hopen hne => ?_⟩
  rw [statusOf_saveStatus, if_neg hne]
  exact h.agrees p hp hopen

/-- A status that is set without a place suits the place where the machine is left. -/
def StatusSuits (host : Host) (db : Db) (id : String) (before : Option MachineStatus) (status : MachineStatus)
    (placeId : Option String) : Prop :=
  placeId = none → leaves before status = false →
    ∀ p ∈ db.placements, p.isOpenOf id = true → Suitable host db (some status) p.locationId

/-- A link finds the status of the machine suited to the place still, and no period of it that has ended after the day
of the link. -/
def LinkSuits (host : Host) (db : Db) (locationId id : String) (day : ℤ) : Prop :=
  (linkTx db locationId id day).isOk = true → standsAt db locationId id = true ∨
    (Suitable host db (db.statusOf id) locationId ∧
      ∀ p ∈ db.placements, p.entityId = id → ∀ finish ∈ p.endDate, finish ≤ day)

theorem Placed.setStatus {before : Option MachineStatus} {placeId : Option String} (h : Placed host db today)
    (hsuits : StatusSuits host db id before status placeId)
    (hok : setMachineStatusTx host db id before status placeId today = .ok db') : Placed host db' today := by
  obtain ⟨left, hleft, hplace⟩ := bind_eq_ok.mp hok
  have hsaved : PlacedBesides host (db.saveStatus id status) today id := h.saveStatus
  have hbesides : PlacedBesides host left today id ∧ left.statusOf id = some status := by
    split_ifs at hleft
    · obtain hstatus := closeOpen_eq_ok hleft
      refine ⟨(hsaved.close le_rfl hleft).besides, ?_⟩
      rw [hstatus]
      exact statusOf_saveStatus.trans (if_pos rfl)
    · obtain rfl := Except.ok.inj hleft
      exact ⟨hsaved, statusOf_saveStatus.trans (if_pos rfl)⟩
  rcases placeId with _ | placeId
  · obtain rfl := Except.ok.inj hplace
    by_cases hleaves : leaves before status = true
    · rw [if_pos hleaves] at hleft
      exact hsaved.close le_rfl hleft
    · rw [if_neg hleaves] at hleft
      obtain rfl := Except.ok.inj hleft
      refine ⟨hsaved.apart, hsaved.past, fun p hp hopen => ?_⟩
      by_cases hid : p.entityId = id
      · rw [hid, statusOf_saveStatus, if_pos rfl]
        exact hsuits rfl (by simpa using hleaves) p hp (isOpenOf_iff.mpr ⟨hid, hopen⟩)
      · exact hsaved.agrees p hp hopen hid
  · obtain ⟨place, hfound, hplace⟩ := bind_eq_ok.mp hplace
    obtain ⟨_, -, hplace⟩ := bind_eq_ok.mp hplace
    replace hfound := orThrow_eq_ok.mp hfound
    split at hplace
    · cases hplace
    · next hnone =>
      refine hbesides.1.move le_rfl hplace ?_ fun p hp _ => hbesides.1.past p hp
      intro place' hplace'
      obtain rfl := Option.some.inj (hfound.symm.trans hplace')
      rw [hbesides.2]
      exact hnone

theorem Placed.link (h : Placed host db today) (hday : day ≤ today) (hsuits : LinkSuits host db locationId id day)
    (hok : linkTx db locationId id day = .ok db') : Placed host db' today := by
  unfold LinkSuits at hsuits
  rw [hok] at hsuits
  unfold linkTx at hok
  rcases hsuits rfl with hstands | ⟨hsuits, hends⟩
  · rw [if_pos hstands] at hok
    exact Except.ok.inj hok ▸ h
  · split_ifs at hok
    · exact Except.ok.inj hok ▸ h
    · exact h.besides.move hday hok hsuits hends

/-! Runs. -/

theorem Placed.later (h : Placed host db today) {today' : ℤ} (hle : today ≤ today') : Placed host db today' :=
  ⟨h.apart, fun p hp finish hfinish => (h.past p hp finish hfinish).trans hle, h.agrees⟩

theorem nextLink_ne_link {rest links : List (String × String)} : nextLink links ≠ some (.link locationId id day rest) := by
  unfold nextLink
  split <;> simp

/-- What an operation asks of the state in which it goes on. -/
def Pending.Suits (host : Host) (db : Db) : Pending → Prop
  | .status id before status placeId => StatusSuits host db id before status placeId
  | .link locationId id day _ => LinkSuits host db locationId id day
  | _ => True

theorem Placed.proceed {pending : Pending} (h : Placed host db today) (hsuits : pending.Suits host db)
    (hday : ∀ locationId id day rest, pending = .link locationId id day rest → day ≤ today) :
    Placed host (pending.proceed host db today).1 today := by
  cases pending with
  | status id before status placeId =>
    unfold Pending.proceed
    rcases hok : setMachineStatusTx host db id before status placeId today with e | db'
    · dsimp only
      rw [hok]
      exact h
    · dsimp only
      rw [hok]
      exact h.setStatus hsuits hok
  | link locationId id day rest =>
    unfold Pending.proceed
    rcases hok : linkTx db locationId id day with e | db'
    · dsimp only
      rw [hok]
      exact h
    · dsimp only
      rw [hok]
      exact h.link (hday _ _ _ _ rfl) hsuits hok
  | autoStatuses places machines => exact h
  | auto locationId id rest =>
    unfold Pending.proceed
    dsimp only
    split <;> exact h

/-- Only a checked link is written next, and it is of today. -/
theorem proceed_link {pending : Pending} {rest : List (String × String)}
    (h : (pending.proceed host db today).2 = some (.link locationId id day rest)) : day = today := by
  cases pending with
  | status => cases h
  | link locationId' id' day' rest' =>
    unfold Pending.proceed at h
    dsimp only at h
    split at h
    · exact absurd h nextLink_ne_link
    · cases h
  | autoStatuses places machines => exact absurd h nextLink_ne_link
  | auto locationId' id' rest' =>
    unfold Pending.proceed at h
    dsimp only at h
    split at h <;> cases h
    rfl

def SitingSuits (host : Host) (s : Siting) : SitingAction → Prop
  | .proceed i => ∀ p ∈ s.pending[i]?, p.Suits host s.db
  | _ => True

theorem Sited.push {pending : Pending} (h : Sited host s)
    (hday : ∀ locationId id day rest, pending = .link locationId id day rest → day ≤ s.today) :
    Sited host { s with pending := s.pending ++ [pending] } := by
  refine ⟨h.placed, fun locationId id day rest hp => ?_⟩
  rcases List.mem_append.mp hp with hold | hnew
  · exact h.days _ _ _ _ hold
  · exact hday _ _ _ _ (List.mem_singleton.mp hnew).symm

theorem Sited.step (h : Sited host s) (hsuits : SitingSuits host s a) : Sited host (s.step host a) := by
  cases a with
  | nextDay days =>
    have hle : s.today ≤ s.today + days := by omega
    exact ⟨h.placed.later hle, fun locationId id day rest hp => (h.days _ _ _ _ hp).trans hle⟩
  | setStatus id status placeId =>
    unfold Siting.step
    dsimp only
    split
    · exact h.push fun _ _ _ _ heq => nomatch heq
    · exact h
  | link locationId id =>
    unfold Siting.step
    dsimp only
    split
    · refine h.push fun _ _ _ _ heq => ?_
      cases heq
      exact le_rfl
    · exact h
  | unlink id =>
    unfold Siting.step
    dsimp only
    split
    · next db n hok =>
      obtain ⟨closed, hclosed, hdb⟩ := bind_eq_ok.mp hok
      obtain ⟨rfl, -⟩ := Prod.ext_iff.mp (Except.ok.inj hdb)
      exact ⟨h.placed.besides.close le_rfl hclosed, h.days⟩
    · exact h
  | autoLink => exact h.push fun _ _ _ _ heq => nomatch heq
  | proceed i =>
    unfold Siting.step
    dsimp only
    split
    · next p hp =>
      have hmem := List.mem_of_getElem? hp
      refine ⟨h.placed.proceed (hsuits p hp) fun _ _ _ _ heq => h.days _ _ _ _ (heq ▸ hmem),
        fun locationId id day rest hlink => ?_⟩
      rcases List.mem_append.mp hlink with hold | hnew
      · exact h.days _ _ _ _ (List.mem_of_mem_eraseIdx hold)
      · exact (proceed_link (Option.mem_toList.mp hnew)).le
    · exact h

/-- The law holds in every state of a run in which a status is set without a place only where it suits the place at which
the machine is left, and a link is written while the machine still has a status for it and was nowhere else since. -/
theorem placesLaw_of_run (hrun : Run (SitingNext host) start steps s) (hstart : Sited host start)
    (hsuits : ∀ e ∈ steps, SitingSuits host e.before e.action) : PlacesLaw host s.db := by
  have hsited := @Run.invariant_of _ _ (SitingNext host) start s steps (Sited host)
    (fun e => SitingSuits host e.before e.action) (fun s a s' h hnext hs => by
      obtain rfl : s' = s.step host a := hnext
      exact h.step hs) hrun hstart hsuits
  exact hsited.placed.law

/-! A run that keeps the law, and one that breaks it. -/

instance (db : Db) (status : Option MachineStatus) (locationId : String) :
    Decidable (Suitable host db status locationId) := by
  unfold Suitable
  infer_instance

instance (db : Db) (id : String) (before : Option MachineStatus) (status : MachineStatus) (placeId : Option String) :
    Decidable (StatusSuits host db id before status placeId) := by
  unfold StatusSuits
  infer_instance

instance (db : Db) (locationId id : String) (day : ℤ) : Decidable (LinkSuits host db locationId id day) := by
  unfold LinkSuits
  infer_instance

instance Pending.decidableSuits (db : Db) (p : Pending) : Decidable (p.Suits host db) := by
  cases p <;> unfold Pending.Suits <;> infer_instance

instance (s : Siting) (a : SitingAction) : Decidable (SitingSuits host s a) := by
  cases a <;> unfold SitingSuits <;> infer_instance

def siteHost : Host :=
  ⟨fun s => String.ofList (s.toList.map lowerAscii), fun _ => none, fun _ => "", fun _ => "",
    fun a b => if before a b then -1 else if a = b then 0 else 1, fun _ => ""⟩

/-- A machine that is named after its place, and a warehouse. -/
def oneMachine : Siting :=
  ⟨⟨[⟨"m", "machine", "Olma · snack", "", none, none⟩, ⟨"l", "location", "Olma", "", none, none⟩,
    ⟨"w", "warehouse", "Depot", "", none, none⟩], [], []⟩, 0, []⟩

theorem sited_oneMachine : Sited siteHost oneMachine :=
  ⟨⟨List.Pairwise.nil, List.forall_mem_nil _, List.forall_mem_nil _⟩, fun _ _ _ _ h => nomatch h⟩

/-- The machine is linked by its name, goes to the warehouse, and comes back. -/
def thereAndBack : List SitingAction :=
  [.autoLink, .proceed 0, .proceed 0, .proceed 0, .nextDay 5, .setStatus "m" .warehouse (some "w"), .proceed 0,
    .nextDay 1, .setStatus "m" .in_service (some "l"), .proceed 0]

theorem placesLaw_thereAndBack :
    PlacesLaw siteHost (runActions (Siting.step siteHost) oneMachine thereAndBack).2.db :=
  placesLaw_of_run (run_runActions (Siting.step siteHost) oneMachine thereAndBack) sited_oneMachine (by decide +kernel)

/-- The machine goes to the warehouse, and is in service again without a place. -/
def leftBehind : List SitingAction :=
  [.setStatus "m" .warehouse (some "w"), .proceed 0, .setStatus "m" .in_service none, .proceed 0]

theorem in_service_at_warehouse :
    ¬ ∀ (host : Host) (start s : Siting) (steps : List (Step Siting SitingAction)), Sited host start →
      Run (SitingNext host) start steps s → PlacesLaw host s.db := by
  intro h
  have hlaw := h siteHost oneMachine _ _ sited_oneMachine
    (run_runActions (Siting.step siteHost) oneMachine leftBehind)
  have hagrees := hlaw.agrees
  revert hagrees
  decide +kernel

end Mydon.Machines
