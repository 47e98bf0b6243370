import Mydon.Entities.Cards
import Mydon.Lib.Run

/-! Operations on cards that run side by side. Each reads what it reads in steps of its own and then writes; only an
edit holds the card from its read to its write. An operation that is about to write may find that the card, or the
draft, is no longer what it has read. -/

namespace Mydon.Entities

open Mydon.Lib Mydon.Js

/-! `CoffeeService.updateLocation`. -/

structure LocationPatch where
  name : Option String
  isActive : Option Bool
  deriving DecidableEq

/-- The columns that are written. -/
structure LocationSet where
  name : Option String
  attrs : Option Attrs

/-- A place that is on has no mark. -/
def markAttrs (attrs : Attrs) (isActive : Bool) : Attrs :=
  if isActive then OrderedMap.delete "выключена" attrs else OrderedMap.set "выключена" (.bool true) attrs

def locationSet (loc : Card) (patch : LocationPatch) : Except HttpError LocationSet := do
  let name := patch.name.map trim
  require (∀ clean ∈ name, 2 ≤ Js.length clean ∧ Js.length clean ≤ 128) (.badRequest "Имя точки — от 2 до 128 символов")
  return ⟨name, patch.isActive.map (markAttrs loc.attrs)⟩

def LocationSet.isEmpty (set : LocationSet) : Bool := set.name.isNone && set.attrs.isNone

def Card.relocate (c : Card) (set : LocationSet) : Card :=
  { c with name := set.name.getD c.name, attrs := set.attrs.getD c.attrs }

def updateLocationTx (db : Db) (id : ℕ) (set : LocationSet) : Db :=
  { db with cards := Table.update Card.id db.cards id fun c => c.relocate set }

/-! The system. -/

inductive Request
  | propose (p : Proposal)
  | approve (id : ℕ) (withDrafts : Bool)
  | approveField (id : ℕ) (field : String)
  | rejectField (id : ℕ) (field : String)
  | update (id : ℕ) (dto : UpdateEntityDto) (today : ℤ)
  | updateLocation (id : ℕ) (patch : LocationPatch)

/-- An operation between its steps, with what it has read. -/
inductive Pending
  | propose (p : Proposal)
  | approveReads (card : Card)
  | approve (card : Card) (drafts : Option (List Draft))
  | approveFieldReads (d : Draft)
  | approveField (card : Card) (d : Draft)
  | rejectField (d : Draft)
  | updateLocation (id : ℕ) (set : LocationSet)

structure State where
  db : Db
  pending : List Pending

inductive Action
  | request (r : Request)
  | proceed (i : ℕ)

/-- The first read of an operation, unless it ends there. -/
def firstRead (host : Host) (db : Db) : Request → Option Pending
  | .propose p =>
    (db.card p.entityId).bind fun card => if currentText host card p.field = p.value then none else some (.propose p)
  | .approve id withDrafts => (db.card id).map fun card => if withDrafts then .approveReads card else .approve card none
  | .approveField id field => (db.draft id field).map .approveFieldReads
  | .rejectField id field => (db.draft id field).map .rejectField
  | .update .. => none
  | .updateLocation id patch =>
    (db.card id).bind fun loc =>
      ((locationSet loc patch).toOption.filter fun set => !set.isEmpty).map fun set => .updateLocation id set

/-- The next step of an operation: a read, or its write. -/
def Pending.next (host : Host) (db : Db) : Pending → Db × Option Pending
  | .propose p => (proposeTx db p, none)
  | .approveReads card => (db, some (.approve card (some (db.draftsOf card.id))))
  | .approve card drafts => ((approveTx host db card drafts).toOption.getD db, none)
  | .approveFieldReads d => (db, (db.card d.entityId).map fun card => .approveField card d)
  | .approveField card d => (approveFieldTx db card d, none)
  | .rejectField d => (deleteDraft db d, none)
  | .updateLocation id set => (updateLocationTx db id set, none)

def State.step (env : Env) (s : State) : Action → State
  | .request (.update id dto today) =>
    match update env today s.db id dto with
    | .ok (_, db) => { s with db }
    | .error _ => s
  | .request r => { s with pending := s.pending ++ (firstRead env.host s.db r).toList }
  | .proceed i =>
    match s.pending[i]? with
    | some p => ⟨(p.next env.host s.db).1, s.pending.eraseIdx i ++ (p.next env.host s.db).2.toList⟩
    | none => s

def Next (env : Env) (s : State) (a : Action) (s' : State) : Prop := s' = s.step env a

/-! What an operation is asked about, and what it has read. -/

inductive Field
  | name
  | attr (key : String)
  deriving DecidableEq

def fieldOf (field : String) : Field := if field = "название" then .name else .attr field

def Card.get (c : Card) : Field → Option Json
  | .name => some (.str c.name)
  | .attr key => OrderedMap.get c.attrs key

def Db.value (db : Db) (id : ℕ) (f : Field) : Option Json := (db.card id).bind fun c => c.get f

def Pending.asks (id : ℕ) (f : Field) : Pending → Bool
  | .approve card drafts => card.id = id && (drafts.getD []).any fun d => fieldOf d.field = f
  | .approveField card d => card.id = id && fieldOf d.field = f
  | .updateLocation i set =>
    i = id && match f with
      | .name => set.name.isSome
      | .attr key => set.attrs.isSome && key = "выключена"
  | _ => false

def asks (s : State) (a : Action) (id : ℕ) (f : Field) : Bool :=
  match a with
  | .request (.update i dto _) =>
    i = id && match f with
      | .name => dto.name.isSome
      | .attr _ => dto.attrs.isSome
  | .request _ => false
  | .proceed i => s.pending[i]?.any fun p => p.asks id f

/-- The drafts that a decision consumes. -/
def Pending.consumes : Pending → List Draft
  | .approve _ drafts => drafts.getD []
  | .approveField _ d => [d]
  | .rejectField d => [d]
  | _ => []

def consumes (s : State) : Action → List Draft
  | .request _ => []
  | .proceed i => (s.pending[i]?.map Pending.consumes).getD []

/-- What an operation is about to write back without being asked, and what it is about to delete, are as it has read
them. -/
def Pending.Current (db : Db) : Pending → Prop
  | .approve card drafts =>
    (∀ c, db.card card.id = some c → ∀ f,
      Pending.asks card.id f (.approve card drafts) = false → c.get f = card.get f) ∧
      ∀ ds, drafts = some ds → db.draftsOf card.id = ds
  | .approveField card d =>
    d ∈ db.drafts ∧ (d.field ≠ "название" →
      ∀ c, db.card card.id = some c → ∀ key, key ≠ d.field → OrderedMap.get c.attrs key = OrderedMap.get card.attrs key)
  | .rejectField d => d ∈ db.drafts
  | .updateLocation id set =>
    ∀ attrs, set.attrs = some attrs → ∀ c, db.card id = some c →
      ∀ key, key ≠ "выключена" → OrderedMap.get c.attrs key = OrderedMap.get attrs key
  | _ => True

def WritesCurrent (e : Step State Action) : Prop :=
  match e.action with
  | .request _ => True
  | .proceed i => ∀ p, e.before.pending[i]? = some p → p.Current e.before.db

/-- The unique keys of the drafts. -/
structure Db.WF (db : Db) : Prop where
  draftIds : (db.drafts.map Draft.id).Nodup
  draftFresh : ∀ d ∈ db.drafts, d.id < db.nextId

/-- No update of a card is lost: a value stays until an operation is asked about its field; every draft is consumed by
one decision, or is still there; and a decision deletes only the drafts that it has read, as it has read them. -/
structure NoneLost (env : Env) (s : State) (steps : List (Step State Action)) (s' : State) : Prop where
  kept : ∀ earlier s₁ later, Run (Next env) s earlier s₁ → Run (Next env) s₁ later s' → steps = earlier ++ later →
    ∀ id f, (∀ e ∈ later, asks e.before e.action id f = false) → s'.db.value id f = s₁.db.value id f
  consumedOnce : ∀ earlier s₁ later, Run (Next env) s earlier s₁ → Run (Next env) s₁ later s' →
    steps = earlier ++ later → ∀ d ∈ s₁.db.drafts,
      (later.flatMap fun e => consumes e.before e.action).countP (fun d' => d'.id = d.id) +
        s'.db.drafts.countP (fun d' => d'.id = d.id) = 1
  deletedAsRead : ∀ e ∈ steps, ∀ d ∈ e.before.db.drafts, d.id ∉ e.after.db.drafts.map Draft.id →
    d ∈ consumes e.before e.action

/-! Values of a card. -/

variable {env : Env} {db db' : Db} {s s' : State} {steps : List (Step State Action)} {id i : ℕ} {f : Field}
  {g : Card → Card}

theorem value_of_update (hcards : db'.cards = Table.update Card.id db.cards i g) (hg : ∀ c, (g c).id = c.id)
    (hkept : ∀ c, db.card i = some c → id = i → (g c).get f = c.get f) : db'.value id f = db.value id f := by
  unfold Db.value Db.card
  rw [hcards, Table.lookup_update hg]
  split_ifs with hid
  · subst hid
    rcases hc : Table.lookup Card.id db.cards id with _ | c
    · rfl
    · exact hkept c hc rfl
  · rfl

theorem value_of_cards (hcards : db'.cards = db.cards) : db'.value id f = db.value id f := by
  unfold Db.value Db.card
  rw [hcards]

/-- The value of a field in a pair of a name and attributes. -/
def getOf (fields : String × Attrs) : Field → Option Json
  | .name => some (.str fields.1)
  | .attr key => OrderedMap.get fields.2 key

theorem get_overwrite (c : Card) (fields : String × Attrs) : (c.overwrite fields).get f = getOf fields f := by
  cases f <;> rfl

theorem getOf_card (c : Card) : getOf (c.name, c.attrs) f = c.get f := by cases f <;> rfl

theorem getOf_applyDraft {fields : String × Attrs} {d : Draft} (h : fieldOf d.field ≠ f) :
    getOf (applyDraft fields d) f = getOf fields f := by
  unfold applyDraft
  unfold fieldOf at h
  split_ifs at h ⊢ with hname
  · cases f
    · exact absurd rfl h
    · rfl
  · cases f
    · rfl
    · exact (OrderedMap.get_set _ _ _ _).trans (if_neg fun hkey => h (congrArg Field.attr hkey))

theorem getOf_foldl {drafts : List Draft} {fields : String × Attrs} (h : ∀ d ∈ drafts, fieldOf d.field ≠ f) :
    getOf (drafts.foldl applyDraft fields) f = getOf fields f := by
  induction drafts generalizing fields with
  | nil => rfl
  | cons d drafts ih =>
    rw [List.foldl_cons, ih fun d' hd' => h d' (List.mem_cons_of_mem _ hd'), getOf_applyDraft (h d List.mem_cons_self)]

theorem get_patch {c card : Card} {d : Draft} (h : fieldOf d.field ≠ f)
    (hattrs : d.field ≠ "название" → ∀ key, key ≠ d.field →
      OrderedMap.get c.attrs key = OrderedMap.get card.attrs key) :
    (c.patch card d).get f = c.get f := by
  unfold fieldOf at h
  unfold Card.patch
  split_ifs at h ⊢ with hname
  · cases f
    · exact absurd rfl h
    · rfl
  · cases f with
    | name => rfl
    | attr key =>
      have hkey : d.field ≠ key := fun hkey => h (congrArg Field.attr hkey)
      exact ((OrderedMap.get_set _ _ _ _).trans (if_neg hkey)).trans (hattrs hname key (Ne.symm hkey)).symm

/-- An edit keeps what it is not asked about. -/
theorem value_of_updated {today : ℤ} {dto : UpdateEntityDto} {before updated : Card}
    (h : Updated env today db i dto before updated db')
    (hasked : asks s (.request (.update i dto today)) id f = false) : db'.value id f = db.value id f := by
  have hid : updated.id = i := by rw [h.eq, edited_id, card_id h.found]
  have hfound : Table.lookup Card.id db.cards updated.id = some before := hid ▸ h.found
  unfold Db.value Db.card
  rw [h.cards]
  by_cases hi : id = updated.id
  · rw [hi, Table.lookup_write_self hfound, hfound, Option.bind_some, Option.bind_some, h.eq]
    simp only [asks, hi, hid, decide_true, Bool.true_and] at hasked
    cases f with
    | name =>
      have hnone : dto.name = none := by simpa using hasked
      simp [Card.get, edited, hnone]
    | attr key =>
      have hnone : dto.attrs = none := by simpa using hasked
      simp [Card.get, edited, hnone]
  · rw [Table.lookup_write_of_ne hi]

/-- A write of what is current keeps what it is not asked about. -/
theorem value_of_next {p : Pending} (hcurrent : p.Current db) (hasked : p.asks id f = false) :
    (p.next env.host db).1.value id f = db.value id f := by
  cases p with
  | propose p =>
    exact value_of_cards (proposeTx_cards p)
  | approveReads card => rfl
  | approveFieldReads d => rfl
  | rejectField d => rfl
  | approve card drafts =>
    obtain ⟨db', htx, happroved⟩ := @approveTx_total env.host db card drafts
    have hdb : (Pending.next env.host db (.approve card drafts)).1 = db' := by simp [Pending.next, htx, Except.toOption]
    rw [hdb]
    refine value_of_update happroved.cards (fun c => rfl) fun c hc hid => ?_
    subst hid
    have hfields : ∀ d ∈ drafts.getD [], fieldOf d.field ≠ f := by simpa [Pending.asks] using hasked
    rw [get_overwrite, hcurrent.1 c hc f hasked, ← getOf_card]
    exact getOf_foldl hfields
  | approveField card d =>
    refine value_of_update rfl (fun c => patch_id c card d) fun c hc hid => ?_
    subst hid
    exact get_patch (by simpa [Pending.asks] using hasked) fun hname key hkey => hcurrent.2 hname c hc key hkey
  | updateLocation i set =>
    refine value_of_update rfl (fun c => rfl) fun c hc hid => ?_
    subst hid
    simp only [Pending.asks, decide_true, Bool.true_and] at hasked
    cases f with
    | name =>
      have hnone : set.name = none := by simpa using hasked
      simp [Card.get, Card.relocate, hnone]
    | attr key =>
      rcases hattrs : set.attrs with _ | attrs
      · simp [Card.get, Card.relocate, hattrs]
      · have hkey : key ≠ "выключена" := by simpa [hattrs] using hasked
        simp [Card.get, Card.relocate, hattrs, hcurrent attrs hattrs c hc key hkey]

/-! Drafts. -/

/-- Rows of `taken` are gone, and no others; new rows have ids of their own. -/
structure Took (taken : List Draft) (db db' : Db) : Prop where
  wf : db'.WF
  nextId : db.nextId ≤ db'.nextId
  stored : ∀ d ∈ taken, d ∈ db.drafts
  counted : ∀ x < db.nextId, taken.countP (fun d => d.id = x) + db'.drafts.countP (fun d => d.id = x) =
    db.drafts.countP (fun d => d.id = x)

theorem Took.none_of_drafts (hwf : db.WF) (hdrafts : db'.drafts = db.drafts) (hnext : db'.nextId = db.nextId) :
    Took [] db db' := by
  refine ⟨⟨hdrafts ▸ hwf.draftIds, ?_⟩, hnext.ge, List.forall_mem_nil _, fun x _ => ?_⟩
  · rw [hdrafts, hnext]
    exact hwf.draftFresh
  · rw [hdrafts, List.countP_nil, zero_add]

theorem Took.of_filter {q : Draft → Bool} {taken : List Draft} (hwf : db.WF)
    (htaken : taken = db.drafts.filter fun d => !q d) (hdrafts : db'.drafts = db.drafts.filter q)
    (hnext : db'.nextId = db.nextId) : Took taken db db' := by
  refine ⟨⟨?_, ?_⟩, hnext.ge, ?_, fun x _ => ?_⟩
  · rw [hdrafts]
    exact hwf.draftIds.sublist (List.filter_sublist.map Draft.id)
  · rw [hdrafts, hnext]
    exact fun d hd => hwf.draftFresh d (List.mem_of_mem_filter hd)
  · rw [htaken]
    exact fun d hd => List.mem_of_mem_filter hd
  · rw [hdrafts, htaken, List.countP_eq_countP_filter_add db.drafts _ q, Nat.add_comm]

theorem took_deleteDraft {d : Draft} (hwf : db.WF) (hd : d ∈ db.drafts)
    (hdrafts : db'.drafts = (deleteDraft db d).drafts) (hnext : db'.nextId = db.nextId) : Took [d] db db' := by
  refine Took.of_filter hwf ?_ hdrafts hnext
  rw [← Table.filter_key_eq hwf.draftIds hd]
  simp

theorem took_propose (hwf : db.WF) (p : Proposal) : Took [] db (proposeTx db p) := by
  unfold proposeTx
  split
  · next d hd =>
    have hkept : (Table.write Draft.id db.drafts { d with value := p.value }).map Draft.id = db.drafts.map Draft.id :=
      Table.map_key_write
    refine ⟨⟨hkept.symm ▸ hwf.draftIds, fun d' hd' => ?_⟩, le_rfl, List.forall_mem_nil _, fun x _ => ?_⟩
    · obtain ⟨d₀, hd₀, hid⟩ := List.mem_map.mp (hkept ▸ List.mem_map_of_mem hd')
      exact hid ▸ hwf.draftFresh d₀ hd₀
    · have hcount := congrArg (List.count x) hkept
      simp only [List.count, List.countP_map, Function.comp_def, beq_eq_decide] at hcount
      rw [List.countP_nil, zero_add, hcount]
  · refine ⟨⟨?_, ?_⟩, Nat.le_succ _, List.forall_mem_nil _, fun x hx => ?_⟩
    · exact Table.nodup_append_singleton hwf.draftIds fun d hd => (hwf.draftFresh d hd).ne
    · intro d hd
      rcases List.mem_append.mp hd with hold | hnew
      · exact Nat.lt_succ_of_lt (hwf.draftFresh d hold)
      · rw [List.mem_singleton.mp hnew]
        exact Nat.lt_succ_self _
    · rw [List.countP_nil, zero_add, List.countP_append, List.countP_singleton]
      simp [hx.ne']

theorem took_next {p : Pending} (hwf : db.WF) (hcurrent : p.Current db) :
    Took p.consumes db (p.next env.host db).1 := by
  cases p with
  | propose p => exact took_propose hwf p
  | approveReads card => exact .none_of_drafts hwf rfl rfl
  | approveFieldReads d => exact .none_of_drafts hwf rfl rfl
  | updateLocation i set => exact .none_of_drafts hwf rfl rfl
  | rejectField d => exact took_deleteDraft hwf hcurrent rfl rfl
  | approveField card d => exact took_deleteDraft hwf hcurrent.1 rfl rfl
  | approve card drafts =>
    obtain ⟨db', htx, happroved⟩ := @approveTx_total env.host db card drafts
    have hdb : (Pending.next env.host db (.approve card drafts)).1 = db' := by simp [Pending.next, htx, Except.toOption]
    rw [hdb]
    cases drafts with
    | none => exact .none_of_drafts hwf happroved.drafts happroved.nextId
    | some ds =>
      refine Took.of_filter hwf ?_ happroved.drafts happroved.nextId
      rw [Pending.consumes, Option.getD_some, ← hcurrent.2 ds rfl]
      simp [Db.draftsOf]

/-! Steps and runs. -/

theorem step_request_db (env : Env) (s : State) (r : Request) (hr : ∀ id dto today, r ≠ .update id dto today) :
    (s.step env (.request r)).db = s.db := by
  cases r with
  | update id dto today => exact absurd rfl (hr id dto today)
  | propose | approve | approveField | rejectField | updateLocation => rfl

theorem step_took (hwf : s.db.WF) {a : Action} (hcurrent : WritesCurrent ⟨s, a, s.step env a⟩) :
    Took (consumes s a) s.db (s.step env a).db := by
  rcases a with r | i
  · by_cases hr : ∃ id dto today, r = .update id dto today
    · obtain ⟨id, dto, today, rfl⟩ := hr
      unfold State.step
      dsimp only
      split
      · next hupdate =>
        obtain ⟨before, hupdated⟩ := update_eq_ok hupdate
        exact .none_of_drafts hwf hupdated.drafts hupdated.nextId
      · exact .none_of_drafts hwf rfl rfl
    · rw [step_request_db env s r fun id dto today h => hr ⟨id, dto, today, h⟩]
      exact .none_of_drafts hwf rfl rfl
  · unfold State.step consumes
    dsimp only
    rcases hp : s.pending[i]? with _ | p
    · exact .none_of_drafts hwf rfl rfl
    · exact took_next hwf (hcurrent p hp)

theorem step_value {a : Action} (hcurrent : WritesCurrent ⟨s, a, s.step env a⟩) (hasked : asks s a id f = false) :
    (s.step env a).db.value id f = s.db.value id f := by
  rcases a with r | i
  · by_cases hr : ∃ id dto today, r = .update id dto today
    · obtain ⟨i, dto, today, rfl⟩ := hr
      unfold State.step
      dsimp only
      split
      · next hupdate =>
        obtain ⟨before, hupdated⟩ := update_eq_ok hupdate
        exact value_of_updated hupdated hasked
      · rfl
    · rw [step_request_db env s r fun id dto today h => hr ⟨id, dto, today, h⟩]
  · unfold State.step
    dsimp only
    rcases hp : s.pending[i]? with _ | p
    · rfl
    · refine value_of_next (hcurrent p hp) ?_
      simpa [asks, hp] using hasked

theorem run_wf (hrun : Run (Next env) s steps s') (hwf : s.db.WF) (hcurrent : ∀ e ∈ steps, WritesCurrent e) :
    s'.db.WF :=
  @Run.invariant_of _ _ (Next env) s s' steps (fun s => s.db.WF) WritesCurrent
    (fun s a s' hwf (hnext : s' = s.step env a) hcurrent => by
      subst hnext
      exact (step_took hwf hcurrent).wf) hrun hwf hcurrent

theorem run_value (hrun : Run (Next env) s steps s') (hcurrent : ∀ e ∈ steps, WritesCurrent e)
    (hasked : ∀ e ∈ steps, asks e.before e.action id f = false) : s'.db.value id f = s.db.value id f := by
  induction hrun with
  | start => rfl
  | @step steps s' s'' a hrun hnext ih =>
    simp only [List.forall_mem_append, List.forall_mem_singleton] at hcurrent hasked
    obtain rfl : s'' = s'.step env a := hnext
    rw [step_value hcurrent.2 hasked.2, ih hcurrent.1 hasked.1]

/-- A row that is there at first is there at the end, or was consumed once. -/
theorem run_counted (hrun : Run (Next env) s steps s') (hwf : s.db.WF) (hcurrent : ∀ e ∈ steps, WritesCurrent e) :
    s.db.nextId ≤ s'.db.nextId ∧ ∀ x < s.db.nextId,
      (steps.flatMap fun e => consumes e.before e.action).countP (fun d => d.id = x) +
        s'.db.drafts.countP (fun d => d.id = x) = s.db.drafts.countP fun d => d.id = x := by
  induction hrun with
  | start => exact ⟨le_rfl, fun x _ => by rw [List.flatMap_nil, List.countP_nil, zero_add]⟩
  | @step steps s' s'' a hrun hnext ih =>
    simp only [List.forall_mem_append, List.forall_mem_singleton] at hcurrent
    obtain rfl : s'' = s'.step env a := hnext
    obtain ⟨hmono, hcounted⟩ := ih hcurrent.1
    have htook := step_took (run_wf hrun hwf hcurrent.1) hcurrent.2
    refine ⟨hmono.trans htook.nextId, fun x hx => ?_⟩
    have hbefore := hcounted x hx
    have hstep := htook.counted x (hx.trans_le hmono)
    rw [List.flatMap_append, List.flatMap_singleton, List.countP_append]
    dsimp only
    omega

theorem countP_id (hwf : db.WF) {d : Draft} (hd : d ∈ db.drafts) : db.drafts.countP (fun d' => d'.id = d.id) = 1 := by
  rw [List.countP_eq_length_filter, Table.filter_key_eq hwf.draftIds hd, List.length_singleton]

/-- What a step deletes it has read, as it is. -/
theorem step_deleted (hwf : s.db.WF) {a : Action} (hcurrent : WritesCurrent ⟨s, a, s.step env a⟩) {d : Draft}
    (hd : d ∈ s.db.drafts) (hgone : d.id ∉ (s.step env a).db.drafts.map Draft.id) : d ∈ consumes s a := by
  have htook := step_took hwf hcurrent
  have hcounted := htook.counted d.id (hwf.draftFresh d hd)
  have hzero : (s.step env a).db.drafts.countP (fun d' => d'.id = d.id) = 0 :=
    List.countP_eq_zero.mpr fun d' hd' hid => hgone (List.mem_map.mpr ⟨d', hd', by simpa using hid⟩)
  rw [countP_id hwf hd, hzero, Nat.add_zero] at hcounted
  obtain ⟨d', hd', hid⟩ := List.countP_pos_iff.mp (hcounted ▸ Nat.one_pos)
  rwa [← Table.eq_of_key_eq hwf.draftIds (htook.stored d' hd') hd (by simpa using hid)]

/-- No update is lost in a run whose writes are all of what is current. -/
theorem noneLost_of_run (hrun : Run (Next env) s steps s') (hwf : s.db.WF) (hcurrent : ∀ e ∈ steps, WritesCurrent e) :
    NoneLost env s steps s' := by
  refine ⟨?_, ?_, ?_⟩
  · rintro earlier s₁ later - hlater rfl id f hasked
    exact run_value hlater (fun e he => hcurrent e (List.mem_append_right _ he)) hasked
  · rintro earlier s₁ later hearlier hlater rfl d hd
    have hwf₁ := run_wf hearlier hwf fun e he => hcurrent e (List.mem_append_left _ he)
    have hcounted := run_counted hlater hwf₁ fun e he => hcurrent e (List.mem_append_right _ he)
    rw [hcounted.2 d.id (hwf₁.draftFresh d hd), countP_id hwf₁ hd]
  · intro e he d hd hgone
    obtain ⟨earlier, later, rfl, hbefore, hnext, -⟩ := hrun.split he
    have hwf₁ := run_wf hbefore hwf fun e he => hcurrent e (List.mem_append_left _ he)
    obtain ⟨before, a, after⟩ := e
    obtain rfl : after = before.step env a := hnext
    exact step_deleted hwf₁ (hcurrent _ he) hd hgone

/-! A machine with one card. -/

def cardHost : Host := ⟨fun s => s, fun _ => none, fun _ => "", fun _ => "", fun _ _ => 0, fun _ => ""⟩

def cardEnv : Env := ⟨cardHost, fun _ => ""⟩

def oneCard : State := ⟨⟨[⟨0, "machine", "Автомат", none, [], true⟩], [], [], [], [], 1⟩, []⟩

/-- A value is proposed and approved, and then another field is edited. -/
def oneAtATime : List Action :=
  [.request (.propose ⟨0, "модель", "KM-5"⟩), .proceed 0, .request (.approveField 0 "модель"), .proceed 0, .proceed 0,
    .request (.update 0 ⟨none, none, some [("цена", .num 5)]⟩ 0)]

theorem noneLost_oneAtATime :
    NoneLost cardEnv oneCard (runActions (State.step cardEnv) oneCard oneAtATime).1
      (runActions (State.step cardEnv) oneCard oneAtATime).2 := by
  refine noneLost_of_run (run_runActions _ _ _) ⟨by decide, by decide⟩ ?_
  refine List.forall_mem_cons.mpr ⟨trivial, List.forall_mem_cons.mpr ⟨?_, List.forall_mem_cons.mpr ⟨trivial,
    List.forall_mem_cons.mpr ⟨?_, List.forall_mem_cons.mpr ⟨?_, List.forall_mem_singleton.mpr trivial⟩⟩⟩⟩⟩
  · intro p hp
    cases hp
    trivial
  · intro p hp
    cases hp
    trivial
  · intro p hp
    cases hp
    refine ⟨List.mem_singleton.mpr rfl, fun _ c hc key _ => ?_⟩
    cases hc
    rfl

/-- The card is read for its approval, its price is edited, and the approval writes back what it has read. -/
theorem update_lost : ¬ ∀ (env : Env) (s s' : State) (steps : List (Step State Action)), s.pending = [] → s.db.WF →
    Run (Next env) s steps s' → NoneLost env s steps s' := by
  intro h
  let first : List Action := [.request (.approve 0 true), .request (.update 0 ⟨none, none, some [("цена", .num 5)]⟩ 0)]
  let last : List Action := [.proceed 0, .proceed 0]
  let middle := runActions (State.step cardEnv) oneCard first
  let final := runActions (State.step cardEnv) middle.2 last
  have hfirst : Run (Next cardEnv) oneCard middle.1 middle.2 := run_runActions _ _ _
  have hlast : Run (Next cardEnv) middle.2 final.1 final.2 := run_runActions _ _ _
  have hkept := (h cardEnv oneCard final.2 _ rfl ⟨by decide, by decide⟩ (hfirst.append hlast)).kept
    middle.1 middle.2 final.1 hfirst hlast rfl 0 (.attr "цена") ?_
  · cases (hkept : (none : Option Json) = some (.num 5))
  · refine List.forall_mem_cons.mpr ⟨rfl, List.forall_mem_singleton.mpr rfl⟩

end Mydon.Entities
