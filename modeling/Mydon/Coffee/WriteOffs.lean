import Mydon.Coffee.Refills
import Mydon.Lib.Run
import Mydon.Lib.Timeline

/-! Refills and their write-offs over the calls that make and remove them. A call reads and writes in steps; it may be
broken off between two of them, and others come between. -/

namespace Mydon.Coffee

open Mydon.Lib Mydon.Js Mydon.Stock

/-- A call between its steps, with what it has read. -/
inductive RefillPending
  | move (refill : CoffeeRefill) (input : CreateMovementInput)
  | link (refillId movementId : String)
  | delete (refillId : String)
  | reject (refill : CoffeeRefill)

/-- No id is given twice. -/
structure RefillDesk where
  refills : List CoffeeRefill
  tables : Tables
  ids : List String
  pending : List RefillPending

inductive RefillAction
  | submit (id : String) (dto : SubmitRefillDto)
  | consume (refillId consumes actor : String)
  | delete (refillId : String) (onlyIfCreatedBy : Option String)
  | reject (refillId : String)
  | proceed (i : ℕ) (newId : String)
  | interrupt (i : ℕ)

def RefillDesk.refill (s : RefillDesk) (id : String) : Option CoffeeRefill := Table.lookup CoffeeRefill.id s.refills id

/-- `update coffee_refill set stock_movement_id`, which refers to the movement. -/
def linkMovement (s : RefillDesk) (refillId movementId : String) : List CoffeeRefill :=
  if s.tables.journal.any (·.id = movementId) then
    Table.update CoffeeRefill.id s.refills refillId fun r => { r with stockMovementId := some movementId }
  else s.refills

def RefillDesk.proceed (env : RefillEnv) (s : RefillDesk) (newId : String) : RefillPending → RefillDesk
  | .move refill input =>
    match createMovement env.stock s.tables input newId with
    | (.ok m, tables) => { s with tables, ids := s.ids ++ [newId], pending := s.pending ++ [.link refill.id m.id] }
    | (.error _, tables) => { s with tables, ids := s.ids ++ [newId] }
  | .link refillId movementId => { s with refills := linkMovement s refillId movementId }
  | .delete refillId => { s with refills := s.refills.filter fun r => r.id ≠ refillId }
  | .reject refill =>
    { s with
      refills := s.refills.filter fun r => r.id ≠ refill.id
      tables := { s.tables with journal := s.tables.journal.filter fun m => some m.id ≠ refill.stockMovementId } }

/-- The first step of `consumeRefill`. -/
def startConsume (env : RefillEnv) (s : RefillDesk) (consumes actor : String) (r : CoffeeRefill) : RefillDesk :=
  let noted := Table.update CoffeeRefill.id s.refills r.id fun row => { row with partUnitId := notedUnit env r }
  match consumption env consumes r actor with
  | .done _ => { s with refills := noted }
  | .move _ _ input => { s with refills := noted, pending := s.pending ++ [.move r input] }

def RefillDesk.step (env : RefillEnv) (s : RefillDesk) : RefillAction → RefillDesk
  | .submit id dto =>
    if id ∈ s.ids then s else { s with refills := s.refills ++ [newRefill env id dto], ids := s.ids ++ [id] }
  | .consume refillId consumes actor =>
    match s.refill refillId with
    | some r => if r.stockMovementId.isSome then s else startConsume env s consumes actor r
    | none => s
  | .delete refillId onlyIfCreatedBy =>
    match s.refill refillId with
    | some r =>
      if onlyIfCreatedBy = none ∨ onlyIfCreatedBy = r.createdBy then
        { s with pending := s.pending ++ [.delete refillId] }
      else s
    | none => s
  | .reject refillId =>
    match s.refill refillId with
    | some r => { s with pending := s.pending ++ [.reject r] }
    | none => s
  | .proceed i newId =>
    match s.pending[i]? with
    | some p => if newId ∈ s.ids then s else ({ s with pending := s.pending.eraseIdx i }).proceed env newId p
    | none => s
  | .interrupt i => { s with pending := s.pending.eraseIdx i }

def RefillNext (env : RefillEnv) (s : RefillDesk) (a : RefillAction) (s' : RefillDesk) : Prop := s' = s.step env a

/-- The refill that a call has written off successfully, and its movement. -/
def succeeded (s : RefillDesk) : RefillAction → Option (String × String)
  | .consume refillId _ _ => (s.refill refillId).bind fun r => r.stockMovementId.map (refillId, ·)
  | .proceed i newId =>
    match s.pending[i]? with
    | some (.link refillId movementId) => if newId ∈ s.ids then none else some (refillId, movementId)
    | _ => none
  | _ => none

/-! Movements of refills. -/

/-- A movement under the key of some refill. -/
def isWriteOff (m : StockMovementRow) : Bool :=
  m.clientKey.any fun key => "coffee-refill:".toList.isPrefixOf key.toList

theorem refillKey_inj {id id' : String} (h : refillKey id = refillKey id') : id = id' := by
  have htext := congrArg String.toList h
  unfold refillKey at htext
  rw [String.toList_append, String.toList_append] at htext
  exact String.toList_inj.mp (List.append_cancel_left htext)

variable {m : StockMovementRow} {r : CoffeeRefill} {input : CreateMovementInput}

theorem isWriteOff_iff : isWriteOff m = true ↔ ∃ id, m.clientKey = some (refillKey id) := by
  unfold isWriteOff
  rcases m.clientKey with _ | key
  · simp
  · rw [Option.any_some, List.isPrefixOf_iff_prefix]
    constructor
    · rintro ⟨rest, hrest⟩
      refine ⟨String.ofList rest, congrArg some (String.toList_inj.mp ?_)⟩
      unfold refillKey
      rw [String.toList_append, @String.toList_ofList rest]
      exact hrest.symm
    · rintro ⟨id, hid⟩
      rw [Option.some.inj hid]
      unfold refillKey
      rw [String.toList_append]
      exact List.prefix_append _ _

theorem numeric_int {precision scale : ℕ} {n : ℤ} {x : ℚ} (h : numeric precision scale n = .ok x) : x = n :=
  (numeric_eq_self_iff h).mpr ⟨n * 10 ^ scale, by push_cast; field_simp⟩

theorem movementValues_spec {env : StockEnv} {id : String} {n : ℤ}
    (h : movementValues env input id = .ok m) (hqty : input.qty = n) :
    m.id = id ∧ m.kind = input.kind.toKind ∧ m.ingredientId = input.ingredientId ∧ m.qty = n ∧ m.unit = input.unit ∧
      m.clientKey = input.clientKey := by
  obtain ⟨row, hrow, hdt⟩ := bind_eq_ok.mp h
  obtain ⟨dt, -, hdt⟩ := bind_eq_ok.mp hdt
  obtain ⟨-, -, hrow⟩ := bind_eq_ok.mp hrow
  obtain ⟨qty, hnumeric, hrow⟩ := bind_eq_ok.mp hrow
  obtain ⟨unitPrice, -, hrow⟩ := bind_eq_ok.mp hrow
  obtain ⟨total, -, hrow⟩ := bind_eq_ok.mp hrow
  rw [hqty] at hnumeric
  obtain rfl := Except.ok.inj hrow
  obtain rfl := Except.ok.inj hdt
  exact ⟨rfl, rfl, rfl, numeric_int hnumeric, rfl, rfl⟩

/-- A movement that is made is new, or the one that its key has already. -/
theorem createMovement_ok {env : StockEnv} {t t' : Tables} {id : String}
    (h : createMovement env t input id = (.ok m, t')) :
    (movementValues env input id = .ok m ∧ FreshMovement t m ∧ t' = { t with journal := t.journal ++ [m] }) ∨
      (findKey t.journal input.clientKey = some m ∧ t' = t) := by
  unfold createMovement at h
  rcases hm : movementValues env input id with e | row
  · rw [hm] at h
    cases h
  rw [hm] at h
  dsimp only at h
  rcases hi : insertJournal t row with e | ⟨_ | row', t''⟩
  · rw [hi] at h
    cases h
  · rw [hi] at h
    obtain ⟨hfound, rfl⟩ := Prod.mk.inj h
    obtain ⟨-, rfl⟩ := insertJournal_eq_none.mp hi
    right
    refine ⟨?_, rfl⟩
    have hkey : row.clientKey = input.clientKey := by
      obtain ⟨row₀, hrow₀, hdt⟩ := bind_eq_ok.mp hm
      obtain ⟨dt, -, hdt⟩ := bind_eq_ok.mp hdt
      obtain rfl := Except.ok.inj hdt
      have := movementRow_clientKey hrow₀
      exact this
    rw [← hkey]
    exact orThrow_eq_ok.mp hfound
  · rw [hi] at h
    obtain ⟨hrow, rfl⟩ := Prod.mk.inj h
    obtain ⟨hfresh, rfl, rfl⟩ := insertJournal_eq_some.mp hi
    obtain rfl := Except.ok.inj hrow
    exact .inl ⟨rfl, hfresh, rfl⟩

theorem createMovement_error {env : StockEnv} {t t' : Tables} {id : String}
    {e : HttpError} (h : createMovement env t input id = (.error e, t')) : t' = t := by
  rcases @createMovement_cases env t input id with ⟨m, hm, hfresh, -⟩ | ⟨-, hsame⟩
  · unfold createMovement at h
    rw [hm] at h
    dsimp only at h
    rw [insertJournal_eq_some.mpr ⟨hfresh, rfl, rfl⟩] at h
    cases h
  · rw [h] at hsame
    exact hsame

/-! What every state keeps. -/

/-- A movement that a refill stands for. -/
structure MovementOf (env : RefillEnv) (r : CoffeeRefill) (m : StockMovementRow) : Prop where
  kind : m.kind = .consumption
  unit : m.unit = "г"
  goods : cardOf env r = some m.ingredientId
  qty : ∃ q, formQty env r = some q ∧ m.qty = q

/-- Rows of one refill that differ in their references only. -/
def SameEntry (r r' : CoffeeRefill) : Prop :=
  r' = { r with partUnitId := r'.partUnitId, stockMovementId := r'.stockMovementId }

theorem SameEntry.movementOf {env : RefillEnv} {r r' : CoffeeRefill} (h : SameEntry r r')
    (hm : MovementOf env r m) : MovementOf env r' m := by
  rw [h]
  exact ⟨hm.kind, hm.unit, hm.goods, hm.qty⟩

/-- What a movement that is to be made is for. -/
structure MoveOf (env : RefillEnv) (r : CoffeeRefill) (input : CreateMovementInput) : Prop where
  kind : input.kind = .consumption
  unit : input.unit = "г"
  key : input.clientKey = some (refillKey r.id)
  goods : cardOf env r = some input.ingredientId
  qty : ∃ q : ℤ, input.qty = q ∧ (FormAgrees env r → formQty env r = some q)

def RefillPending.Sound (env : RefillEnv) (s : RefillDesk) : RefillPending → Prop
  | .move r input => r.id ∈ s.ids ∧ MoveOf env r input ∧ ∀ r' ∈ s.refills, r'.id = r.id → SameEntry r r'
  | .link id mid => id ∈ s.ids ∧ ∀ r ∈ s.refills, r.id = id →
      ∃ m ∈ s.tables.journal, m.id = mid ∧ m.clientKey = some (refillKey id)
  | .delete _ => True
  | .reject r => ∀ mid ∈ r.stockMovementId, mid ∈ s.ids ∧
      ∀ m ∈ s.tables.journal, m.id = mid → m.clientKey = some (refillKey r.id)

structure Kept (env : RefillEnv) (others : List StockMovementRow) (s : RefillDesk) : Prop where
  refills : (s.refills.map CoffeeRefill.id).Nodup
  refillIds : ∀ r ∈ s.refills, r.id ∈ s.ids
  movements : (s.tables.journal.map StockMovementRow.id).Nodup
  movementIds : ∀ m ∈ s.tables.journal, m.id ∈ s.ids
  packages : ∀ r ∈ s.refills, ∀ n ∈ r.packageCount, 1 ≤ n
  owned : ∀ m ∈ s.tables.journal, ∀ id, m.clientKey = some (refillKey id) → ∃ r ∈ s.refills, r.id = id ∧ MovementOf env r m
  once : ∀ m ∈ s.tables.journal, ∀ m' ∈ s.tables.journal, ∀ id, m.clientKey = some (refillKey id) →
    m'.clientKey = some (refillKey id) → m = m'
  linked : ∀ r ∈ s.refills, ∀ mid ∈ r.stockMovementId,
    ∃ m ∈ s.tables.journal, m.id = mid ∧ m.clientKey = some (refillKey r.id)
  others : (s.tables.journal.filter fun m => !isWriteOff m) = others
  pending : ∀ p ∈ s.pending, p.Sound env s

/-! When a step keeps it. -/

def RefillPending.Suits (env : RefillEnv) (s : RefillDesk) (newId : String) : RefillPending → Prop
  | .move r input => (createMovement env.stock s.tables input newId).1.isOk = true →
      (∃ r' ∈ s.refills, r'.id = r.id) ∧ FormAgrees env r
  | .link _ _ => True
  | .delete id => ∀ m ∈ s.tables.journal, m.clientKey ≠ some (refillKey id)
  | .reject r => ∀ m ∈ s.tables.journal, m.clientKey = some (refillKey r.id) → r.stockMovementId = some m.id

def RefillSuits (env : RefillEnv) (s : RefillDesk) : RefillAction → Prop
  | .proceed i newId => ∀ p ∈ s.pending[i]?, p.Suits env s newId
  | _ => True

variable {env : RefillEnv} {others : List StockMovementRow} {s s' start : RefillDesk} {a : RefillAction}
  {steps : List (Step RefillDesk RefillAction)}

/-- Calls wait; nothing else changes. -/
theorem Kept.ofPending {pending : List RefillPending} (h : Kept env others s) (hpending : ∀ p ∈ pending, p.Sound env s) :
    Kept env others { s with pending } :=
  ⟨h.refills, h.refillIds, h.movements, h.movementIds, h.packages, h.owned, h.once, h.linked, h.others,
    fun p hp => hpending p hp⟩

theorem Kept.push {p : RefillPending} (h : Kept env others s) (hp : p.Sound env s) :
    Kept env others { s with pending := s.pending ++ [p] } := by
  refine h.ofPending fun q hq => ?_
  rcases List.mem_append.mp hq with hold | hnew
  · exact h.pending q hold
  · rw [List.mem_singleton.mp hnew]
    exact hp

theorem Kept.erase (h : Kept env others s) (i : ℕ) : Kept env others { s with pending := s.pending.eraseIdx i } :=
  h.ofPending fun p hp => h.pending p (List.mem_of_mem_eraseIdx hp)

theorem SameEntry.trans {r r' r'' : CoffeeRefill} (h : SameEntry r r') (h' : SameEntry r' r'') : SameEntry r r'' := by
  unfold SameEntry at *
  rw [h', h]

theorem SameEntry.id {r r' : CoffeeRefill} (h : SameEntry r r') : r'.id = r.id := by
  rw [h]

theorem SameEntry.packageCount {r r' : CoffeeRefill} (h : SameEntry r r') : r'.packageCount = r.packageCount := by
  rw [h]

/-- References of refills are set. -/
theorem Kept.mapRefills {f : CoffeeRefill → CoffeeRefill} (h : Kept env others s) (hsame : ∀ r, SameEntry r (f r))
    (hlinked : ∀ r ∈ s.refills, ∀ mid ∈ (f r).stockMovementId,
      ∃ m ∈ s.tables.journal, m.id = mid ∧ m.clientKey = some (refillKey r.id)) :
    Kept env others { s with refills := s.refills.map f } := by
  refine ⟨?_, ?_, h.movements, h.movementIds, ?_, fun m hm id hkey => ?_, h.once, ?_, h.others, fun p hp => ?_⟩
  · have hids : (s.refills.map f).map CoffeeRefill.id = s.refills.map CoffeeRefill.id := by
      rw [List.map_map]
      exact List.map_congr_left fun r _ => (hsame r).id
    rw [hids]
    exact h.refills
  · intro r' hr'
    obtain ⟨r, hr, rfl⟩ := List.mem_map.mp hr'
    rw [(hsame r).id]
    exact h.refillIds r hr
  · intro r' hr'
    obtain ⟨r, hr, rfl⟩ := List.mem_map.mp hr'
    rw [(hsame r).packageCount]
    exact h.packages r hr
  · obtain ⟨r, hr, hid, hof⟩ := h.owned m hm id hkey
    exact ⟨f r, List.mem_map_of_mem hr, (hsame r).id.trans hid, (hsame r).movementOf hof⟩
  · intro r' hr'
    obtain ⟨r, hr, rfl⟩ := List.mem_map.mp hr'
    rw [(hsame r).id]
    exact hlinked r hr
  · have hsound := h.pending p hp
    cases p with
    | move r input =>
      refine ⟨hsound.1, hsound.2.1, fun r' hr' hid => ?_⟩
      obtain ⟨r₀, hr₀, rfl⟩ := List.mem_map.mp hr'
      exact (hsound.2.2 r₀ hr₀ ((hsame r₀).id.symm.trans hid)).trans (hsame r₀)
    | link id mid =>
      refine ⟨hsound.1, fun r' hr' hid => ?_⟩
      obtain ⟨r₀, hr₀, rfl⟩ := List.mem_map.mp hr'
      exact hsound.2 r₀ hr₀ ((hsame r₀).id.symm.trans hid)
    | delete id => trivial
    | reject r => exact hsound

/-- A refill goes with its movements, and no others do. -/
theorem Kept.remove {id : String} {q : StockMovementRow → Bool} (h : Kept env others s)
    (hown : ∀ m ∈ s.tables.journal, m.clientKey = some (refillKey id) ↔ q m = false) :
    Kept env others { s with
      refills := s.refills.filter fun r => r.id ≠ id
      tables := { s.tables with journal := s.tables.journal.filter q } } := by
  have hkept : ∀ m ∈ s.tables.journal, ∀ id', m.clientKey = some (refillKey id') → id' ≠ id →
      m ∈ s.tables.journal.filter q := by
    intro m hm id' hkey hne
    refine List.mem_filter.mpr ⟨hm, Bool.not_eq_false _ ▸ fun hq => hne ?_⟩
    exact refillKey_inj (Option.some.inj (hkey.symm.trans ((hown m hm).mpr hq)))
  refine ⟨?_, ?_, ?_, ?_, ?_, fun m hm id' hkey => ?_, ?_, fun r hr mid hmid => ?_, ?_, fun p hp => ?_⟩
  · exact h.refills.sublist (List.filter_sublist.map _)
  · exact fun r hr => h.refillIds r (List.mem_filter.mp hr).1
  · exact h.movements.sublist (List.filter_sublist.map _)
  · exact fun m hm => h.movementIds m (List.mem_filter.mp hm).1
  · exact fun r hr => h.packages r (List.mem_filter.mp hr).1
  · obtain ⟨hmem, hq⟩ := List.mem_filter.mp hm
    obtain ⟨r, hr, hid, hof⟩ := h.owned m hmem id' hkey
    refine ⟨r, List.mem_filter.mpr ⟨hr, decide_eq_true fun heq => ?_⟩, hid, hof⟩
    rw [(hown m hmem).mp (by rw [hkey, ← hid, heq])] at hq
    cases hq
  · exact fun m hm m' hm' => h.once m (List.mem_filter.mp hm).1 m' (List.mem_filter.mp hm').1
  · obtain ⟨hmem, hne⟩ := List.mem_filter.mp hr
    obtain ⟨m, hm, hid, hkey⟩ := h.linked r hmem mid hmid
    exact ⟨m, hkept m hm r.id hkey (of_decide_eq_true hne), hid, hkey⟩
  · rw [← h.others, List.filter_filter]
    refine List.filter_congr fun m hm => ?_
    rcases hq : q m
    · rw [isWriteOff_iff.mpr ⟨id, (hown m hm).mpr hq⟩]
      rfl
    · rw [Bool.and_true]
  · have hsound := h.pending p hp
    cases p with
    | move r input => exact ⟨hsound.1, hsound.2.1, fun r' hr' => hsound.2.2 r' (List.mem_filter.mp hr').1⟩
    | link id' mid =>
      refine ⟨hsound.1, fun r hr hid => ?_⟩
      obtain ⟨hmem, hne⟩ := List.mem_filter.mp hr
      obtain ⟨m, hm, hmid, hkey⟩ := hsound.2 r hmem hid
      exact ⟨m, hkept m hm id' hkey (hid ▸ of_decide_eq_true hne), hmid, hkey⟩
    | delete id' => trivial
    | reject r => exact fun mid hmid => ⟨(hsound mid hmid).1, fun m hm => (hsound mid hmid).2 m (List.mem_filter.mp hm).1⟩

/-- A new id. -/
theorem Kept.newId (h : Kept env others s) (id : String) : Kept env others { s with ids := s.ids ++ [id] } := by
  refine ⟨h.refills, fun r hr => List.mem_append_left _ (h.refillIds r hr), h.movements,
    fun m hm => List.mem_append_left _ (h.movementIds m hm), h.packages, h.owned, h.once, h.linked, h.others, fun p hp => ?_⟩
  have hsound := h.pending p hp
  cases p with
  | move r input => exact ⟨List.mem_append_left _ hsound.1, hsound.2⟩
  | link id mid => exact ⟨List.mem_append_left _ hsound.1, hsound.2⟩
  | delete id => trivial
  | reject r => exact fun mid hmid => ⟨List.mem_append_left _ (hsound mid hmid).1, (hsound mid hmid).2⟩

theorem Kept.submit {id : String} (h : Kept env others s) (hid : id ∉ s.ids) (dto : SubmitRefillDto) :
    Kept env others { s with refills := s.refills ++ [newRefill env id dto], ids := s.ids ++ [id] } := by
  have hnew := h.newId id
  have hother : ∀ r ∈ s.refills, r.id ≠ id := fun r hr heq => hid (heq ▸ h.refillIds r hr)
  refine ⟨Table.nodup_append_singleton h.refills hother, fun r hr => ?_, h.movements, hnew.movementIds, fun r hr => ?_,
    fun m hm id' hkey => ?_, h.once, fun r hr mid hmid => ?_, h.others, fun p hp => ?_⟩
  · rcases List.mem_append.mp hr with hold | hr
    · exact hnew.refillIds r hold
    · rw [List.mem_singleton.mp hr]
      exact List.mem_append_right _ (List.mem_singleton_self _)
  · rcases List.mem_append.mp hr with hold | hr
    · exact h.packages r hold
    · rw [List.mem_singleton.mp hr]
      exact dto.packages_pos
  · obtain ⟨r, hr, hof⟩ := h.owned m hm id' hkey
    exact ⟨r, List.mem_append_left _ hr, hof⟩
  · rcases List.mem_append.mp hr with hold | hr
    · exact h.linked r hold mid hmid
    · rw [List.mem_singleton.mp hr] at hmid
      cases hmid
  · -- no waiting call knows the new refill
    have hsound := h.pending p hp
    have hsound' := hnew.pending p hp
    cases p with
    | move r input =>
      refine ⟨hsound'.1, hsound.2.1, fun r' hr' hsame => ?_⟩
      rcases List.mem_append.mp hr' with hold | hr'
      · exact hsound.2.2 r' hold hsame
      · rw [List.mem_singleton.mp hr'] at hsame
        have hgiven := hsound.1
        rw [← hsame] at hgiven
        exact absurd hgiven hid
    | link id' mid =>
      refine ⟨hsound'.1, fun r' hr' hsame => ?_⟩
      rcases List.mem_append.mp hr' with hold | hr'
      · exact hsound.2 r' hold hsame
      · rw [List.mem_singleton.mp hr'] at hsame
        have hgiven := hsound.1
        rw [← hsame] at hgiven
        exact absurd hgiven hid
    | delete id' => trivial
    | reject r => exact hsound'

/-- A movement for a refill that is there. -/
theorem Kept.addMovement (h : Kept env others s) (hid : m.id ∉ s.ids)
    (hr : r ∈ s.refills) (hkey : m.clientKey = some (refillKey r.id)) (hof : MovementOf env r m)
    (hfresh : ∀ m' ∈ s.tables.journal, m'.clientKey ≠ m.clientKey) :
    Kept env others { s with tables := { s.tables with journal := s.tables.journal ++ [m] }, ids := s.ids ++ [m.id] } := by
  have hnew := h.newId m.id
  refine ⟨h.refills, hnew.refillIds, ?_, fun m' hm' => ?_, h.packages, fun m' hm' id' hkey' => ?_,
    fun m' hm' m'' hm'' id' hkey' hkey'' => ?_, fun r' hr' mid hmid => ?_, ?_, fun p hp => ?_⟩
  · exact Table.nodup_append_singleton h.movements fun m' hm' heq => hid (heq ▸ h.movementIds m' hm')
  · rcases List.mem_append.mp hm' with hold | hm'
    · exact hnew.movementIds m' hold
    · rw [List.mem_singleton.mp hm']
      exact List.mem_append_right _ (List.mem_singleton_self _)
  · rcases List.mem_append.mp hm' with hold | hm'
    · exact h.owned m' hold id' hkey'
    · rw [List.mem_singleton.mp hm'] at hkey' ⊢
      exact ⟨r, hr, refillKey_inj (Option.some.inj (hkey.symm.trans hkey')), hof⟩
  · rcases List.mem_append.mp hm' with hold' | hm' <;> rcases List.mem_append.mp hm'' with hold'' | hm''
    · exact h.once m' hold' m'' hold'' id' hkey' hkey''
    · rw [List.mem_singleton.mp hm''] at hkey''
      exact absurd (hkey'.trans hkey''.symm) (hfresh m' hold')
    · rw [List.mem_singleton.mp hm'] at hkey'
      exact absurd (hkey''.trans hkey'.symm) (hfresh m'' hold'')
    · rw [List.mem_singleton.mp hm', List.mem_singleton.mp hm'']
  · obtain ⟨m', hm', hlink⟩ := h.linked r' hr' mid hmid
    exact ⟨m', List.mem_append_left _ hm', hlink⟩
  · rw [List.filter_append, h.others, List.filter_singleton, isWriteOff_iff.mpr ⟨r.id, hkey⟩]
    exact List.append_nil _
  · have hsound := h.pending p hp
    have hsound' := hnew.pending p hp
    cases p with
    | move r' input => exact hsound'
    | link id' mid =>
      refine ⟨hsound'.1, fun r' hr' hsame => ?_⟩
      obtain ⟨m', hm', hlink⟩ := hsound.2 r' hr' hsame
      exact ⟨m', List.mem_append_left _ hm', hlink⟩
    | delete id' => trivial
    | reject r' =>
      refine fun mid hmid => ⟨(hsound' mid hmid).1, fun m' hm' heq => ?_⟩
      rcases List.mem_append.mp hm' with hold | hm'
      · exact (hsound mid hmid).2 m' hold heq
      · rw [List.mem_singleton.mp hm'] at heq
        exact absurd (show m.id ∈ s.ids from heq ▸ (hsound mid hmid).1) hid

theorem findKey_eq_none {journal : List StockMovementRow} {key : String} (h : findKey journal (some key) = none) :
    ∀ m ∈ journal, m.clientKey ≠ some key := by
  intro m hm hkey
  have := List.find?_eq_none.mp h m hm
  simp [hkey] at this

theorem findKey_eq_some {journal : List StockMovementRow} {key : String}
    (h : findKey journal (some key) = some m) : m ∈ journal ∧ m.clientKey = some key :=
  ⟨List.mem_of_find?_eq_some h, by simpa using List.find?_some h⟩

/-- The movement of a refill is written, or found under its key. -/
theorem Kept.move {newId : String} (h : Kept env others s)
    (hid : newId ∉ s.ids) (hsound : (RefillPending.move r input).Sound env s)
    (hsuits : (RefillPending.move r input).Suits env s newId) : Kept env others (s.proceed env newId (.move r input)) := by
  obtain ⟨hgiven, hmove, hsame⟩ := hsound
  unfold RefillDesk.proceed
  dsimp only
  rcases hcreate : createMovement env.stock s.tables input newId with ⟨e | m, tables⟩
  · obtain rfl := createMovement_error hcreate
    exact h.newId newId
  · unfold RefillPending.Suits at hsuits
    dsimp only at hsuits ⊢
    rw [hcreate] at hsuits
    obtain ⟨⟨r', hr', hrid⟩, hagrees⟩ := hsuits rfl
    obtain ⟨q, hq, hform⟩ := hmove.qty
    rcases createMovement_ok hcreate with ⟨hvalues, hfresh, rfl⟩ | ⟨hfound, rfl⟩
    · obtain ⟨rfl, hkind, hgoods, hqty, hunit, hkey⟩ := movementValues_spec hvalues hq
      have hmkey : m.clientKey = some (refillKey r'.id) := by rw [hkey, hmove.key, hrid]
      have hof : MovementOf env r m := by
        refine ⟨hkind.trans ?_, hunit.trans hmove.unit, ?_, q, hform hagrees, by exact_mod_cast hqty⟩
        · rw [hmove.kind]
          rfl
        · rw [hgoods]
          exact hmove.goods
      have hfree : ∀ m' ∈ s.tables.journal, m'.clientKey ≠ m.clientKey := by
        rw [hmkey]
        exact findKey_eq_none (hmkey ▸ hfresh.key)
      have hadded := h.addMovement hid hr' hmkey ((hsame r' hr' hrid).movementOf hof) hfree
      refine hadded.push ⟨List.mem_append_left _ hgiven, fun _ _ _ => ⟨m, ?_, rfl, hkey.trans hmove.key⟩⟩
      exact List.mem_append_right _ (List.mem_singleton_self _)
    · rw [hmove.key] at hfound
      obtain ⟨hm, hkey⟩ := findKey_eq_some hfound
      exact (h.newId newId).push ⟨List.mem_append_left _ hgiven, fun _ _ _ => ⟨m, hm, rfl, hkey⟩⟩

theorem linkMovement_eq (s : RefillDesk) (refillId movementId : String) :
    linkMovement s refillId movementId = s.refills.map fun r =>
      if s.tables.journal.any (·.id = movementId) ∧ r.id = refillId then { r with stockMovementId := some movementId }
      else r := by
  unfold linkMovement Table.update
  split_ifs with hany
  · simp [hany]
  · simp [hany]

theorem Kept.link {refillId movementId : String} (h : Kept env others s)
    (hsound : (RefillPending.link refillId movementId).Sound env s) :
    Kept env others { s with refills := linkMovement s refillId movementId } := by
  rw [linkMovement_eq]
  refine h.mapRefills (fun r => ?_) fun r hr mid hmid => ?_
  · split_ifs <;> rfl
  · split_ifs at hmid with hset
    · obtain ⟨m, hm, hid, hkey⟩ := hsound.2 r hr hset.2
      exact ⟨m, hm, hid.trans (Option.some.inj hmid), hset.2 ▸ hkey⟩
    · exact h.linked r hr mid hmid

theorem Kept.proceed {newId : String} {p : RefillPending} (h : Kept env others s) (hid : newId ∉ s.ids)
    (hsound : p.Sound env s) (hsuits : p.Suits env s newId) : Kept env others (s.proceed env newId p) := by
  cases p with
  | move r input => exact h.move hid hsound hsuits
  | link refillId movementId => exact h.link hsound
  | delete refillId =>
    have hown : ∀ m ∈ s.tables.journal, m.clientKey = some (refillKey refillId) ↔ (fun _ => true) m = false :=
      fun m hm => ⟨fun hkey => absurd hkey (hsuits m hm), fun hfalse => nomatch hfalse⟩
    have hremoved := h.remove hown
    rw [List.filter_true] at hremoved
    exact hremoved
  | reject r =>
    refine h.remove fun m hm => ?_
    rw [decide_eq_false_iff_not, not_not]
    exact ⟨fun hkey => (hsuits m hm hkey).symm, fun hid => (hsound m.id hid.symm).2 m hm rfl⟩

/-- The first step of a write-off notes the container, and may leave a movement to be made. -/
theorem Kept.startConsume {consumes actor : String} (h : Kept env others s) (hr : r ∈ s.refills) :
    Kept env others (startConsume env s consumes actor r) := by
  have hnoted : Kept env others { s with
      refills := Table.update CoffeeRefill.id s.refills r.id fun row => { row with partUnitId := notedUnit env r } } := by
    refine h.mapRefills (fun row => ?_) fun row hrow mid hmid => ?_
    · split_ifs <;> rfl
    · refine h.linked row hrow mid ?_
      split_ifs at hmid <;> exact hmid
  unfold Coffee.startConsume
  rcases hmove : consumption env consumes r actor with result | ⟨qty, how, input⟩
  · exact hnoted
  · obtain ⟨hkind, hunit, hkey, hqty, -, -, hgoods, hform⟩ := consumption_eq_move hmove
    refine hnoted.push ⟨h.refillIds r hr, ⟨hkind, hunit, hkey, hgoods, qty, hqty, hform (h.packages r hr)⟩, ?_⟩
    intro r' hr' hid
    obtain ⟨row, hrow, rfl⟩ := List.mem_map.mp hr'
    have hrowid : row.id = r.id := by
      split_ifs at hid with heq
      · exact heq
      · exact absurd hid heq
    obtain rfl := Table.eq_of_key_eq h.refills hrow hr hrowid
    rw [if_pos rfl]
    rfl

theorem mem_of_refill {id : String} (h : s.refill id = some r) : r ∈ s.refills ∧ r.id = id :=
  ⟨Table.mem_of_lookup h, Table.key_of_lookup h⟩

theorem Kept.step (h : Kept env others s) (hsuits : RefillSuits env s a) : Kept env others (s.step env a) := by
  cases a with
  | submit id dto =>
    unfold RefillDesk.step
    dsimp only
    split_ifs with hid
    · exact h
    · exact h.submit hid dto
  | consume refillId consumes actor =>
    unfold RefillDesk.step
    dsimp only
    split
    · next r hr =>
      split_ifs
      · exact h
      · exact h.startConsume (mem_of_refill hr).1
    · exact h
  | delete refillId onlyIfCreatedBy =>
    unfold RefillDesk.step
    dsimp only
    split
    · split_ifs
      · exact h.push trivial
      · exact h
    · exact h
  | reject refillId =>
    unfold RefillDesk.step
    dsimp only
    split
    · next r hr =>
      obtain ⟨hmem, -⟩ := mem_of_refill hr
      refine h.push fun mid hmid => ?_
      obtain ⟨m, hm, rfl, hkey⟩ := h.linked r hmem mid hmid
      refine ⟨h.movementIds m hm, fun m' hm' heq => ?_⟩
      rw [Table.eq_of_key_eq h.movements hm' hm heq]
      exact hkey
    · exact h
  | proceed i newId =>
    unfold RefillDesk.step
    dsimp only
    split
    · next p hp =>
      split_ifs with hid
      · exact h
      · exact (h.erase i).proceed hid (h.pending p (List.mem_of_getElem? hp)) (hsuits p hp)
    · exact h
  | interrupt i => exact h.erase i

/-! What a refill refers to once it is written off. -/

/-- The refill, as long as it is there, refers to the movement. -/
structure Refers (s : RefillDesk) (id mid : String) : Prop where
  given : id ∈ s.ids
  refers : ∀ r ∈ s.refills, r.id = id → r.stockMovementId = some mid

theorem Refers.proceed {id mid newId : String} {p : RefillPending} (h : Refers s id mid) (hkept : Kept env others s)
    (hsound : p.Sound env s) : Refers (s.proceed env newId p) id mid := by
  cases p with
  | move r input =>
    unfold RefillDesk.proceed
    dsimp only
    split <;> exact ⟨List.mem_append_left _ h.given, h.refers⟩
  | link refillId movementId =>
    refine ⟨h.given, fun r hr hid => ?_⟩
    unfold RefillDesk.proceed at hr
    dsimp only at hr
    rw [linkMovement_eq] at hr
    obtain ⟨row, hrow, rfl⟩ := List.mem_map.mp hr
    have hrowid : row.id = id := by
      split_ifs at hid <;> exact hid
    split_ifs with hset
    · obtain ⟨m, hm, hmid, hkey⟩ := hsound.2 row hrow hset.2
      obtain ⟨m', hm', hmid', hkey'⟩ := hkept.linked row hrow mid (h.refers row hrow hrowid)
      obtain rfl := hkept.once m hm m' hm' _ hkey (hset.2 ▸ hkey')
      exact congrArg some (hmid.symm.trans hmid')
    · exact h.refers row hrow hrowid
  | delete refillId => exact ⟨h.given, fun r hr => h.refers r (List.mem_filter.mp hr).1⟩
  | reject r => exact ⟨h.given, fun r' hr' => h.refers r' (List.mem_filter.mp hr').1⟩

theorem Refers.step {id mid : String} (h : Refers s id mid) (hkept : Kept env others s) :
    Refers (s.step env a) id mid := by
  cases a with
  | submit newId dto =>
    unfold RefillDesk.step
    dsimp only
    split_ifs with hnew
    · exact h
    · refine ⟨List.mem_append_left _ h.given, fun r hr hid => ?_⟩
      rcases List.mem_append.mp hr with hold | hr
      · exact h.refers r hold hid
      · rw [List.mem_singleton.mp hr] at hid
        have hgiven := h.given
        rw [← hid] at hgiven
        exact absurd hgiven hnew
  | consume refillId consumes actor =>
    unfold RefillDesk.step
    dsimp only
    split
    · next r _ =>
      split_ifs
      · exact h
      · have hnoted : ∀ row ∈ Table.update CoffeeRefill.id s.refills r.id fun row =>
            { row with partUnitId := notedUnit env r }, row.id = id → row.stockMovementId = some mid := by
          intro row hrow hid
          obtain ⟨row₀, hrow₀, rfl⟩ := List.mem_map.mp hrow
          split_ifs at hid ⊢ <;> exact h.refers row₀ hrow₀ hid
        unfold startConsume
        split <;> exact ⟨h.given, hnoted⟩
    · exact h
  | delete refillId onlyIfCreatedBy =>
    unfold RefillDesk.step
    dsimp only
    split
    · split_ifs
      · exact ⟨h.given, h.refers⟩
      · exact h
    · exact h
  | reject refillId =>
    unfold RefillDesk.step
    dsimp only
    split
    · exact ⟨h.given, h.refers⟩
    · exact h
  | proceed i newId =>
    unfold RefillDesk.step
    dsimp only
    split
    · next p hp =>
      split_ifs
      · exact h
      · exact Refers.proceed ⟨h.given, h.refers⟩ (hkept.erase i) (hkept.pending p (List.mem_of_getElem? hp))
    · exact h
  | interrupt i => exact ⟨h.given, h.refers⟩

/-- A call that succeeds leaves the refill with its movement. -/
theorem refers_of_succeeded {id mid : String} (hkept : Kept env others s) (h : succeeded s a = some (id, mid)) :
    Refers (s.step env a) id mid := by
  cases a with
  | consume refillId consumes actor =>
    obtain ⟨r, hr, hmid⟩ := Option.bind_eq_some_iff.mp h
    obtain ⟨mid', hmid', heq⟩ := Option.map_eq_some_iff.mp hmid
    obtain ⟨rfl, rfl⟩ := Prod.mk.inj heq
    obtain ⟨hmem, hid⟩ := mem_of_refill hr
    have hstep : s.step env (.consume refillId consumes actor) = s := by
      unfold RefillDesk.step
      dsimp only
      rw [hr]
      dsimp only
      rw [hmid', Option.isSome_some, if_pos rfl]
    rw [hstep]
    refine ⟨hid ▸ hkept.refillIds r hmem, fun r' hr' hid' => ?_⟩
    rw [Table.eq_of_key_eq hkept.refills hr' hmem (hid'.trans hid.symm)]
    exact hmid'
  | proceed i newId =>
    unfold succeeded at h
    dsimp only at h
    split at h
    · next refillId movementId hp =>
      split_ifs at h with hnew
      obtain ⟨rfl, rfl⟩ := Prod.mk.inj (Option.some.inj h)
      obtain ⟨hgiven, hsound⟩ := hkept.pending _ (List.mem_of_getElem? hp)
      have hstep : s.step env (.proceed i newId) =
          { s with pending := s.pending.eraseIdx i, refills := linkMovement s refillId movementId } := by
        unfold RefillDesk.step
        dsimp only
        rw [hp]
        dsimp only
        rw [if_neg hnew]
        rfl
      rw [hstep]
      refine ⟨hgiven, fun r hr hid => ?_⟩
      rw [linkMovement_eq] at hr
      obtain ⟨row, hrow, rfl⟩ := List.mem_map.mp hr
      have hrowid : row.id = refillId := by
        split_ifs at hid <;> exact hid
      obtain ⟨m, hm, hmid, -⟩ := hsound row hrow hrowid
      rw [if_pos ⟨List.any_eq_true.mpr ⟨m, hm, by simpa using hmid⟩, hrowid⟩]
    · cases h
  | submit => cases h
  | delete => cases h
  | reject => cases h
  | interrupt => cases h

/-! Balances. -/

/-- What a refill has taken from the balance of a card, if it is written off. -/
def writtenOff (env : RefillEnv) (journal : List StockMovementRow) (card : String) (base : QtyUnit) (r : CoffeeRefill) : ℚ :=
  if journal.any (fun m => m.clientKey = some (refillKey r.id)) ∧ cardOf env r = some card then
    ((formQty env r).bind fun q => convertQty q .gram base).getD 0
  else 0

theorem MovementOf.contribution {card : String} {base : QtyUnit}
    (h : MovementOf env r m) : rowContribution card base none m =
      -if cardOf env r = some card then ((formQty env r).bind fun q => convertQty q .gram base).getD 0 else 0 := by
  obtain ⟨q, hq, hqty⟩ := h.qty
  have hunit : QtyUnit.ofText m.unit = some .gram := by
    rw [h.unit]
    rfl
  unfold rowContribution StockMovementRow.toMovement
  rw [h.goods, hq, Option.bind_some, hunit]
  simp only [Option.some.injEq]
  split_ifs
  · rw [Option.map_some, Option.map_some, Option.getD_some]
    unfold Stock.contribution signedFor
    rw [h.kind, hqty]
    rcases convertQty q .gram base with _ | converted <;> simp
  · simp

/-- The movements of one refill. -/
theorem sum_of_refill (h : Kept env others s) (hr : r ∈ s.refills) (card : String) (base : QtyUnit) :
    (((s.tables.journal.filter isWriteOff).filter fun m => m.clientKey = some (refillKey r.id)).map
      (rowContribution card base none)).sum = -writtenOff env s.tables.journal card base r := by
  unfold writtenOff
  by_cases hany : s.tables.journal.any (fun m => m.clientKey = some (refillKey r.id)) = true
  · obtain ⟨m, hm, hkey⟩ := List.any_eq_true.mp hany
    replace hkey : m.clientKey = some (refillKey r.id) := of_decide_eq_true hkey
    have hone : (s.tables.journal.filter isWriteOff).filter (fun m => m.clientKey = some (refillKey r.id)) = [m] := by
      have hnodup : s.tables.journal.Nodup := List.Nodup.of_map _ h.movements
      refine List.perm_singleton.mp ((List.perm_ext_iff_of_nodup ((hnodup.filter _).filter _)
        (List.nodup_singleton m)).mpr fun m' => ?_)
      simp only [List.mem_filter, decide_eq_true_eq, List.mem_singleton]
      constructor
      · rintro ⟨⟨hm', -⟩, hkey'⟩
        exact h.once m' hm' m hm r.id hkey' hkey
      · rintro rfl
        exact ⟨⟨hm, isWriteOff_iff.mpr ⟨r.id, hkey⟩⟩, hkey⟩
    obtain ⟨r', hr', hid, hof⟩ := h.owned m hm r.id hkey
    obtain rfl := Table.eq_of_key_eq h.refills hr' hr hid
    rw [hone, List.map_singleton, List.sum_singleton, hof.contribution]
    simp only [hany, true_and]
  · rw [if_neg (fun hboth => hany hboth.1), neg_zero, List.filter_eq_nil_iff.mpr]
    · rfl
    · intro m hm hkey
      exact hany (List.any_eq_true.mpr ⟨m, (List.mem_filter.mp hm).1, hkey⟩)

theorem balance_of_kept (h : Kept env others s) (card : String) (base : QtyUnit) :
    (itemBalance s.tables.journal card base none).qty = (itemBalance others card base none).qty -
      (s.refills.map (writtenOff env s.tables.journal card base)).sum := by
  have hpieces := Timeline.sum_pieces (fun (r : CoffeeRefill) (m : StockMovementRow) =>
    decide (m.clientKey = some (refillKey r.id))) (rowContribution card base none) s.refills
    (s.tables.journal.filter isWriteOff)
  have hcount : ∀ m ∈ s.tables.journal.filter isWriteOff,
      s.refills.countP (fun r => m.clientKey = some (refillKey r.id)) = 1 := by
    intro m hm
    obtain ⟨hmem, hwrite⟩ := List.mem_filter.mp hm
    obtain ⟨id, hkey⟩ := isWriteOff_iff.mp hwrite
    obtain ⟨r, hr, hid, -⟩ := h.owned m hmem id hkey
    rw [List.countP_eq_length_filter]
    have hsame : (s.refills.filter fun r' => m.clientKey = some (refillKey r'.id)) =
        s.refills.filter fun r' => r'.id = r.id := by
      refine List.filter_congr fun r' _ => decide_eq_decide.mpr ?_
      rw [hkey, hid, Option.some.injEq]
      exact ⟨fun heq => (refillKey_inj heq).symm, fun heq => congrArg refillKey heq.symm⟩
    rw [hsame, Table.filter_key_eq h.refills hr]
    rfl
  have hwritten : ((s.tables.journal.filter isWriteOff).map (rowContribution card base none)).sum =
      -(s.refills.map (writtenOff env s.tables.journal card base)).sum := by
    calc _ = ((s.tables.journal.filter isWriteOff).map fun m => rowContribution card base none m *
            (s.refills.countP (fun r => m.clientKey = some (refillKey r.id)) : ℕ)).sum := by
          refine congrArg List.sum (List.map_congr_left fun m hm => ?_)
          rw [hcount m hm, Nat.cast_one, mul_one]
      _ = (s.refills.map fun r => -writtenOff env s.tables.journal card base r).sum := by
          rw [← hpieces]
          exact congrArg List.sum (List.map_congr_left fun r hr => sum_of_refill h hr card base)
      _ = _ := by
          induction s.refills with
          | nil => simp
          | cons r rest ih => rw [List.map_cons, List.sum_cons, ih, List.map_cons, List.sum_cons]; ring
  rw [itemBalance_qty, itemBalance_qty, Timeline.sum_split isWriteOff, h.others, hwritten]
  ring

/-! The law. -/

/-- Nothing is filled yet, and the ids of the journal are known. -/
structure Unfilled (s : RefillDesk) : Prop where
  refills : s.refills = []
  pending : s.pending = []
  movements : (s.tables.journal.map StockMovementRow.id).Nodup
  movementIds : ∀ m ∈ s.tables.journal, m.id ∈ s.ids
  others : ∀ m ∈ s.tables.journal, isWriteOff m = false

theorem Unfilled.kept (h : Unfilled s) : Kept env s.tables.journal s := by
  have hnone : ∀ m ∈ s.tables.journal, ∀ id, m.clientKey ≠ some (refillKey id) := by
    intro m hm id hkey
    have := h.others m hm
    rw [isWriteOff_iff.mpr ⟨id, hkey⟩] at this
    cases this
  refine ⟨by rw [h.refills]; exact List.nodup_nil, by rw [h.refills]; exact List.forall_mem_nil _, h.movements,
    h.movementIds, by rw [h.refills]; exact List.forall_mem_nil _, fun m hm id hkey => absurd hkey (hnone m hm id),
    fun m hm _ _ id hkey => absurd hkey (hnone m hm id), by rw [h.refills]; exact List.forall_mem_nil _,
    List.filter_eq_self.mpr fun m hm => by rw [h.others m hm]; rfl, by rw [h.pending]; exact List.forall_mem_nil _⟩

/-- A movement under the key of a refill is of a refill that exists, of its goods and in the quantity that the form gives;
there is one at most; a refill that was written off refers to it; and the balance of a card has changed by what the
refills that exist have taken. -/
structure WriteOffLaw (env : RefillEnv) (start : RefillDesk) (steps : List (Step RefillDesk RefillAction))
    (s : RefillDesk) : Prop where
  owned : ∀ m ∈ s.tables.journal, ∀ id, m.clientKey = some (refillKey id) →
    ∃ r ∈ s.refills, r.id = id ∧ MovementOf env r m
  once : ∀ m ∈ s.tables.journal, ∀ m' ∈ s.tables.journal, ∀ id, m.clientKey = some (refillKey id) →
    m'.clientKey = some (refillKey id) → m = m'
  linked : ∀ e ∈ steps, ∀ id mid, succeeded e.before e.action = some (id, mid) → ∀ r ∈ s.refills, r.id = id →
    r.stockMovementId = some mid ∧ ∃ m ∈ s.tables.journal, m.id = mid ∧ m.clientKey = some (refillKey id)
  balance : ∀ card base, (itemBalance s.tables.journal card base none).qty =
    (itemBalance start.tables.journal card base none).qty -
      (s.refills.map (writtenOff env s.tables.journal card base)).sum

theorem kept_of_run (hrun : Run (RefillNext env) start steps s) (hkept : Kept env others start)
    (hsuits : ∀ e ∈ steps, RefillSuits env e.before e.action) : Kept env others s :=
  @Run.invariant_of _ _ (RefillNext env) start s steps (Kept env others) (fun e => RefillSuits env e.before e.action)
    (fun s a s' h hnext hs => by
      obtain rfl : s' = s.step env a := hnext
      exact h.step hs) hrun hkept hsuits

theorem refers_of_run {id mid : String} (hrun : Run (RefillNext env) start steps s) (hkept : Kept env others start)
    (hsuits : ∀ e ∈ steps, RefillSuits env e.before e.action) (h : Refers start id mid) : Refers s id mid := by
  have hboth := @Run.invariant_of _ _ (RefillNext env) start s steps (fun s => Kept env others s ∧ Refers s id mid)
    (fun e => RefillSuits env e.before e.action) (fun s a s' hs hnext hsuit => by
      obtain rfl : s' = s.step env a := hnext
      exact ⟨hs.1.step hsuit, hs.2.step hs.1⟩) hrun ⟨hkept, h⟩ hsuits
  exact hboth.2

/-- The law holds after every run in which a refill is deleted before it has a movement, a rejection finds the movement
that the refill referred to when it was read, and a movement is made while its refill is there, of packages that weigh
the same in the form and in the registry. -/
theorem writeOffLaw_of_run (hrun : Run (RefillNext env) start steps s) (hstart : Unfilled start)
    (hsuits : ∀ e ∈ steps, RefillSuits env e.before e.action) : WriteOffLaw env start steps s := by
  have hkept := kept_of_run hrun hstart.kept hsuits
  refine ⟨hkept.owned, hkept.once, fun e he id mid hdone r hr hid => ?_, balance_of_kept hkept⟩
  obtain ⟨earlier, later, rfl, hbefore, hnext, hafter⟩ := hrun.split he
  have hthen := kept_of_run hbefore hstart.kept fun e' he' => hsuits e' (List.mem_append_left _ he')
  have hstep : e.after = e.before.step env e.action := hnext
  have hrefers : Refers s id mid := by
    refine refers_of_run hafter (hstep ▸ hthen.step (hsuits e he)) (fun e' he' => ?_) ?_
    · exact hsuits e' (List.mem_append_right _ (List.mem_cons_of_mem _ he'))
    · rw [hstep]
      exact refers_of_succeeded hthen hdone
  have hmid := hrefers.refers r hr hid
  obtain ⟨m, hm, hmatch, hkey⟩ := hkept.linked r hr mid hmid
  exact ⟨hmid, m, hm, hmatch, hid ▸ hkey⟩

/-! A run that keeps the law, and one that breaks it. -/

instance (s : RefillDesk) (newId : String) (p : RefillPending) : Decidable (p.Suits env s newId) := by
  cases p <;> unfold RefillPending.Suits <;> infer_instance

instance (s : RefillDesk) (a : RefillAction) : Decidable (RefillSuits env s a) := by
  cases a <;> unfold RefillSuits <;> infer_instance

def barHost : Host :=
  ⟨fun s => s, fun s => if s = "500" then some 500 else none, fun _ => "", fun _ => "", fun _ _ => 0, fun _ => ""⟩

/-- Packages of one ingredient, which weigh the same on its card and in the registry. -/
def barEnv : RefillEnv :=
  { stock :=
      { host := barHost
        cards := [⟨"matcha", "ingredient", "Матча", [("вес упаковки, г", .str "500")]⟩, ⟨"depot", "warehouse", "Склад", []⟩]
        persons := []
        date := some
        time := fun _ => none
        today := 20000
        actor := "owner" }
    ingredients := [⟨"i1", "Матча", some "matcha", some 500⟩]
    config := [(3, "i1")]
    hoppers := [] }

def twoPackages : SubmitRefillDto :=
  ⟨"bar", 3, some 1, none, 1400, none, some 2, none, "2026-09-12", some "owner", by decide, by decide, by decide, by decide,
    by decide⟩

def emptyBar : RefillDesk := ⟨[], ⟨[], []⟩, [], []⟩

theorem unfilled_emptyBar : Unfilled emptyBar :=
  ⟨rfl, rfl, List.nodup_nil, List.forall_mem_nil _, List.forall_mem_nil _⟩

/-- A refill is written off twice over, and another is rejected before it is written off. -/
def refilledTwice : List RefillAction :=
  [.submit "r1" twoPackages, .consume "r1" "1" "owner", .consume "r1" "1" "owner", .proceed 0 "m1", .proceed 0 "m2",
    .proceed 0 "x1", .proceed 0 "x2", .submit "r2" twoPackages, .reject "r2", .proceed 0 "x3"]

theorem writeOffLaw_refilledTwice :
    WriteOffLaw barEnv emptyBar (runActions (RefillDesk.step barEnv) emptyBar refilledTwice).1
      (runActions (RefillDesk.step barEnv) emptyBar refilledTwice).2 :=
  writeOffLaw_of_run (run_runActions (RefillDesk.step barEnv) emptyBar refilledTwice) unfilled_emptyBar (by decide +kernel)

/-- A refill that is written off is deleted. -/
def deletedLater : List RefillAction :=
  [.submit "r1" twoPackages, .consume "r1" "1" "owner", .proceed 0 "m1", .proceed 0 "x1", .delete "r1" none,
    .proceed 0 "x2"]

theorem write_off_left_behind :
    ¬ ∀ (env : RefillEnv) (start s : RefillDesk) (steps : List (Step RefillDesk RefillAction)), Unfilled start →
      Run (RefillNext env) start steps s → WriteOffLaw env start steps s := by
  intro h
  have hlaw := h barEnv emptyBar _ _ unfilled_emptyBar (run_runActions (RefillDesk.step barEnv) emptyBar deletedLater)
  have hleft : ∃ m ∈ (runActions (RefillDesk.step barEnv) emptyBar deletedLater).2.tables.journal,
      m.clientKey = some (refillKey "r1") := by decide +kernel
  obtain ⟨m, hm, hkey⟩ := hleft
  obtain ⟨r, hr, -⟩ := hlaw.owned m hm "r1" hkey
  have hnone : (runActions (RefillDesk.step barEnv) emptyBar deletedLater).2.refills = [] := by decide +kernel
  rw [hnone] at hr
  cases hr

end Mydon.Coffee
