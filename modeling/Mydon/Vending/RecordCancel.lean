import Mydon.Lib.Reversals
import Mydon.Vending.DoubleWrite

/-! Cancelled records. A refill, an inventory or a cash session is never changed: a cancellation appends a
row that takes it back. A call reads first and writes later, and any other call may write in between. -/

namespace Mydon.Vending.RecordCancel

open Mydon.Lib Mydon.Stock

/-! The cash sessions. -/

/-- A value of a `numeric(14, 2)` column. -/
structure Money where
  value : ℚ
  hundredths : ∃ k : ℤ, value = k / 10 ^ 2
  fits : |value| < 10 ^ 12
  deriving DecidableEq

theorem Money.toFixed2_neg (m : Money) : toFixed2 (-m.value) = -m.value := by
  obtain ⟨k, hk⟩ := m.hundredths
  have hneg : -m.value = ((-k : ℤ) : ℚ) / 10 ^ 2 := by
    rw [hk]
    push_cast
    ring
  rw [hneg, toFixed2_hundredths]

/-- Twelve digits and two decimals are told apart by a double, so `Number` loses nothing that
`toFixed(2)` would show. -/
def negativeMoney (m : Money) : Money where
  value := toFixed2 (-m.value)
  hundredths := ⟨_, rfl⟩
  fits := by
    rw [m.toFixed2_neg, abs_neg]
    exact m.fits

theorem negativeMoney_add (m : Money) : (negativeMoney m).value + m.value = 0 := by
  have hvalue : (negativeMoney m).value = -m.value := m.toFixed2_neg
  rw [hvalue, neg_add_cancel]

structure CashLine where
  label : String
  qty : Option ℚ
  unitPrice : Option ℚ
  amount : ℚ
  deriving DecidableEq

structure CashCategorySummary where
  name : String
  lines : List CashLine
  subtotal : ℚ
  deriving DecidableEq

/-- A row of `vending_cash_session`. -/
structure CashSession where
  id : String
  receivedAmount : Money
  categories : List CashCategorySummary
  totalSpent : Money
  remainder : Money
  source : String
  createdBy : Option String
  reversesId : Option String
  createdAt : ℤ
  deriving DecidableEq

def negativeCategories (categories : List CashCategorySummary) : List CashCategorySummary :=
  categories.map fun category =>
    { category with
      subtotal := -category.subtotal
      lines := category.lines.map fun line => { line with amount := -line.amount } }

def stornoSession (env : VendingEnv) (actor : CancelActor) (original : CashSession) : CashSession where
  id := env.ids 0
  receivedAmount := negativeMoney original.receivedAmount
  categories := negativeCategories original.categories
  totalSpent := negativeMoney original.totalSpent
  remainder := negativeMoney original.remainder
  source := "storno"
  createdBy := some actor.ref
  reversesId := some original.id
  createdAt := env.now

/-! The two halves of a call. -/

/-- A call that has read and not yet written. -/
inductive Pending
  | create (input : CreateRefillInput) (ref : String × Option String)
  | refill (original : RefillRow) (actor : CancelActor) (now : ℤ)
  | stockCount (original : CountRow) (now : ℤ)
  | cash (original : CashSession) (actor : CancelActor) (now : ℤ)
  deriving DecidableEq

inductive Answer
  | created (res : CreateRefillResult)
  | cancelled (res : CancelResult)
  | failed (e : Js.HttpError)

structure Desk where
  db : Db
  cash : List CashSession
  pending : List Pending

inductive Call
  | create (input : CreateRefillInput)
  | cancelRefill (id : String) (actor : CancelActor) (hours : ℤ)
  | cancelStockCount (id : String) (actor : CancelActor) (hours : ℤ)
  | cancelCash (id : String) (actor : CancelActor) (hours : ℤ)

section readOriginal
variable {α : Type*} (rows : List α) (idOf : α → String) (cancellable isAuthor : α → Bool) (createdAt : α → ℤ)

/-- The record that is to be cancelled, or the answer of a call that ends here. -/
def readOriginal (id : String) (actor : CancelActor) (now hours : ℤ) : Except CancelResult α :=
  match rows.find? fun r => idOf r = id with
  | none => .error .notFound
  | some original =>
    if !cancellable original then .error .notFound
    else
      match denied actor (isAuthor original) (createdAt original) now hours with
      | some refused => .error refused
      | none => .ok original

end readOriginal

def readRefill (refills : List RefillRow) (id : String) (actor : CancelActor) : ℤ → ℤ → Except CancelResult RefillRow :=
  readOriginal refills (·.id) (fun r => r.source ≠ "storno") (fun r => r.createdBy = some actor.ref) (·.createdAt) id actor

def readCount (counts : List CountRow) (id : String) (actor : CancelActor) : ℤ → ℤ → Except CancelResult CountRow :=
  readOriginal counts (·.id) (fun r => r.source = "own") (fun r => r.personId = some actor.personId) (·.createdAt) id actor

def readCash (cash : List CashSession) (id : String) (actor : CancelActor) : ℤ → ℤ → Except CancelResult CashSession :=
  readOriginal cash (·.id) (fun r => r.source ≠ "storno") (fun r => r.createdBy = some actor.ref) (·.createdAt) id actor

def read (env : VendingEnv) (s : Desk) : Call → Except Answer Pending
  | .create input =>
    match env.catalog.resolveProductRef env.host input.productName with
    | .error e => .error (.failed e)
    | .ok ref => .ok (.create input ref)
  | .cancelRefill id actor hours =>
    match readRefill s.db.refills id actor env.now hours with
    | .error res => .error (.cancelled res)
    | .ok original => .ok (.refill original actor env.now)
  | .cancelStockCount id actor hours =>
    match readCount s.db.counts id actor env.now hours with
    | .error res => .error (.cancelled res)
    | .ok original => .ok (.stockCount original env.now)
  | .cancelCash id actor hours =>
    match readCash s.cash id actor env.now hours with
    | .error res => .error (.cancelled res)
    | .ok original => .ok (.cash original actor env.now)

/-- The primary key of a table. -/
def primaryKey {α : Type*} (idOf : α → String) (rows : List α) : Except Js.HttpError Unit :=
  Js.require (rows.map idOf).Nodup (.internal "duplicate key value violates unique constraint")

def createTx (env : VendingEnv) (db : Db) (input : CreateRefillInput) (ref : String × Option String) :
    Except Js.HttpError Db := do
  primaryKey (·.id) (db.refills ++ [refillRow env input ref])
  refillTx env db (refillRow env input ref)

def writeCreate (env : VendingEnv) (db : Db) (input : CreateRefillInput) (ref : String × Option String) : Answer × Db :=
  match findRefillKey db.refills input.clientKey with
  | some existing => (.created ⟨existing, stockLeft env db ref, true⟩, db)
  | none =>
    match createTx env db input ref with
    | .error e => (.failed e, db)
    | .ok db => (.created ⟨refillRow env input ref, stockLeft env db ref, false⟩, db)

def cancelTx (env : VendingEnv) (db : Db) (original : RefillRow) (actor : CancelActor) : Except Js.HttpError Db := do
  primaryKey (·.id) (db.refills ++ [stornoRow env actor original])
  stornoTx env db actor original

def writeRefill (env : VendingEnv) (db : Db) (original : RefillRow) (actor : CancelActor) : Answer × Db :=
  match findRefillKey db.refills ("storno:" ++ original.id) with
  | some existing => (.cancelled (.done existing.id true), db)
  | none =>
    match cancelTx env db original actor with
    | .error e => (.failed e, db)
    | .ok db => (.cancelled (.done (env.ids 0) false), db)

def isMarkOf (id : String) (r : CountRow) : Bool := r.source = "storno" && r.reversesId = some id

/-- The group is read again, under the lock of its first row. -/
def writeCount (env : VendingEnv) (db : Db) (original : CountRow) : Answer × Db :=
  let counts := stornoCounts env 0 db.counts (countGroup db.counts original)
  match primaryKey (·.id) counts with
  | .error e => (.failed e, db)
  | .ok () =>
    match counts.drop db.counts.length with
    | [] => (.cancelled (.done (((db.counts.find? (isMarkOf original.id)).map (·.id)).getD original.id) true), db)
    | first :: _ => (.cancelled (.done first.id false), { db with counts })

def writeCash (env : VendingEnv) (cash : List CashSession) (original : CashSession) (actor : CancelActor) :
    Answer × List CashSession :=
  match cash.find? fun r => r.source = "storno" && r.reversesId = some original.id with
  | some existing => (.cancelled (.done existing.id true), cash)
  | none =>
    match primaryKey (·.id) (cash ++ [stornoSession env actor original]) with
    | .error e => (.failed e, cash)
    | .ok () => (.cancelled (.done (env.ids 0) false), cash ++ [stornoSession env actor original])

/-- The transaction of a call, or of what is left of it. -/
def write (env : VendingEnv) (s : Desk) : Pending → Answer × Desk
  | .create input ref =>
    let (answer, db) := writeCreate env s.db input ref
    (answer, { s with db })
  | .refill original actor now =>
    let (answer, db) := writeRefill { env with now } s.db original actor
    (answer, { s with db })
  | .stockCount original now =>
    let (answer, db) := writeCount { env with now } s.db original
    (answer, { s with db })
  | .cash original actor now =>
    let (answer, cash) := writeCash { env with now } s.cash original actor
    (answer, { s with cash })

inductive Action
  | read (env : VendingEnv) (call : Call)
  | write (env : VendingEnv) (n : ℕ)

def step (s : Desk) : Action → Desk
  | .read env call =>
    match read env s call with
    | .error _ => s
    | .ok p => { s with pending := s.pending ++ [p] }
  | .write env n =>
    match s.pending[n]? with
    | none => s
    | some p => { (write env s p).2 with pending := s.pending.eraseIdx n }

/-- No client takes a key of a cancellation for a refill. -/
def Action.PlainKeys : Action → Prop
  | .read _ (.create input) => ∀ id, input.clientKey ≠ "storno:" ++ id
  | _ => True

def Next (s : Desk) (a : Action) (s' : Desk) : Prop := a.PlainKeys ∧ s' = step s a

def answerOf : Except Js.HttpError CancelResult → Answer
  | .ok res => .cancelled res
  | .error e => .failed e

/-- Where nothing comes between its halves, a cancellation is the one of the stock rows. -/
theorem cancelRefill_eq {env : VendingEnv} {db : Db} {id : String} {actor : CancelActor} {hours : ℤ}
    (hnew : env.ids 0 ∉ db.refills.map (·.id)) (hids : (db.refills.map (·.id)).Nodup) :
    match readRefill db.refills id actor env.now hours with
    | .error res => cancelRefill env db id actor hours = (.ok res, db)
    | .ok original => writeRefill env db original actor =
        (answerOf (cancelRefill env db id actor hours).1, (cancelRefill env db id actor hours).2) := by
  have htx : ∀ original, cancelTx env db original actor = stornoTx env db actor original := by
    intro original
    have hkey : primaryKey (·.id) (db.refills ++ [stornoRow env actor original]) = .ok () := by
      unfold primaryKey
      rw [Js.require_eq_ok, List.map_append, List.map_singleton, ← List.concat_eq_append]
      exact hids.concat hnew
    unfold cancelTx
    rw [hkey]
    rfl
  unfold cancelRefill readRefill readOriginal
  rcases hfind : db.refills.find? (·.id = id) with _ | original
  · simp only [hfind]
  · by_cases hstorno : original.source = "storno"
    · simp [hfind, hstorno]
    · rcases hdenied : denied actor (original.createdBy = some actor.ref) original.createdAt env.now hours with _ | refused
      · rcases hexisting : findRefillKey db.refills ("storno:" ++ original.id) with _ | existing
        · rcases hstep : stornoTx env db actor original with e | db'
          · simp [hfind, hstorno, hdenied, hexisting, hstep, writeRefill, htx, answerOf]
          · simp [hfind, hstorno, hdenied, hexisting, hstep, writeRefill, htx, answerOf]
        · simp [hfind, hstorno, hdenied, hexisting, writeRefill, answerOf]
      · simp [hfind, hstorno, hdenied]

/-! What a transaction leaves. -/

variable {env : VendingEnv} {db db' : Db} {s s' : Desk}

/-- A refill is written together with what it takes from the stock. -/
structure Booked (db : Db) (row : RefillRow) (db' : Db) : Prop where
  refills : db'.refills = db.refills ++ [row]
  counts : db'.counts = db.counts
  stock : ∀ name, stockQty db'.stock name = stockQty db.stock name - if name = row.productName then row.qty else 0

theorem refillTx_booked {row : RefillRow} (h : refillTx env db row = .ok db') : Booked db row db' := by
  unfold refillTx at h
  simp only [Js.bind_eq_ok] at h
  obtain ⟨_, -, stock, hstock, ⟨_, journal⟩, -, h⟩ := h
  cases h
  refine ⟨rfl, rfl, fun name => ?_⟩
  rw [stockQty_add hstock fun n => sub_eq_add_neg n row.qty]
  dsimp only
  split_ifs <;> omega

theorem stornoTx_booked {actor : CancelActor} {original : RefillRow} (h : stornoTx env db actor original = .ok db') :
    Booked db (stornoRow env actor original) db' := by
  unfold stornoTx at h
  simp only [Js.bind_eq_ok] at h
  obtain ⟨_, -, stock, hstock, ⟨_, journal⟩, -, h⟩ := h
  cases h
  refine ⟨rfl, rfl, fun name => ?_⟩
  rw [stockQty_add hstock fun n => rfl]
  unfold stornoRow
  dsimp only
  split_ifs <;> omega

/-- A category and the one that takes it back, line by line. -/
structure OppositeCategory (c r : CashCategorySummary) : Prop where
  name : c.name = r.name
  subtotal : c.subtotal + r.subtotal = 0
  lines : List.Forall₂ (fun l m => l.label = m.label ∧ l.amount + m.amount = 0) c.lines r.lines

structure OppositeSession (c r : CashSession) : Prop where
  receivedAmount : c.receivedAmount.value + r.receivedAmount.value = 0
  totalSpent : c.totalSpent.value + r.totalSpent.value = 0
  remainder : c.remainder.value + r.remainder.value = 0
  categories : List.Forall₂ OppositeCategory c.categories r.categories

theorem negativeCategories_opposite (categories : List CashCategorySummary) :
    List.Forall₂ OppositeCategory (negativeCategories categories) categories := by
  unfold negativeCategories
  rw [List.forall₂_map_left_iff, List.forall₂_same]
  intro category _
  refine ⟨rfl, neg_add_cancel _, ?_⟩
  rw [List.forall₂_map_left_iff, List.forall₂_same]
  exact fun line _ => ⟨rfl, neg_add_cancel _⟩

theorem stornoSession_opposite (env : VendingEnv) (actor : CancelActor) (original : CashSession) :
    OppositeSession (stornoSession env actor original) original where
  receivedAmount := negativeMoney_add _
  totalSpent := negativeMoney_add _
  remainder := negativeMoney_add _
  categories := negativeCategories_opposite _

def refillRows : Reversals RefillRow String where
  id := (·.id)
  reverses := (·.reversesId)
  isReversal r := r.source = "storno"
  opposite c r := c.clientKey = "storno:" ++ r.id ∧ c.productName = r.productName ∧ c.qty + r.qty = 0

/-- The mark of a count repeats the count. -/
def countRows : Reversals CountRow String where
  id := (·.id)
  reverses := (·.reversesId)
  isReversal r := r.source = "storno"
  opposite c r := c.productName = r.productName ∧ c.qty = r.qty

def cashRows : Reversals CashSession String where
  id := (·.id)
  reverses := (·.reversesId)
  isReversal r := r.source = "storno"
  opposite := OppositeSession

/-- What a call has read is still there. -/
def Pending.Valid (s : Desk) : Pending → Prop
  | .create input _ => ∀ id, input.clientKey ≠ "storno:" ++ id
  | .refill original _ _ => original ∈ s.db.refills ∧ original.source ≠ "storno"
  | .stockCount original _ => original ∈ s.db.counts ∧ original.source = "own"
  | .cash original _ _ => original ∈ s.cash ∧ original.source ≠ "storno"

/-- The rows that cancel are those that cancellations write. -/
structure Tables (s : Desk) : Prop where
  refills : refillRows.Sound s.db.refills
  keys : ∀ r ∈ s.db.refills, ∀ id, r.clientKey = "storno:" ++ id → r.reversesId = some id
  counts : countRows.Sound s.db.counts
  cash : cashRows.Sound s.cash

structure Sound (s : Desk) : Prop extends Tables s where
  pending : ∀ p ∈ s.pending, p.Valid s

/-- Rows are appended, and the stock follows the refills. -/
structure Grown (s s' : Desk) : Prop where
  refills : ∃ written, s'.db.refills = s.db.refills ++ written ∧ ∀ name,
    stockQty s'.db.stock name =
      stockQty s.db.stock name - ((written.filter (·.productName = name)).map (·.qty)).sum
  counts : s.db.counts <+: s'.db.counts
  cash : s.cash <+: s'.cash

theorem Grown.refl (s : Desk) : Grown s s where
  refills := ⟨[], (List.append_nil _).symm, fun name => by simp⟩
  counts := List.prefix_refl _
  cash := List.prefix_refl _

theorem Grown.trans {a b c : Desk} (hab : Grown a b) (hbc : Grown b c) : Grown a c where
  refills := by
    obtain ⟨first, hfirst, hqty⟩ := hab.refills
    obtain ⟨second, hsecond, hqty'⟩ := hbc.refills
    refine ⟨first ++ second, by rw [hsecond, hfirst, List.append_assoc], fun name => ?_⟩
    rw [hqty' name, hqty name, List.filter_append, List.map_append, List.sum_append]
    omega
  counts := hab.counts.trans hbc.counts
  cash := hab.cash.trans hbc.cash

theorem Grown.pending (h : Grown s s') (p p' : List Pending) : Grown { s with pending := p } { s' with pending := p' } :=
  ⟨h.refills, h.counts, h.cash⟩

theorem Booked.grown {row : RefillRow} (h : Booked s.db row db') : Grown s { s with db := db' } where
  refills := by
    refine ⟨[row], h.refills, fun name => ?_⟩
    rw [h.stock name, List.filter_singleton]
    by_cases hn : name = row.productName
    · simp [hn]
    · simp [hn, Ne.symm hn]
  counts := ⟨[], (List.append_nil _).trans h.counts.symm⟩
  cash := List.prefix_refl _

theorem Pending.Valid.grown {p : Pending} (hp : p.Valid s) (h : Grown s s') : p.Valid s' := by
  obtain ⟨written, hwritten, -⟩ := h.refills
  cases p with
  | create input ref => exact hp
  | refill original actor now =>
    refine ⟨?_, hp.2⟩
    rw [hwritten]
    exact List.mem_append_left _ hp.1
  | stockCount original now => exact ⟨h.counts.subset hp.1, hp.2⟩
  | cash original actor now => exact ⟨h.cash.subset hp.1, hp.2⟩

theorem primaryKey_eq_ok {α : Type*} {idOf : α → String} {rows : List α} :
    primaryKey idOf rows = .ok () ↔ (rows.map idOf).Nodup := Js.require_eq_ok

theorem new_of_primaryKey {α : Type*} {idOf : α → String} {rows : List α} {row : α}
    (h : primaryKey idOf (rows ++ [row]) = .ok ()) : idOf row ∉ rows.map idOf := by
  rw [primaryKey_eq_ok, List.map_append, List.map_singleton, List.nodup_append] at h
  exact fun hmem => h.2.2 _ hmem _ (List.mem_singleton_self _) rfl

theorem writeCreate_cases (env : VendingEnv) (db : Db) (input : CreateRefillInput) (ref : String × Option String) :
    (writeCreate env db input ref).2 = db ∨
      (refillRow env input ref).id ∉ db.refills.map (·.id) ∧
        Booked db (refillRow env input ref) (writeCreate env db input ref).2 := by
  unfold writeCreate
  rcases findRefillKey db.refills input.clientKey with _ | existing
  · rcases htx : createTx env db input ref with e | db'
    · exact .inl rfl
    · obtain ⟨_, hkey, hrest⟩ := Js.bind_eq_ok.mp htx
      exact .inr ⟨new_of_primaryKey hkey, refillTx_booked hrest⟩
  · exact .inl rfl

/-- What became of the cancellation of a refill. -/
theorem writeRefill_cases (env : VendingEnv) (db : Db) (original : RefillRow) (actor : CancelActor) :
    (∃ existing, findRefillKey db.refills ("storno:" ++ original.id) = some existing ∧
        writeRefill env db original actor = (.cancelled (.done existing.id true), db)) ∨
      (∃ e, writeRefill env db original actor = (.failed e, db)) ∨
        ∃ db', findRefillKey db.refills ("storno:" ++ original.id) = none ∧ env.ids 0 ∉ db.refills.map (·.id) ∧
          Booked db (stornoRow env actor original) db' ∧
          writeRefill env db original actor = (.cancelled (.done (env.ids 0) false), db') := by
  unfold writeRefill
  rcases hfind : findRefillKey db.refills ("storno:" ++ original.id) with _ | existing
  · rcases htx : cancelTx env db original actor with e | db'
    · exact .inr (.inl ⟨e, rfl⟩)
    · obtain ⟨_, hkey, hrest⟩ := Js.bind_eq_ok.mp htx
      exact .inr (.inr ⟨db', rfl, new_of_primaryKey hkey, stornoTx_booked hrest, rfl⟩)
  · exact .inl ⟨existing, rfl, rfl⟩

theorem writeCash_cases (env : VendingEnv) (cash : List CashSession) (original : CashSession) (actor : CancelActor) :
    (∃ existing ∈ cash, existing.reversesId = some original.id ∧
        writeCash env cash original actor = (.cancelled (.done existing.id true), cash)) ∨
      (∃ e, writeCash env cash original actor = (.failed e, cash)) ∨
        (∀ r ∈ cash, r.source = "storno" → r.reversesId ≠ some original.id) ∧ env.ids 0 ∉ cash.map (·.id) ∧
          writeCash env cash original actor =
            (.cancelled (.done (env.ids 0) false), cash ++ [stornoSession env actor original]) := by
  unfold writeCash
  rcases hfind : cash.find? fun r => r.source = "storno" && r.reversesId = some original.id with _ | existing
  · simp only [hfind]
    rcases hkey : primaryKey (·.id) (cash ++ [stornoSession env actor original]) with e | _
    · simp only [hkey]
      exact .inr (.inl ⟨e, rfl⟩)
    · rw [hkey]
      refine .inr (.inr ⟨fun r hr hsource hrev => ?_, new_of_primaryKey hkey, rfl⟩)
      have hno := List.find?_eq_none.mp hfind r hr
      simp [hsource, hrev] at hno
  · have hmem := List.mem_of_find?_eq_some hfind
    have hfound := List.find?_some hfind
    simp only [Bool.and_eq_true, decide_eq_true_eq] at hfound
    simp only [hfind]
    exact .inl ⟨existing, hmem, hfound.2, rfl⟩

/-! The marks of an inventory. -/

theorem prefix_stornoCounts (env : VendingEnv) (n : ℕ) (counts rows : List CountRow) :
    counts <+: stornoCounts env n counts rows := by
  induction rows generalizing n counts with
  | nil => exact List.prefix_refl _
  | cons row rows ih =>
    unfold stornoCounts
    refine List.IsPrefix.trans ?_ (ih _ _)
    split_ifs
    · exact List.prefix_refl _
    · exact List.prefix_append _ _

theorem mem_reverses {counts : List CountRow} (h : countRows.Sound counts) {id : String} :
    id ∈ counts.filterMap countRows.reverses ↔ counts.any fun r => r.source = "storno" && r.reversesId = some id := by
  rw [List.mem_filterMap, List.any_eq_true]
  refine exists_congr fun r => and_congr_right fun hr => ?_
  rw [Bool.and_eq_true, decide_eq_true_eq, decide_eq_true_eq]
  exact ⟨fun hrev => ⟨(h.named r hr id hrev).1, hrev⟩, fun hboth => hboth.2⟩

/-- Every row of the group is marked once, and nothing else is. -/
theorem stornoCounts_sound {n : ℕ} {counts rows : List CountRow} (h : countRows.Sound counts)
    (hrows : ∀ row ∈ rows, row ∈ counts ∧ row.source = "own")
    (hids : ((stornoCounts env n counts rows).map (·.id)).Nodup) :
    countRows.Sound (stornoCounts env n counts rows) ∧
      ∀ row ∈ rows, row.id ∈ (stornoCounts env n counts rows).filterMap countRows.reverses := by
  induction rows generalizing n counts with
  | nil => exact ⟨h, List.forall_mem_nil _⟩
  | cons row rows ih =>
    obtain ⟨hrow, hown⟩ := hrows row List.mem_cons_self
    unfold stornoCounts at hids ⊢
    by_cases hmarked : counts.any fun r => r.source = "storno" && r.reversesId = some row.id
    · rw [if_pos hmarked] at hids ⊢
      obtain ⟨hsound, hall⟩ := ih h (fun r hr => hrows r (List.mem_cons_of_mem _ hr)) hids
      refine ⟨hsound, List.forall_mem_cons.mpr ⟨?_, hall⟩⟩
      exact ((prefix_stornoCounts env _ counts rows).sublist.filterMap _).subset ((mem_reverses h).mpr hmarked)
    · rw [if_neg hmarked] at hids ⊢
      generalize hmark : ({ row with
        id := env.ids n
        source := "storno"
        note := some "отмена"
        reversesId := some row.id
        createdAt := env.now } : CountRow) = mark at hids ⊢
      have hlater := prefix_stornoCounts env (n + 1) (counts ++ [mark]) rows
      have hnew : mark.id ∉ counts.map (·.id) := new_of_primaryKey
        (primaryKey_eq_ok.mpr (hids.sublist (hlater.sublist.map _)))
      have hmarks : countRows.reverses mark = some row.id := by
        rw [← hmark]
        rfl
      have hsound₁ : countRows.Sound (counts ++ [mark]) := by
        apply h.append_reversal hnew hrow
        · change row.source ≠ "storno"
          rw [hown]
          decide
        · rw [← hmark]
          rfl
        · exact hmarks
        · rw [← hmark]
          exact ⟨rfl, rfl⟩
        · exact mt (mem_reverses h).mp hmarked
      obtain ⟨hsound, hall⟩ := ih hsound₁
        (fun r hr => ⟨List.mem_append_left _ (hrows r (List.mem_cons_of_mem _ hr)).1,
          (hrows r (List.mem_cons_of_mem _ hr)).2⟩) hids
      refine ⟨hsound, List.forall_mem_cons.mpr ⟨?_, hall⟩⟩
      refine (hlater.sublist.filterMap _).subset ?_
      rw [List.filterMap_append, List.filterMap_cons_some hmarks]
      exact List.mem_append_right _ (List.mem_singleton_self _)

theorem mem_countGroup {counts : List CountRow} {original r : CountRow} (h : r ∈ countGroup counts original) :
    r ∈ counts ∧ r.source = "own" := by
  unfold countGroup at h
  simp only [List.mem_filter, Bool.and_eq_true, decide_eq_true_eq] at h
  exact ⟨h.1, h.2.1.1⟩

theorem original_mem_countGroup {counts : List CountRow} {original : CountRow} (h : original ∈ counts)
    (hown : original.source = "own") : original ∈ countGroup counts original := by
  unfold countGroup
  simp [h, hown]

theorem writeCount_cases (env : VendingEnv) (db : Db) (original : CountRow) :
    (∃ e, writeCount env db original = (.failed e, db)) ∨
      ((stornoCounts env 0 db.counts (countGroup db.counts original)).map (·.id)).Nodup ∧
        (writeCount env db original).2 =
          { db with counts := stornoCounts env 0 db.counts (countGroup db.counts original) } := by
  unfold writeCount
  generalize hcounts : stornoCounts env 0 db.counts (countGroup db.counts original) = counts
  rcases hkey : primaryKey (·.id) counts with e | _
  · simp only [hkey]
    exact .inl ⟨e, rfl⟩
  · simp only [hkey]
    refine .inr ⟨primaryKey_eq_ok.mp hkey, ?_⟩
    rcases hdrop : counts.drop db.counts.length with _ | ⟨first, rest⟩
    · obtain ⟨new, hnew⟩ := hcounts ▸ prefix_stornoCounts env 0 db.counts (countGroup db.counts original)
      rw [← hnew, List.drop_left] at hdrop
      rw [← hnew, hdrop, List.append_nil]
    · rfl

/-! One step. -/

def Pending.IsCancelled (s : Desk) : Pending → Prop
  | .create _ _ => True
  | .refill original _ _ => ∃ c ∈ s.db.refills, c.reversesId = some original.id
  | .stockCount original _ => ∃ c ∈ s.db.counts, c.reversesId = some original.id
  | .cash original _ _ => ∃ c ∈ s.cash, c.reversesId = some original.id

theorem write_grown (env : VendingEnv) (s : Desk) (p : Pending) : Grown s (write env s p).2 := by
  cases p with
  | create input ref =>
    change Grown s { s with db := (writeCreate env s.db input ref).2 }
    rcases writeCreate_cases env s.db input ref with h | ⟨-, h⟩
    · rw [h]
      exact Grown.refl s
    · exact h.grown
  | refill original actor now =>
    change Grown s { s with db := (writeRefill { env with now } s.db original actor).2 }
    rcases writeRefill_cases { env with now } s.db original actor with ⟨_, -, h⟩ | ⟨_, h⟩ | ⟨db', -, -, hbooked, h⟩
    · rw [h]
      exact Grown.refl s
    · rw [h]
      exact Grown.refl s
    · rw [h]
      exact hbooked.grown
  | stockCount original now =>
    change Grown s { s with db := (writeCount { env with now } s.db original).2 }
    rcases writeCount_cases { env with now } s.db original with ⟨_, h⟩ | ⟨-, h⟩
    · rw [h]
      exact Grown.refl s
    · rw [h]
      exact ⟨(Grown.refl s).refills, prefix_stornoCounts _ _ _ _, List.prefix_refl _⟩
  | cash original actor now =>
    change Grown s { s with cash := (writeCash { env with now } s.cash original actor).2 }
    rcases writeCash_cases { env with now } s.cash original actor with ⟨_, -, -, h⟩ | ⟨_, h⟩ | ⟨-, -, h⟩
    · rw [h]
      exact Grown.refl s
    · rw [h]
      exact Grown.refl s
    · rw [h]
      exact ⟨(Grown.refl s).refills, List.prefix_refl _, List.prefix_append _ _⟩

theorem not_reversed_of_key {refills : List RefillRow} {original : RefillRow} (h : refillRows.Sound refills)
    (hfind : findRefillKey refills ("storno:" ++ original.id) = none) :
    original.id ∉ refills.filterMap refillRows.reverses := by
  intro hmem
  obtain ⟨c, hc, hrev⟩ := List.mem_filterMap.mp hmem
  obtain ⟨-, r, -, hid, -, hkey, -⟩ := h.named c hc _ hrev
  have hno := List.find?_eq_none.mp hfind c hc
  rw [decide_eq_true_eq] at hno
  exact hno (hkey.trans (congrArg _ hid))

theorem writeRefill_kept {original : RefillRow} {actor : CancelActor} {answer : Answer} (h : Tables s)
    (hmem : original ∈ s.db.refills) (hplain : original.source ≠ "storno")
    (hw : writeRefill env s.db original actor = (answer, db')) :
    Tables { s with db := db' } ∧ ∀ id already, answer = .cancelled (.done id already) →
      ∃ c ∈ db'.refills, c.reversesId = some original.id := by
  rcases writeRefill_cases env s.db original actor with ⟨existing, hfind, hc⟩ | ⟨e, hc⟩ | ⟨db₁, hfind, hnew, hbooked, hc⟩
  · cases hw.symm.trans hc
    refine ⟨h, fun _ _ _ => ⟨existing, List.mem_of_find?_eq_some hfind, ?_⟩⟩
    have hkey := List.find?_some hfind
    rw [decide_eq_true_eq] at hkey
    exact h.keys _ (List.mem_of_find?_eq_some hfind) _ hkey
  · cases hw.symm.trans hc
    exact ⟨h, fun _ _ => nofun⟩
  · cases hw.symm.trans hc
    have hmark : (stornoRow env actor original) ∈ db'.refills := by
      rw [hbooked.refills]
      exact List.mem_append_right _ (List.mem_singleton_self _)
    refine ⟨⟨?_, ?_, ?_, h.cash⟩, fun _ _ _ => ⟨_, hmark, rfl⟩⟩
    · rw [hbooked.refills]
      apply h.refills.append_reversal (c := stornoRow env actor original) hnew hmem hplain rfl rfl
      · exact ⟨rfl, rfl, neg_add_cancel _⟩
      · exact not_reversed_of_key h.refills hfind
    · intro r hr id hkey
      rw [hbooked.refills] at hr
      rcases List.mem_append.mp hr with hr | hr
      · exact h.keys r hr id hkey
      · rw [List.mem_singleton] at hr
        subst hr
        have hsame : original.id = id := String.append_right_inj _ |>.mp hkey
        rw [← hsame]
        rfl
    · rw [hbooked.counts]
      exact h.counts

theorem writeCount_kept {original : CountRow} {answer : Answer} (h : Tables s) (hmem : original ∈ s.db.counts)
    (hown : original.source = "own") (hw : writeCount env s.db original = (answer, db')) :
    Tables { s with db := db' } ∧ ∀ id already, answer = .cancelled (.done id already) →
      ∃ c ∈ db'.counts, c.reversesId = some original.id := by
  rcases writeCount_cases env s.db original with ⟨e, hc⟩ | ⟨hids, hc⟩
  · cases hw.symm.trans hc
    exact ⟨h, fun _ _ => nofun⟩
  · obtain ⟨hsound, hall⟩ := stornoCounts_sound h.counts (fun r hr => mem_countGroup hr) hids
    rw [hw] at hc
    subst hc
    refine ⟨⟨h.refills, h.keys, hsound, h.cash⟩, fun _ _ _ => ?_⟩
    exact List.mem_filterMap.mp (hall original (original_mem_countGroup hmem hown))

theorem writeCash_kept {original : CashSession} {actor : CancelActor} {answer : Answer} {cash : List CashSession}
    (h : Tables s) (hmem : original ∈ s.cash) (hplain : original.source ≠ "storno")
    (hw : writeCash env s.cash original actor = (answer, cash)) :
    Tables { s with cash } ∧ ∀ id already, answer = .cancelled (.done id already) →
      ∃ c ∈ cash, c.reversesId = some original.id := by
  rcases writeCash_cases env s.cash original actor with ⟨existing, hin, hrev, hc⟩ | ⟨e, hc⟩ | ⟨hnone, hnew, hc⟩
  · cases hw.symm.trans hc
    exact ⟨h, fun _ _ _ => ⟨existing, hin, hrev⟩⟩
  · cases hw.symm.trans hc
    exact ⟨h, fun _ _ => nofun⟩
  · cases hw.symm.trans hc
    refine ⟨⟨h.refills, h.keys, h.counts, ?_⟩, fun _ _ _ => ⟨stornoSession env actor original, ?_, rfl⟩⟩
    · apply h.cash.append_reversal (c := stornoSession env actor original) hnew hmem hplain rfl rfl
      · exact stornoSession_opposite env actor original
      · intro hrev
        obtain ⟨c, hin, hrev⟩ := List.mem_filterMap.mp hrev
        exact hnone c hin (h.cash.named c hin _ hrev).1 hrev
    · exact List.mem_append_right _ (List.mem_singleton_self _)

theorem writeCreate_kept {input : CreateRefillInput} {ref : String × Option String} (h : Tables s)
    (hplain : ∀ id, input.clientKey ≠ "storno:" ++ id) : Tables { s with db := (writeCreate env s.db input ref).2 } := by
  rcases writeCreate_cases env s.db input ref with hsame | ⟨hnew, hbooked⟩
  · rw [hsame]
    exact h
  · refine ⟨?_, ?_, ?_, h.cash⟩
    · rw [hbooked.refills]
      exact h.refills.append_plain hnew rfl
    · intro r hr id hkey
      rw [hbooked.refills] at hr
      rcases List.mem_append.mp hr with hr | hr
      · exact h.keys r hr id hkey
      · rw [List.mem_singleton] at hr
        subst hr
        exact absurd hkey (hplain id)
    · rw [hbooked.counts]
      exact h.counts

theorem write_kept {p : Pending} (h : Sound s) (hp : p.Valid s) :
    Tables (write env s p).2 ∧ ∀ id already, (write env s p).1 = .cancelled (.done id already) →
      p.IsCancelled (write env s p).2 := by
  cases p with
  | create input ref => exact ⟨writeCreate_kept h.toTables hp, fun _ _ _ => trivial⟩
  | refill original actor now => exact writeRefill_kept h.toTables hp.1 hp.2 rfl
  | stockCount original now => exact writeCount_kept h.toTables hp.1 hp.2 rfl
  | cash original actor now => exact writeCash_kept h.toTables hp.1 hp.2 rfl

section readOriginal
variable {α : Type*} {rows : List α} {idOf : α → String} {cancellable isAuthor : α → Bool} {createdAt : α → ℤ}
  {id : String} {actor : CancelActor} {now hours : ℤ} {r : α}

theorem readOriginal_eq_ok (h : readOriginal rows idOf cancellable isAuthor createdAt id actor now hours = .ok r) :
    r ∈ rows ∧ cancellable r = true := by
  unfold readOriginal at h
  split at h
  · cases h
  · rename_i original hfind
    by_cases hc : cancellable original = true
    · rw [if_neg (by rw [hc]; decide)] at h
      split at h
      · cases h
      · cases h
        exact ⟨List.mem_of_find?_eq_some hfind, hc⟩
    · rw [Bool.not_eq_true] at hc
      rw [hc, if_pos (by decide)] at h
      cases h

theorem readOriginal_denied (hids : (rows.map idOf).Nodup) (hr : r ∈ rows) (hid : idOf r = id)
    (hadmin : actor.isAdmin = false) (hno : isAuthor r = false ∨ hours * 3600000 < now - createdAt r) :
    ∃ res, readOriginal rows idOf cancellable isAuthor createdAt id actor now hours = .error res := by
  unfold readOriginal
  split
  · exact ⟨_, rfl⟩
  · rename_i original hfind
    have hfound := List.find?_some hfind
    rw [decide_eq_true_eq] at hfound
    have hsame : original = r :=
      List.inj_on_of_nodup_map hids (List.mem_of_find?_eq_some hfind) hr (hfound.trans hid.symm)
    subst hsame
    cases hc : cancellable original with
    | false => exact ⟨_, rfl⟩
    | true =>
      rw [if_neg (by decide)]
      have hdenied : ∃ res, denied actor (isAuthor original) (createdAt original) now hours = some res := by
        unfold denied
        rw [hadmin, if_neg (by decide)]
        rcases hno with hno | hlate
        · rw [hno]
          exact ⟨_, rfl⟩
        · by_cases ha : isAuthor original = true
          · rw [if_neg (by rw [ha]; decide), if_pos hlate]
            exact ⟨_, rfl⟩
          · rw [if_pos (by simpa using ha)]
            exact ⟨_, rfl⟩
      obtain ⟨res, hres⟩ := hdenied
      rw [hres]
      exact ⟨res, rfl⟩

end readOriginal

/-- The caller did not make the record or comes too late, and is no administrator. -/
def Call.Denied (env : VendingEnv) (s : Desk) : Call → Prop
  | .create _ => False
  | .cancelRefill id actor hours => ∃ r ∈ s.db.refills, r.id = id ∧ actor.isAdmin = false ∧
      (r.createdBy ≠ some actor.ref ∨ hours * 3600000 < env.now - r.createdAt)
  | .cancelStockCount id actor hours => ∃ r ∈ s.db.counts, r.id = id ∧ actor.isAdmin = false ∧
      (r.personId ≠ some actor.personId ∨ hours * 3600000 < env.now - r.createdAt)
  | .cancelCash id actor hours => ∃ r ∈ s.cash, r.id = id ∧ actor.isAdmin = false ∧
      (r.createdBy ≠ some actor.ref ∨ hours * 3600000 < env.now - r.createdAt)

theorem read_denied {call : Call} (h : Tables s) (hd : call.Denied env s) : ∃ answer, read env s call = .error answer := by
  rcases call with input | ⟨id, actor, hours⟩ | ⟨id, actor, hours⟩ | ⟨id, actor, hours⟩
  · exact hd.elim
  · obtain ⟨r, hr, hid, hadmin, hno⟩ := hd
    obtain ⟨res, hres⟩ : ∃ res, readRefill s.db.refills id actor env.now hours = .error res :=
      readOriginal_denied h.refills.ids hr hid hadmin (hno.imp_left decide_eq_false)
    exact ⟨_, by rw [read, hres]⟩
  · obtain ⟨r, hr, hid, hadmin, hno⟩ := hd
    obtain ⟨res, hres⟩ : ∃ res, readCount s.db.counts id actor env.now hours = .error res :=
      readOriginal_denied h.counts.ids hr hid hadmin (hno.imp_left decide_eq_false)
    exact ⟨_, by rw [read, hres]⟩
  · obtain ⟨r, hr, hid, hadmin, hno⟩ := hd
    obtain ⟨res, hres⟩ : ∃ res, readCash s.cash id actor env.now hours = .error res :=
      readOriginal_denied h.cash.ids hr hid hadmin (hno.imp_left decide_eq_false)
    exact ⟨_, by rw [read, hres]⟩

theorem read_valid {call : Call} {p : Pending} (hkeys : (Action.read env call).PlainKeys)
    (h : read env s call = .ok p) : p.Valid s := by
  rcases call with input | ⟨id, actor, hours⟩ | ⟨id, actor, hours⟩ | ⟨id, actor, hours⟩
  · rcases hres : env.catalog.resolveProductRef env.host input.productName with e | ref
    · simp only [read, hres, reduceCtorEq] at h
    · simp only [read, hres] at h
      cases h
      exact hkeys
  · rcases hres : readRefill s.db.refills id actor env.now hours with e | original
    · simp only [read, hres, reduceCtorEq] at h
    · simp only [read, hres] at h
      cases h
      exact (readOriginal_eq_ok hres).imp_right of_decide_eq_true
  · rcases hres : readCount s.db.counts id actor env.now hours with e | original
    · simp only [read, hres, reduceCtorEq] at h
    · simp only [read, hres] at h
      cases h
      exact (readOriginal_eq_ok hres).imp_right of_decide_eq_true
  · rcases hres : readCash s.cash id actor env.now hours with e | original
    · simp only [read, hres, reduceCtorEq] at h
    · simp only [read, hres] at h
      cases h
      exact (readOriginal_eq_ok hres).imp_right of_decide_eq_true

theorem step_grown (s : Desk) (a : Action) : Grown s (step s a) := by
  cases a with
  | read env call =>
    unfold step
    dsimp only
    split
    · exact Grown.refl s
    · exact (Grown.refl s).pending _ _
  | write env n =>
    unfold step
    dsimp only
    split
    · exact Grown.refl s
    · exact (write_grown env s _).pending s.pending _

/-- Each step keeps the tables as cancellations leave them. -/
theorem next_sound {a : Action} (h : Sound s) (hnext : Next s a s') : Sound s' := by
  obtain ⟨hkeys, rfl⟩ := hnext
  have hgrown := step_grown s a
  cases a with
  | read env call =>
    unfold step at hgrown ⊢
    dsimp only at hgrown ⊢
    rcases hread : read env s call with answer | p
    · rw [hread] at hgrown
      exact h
    · rw [hread] at hgrown
      refine ⟨⟨h.refills, h.keys, h.counts, h.cash⟩, fun q hq => ?_⟩
      rcases List.mem_append.mp hq with hq | hq
      · exact (h.pending q hq).grown hgrown
      · rw [List.mem_singleton] at hq
        subst hq
        exact (read_valid hkeys hread).grown hgrown
  | write env n =>
    unfold step at hgrown ⊢
    dsimp only at hgrown ⊢
    rcases hn : s.pending[n]? with _ | p
    · exact h
    · rw [hn] at hgrown
      have htables := (@write_kept env s p h (h.pending p (List.mem_of_getElem? hn))).1
      refine ⟨⟨htables.refills, htables.keys, htables.counts, htables.cash⟩, fun q hq => ?_⟩
      exact (h.pending q (List.mem_of_mem_eraseIdx hq)).grown hgrown

theorem Pending.IsCancelled.grown {p : Pending} (hp : p.IsCancelled s) (h : Grown s s') : p.IsCancelled s' := by
  obtain ⟨written, hwritten, -⟩ := h.refills
  cases p with
  | create input ref => trivial
  | refill original actor now =>
    obtain ⟨c, hc, hrev⟩ := hp
    refine ⟨c, ?_, hrev⟩
    rw [hwritten]
    exact List.mem_append_left _ hc
  | stockCount original now =>
    obtain ⟨c, hc, hrev⟩ := hp
    exact ⟨c, h.counts.subset hc, hrev⟩
  | cash original actor now =>
    obtain ⟨c, hc, hrev⟩ := hp
    exact ⟨c, h.cash.subset hc, hrev⟩

theorem run_grown {steps : List (Step Desk Action)} (h : Run Next s steps s') : Grown s s' := by
  refine h.related Grown.refl (fun _ _ _ => Grown.trans) fun s a s' hnext => ?_
  rw [hnext.2]
  exact step_grown s a

/-- What cancellations and refills leave together, in whatever order their halves come. -/
structure CancelsExactly (s : Desk) (steps : List (Step Desk Action)) (s' : Desk) : Prop where
  refillOnce : (s'.db.refills.filterMap (·.reversesId)).Nodup
  countOnce : (s'.db.counts.filterMap (·.reversesId)).Nodup
  cashOnce : (s'.cash.filterMap (·.reversesId)).Nodup
  refillFinal : ∀ c ∈ s'.db.refills, c.reversesId.isSome → ∀ r ∈ s'.db.refills, r.reversesId ≠ some c.id
  countFinal : ∀ c ∈ s'.db.counts, c.reversesId.isSome → ∀ r ∈ s'.db.counts, r.reversesId ≠ some c.id
  cashFinal : ∀ c ∈ s'.cash, c.reversesId.isSome → ∀ r ∈ s'.cash, r.reversesId ≠ some c.id
  refillOpposite : ∀ c ∈ s'.db.refills, ∀ r ∈ s'.db.refills, c.reversesId = some r.id →
    c.productName = r.productName ∧ c.qty + r.qty = 0
  cashOpposite : ∀ c ∈ s'.cash, ∀ r ∈ s'.cash, c.reversesId = some r.id → OppositeSession c r
  stock : ∃ written, s'.db.refills = s.db.refills ++ written ∧ ∀ name,
    stockQty s'.db.stock name =
      stockQty s.db.stock name - ((written.filter (·.productName = name)).map (·.qty)).sum
  denied : ∀ e ∈ steps, ∀ env call, e.action = .read env call → call.Denied env e.before → e.after = e.before
  cancelled : ∀ e ∈ steps, ∀ env n p id already, e.action = .write env n → e.before.pending[n]? = some p →
    (write env e.before p).1 = .cancelled (.done id already) → p.IsCancelled s'

theorem cancels_exactly {steps : List (Step Desk Action)} (hrun : Run Next s steps s') (h : Sound s) :
    CancelsExactly s steps s' := by
  have hend : Sound s' := hrun.invariant (fun _ _ _ => next_sound) h
  refine ⟨hend.refills.once, hend.counts.once, hend.cash.once, ?_, ?_, ?_, ?_, ?_, (run_grown hrun).refills, ?_, ?_⟩
  · exact fun c hc hrev r hr => hend.refills.never_reversed hc hrev hr
  · exact fun c hc hrev r hr => hend.counts.never_reversed hc hrev hr
  · exact fun c hc hrev r hr => hend.cash.never_reversed hc hrev hr
  · exact fun c hc r hr hnamed => (hend.refills.opposite_of hc hr hnamed).2
  · exact fun c hc r hr hnamed => hend.cash.opposite_of hc hr hnamed
  · intro e he env call haction hdenied
    obtain ⟨earlier, later, -, hbefore, hnext, -⟩ := hrun.split he
    have hsound : Sound e.before := hbefore.invariant (fun _ _ _ => next_sound) h
    obtain ⟨answer, hanswer⟩ := read_denied hsound.toTables hdenied
    rw [hnext.2, haction, step, hanswer]
  · intro e he env n p id already haction hp hdone
    obtain ⟨earlier, later, -, hbefore, hnext, hafter⟩ := hrun.split he
    have hsound : Sound e.before := hbefore.invariant (fun _ _ _ => next_sound) h
    have hwritten := (@write_kept env e.before p hsound (hsound.pending p (List.mem_of_getElem? hp))).2 id already hdone
    have hafter' : e.after = { (write env e.before p).2 with pending := e.before.pending.eraseIdx n } := by
      rw [hnext.2, haction, step, hp]
    have hnow : p.IsCancelled e.after := by
      rw [hafter']
      exact hwritten
    exact hnow.grown (run_grown hafter)

/-! A refill cancelled twice at once, refused to a stranger, with another refill in between. -/

def deskEnv (id : String) : VendingEnv :=
  { sampleEnv with
    now := 1788300060000
    ids := fun n => id ++ String.ofList (List.replicate n 'm') }

def technician : CancelActor := ⟨"p1", "person:p1", false⟩

def stranger : CancelActor := ⟨"p2", "person:p2", false⟩

def admin : CancelActor := ⟨"p3", "person:p3", true⟩

def firstRefill : RefillRow where
  id := "r1"
  machineId := none
  machineSerial := "2312"
  coilId := none
  productId := some "p"
  productName := "cola"
  qty := 5
  personId := some "p1"
  taskId := none
  performedAt := 1788300000000
  clientKey := "k1"
  source := "bot"
  note := none
  createdBy := some "person:p1"
  reversesId := none
  createdAt := 1788300000000

def secondRefill : CreateRefillInput := ⟨"2312", none, none, "cola", 3, some "p1", none, none, "k2", none, none, none⟩

def firstDesk : Desk where
  db := ⟨[⟨"cola", some "p", 20, 1788200000000, 1788300000000⟩], [], [firstRefill], [], []⟩
  cash := []
  pending := []

def deskActions : List Action :=
  [.read (deskEnv "") (.cancelRefill "r1" technician 24), .read (deskEnv "") (.cancelRefill "r1" stranger 24),
    .read (deskEnv "") (.cancelRefill "r1" admin 24), .read (deskEnv "") (.create secondRefill),
    .write (deskEnv "r2") 1, .write (deskEnv "r3") 1, .write (deskEnv "r4") 0]

theorem deskActions_plainKeys : ∀ a ∈ deskActions, a.PlainKeys := by
  unfold deskActions
  simp only [List.forall_mem_cons, Action.PlainKeys, true_and]
  refine ⟨fun id h => ?_, List.forall_mem_nil _⟩
  have hchars := congrArg String.toList h
  simp [secondRefill] at hchars

theorem firstDesk_sound : Sound firstDesk where
  refills := @Reversals.Sound.append_plain _ _ refillRows [] firstRefill Reversals.Sound.nil List.not_mem_nil rfl
  keys := by
    refine List.forall_mem_singleton.mpr fun id h => ?_
    have hchars := congrArg String.toList h
    simp [firstRefill] at hchars
  counts := Reversals.Sound.nil
  cash := Reversals.Sound.nil
  pending := List.forall_mem_nil _

theorem cancels_exactly_atOnce :
    CancelsExactly firstDesk (runActions step firstDesk deskActions).1 (runActions step firstDesk deskActions).2 ∧
      (runActions step firstDesk deskActions).2.db.refills.map (·.qty) = [5, -5, 3] ∧
      stockQty (runActions step firstDesk deskActions).2.db.stock "cola" = 22 := by
  refine ⟨cancels_exactly ((run_runActions step firstDesk deskActions).strengthen fun e he hnext => ⟨?_, hnext⟩)
    firstDesk_sound, ?_, ?_⟩
  · exact deskActions_plainKeys e.action (action_mem_of_runActions he)
  · decide +kernel
  · decide +kernel

end Mydon.Vending.RecordCancel
