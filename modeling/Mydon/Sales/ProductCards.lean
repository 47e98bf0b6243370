import Mydon.Entities.MapPoint
import Mydon.Lib.Timeline
import Mydon.Sales.Tables

/-! Sales of product cards. A sale is of the card that has its product for a name, or for an alias; the sales of no card
are listed by their names. -/

namespace Mydon.Sales

open Mydon.Lib Mydon.Js Mydon.Entities

/-! `SalesService`. -/

def daysAgoLocal (days today : ℤ) : ℤ := today - (days - 1)

/-- The first day of a period of at most a year. -/
def since (days today : ℤ) : ℤ := daysAgoLocal (min (max days 1) 365) today

structure MachineSales where
  machineId : Option ℕ
  serial : String
  machineName : Option String
  qty : ℚ
  amount : ℚ
  deriving DecidableEq

structure ProductCardSales where
  qty : ℚ
  amount : ℚ
  machines : List MachineSales
  aliases : List (ℕ × String)
  deriving DecidableEq

def aliasesOf (db : Db) (entityId : ℕ) : List ProductNameAlias := db.aliases.filter fun a => a.entityId = entityId

/-- The names that the sales of a card have. -/
def namesOf (db : Db) (card : Card) : List String := card.name :: (aliasesOf db card.id).map ProductNameAlias.name

/-- `group by` machine. -/
def machineKey (s : Sale) : Option ℕ × String := (s.machineId, s.machineSerial)

def machineSales (db : Db) (rows : List Sale) (key : Option ℕ × String) : MachineSales :=
  let own := rows.filter fun s => machineKey s = key
  ⟨key.1, key.2, (key.1.bind db.card).map Card.name, (own.map Sale.qty).sum, (own.map Sale.amount).sum⟩

def salesOfMachines (db : Db) (rows : List Sale) : List MachineSales :=
  ((OrderedMap.keySet (rows.map machineKey)).map (machineSales db rows)).insertionSort fun a b => b.amount ≤ a.amount

def cardSales (db : Db) (sales : List Sale) (days today : ℤ) (card : Card) : ProductCardSales :=
  let rows := sales.filter fun s => s.product ∈ namesOf db card ∧ since days today ≤ s.dt
  let machines := salesOfMachines db rows
  ⟨(machines.map MachineSales.qty).sum, (machines.map MachineSales.amount).sum, machines,
    (aliasesOf db card.id).map fun a => (a.id, a.name)⟩

def byProductCard (db : Db) (sales : List Sale) (entityId : ℕ) (days today : ℤ) :
    Except HttpError ProductCardSales := do
  let card ← orThrow (db.card entityId) (.notFound "Карточка товара не найдена")
  return cardSales db sales days today card

structure UnmatchedName where
  name : String
  qty : ℚ
  amount : ℚ
  lastDt : Option ℤ
  deriving DecidableEq

/-- No product has the name, and no alias. -/
def isUnmatched (db : Db) (name : String) : Bool :=
  !(db.cards.any fun c => c.name = name && c.type = "product") && !(db.aliases.any fun a => a.name = name)

/-- `unmatchedNames`, before its limit. -/
def unmatched (db : Db) (sales : List Sale) (days today : ℤ) : List UnmatchedName :=
  let rows := sales.filter fun s => isUnmatched db s.product ∧ since days today ≤ s.dt
  ((OrderedMap.keySet (rows.map Sale.product)).map fun name =>
    let own := rows.filter fun s => s.product = name
    (⟨name, (own.map Sale.qty).sum, (own.map Sale.amount).sum, (own.map Sale.dt).max?⟩ : UnmatchedName)).insertionSort
      fun a b => b.amount ≤ a.amount

def unmatchedNames (db : Db) (sales : List Sale) (days today : ℤ) : List UnmatchedName :=
  (unmatched db sales days today).take 200

def addAlias (db : Db) (name : String) (entityId : ℕ) : Except HttpError (ProductNameAlias × Db) := do
  let clean := trim name
  require (clean ≠ "") (.badRequest "Пустое имя не привязывается")
  let card ← orThrow (db.card entityId) (.notFound "Карточка товара не найдена")
  require (card.type = "product") (.badRequest "Алиасы привязываются только к товарам")
  require (∀ c ∈ db.cards, ¬ (c.name = clean ∧ c.type = "product"))
    (.badRequest "Это имя уже само является карточкой товара — продажа засчиталась бы дважды")
  match Table.lookup ProductNameAlias.name db.aliases clean with
  | none =>
    let row : ProductNameAlias := ⟨db.nextId, entityId, clean⟩
    return (row, { db with aliases := db.aliases ++ [row], nextId := db.nextId + 1 })
  | some existing => do
    require (existing.entityId = entityId) (.badRequest "Имя уже привязано к другой карточке — сначала отвяжи там")
    return (existing, db)

def removeAlias (db : Db) (id : ℕ) : Except HttpError Db := do
  let _ ← orThrow (Table.lookup ProductNameAlias.id db.aliases id) (.notFound "Такой привязки нет")
  return { db with aliases := db.aliases.filter fun a => a.id ≠ id }

/-! Calls. -/

inductive NameCall
  | card (call : CardCall)
  | addAlias (name : String) (entityId : ℕ)
  | removeAlias (id : ℕ)

def serveName (env : Env) (db : Db) : NameCall → Db
  | .card call => serve env db call
  | .addAlias name entityId => committed db (addAlias db name entityId)
  | .removeAlias id => (removeAlias db id).toOption.getD db

/-- The sales of the product are the sales of the card. -/
def belongs (db : Db) (c : Card) (name : String) : Bool := c.type = "product" && name ∈ namesOf db c

/-- Every sale is of one card at most, and all cards and the unmatched names share the sales of a period. -/
structure CountedOnce (db : Db) : Prop where
  once : ∀ c ∈ db.cards, ∀ c' ∈ db.cards, ∀ name, belongs db c name = true → belongs db c' name = true → c.id = c'.id
  shared : ∀ (sales : List Sale) (days today : ℤ), ∃ totals,
    (db.cards.filter fun c => c.type = "product").mapM (fun c => byProductCard db sales c.id days today) = .ok totals ∧
    (totals.map ProductCardSales.qty).sum + ((unmatched db sales days today).map UnmatchedName.qty).sum =
        ((sales.filter fun s => since days today ≤ s.dt).map Sale.qty).sum ∧
      (totals.map ProductCardSales.amount).sum + ((unmatched db sales days today).map UnmatchedName.amount).sum =
        ((sales.filter fun s => since days today ≤ s.dt).map Sale.amount).sum

/-- The name that a call is to write, and the card that it writes it on. -/
def named (env : Env) (db : Db) : CardCall → Option (ℕ × String)
  | .create dto actorRef =>
    if dto.type = "product" ∧ (create env db dto actorRef).isOk then some (db.nextId, dto.name) else none
  | .update id dto today =>
    if (update env today db id dto).isOk then
      (db.card id).bind fun c => if c.type = "product" then dto.name.map fun name => (id, name) else none
    else none
  | .approve id withDrafts =>
    (db.card id).bind fun c =>
      if c.type = "product" then
        some (id, (applyDrafts c.name c.attrs (if withDrafts then db.draftsOf id else [])).1)
      else none
  | .approveField id field =>
    (db.draft id field).bind fun d =>
      (db.card id).bind fun c => if c.type = "product" then some (id, (c.patch c d).name) else none
  | .decide id .approved =>
    (Table.lookup Approval.id db.approvals id).bind fun row =>
      (row.entityApprove.bind db.card).bind fun c =>
        if row.decision = .pending ∧ c.approved = false ∧ c.type = "product" then
          some (c.id, (applyDrafts c.name c.attrs (db.draftsOf c.id)).1)
        else none
  | _ => none

/-- A name that is written on a product is no name and no alias of another product. -/
def NameFree (env : Env) (e : Step Db NameCall) : Prop :=
  match e.action with
  | .card call => ∀ id name, named env e.before call = some (id, name) →
      ∀ c ∈ e.before.cards, c.id ≠ id → belongs e.before c name = false
  | _ => True

instance (env : Env) (e : Step Db NameCall) : Decidable (NameFree env e) :=
  match e with
  | ⟨db, .card call, _⟩ =>
    decidable_of_iff (∀ u ∈ named env db call, ∀ c ∈ db.cards, c.id ≠ u.1 → belongs db c u.2 = false)
      ⟨fun h id name hu => h (id, name) hu, fun h u hu => h u.1 u.2 hu⟩
  | ⟨_, .addAlias .., _⟩ => isTrue trivial
  | ⟨_, .removeAlias _, _⟩ => isTrue trivial

/-! The sums. -/

variable {env : Env} {db db' : Db} {call : CardCall} {c : Card} {id : ℕ} {name : String}

theorem sum_map_insertionSort {α : Type} (r : α → α → Prop) [DecidableRel r] (f : α → ℚ) (l : List α) :
    ((l.insertionSort r).map f).sum = (l.map f).sum := ((List.perm_insertionSort r l).map f).sum_eq

theorem machines_qty (db : Db) (rows : List Sale) :
    ((salesOfMachines db rows).map MachineSales.qty).sum = (rows.map Sale.qty).sum := by
  unfold salesOfMachines
  rw [sum_map_insertionSort, List.map_map]
  exact Timeline.sum_groups machineKey Sale.qty rows

theorem machines_amount (db : Db) (rows : List Sale) :
    ((salesOfMachines db rows).map MachineSales.amount).sum = (rows.map Sale.amount).sum := by
  unfold salesOfMachines
  rw [sum_map_insertionSort, List.map_map]
  exact Timeline.sum_groups machineKey Sale.amount rows

theorem unmatched_qty (db : Db) (sales : List Sale) (days today : ℤ) :
    ((unmatched db sales days today).map UnmatchedName.qty).sum =
      ((sales.filter fun s => isUnmatched db s.product ∧ since days today ≤ s.dt).map Sale.qty).sum := by
  unfold unmatched
  rw [sum_map_insertionSort, List.map_map]
  exact Timeline.sum_groups Sale.product Sale.qty _

theorem unmatched_amount (db : Db) (sales : List Sale) (days today : ℤ) :
    ((unmatched db sales days today).map UnmatchedName.amount).sum =
      ((sales.filter fun s => isUnmatched db s.product ∧ since days today ≤ s.dt).map Sale.amount).sum := by
  unfold unmatched
  rw [sum_map_insertionSort, List.map_map]
  exact Timeline.sum_groups Sale.product Sale.amount _

/-- The tables that names are kept in: a card for every id, and a product for every alias. -/
structure NamesWF (db : Db) : Prop where
  numbered : db.Numbered
  ids : (db.cards.map Card.id).Nodup
  target : ∀ a ∈ db.aliases, ∃ c, db.card a.entityId = some c ∧ c.type = "product"

theorem card_iff (wf : NamesWF db) : db.card id = some c ↔ c ∈ db.cards ∧ c.id = id := Table.lookup_eq_some_iff wf.ids

/-- No two products share a name. -/
def Once (db : Db) : Prop :=
  ∀ c ∈ db.cards, ∀ c' ∈ db.cards, ∀ name, belongs db c name = true → belongs db c' name = true → c.id = c'.id

theorem belongs_iff : belongs db c name = true ↔
    c.type = "product" ∧ (c.name = name ∨ ∃ a ∈ db.aliases, a.entityId = c.id ∧ a.name = name) := by
  unfold belongs namesOf aliasesOf
  rw [Bool.and_eq_true, decide_eq_true_eq, decide_eq_true_eq, List.mem_cons, @eq_comm _ name]
  simp only [List.mem_map, List.mem_filter, decide_eq_true_eq, and_assoc]

/-- A name of no card is unmatched, and no other. -/
theorem isUnmatched_eq (wf : NamesWF db) : isUnmatched db name = !(db.cards.any fun c => belongs db c name) := by
  rw [Bool.eq_iff_iff]
  simp only [isUnmatched, Bool.and_eq_true, Bool.not_eq_true', List.any_eq_false, Bool.not_eq_true]
  constructor
  · rintro ⟨hcards, haliases⟩ c hc
    rw [← Bool.not_eq_true, belongs_iff]
    rintro ⟨htype, hname | ⟨a, ha, -, hname⟩⟩
    · simpa [hname, htype] using hcards c hc
    · simpa [hname] using haliases a ha
  · intro h
    constructor
    · intro c hc
      rw [decide_eq_true_eq, decide_eq_true_eq]
      rintro ⟨hname, htype⟩
      exact Bool.eq_false_iff.mp (h c hc) (belongs_iff.mpr ⟨htype, .inl hname⟩)
    · intro a ha
      rw [decide_eq_false_iff_not]
      intro hname
      obtain ⟨c, hc, htype⟩ := wf.target a ha
      obtain ⟨hmem, hid⟩ := (card_iff wf).mp hc
      exact Bool.eq_false_iff.mp (h c hmem) (belongs_iff.mpr ⟨htype, .inr ⟨a, ha, hid.symm, hname⟩⟩)

theorem countP_le_one {α : Type} {p : α → Bool} {l : List α} (hnd : l.Nodup)
    (h : ∀ x ∈ l, ∀ y ∈ l, p x = true → p y = true → x = y) : l.countP p = (l.any p).toNat := by
  induction l with
  | nil => rfl
  | cons x l ih =>
    rw [List.nodup_cons] at hnd
    have hrest := ih hnd.2 fun y hy z hz => h y (List.mem_cons_of_mem _ hy) z (List.mem_cons_of_mem _ hz)
    rw [List.countP_cons, List.any_cons, hrest]
    rcases hx : p x with _ | _
    · simp
    · have hnone : l.any p = false := by
        rw [List.any_eq_false]
        intro y hy hpy
        exact hnd.1 (h x List.mem_cons_self y (List.mem_cons_of_mem _ hy) hx hpy ▸ hy)
      rw [hnone]
      rfl

/-- A sale of the period is of one card, or its name is unmatched. -/
theorem sale_counted (wf : NamesWF db) (honce : Once db) (s : Sale) (days today : ℤ) :
    (db.cards.filter fun c => c.type = "product").countP
        (fun c => decide (s.product ∈ namesOf db c ∧ since days today ≤ s.dt)) +
      (decide (isUnmatched db s.product = true ∧ since days today ≤ s.dt)).toNat =
        (decide (since days today ≤ s.dt)).toNat := by
  by_cases hsince : since days today ≤ s.dt
  · have hcount : (db.cards.filter fun c => c.type = "product").countP
        (fun c => decide (s.product ∈ namesOf db c ∧ since days today ≤ s.dt)) =
        db.cards.countP fun c => belongs db c s.product := by
      rw [List.countP_filter]
      refine List.countP_congr fun c _ => ?_
      simp [belongs, hsince, and_comm]
    rw [hcount, countP_le_one wf.ids.of_map fun c hc c' hc' h h' =>
      Table.eq_of_key_eq wf.ids hc hc' (honce c hc c' hc' _ h h'), isUnmatched_eq wf]
    rcases db.cards.any fun c => belongs db c s.product with _ | _ <;> simp [hsince]
  · simp [hsince]

theorem shared_sum (wf : NamesWF db) (honce : Once db) (weight : Sale → ℚ) (sales : List Sale) (days today : ℤ) :
    ((db.cards.filter fun c => c.type = "product").map fun c =>
        ((sales.filter fun s => s.product ∈ namesOf db c ∧ since days today ≤ s.dt).map weight).sum).sum +
      ((sales.filter fun s => isUnmatched db s.product ∧ since days today ≤ s.dt).map weight).sum =
      ((sales.filter fun s => since days today ≤ s.dt).map weight).sum := by
  rw [Timeline.sum_pieces (fun (c : Card) (s : Sale) => decide (s.product ∈ namesOf db c ∧ since days today ≤ s.dt)),
    Timeline.sum_filter, Timeline.sum_filter, ← List.sum_map_add]
  refine congrArg List.sum (List.map_congr_left fun s _ => ?_)
  rw [← sale_counted wf honce s days today]
  push_cast
  ring

theorem mapM_ok {ε α β : Type} {f : α → Except ε β} {g : α → β} {l : List α} (h : ∀ a ∈ l, f a = .ok (g a)) :
    l.mapM f = .ok (l.map g) := by
  induction l with
  | nil => rfl
  | cons a l ih =>
    rw [List.mapM_cons, h a List.mem_cons_self, ih fun a' ha' => h a' (List.mem_cons_of_mem _ ha')]
    rfl

theorem countedOnce_of_once (wf : NamesWF db) (honce : Once db) : CountedOnce db := by
  refine ⟨honce, fun sales days today => ⟨_, mapM_ok (g := cardSales db sales days today) fun c hc => ?_, ?_, ?_⟩⟩
  · unfold byProductCard
    rw [(card_iff wf).mpr ⟨List.mem_of_mem_filter hc, rfl⟩]
    rfl
  · rw [unmatched_qty, ← shared_sum wf honce Sale.qty, List.map_map]
    congr 2
    exact List.map_congr_left fun c _ => machines_qty db _
  · rw [unmatched_amount, ← shared_sum wf honce Sale.amount, List.map_map]
    congr 2
    exact List.map_congr_left fun c _ => machines_amount db _

/-! One call. -/

theorem card_of_mem (wf : NamesWF db) (hc : c ∈ db.cards) : db.card c.id = some c := (card_iff wf).mpr ⟨hc, rfl⟩

/-- A card after a call was there before, with its type, and with its name unless it was written; or it is new. -/
theorem names_of_change {k : ℕ} {c' : Card} (h : Change env db call db') (hdb : db.Numbered)
    (hc' : db'.card k = some c') :
    (∃ c, db.card k = some c ∧ c.type = c'.type ∧
      (c.name = c'.name ∨ (c'.type = "product" → named env db call = some (k, c'.name)))) ∨
      db.card k = none ∧ (c'.type = "product" → named env db call = some (k, c'.name)) := by
  have hkept (hcard : db'.card k = db.card k) : ∃ c, db.card k = some c ∧ c.type = c'.type ∧
      (c.name = c'.name ∨ (c'.type = "product" → named env db call = some (k, c'.name))) :=
    ⟨c', hcard ▸ hc', rfl, .inl rfl⟩
  cases h with
  | quiet hcards =>
    refine .inl (hkept ?_)
    unfold Db.card
    rw [hcards]
  | @created dto actorRef c _ haccepted hid htype hname _ hcards =>
    have hcard := @card_of_created db db' _ k hcards hid hdb
    split_ifs at hcard with hk
    · obtain rfl := Option.some.inj (hcard.symm.trans hc')
      refine .inr ⟨Table.lookup_eq_none_iff.mpr fun c hc => ?_, fun hproduct => ?_⟩
      · rw [hk, hid]
        exact (hdb c hc).ne
      · have hdto : dto.type = "product" := htype ▸ hproduct
        simp [named, haccepted, Except.isOk, Except.toBool, hdto, hk, hid, hname]
    · exact .inl (hkept hcard)
  | @updated id dto today before updated _ h =>
    have hcard := @card_of_updated env db db' id today dto before updated k h
    split_ifs at hcard with hk
    · obtain rfl := Option.some.inj (hcard.symm.trans hc')
      subst hk
      refine .inl ⟨before, h.found, by rw [h.eq]; rfl, ?_⟩
      rcases hname : dto.name with _ | name
      · left
        rw [h.eq]
        simp [edited, hname]
      · refine .inr fun hproduct => ?_
        have htype : before.type = "product" := by rw [← hproduct, h.eq]; rfl
        have hnew : updated.name = name := by rw [h.eq]; simp [edited, hname]
        simp [named, h.accepted, Except.isOk, Except.toBool, h.found, htype, hname, hnew]
    · exact .inl (hkept hcard)
  | @approved id withDrafts card _ hcard h =>
    have hafter := @card_of_update db db' _ card.id k h.cards fun c => rfl
    by_cases hk : k = card.id
    · rw [if_pos hk, hk, card_id hcard, hcard, Option.map_some] at hafter
      rw [hk, card_id hcard] at hc' ⊢
      obtain rfl := Option.some.inj (hafter.symm.trans hc')
      refine .inl ⟨card, hcard, rfl, .inr fun hproduct => ?_⟩
      have htype : card.type = "product" := hproduct
      cases withDrafts <;> simp [named, hcard, htype, Card.overwrite]
    · rw [if_neg hk] at hafter
      exact .inl (hkept hafter)
  | @patched id field card d hdraft hcard =>
    have hafter := @card_of_update db (approveFieldTx db card d) _ card.id k rfl fun c => patch_id c card d
    by_cases hk : k = card.id
    · rw [if_pos hk, hk, card_id hcard, hcard, Option.map_some] at hafter
      rw [hk, card_id hcard] at hc' ⊢
      obtain rfl := Option.some.inj (hafter.symm.trans hc')
      have hsame : (card.patch card d).type = card.type := by
        unfold Card.patch
        split_ifs <;> rfl
      refine .inl ⟨card, hcard, hsame.symm, .inr fun hproduct => ?_⟩
      have htype : card.type = "product" := hsame ▸ hproduct
      simp [named, hdraft, hcard, htype]
    · rw [if_neg hk] at hafter
      exact .inl (hkept hafter)
  | @decided id row card _ hrow hasked hpending hcard hopen hcards =>
    have hafter := @card_of_update db db' _ card.id k hcards fun c => rfl
    by_cases hk : k = card.id
    · rw [if_pos hk, hk, hcard, Option.map_some] at hafter
      rw [hk] at hc' ⊢
      obtain rfl := Option.some.inj (hafter.symm.trans hc')
      refine .inl ⟨card, hcard, rfl, .inr fun hproduct => ?_⟩
      have htype : card.type = "product" := hproduct
      simp [named, hrow, hasked, hcard, hpending, hopen, htype, Card.overwrite]
    · rw [if_neg hk] at hafter
      exact .inl (hkept hafter)

theorem aliases_of_change (h : Change env db call db') : db'.aliases = db.aliases := by
  cases h with
  | quiet _ _ haliases => exact haliases
  | created _ _ _ _ _ _ _ haliases => exact haliases
  | updated h => exact h.aliases
  | approved _ h => exact h.aliases
  | patched => rfl
  | decided _ _ _ _ _ _ _ haliases => exact haliases

theorem ids_of_change (h : Change env db call db') (hdb : db.Numbered) (hnd : (db.cards.map Card.id).Nodup) :
    (db'.cards.map Card.id).Nodup := by
  cases h with
  | quiet hcards => rwa [hcards]
  | created _ hid _ _ _ hcards =>
    rw [hcards]
    exact Table.nodup_append_singleton hnd fun c hc => hid ▸ (hdb c hc).ne
  | updated h => rwa [h.cards, Table.map_key_write]
  | approved _ h => rwa [h.cards, Table.map_update Card.id fun c => overwrite_id c _]
  | @patched _ _ card d _ _ =>
    have hcards : (approveFieldTx db card d).cards =
        Table.update Card.id db.cards card.id fun c => c.patch card d := rfl
    rwa [hcards, Table.map_update Card.id fun c => patch_id c card d]
  | decided _ _ _ _ _ hcards => rwa [hcards, Table.map_update Card.id fun c => overwrite_id c _]

/-- No card goes, and none changes its type. -/
theorem types_of_change {k : ℕ} (h : Change env db call db') (hdb : db.Numbered) (hc : db.card k = some c) :
    ∃ c', db'.card k = some c' ∧ c'.type = c.type := by
  have hupdate {g : Card → Card} {i : ℕ} (hcards : db'.cards = Table.update Card.id db.cards i g)
      (hg : ∀ c, (g c).id = c.id) (ht : ∀ c, (g c).type = c.type) : ∃ c', db'.card k = some c' ∧ c'.type = c.type := by
    have hafter := @card_of_update db db' _ i k hcards hg
    split_ifs at hafter
    · exact ⟨g c, by rw [hafter, hc]; rfl, ht c⟩
    · exact ⟨c, hafter.trans hc, rfl⟩
  cases h with
  | quiet hcards =>
    refine ⟨c, ?_, rfl⟩
    unfold Db.card at hc ⊢
    rwa [hcards]
  | created _ hid _ _ _ hcards =>
    have hcard := @card_of_created db db' _ k hcards hid hdb
    have hne : k ≠ db.nextId := by
      rw [← card_id hc]
      exact (hdb c (Table.mem_of_lookup hc)).ne
    rw [hid, if_neg hne] at hcard
    exact ⟨c, hcard.trans hc, rfl⟩
  | @updated id dto today before updated _ h =>
    have hcard := @card_of_updated env db db' id today dto before updated k h
    split_ifs at hcard with hk
    · obtain rfl : c = before := Option.some.inj (hc.symm.trans (hk ▸ h.found))
      exact ⟨updated, hcard, by rw [h.eq]; rfl⟩
    · exact ⟨c, hcard.trans hc, rfl⟩
  | approved _ h => exact hupdate h.cards (fun c => rfl) fun c => rfl
  | @patched _ _ card d _ _ =>
    refine hupdate rfl (fun c => patch_id c card d) fun c => ?_
    unfold Card.patch
    split_ifs <;> rfl
  | decided _ _ _ _ _ hcards => exact hupdate hcards (fun c => rfl) fun c => rfl

theorem namesWF_of_change (h : Change env db call db') (wf : NamesWF db) : NamesWF db' := by
  refine ⟨h.numbered wf.numbered, ids_of_change h wf.numbered wf.ids, ?_⟩
  rw [aliases_of_change h]
  intro a ha
  obtain ⟨c, hc, htype⟩ := wf.target a ha
  obtain ⟨c', hc', hsame⟩ := types_of_change h wf.numbered hc
  exact ⟨c', hc', hsame.trans htype⟩

/-- A call that writes a free name leaves every name to one product. -/
theorem once_of_change (h : Change env db call db') (wf : NamesWF db) (honce : Once db)
    (hfree : ∀ id name, named env db call = some (id, name) → ∀ c ∈ db.cards, c.id ≠ id → belongs db c name = false) :
    Once db' := by
  have wf' := namesWF_of_change h wf
  have haliases := aliases_of_change h
  -- a product that has a name after the call had it before, or the call has written it
  have hback : ∀ c' ∈ db'.cards, ∀ name, belongs db' c' name = true →
      (∃ c ∈ db.cards, c.id = c'.id ∧ belongs db c name = true) ∨ named env db call = some (c'.id, name) := by
    intro c' hc' name hbelongs
    obtain ⟨htype, hname⟩ := belongs_iff.mp hbelongs
    rw [haliases] at hname
    rcases hname with hname | ⟨a, ha, hentity, hname⟩
    · rcases names_of_change h wf.numbered (card_of_mem wf' hc') with
        ⟨c, hc, hsame, hkept | hwritten⟩ | ⟨-, hwritten⟩
      · obtain ⟨hmem, hid⟩ := (card_iff wf).mp hc
        exact .inl ⟨c, hmem, hid, belongs_iff.mpr ⟨hsame.trans htype, .inl (hkept.trans hname)⟩⟩
      · exact .inr (hname ▸ hwritten htype)
      · exact .inr (hname ▸ hwritten htype)
    · obtain ⟨c, hc, hproduct⟩ := wf.target a ha
      obtain ⟨hmem, hid⟩ := (card_iff wf).mp hc
      exact .inl ⟨c, hmem, hid.trans hentity, belongs_iff.mpr ⟨hproduct, .inr ⟨a, ha, hid.symm, hname⟩⟩⟩
  intro c₁ hc₁ c₂ hc₂ name h₁ h₂
  by_contra hne
  rcases hback c₁ hc₁ name h₁ with ⟨b₁, hb₁, hid₁, hold₁⟩ | hwritten₁ <;>
    rcases hback c₂ hc₂ name h₂ with ⟨b₂, hb₂, hid₂, hold₂⟩ | hwritten₂
  · exact hne (hid₁ ▸ hid₂ ▸ honce b₁ hb₁ b₂ hb₂ name hold₁ hold₂)
  · exact Bool.eq_false_iff.mp (hfree _ _ hwritten₂ b₁ hb₁ (hid₁ ▸ hne)) hold₁
  · exact Bool.eq_false_iff.mp (hfree _ _ hwritten₁ b₂ hb₂ (hid₂ ▸ Ne.symm hne)) hold₂
  · exact hne (Prod.ext_iff.mp (Option.some.inj (hwritten₁.symm.trans hwritten₂))).1

theorem belongs_congr (hcards : c.type = "product" → ∀ a : ProductNameAlias, a.entityId = c.id → a.name = name →
    (a ∈ db'.aliases → a ∈ db.aliases)) (h : belongs db' c name = true) : belongs db c name = true := by
  obtain ⟨htype, hname⟩ := belongs_iff.mp h
  refine belongs_iff.mpr ⟨htype, hname.imp_right fun ⟨a, ha, hid, hn⟩ => ⟨a, hcards htype a hid hn ha, hid, hn⟩⟩

/-- What `addAlias` does: nothing, or one alias of a product with a name that no product has. -/
theorem addAlias_cases {entityId : ℕ} {row : ProductNameAlias} (h : addAlias db name entityId = .ok (row, db')) :
    db' = db ∨ ∃ card clean, db.card entityId = some card ∧ card.type = "product" ∧
      (∀ c ∈ db.cards, ¬ (c.name = clean ∧ c.type = "product")) ∧ (∀ a ∈ db.aliases, a.name ≠ clean) ∧
      db' = { db with aliases := db.aliases ++ [⟨db.nextId, entityId, clean⟩], nextId := db.nextId + 1 } := by
  obtain ⟨-, -, h⟩ := bind_eq_ok.mp h
  obtain ⟨card, hcard, h⟩ := bind_eq_ok.mp h
  obtain ⟨_, htype, h⟩ := bind_eq_ok.mp h
  obtain ⟨_, hshadow, h⟩ := bind_eq_ok.mp h
  split at h
  · next hnone =>
    obtain ⟨-, rfl⟩ := Prod.ext_iff.mp (Except.ok.inj h)
    exact .inr ⟨card, _, orThrow_eq_ok.mp hcard, require_eq_ok.mp htype, require_eq_ok.mp hshadow,
      Table.lookup_eq_none_iff.mp hnone, rfl⟩
  · obtain ⟨-, -, h⟩ := bind_eq_ok.mp h
    obtain ⟨-, rfl⟩ := Prod.ext_iff.mp (Except.ok.inj h)
    exact .inl rfl

theorem namesWF_of_cards (wf : NamesWF db) (hcards : db'.cards = db.cards) (hnext : db.nextId ≤ db'.nextId)
    (htarget : ∀ a ∈ db'.aliases, a ∈ db.aliases ∨ ∃ c, db.card a.entityId = some c ∧ c.type = "product") :
    NamesWF db' := by
  refine ⟨fun c hc => ?_, hcards ▸ wf.ids, fun a ha => ?_⟩
  · rw [hcards] at hc
    exact (wf.numbered c hc).trans_le hnext
  · unfold Db.card
    rw [hcards]
    exact (htarget a ha).elim (wf.target a) id

theorem serveName_keeps (wf : NamesWF db) (honce : Once db) {a : NameCall}
    (hfree : NameFree env ⟨db, a, serveName env db a⟩) : NamesWF (serveName env db a) ∧ Once (serveName env db a) := by
  cases a with
  | card call =>
    have hchange : Change env db call (serve env db call) := serve_change
    exact ⟨namesWF_of_change hchange wf, once_of_change hchange wf honce hfree⟩
  | addAlias name entityId =>
    unfold serveName
    dsimp only
    rcases hadd : addAlias db name entityId with e | ⟨row, db'⟩
    · exact ⟨wf, honce⟩
    · have hserved : committed db (Except.ok (row, db') : Except HttpError (ProductNameAlias × Db)) = db' := rfl
      rw [hserved]
      rcases addAlias_cases hadd with rfl | ⟨card, clean, hcard, htype, hshadow, hnone, rfl⟩
      · exact ⟨wf, honce⟩
      · refine ⟨namesWF_of_cards wf rfl (Nat.le_succ _) fun a ha => ?_, ?_⟩
        · rcases List.mem_append.mp ha with hold | hnew
          · exact .inl hold
          · rw [List.mem_singleton.mp hnew]
            exact .inr ⟨card, hcard, htype⟩
        · -- the new name is of no product by now, so whatever has it has the alias
          have hback : ∀ c ∈ db.cards, ∀ name, belongs { db with
              aliases := db.aliases ++ [⟨db.nextId, entityId, clean⟩], nextId := db.nextId + 1 } c name = true →
              belongs db c name = true ∨ c.id = entityId ∧ name = clean := by
            intro c hc name hbelongs
            obtain ⟨hproduct, hname | ⟨a, ha, hentity, hname⟩⟩ := belongs_iff.mp hbelongs
            · exact .inl (belongs_iff.mpr ⟨hproduct, .inl hname⟩)
            · rcases List.mem_append.mp ha with hold | hnew
              · exact .inl (belongs_iff.mpr ⟨hproduct, .inr ⟨a, hold, hentity, hname⟩⟩)
              · rw [List.mem_singleton.mp hnew] at hentity hname
                exact .inr ⟨hentity.symm, hname.symm⟩
          have hfresh : ∀ c ∈ db.cards, belongs db c clean = false := by
            intro c hc
            rw [Bool.eq_false_iff]
            intro hbelongs
            obtain ⟨hproduct, hname | ⟨a, ha, -, hname⟩⟩ := belongs_iff.mp hbelongs
            · exact hshadow c hc ⟨hname, hproduct⟩
            · exact hnone a ha hname
          intro c₁ hc₁ c₂ hc₂ name h₁ h₂
          rcases hback c₁ hc₁ name h₁ with hold₁ | ⟨hid₁, rfl⟩ <;>
            rcases hback c₂ hc₂ name h₂ with hold₂ | ⟨hid₂, hname₂⟩
          · exact honce c₁ hc₁ c₂ hc₂ name hold₁ hold₂
          · rw [hname₂, hfresh c₁ hc₁] at hold₁
            cases hold₁
          · rw [hfresh c₂ hc₂] at hold₂
            cases hold₂
          · rw [hid₁, hid₂]
  | removeAlias id =>
    unfold serveName
    dsimp only
    rcases hremove : removeAlias db id with e | db'
    · exact ⟨wf, honce⟩
    · have hserved : (Except.ok db' : Except HttpError Db).toOption.getD db = db' := rfl
      rw [hserved]
      obtain ⟨-, -, h⟩ := bind_eq_ok.mp hremove
      obtain rfl := Except.ok.inj h
      refine ⟨namesWF_of_cards wf rfl le_rfl fun a ha => .inl (List.mem_of_mem_filter ha), ?_⟩
      intro c₁ hc₁ c₂ hc₂ name h₁ h₂
      have hback : ∀ c, belongs { db with aliases := db.aliases.filter fun a => a.id ≠ id } c name = true →
          belongs db c name = true := fun c => belongs_congr fun _ a _ _ ha => List.mem_of_mem_filter ha
      exact honce c₁ hc₁ c₂ hc₂ name (hback c₁ h₁) (hback c₂ h₂)

/-! Runs. -/

/-- Every sale is counted once in a run that writes free names. -/
theorem countedOnce_of_run {db db' : Db} {steps : List (Step Db NameCall)}
    (hrun : Run (fun db a db' => db' = serveName env db a) db steps db') (wf : NamesWF db) (honce : Once db)
    (hfree : ∀ e ∈ steps, NameFree env e) : CountedOnce db' := by
  have hkept : NamesWF db' ∧ Once db' :=
    @Run.invariant_of _ _ _ db db' steps (fun db => NamesWF db ∧ Once db) (NameFree env)
      (fun db a db' hkept hnext hfree => by
        subst hnext
        exact serveName_keeps hkept.1 hkept.2 hfree) hrun ⟨wf, honce⟩ hfree
  exact countedOnce_of_once hkept.1 hkept.2

/-! Coffee, sold under two names. -/

def nameEnv : Env := ⟨cardHost, fun _ => ""⟩

def newCard (name : String) : NameCall := .card (.create ⟨"product", name, none, none, none⟩ "owner")

/-- Two products, and an alias of the first. -/
def twoProducts : List NameCall := [newCard "Кофе", newCard "Чай", .addAlias " Latte " 0]

theorem namesWF_noCards : NamesWF noCards := ⟨List.forall_mem_nil _, List.nodup_nil, List.forall_mem_nil _⟩

theorem countedOnce_twoProducts :
    CountedOnce (runActions (serveName nameEnv) noCards
      (twoProducts ++ [.card (.update 2 ⟨some "Зелёный чай", none, none⟩ 0)])).2 :=
  countedOnce_of_run (run_runActions (serveName nameEnv) noCards _) namesWF_noCards (List.forall_mem_nil _)
    (by decide +kernel)

/-- A product takes the name that is an alias of another. -/
theorem counted_twice : ¬ ∀ (env : Env) (steps : List (Step Db NameCall)) (db' : Db),
    Run (fun db a db' => db' = serveName env db a) noCards steps db' → CountedOnce db' := by
  intro h
  let calls := twoProducts ++ [.card (.update 2 ⟨some "Latte", none, none⟩ 0)]
  let renamed := runActions (serveName nameEnv) noCards calls
  have honce := (h nameEnv _ _ (run_runActions (serveName nameEnv) noCards calls)).once
  have hshared : ∃ c ∈ renamed.2.cards, ∃ c' ∈ renamed.2.cards, belongs renamed.2 c "Latte" = true ∧
      belongs renamed.2 c' "Latte" = true ∧ c.id ≠ c'.id := by
    decide +kernel
  obtain ⟨c, hc, c', hc', hbelongs, hbelongs', hne⟩ := hshared
  exact hne (honce c hc c' hc' "Latte" hbelongs hbelongs')

end Mydon.Sales
