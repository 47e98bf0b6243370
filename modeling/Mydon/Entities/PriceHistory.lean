import Mydon.Entities.MapPoint
import Mydon.Lib.Segments

/-! The prices that a card has had. An edit that replaces a price adds the old one to the history beside it; approvals
write prices, and histories, as any other field. -/

namespace Mydon.Entities

open Mydon.Lib Mydon.Js

/-- The two prices of a card, each with its history. -/
inductive PriceField
  | sale
  | purchase
  deriving DecidableEq

def PriceField.priceKey : PriceField → String
  | sale => "цена"
  | purchase => "цена покупки"

def PriceField.historyKey : PriceField → String
  | sale => "история цен"
  | purchase => "история цены покупки"

def priceIn (env : Env) (f : PriceField) (attrs : Attrs) : Option ℚ :=
  priceNum env.host (OrderedMap.get attrs f.priceKey)

def historyIn (f : PriceField) (attrs : Attrs) : List Char :=
  match OrderedMap.get attrs f.historyKey with
  | some (.str text) => text.toList
  | _ => []

def priceAt (env : Env) (f : PriceField) (id : ℕ) (db : Db) : Option ℚ :=
  (db.card id).bind fun c => priceIn env f c.attrs

def historyAt (f : PriceField) (id : ℕ) (db : Db) : List Char := ((db.card id).map fun c => historyIn f c.attrs).getD []

/-- The last number that the price was, from the start of a run to its end. -/
def lastPrice (env : Env) (f : PriceField) (id : ℕ) (db : Db) (steps : List (Step Db CardCall)) : Option ℚ :=
  ((db :: steps.map Step.after).filterMap (priceAt env f id)).getLast?

/-- The number that is replaced by another. -/
def replaced (env : Env) (f : PriceField) (old new : Attrs) : Option ℚ :=
  match priceIn env f old, priceIn env f new with
  | some oldPrice, some newPrice => if oldPrice = newPrice then none else some oldPrice
  | _, _ => none

/-- The attributes that a call is to write on a card. -/
def requested (env : Env) (db : Db) (id : ℕ) : CardCall → Option Attrs
  | .update i dto today => if i = id ∧ (update env today db i dto).isOk then dto.attrs else none
  | .approve i withDrafts =>
    if i = id then
      (db.card id).map fun card => (applyDrafts card.name card.attrs (if withDrafts then db.draftsOf id else [])).2
    else none
  | call => (unsynced db call).bind fun u => if u.1 = id then some u.2 else none

/-- The entry that a step adds to a history. -/
def written (env : Env) (f : PriceField) (id : ℕ) (e : Step Db CardCall) : List String :=
  match e.action with
  | .update _ _ today =>
    match e.before.card id, requested env e.before id e.action with
    | some c, some new => ((replaced env f c.attrs new).map fun price => priceEntry env price today).toList
    | _, _ => []
  | _ => []

def CardCall.edits : CardCall → Bool
  | .update .. => true
  | _ => false

/-- No price is lost: a step that leaves another number than the last one leaves an entry with the last one, and the
entries that the steps have added are all there, in order. -/
structure HistoryLaw (env : Env) (f : PriceField) (id : ℕ) (db : Db) (steps : List (Step Db CardCall)) (db' : Db) :
    Prop where
  recorded : ∀ earlier e later, steps = earlier ++ e :: later → ∀ last price,
    lastPrice env f id db earlier = some last → priceAt env f id e.after = some price → price ≠ last →
    ∃ today, (priceEntry env last today).toList <:+: historyAt f id e.after
  kept : OccurInOrder ((steps.flatMap (written env f id)).map String.toList) (historyAt f id db')

/-- What is written on the card either is an edit of one number to another, or has no other number than the last one,
and the history that is there. -/
def PricesKept (env : Env) (f : PriceField) (id : ℕ) (db : Db) (steps : List (Step Db CardCall)) : Prop :=
  ∀ earlier e later, steps = earlier ++ e :: later → ∀ c new, e.before.card id = some c →
    requested env e.before id e.action = some new →
    (e.action.edits = true ∧ (replaced env f c.attrs new).isSome = true) ∨
      ((∀ price last, priceIn env f new = some price → lastPrice env f id db earlier = some last → price = last) ∧
        historyIn f c.attrs <:+: historyIn f new)

/-- The caller of an edit carries the histories as they are on the card. -/
def CarriesHistory (e : Step Db CardCall) : Prop :=
  ∀ id dto today new c, e.action = .update id dto today → dto.attrs = some new → e.before.card id = some c →
    ∀ f, historyIn f new = historyIn f c.attrs

variable {env : Env} {f : PriceField} {db db' : Db} {call : CardCall} {id : ℕ} {today : ℤ} {old new : Attrs}
  {steps : List (Step Db CardCall)}

/-! The attributes that an edit writes. -/

theorem appendPriceHistory_eq (f : PriceField) :
    appendPriceHistory env today old new f.priceKey f.historyKey =
      match replaced env f old new with
      | some price =>
        OrderedMap.set f.historyKey
          (.str (historySoFar (OrderedMap.get old f.historyKey) ++ priceEntry env price today)) new
      | none => new := by
  unfold appendPriceHistory replaced priceIn
  rcases priceNum env.host (OrderedMap.get old f.priceKey) with _ | oldPrice
  · rfl
  · rcases priceNum env.host (OrderedMap.get new f.priceKey) with _ | newPrice
    · rfl
    · dsimp only
      split_ifs <;> rfl

theorem get_appendPriceHistory {key : String} (hkey : key ≠ f.historyKey) :
    OrderedMap.get (appendPriceHistory env today old new f.priceKey f.historyKey) key = OrderedMap.get new key := by
  rw [appendPriceHistory_eq]
  split
  · rw [OrderedMap.get_set, if_neg (Ne.symm hkey)]
  · rfl

theorem editedAttrs_eq : editedAttrs env today old new =
    appendPriceHistory env today old
      (appendPriceHistory env today old new PriceField.sale.priceKey PriceField.sale.historyKey)
      PriceField.purchase.priceKey PriceField.purchase.historyKey := rfl

theorem priceIn_editedAttrs : priceIn env f (editedAttrs env today old new) = priceIn env f new := by
  unfold priceIn
  rw [editedAttrs_eq, get_appendPriceHistory (by cases f <;> decide), get_appendPriceHistory (by cases f <;> decide)]

/-- The history of an edit: the old one and the replaced price, or the one that the edit was given. -/
theorem historyIn_editedAttrs : historyIn f (editedAttrs env today old new) =
    match replaced env f old new with
    | some price => (historySoFar (OrderedMap.get old f.historyKey) ++ priceEntry env price today).toList
    | none => historyIn f new := by
  unfold historyIn
  rw [editedAttrs_eq]
  cases f with
  | sale =>
    rw [get_appendPriceHistory (by decide), appendPriceHistory_eq]
    rcases replaced env .sale old new with _ | price
    · rfl
    · dsimp only
      rw [OrderedMap.get_set, if_pos rfl]
  | purchase =>
    have hreplaced : replaced env .purchase old
        (appendPriceHistory env today old new PriceField.sale.priceKey PriceField.sale.historyKey) =
        replaced env .purchase old new := by
      unfold replaced priceIn
      rw [@get_appendPriceHistory env .sale today old new _ (by decide)]
    rw [appendPriceHistory_eq, hreplaced]
    rcases replaced env .purchase old new with _ | price
    · dsimp only
      rw [get_appendPriceHistory (by decide)]
    · dsimp only
      rw [OrderedMap.get_set, if_pos rfl]

theorem historySoFar_eq (attrs : Attrs) :
    historyIn f attrs <:+: (historySoFar (OrderedMap.get attrs f.historyKey)).toList := by
  unfold historyIn historySoFar
  rcases OrderedMap.get attrs f.historyKey with _ | value
  · exact List.nil_infix
  · cases value with
    | str text =>
      dsimp only
      split_ifs with htext
      · rw [htext]
      · rw [String.toList_append]
        exact (List.prefix_append _ _).isInfix
    | _ => exact List.nil_infix

/-! One step. -/

/-- What a step leaves of the attributes of a card that was there. -/
structure StepAttrs (env : Env) (db : Db) (call : CardCall) (id : ℕ) (c c' : Card) : Prop where
  cases : (c'.attrs = c.attrs ∧ ∀ f, written env f id ⟨db, call, serve env db call⟩ = []) ∨
    ∃ new, requested env db id call = some new ∧
      ((call.edits = false ∧ c'.attrs = new ∧ ∀ f, written env f id ⟨db, call, serve env db call⟩ = []) ∨
        call.edits = true ∧ ∃ today, c'.attrs = editedAttrs env today c.attrs new ∧
          ∀ f, written env f id ⟨db, call, serve env db call⟩ =
            ((replaced env f c.attrs new).map fun price => priceEntry env price today).toList)

theorem written_of_not_edits {e : Step Db CardCall} (h : e.action.edits = false) : written env f id e = [] := by
  unfold written
  split
  · next haction =>
    rw [haction] at h
    cases h
  · rfl

/-- A call other than an edit writes what it is asked to write. -/
theorem Change.attrs {c : Card} (h : Change env db call db') (hdb : db.Numbered) (hedits : call.edits = false)
    (hc : db.card id = some c) :
    ∃ c', db'.card id = some c' ∧ (c'.attrs = c.attrs ∨ requested env db id call = some c'.attrs) := by
  cases h with
  | quiet hcards =>
    refine ⟨c, ?_, .inl rfl⟩
    unfold Db.card at hc ⊢
    rwa [hcards]
  | created _ hid _ _ _ hcards =>
    have hcard := @card_of_created db db' _ id hcards hid hdb
    have hne : id ≠ db.nextId := by
      rw [← card_id hc]
      exact (hdb c (Table.mem_of_lookup hc)).ne
    rw [hid, if_neg hne] at hcard
    exact ⟨c, hcard.trans hc, .inl rfl⟩
  | updated => cases hedits
  | @approved i withDrafts card _ hcard h =>
    have hafter := @card_of_update db db' _ card.id id h.cards fun c => rfl
    by_cases hid : id = card.id
    · rw [if_pos hid, hc, Option.map_some] at hafter
      refine ⟨_, hafter, .inr ?_⟩
      obtain rfl : id = i := by rw [hid, card_id hcard]
      rw [requested, if_pos rfl, hcard]
      cases withDrafts <;> rfl
    · rw [if_neg hid] at hafter
      exact ⟨c, hafter.trans hc, .inl rfl⟩
  | @patched i field card d hdraft hcard =>
    have hafter := @card_of_update db (approveFieldTx db card d) _ card.id id rfl fun c => patch_id c card d
    by_cases hid : id = card.id
    · rw [if_pos hid, hc, Option.map_some] at hafter
      refine ⟨_, hafter, .inr ?_⟩
      obtain rfl : id = i := by rw [hid, card_id hcard]
      obtain rfl : c = card := Option.some.inj (hc.symm.trans hcard)
      simp [requested, unsynced, hdraft, hcard, ← hid]
    · rw [if_neg hid] at hafter
      exact ⟨c, hafter.trans hc, .inl rfl⟩
  | @decided i row card _ hrow hasked hpending hcard hopen hcards =>
    have hafter := @card_of_update db db' _ card.id id hcards fun c => rfl
    by_cases hid : id = card.id
    · rw [if_pos hid, hc, Option.map_some] at hafter
      refine ⟨_, hafter, .inr ?_⟩
      simp [requested, unsynced, hrow, hasked, hcard, hpending, hopen, Card.overwrite, hid]
    · rw [if_neg hid] at hafter
      exact ⟨c, hafter.trans hc, .inl rfl⟩

theorem serve_update_attrs {i : ℕ} {dto : UpdateEntityDto} {c : Card} (hc : db.card id = some c) :
    ∃ c', (serve env db (.update i dto today)).card id = some c' ∧ StepAttrs env db (.update i dto today) id c c' := by
  have hserve : serve env db (.update i dto today) = committed db (update env today db i dto) := rfl
  rcases hupdate : update env today db i dto with e | ⟨updated, db'⟩
  · rw [hserve, hupdate]
    refine ⟨c, hc, ⟨.inl ⟨rfl, fun f => ?_⟩⟩⟩
    simp [written, requested, hupdate, Except.isOk, Except.toBool, hc]
  · rw [hserve, hupdate]
    obtain ⟨before, h⟩ := update_eq_ok hupdate
    have hcard := @card_of_updated env db db' i today dto before updated id h
    by_cases hid : id = i
    · rw [if_pos hid] at hcard
      obtain rfl : c = before := Option.some.inj (hc.symm.trans (hid ▸ h.found))
      refine ⟨updated, hcard, ⟨?_⟩⟩
      rcases hattrs : dto.attrs with _ | new
      · refine .inl ⟨?_, fun f => ?_⟩
        · rw [h.eq]
          simp [edited, hattrs]
        · simp [written, requested, hupdate, Except.isOk, Except.toBool, hid, hattrs]
      · have hrequested : requested env db id (.update i dto today) = some new := by
          simp [requested, hupdate, Except.isOk, Except.toBool, hid, hattrs]
        refine .inr ⟨new, hrequested, .inr ⟨rfl, today, ?_, fun f => ?_⟩⟩
        · rw [h.eq]
          simp [edited, hattrs]
        · simp [written, hrequested, hc]
    · rw [if_neg hid] at hcard
      refine ⟨c, hcard.trans hc, ⟨.inl ⟨rfl, fun f => ?_⟩⟩⟩
      simp [written, requested, Ne.symm hid, hc]

theorem serve_attrs {c : Card} (hdb : db.Numbered) (hc : db.card id = some c) :
    ∃ c', (serve env db call).card id = some c' ∧ StepAttrs env db call id c c' := by
  rcases hedits : call.edits with _ | _
  · obtain ⟨c', hc', hattrs⟩ := (@serve_change env db call).attrs hdb hedits hc
    have hwritten : ∀ f, written env f id ⟨db, call, serve env db call⟩ = [] := fun f => written_of_not_edits hedits
    refine ⟨c', hc', ⟨?_⟩⟩
    rcases hattrs with hsame | hrequested
    · exact .inl ⟨hsame, hwritten⟩
    · exact .inr ⟨_, hrequested, .inl ⟨hedits, rfl, hwritten⟩⟩
  · cases call with
    | update i dto today => exact serve_update_attrs hc
    | create | propose | approve | approveField | rejectField | decide => cases hedits

/-! Runs. -/

theorem lastPrice_append {e : Step Db CardCall} :
    lastPrice env f id db (steps ++ [e]) = (priceAt env f id e.after).or (lastPrice env f id db steps) := by
  unfold lastPrice
  rw [List.map_append, ← List.cons_append, List.filterMap_append, List.getLast?_append, List.map_singleton]
  rcases hprice : priceAt env f id e.after with _ | price <;> simp [hprice]

/-- Where a run has come to: its last price, and the entries it has written. -/
structure Tracked (env : Env) (f : PriceField) (id : ℕ) (db : Db) (steps : List (Step Db CardCall)) (db' : Db) :
    Prop where
  current : ∀ price, priceAt env f id db' = some price → lastPrice env f id db steps = some price
  absent : db'.card id = none → lastPrice env f id db steps = none ∧ steps.flatMap (written env f id) = []
  law : HistoryLaw env f id db steps db'

theorem tracked_start : Tracked env f id db [] db := by
  refine ⟨fun price hprice => ?_, fun hnone => ⟨?_, rfl⟩, ⟨fun earlier e later h => ?_, trivial⟩⟩
  · simp [lastPrice, hprice]
  · simp [lastPrice, priceAt, hnone]
  · simp at h

theorem priceAt_of_card {c : Card} (hc : db.card id = some c) : priceAt env f id db = priceIn env f c.attrs := by
  unfold priceAt
  rw [hc, Option.bind_some]

theorem historyAt_of_card {c : Card} (hc : db.card id = some c) : historyAt f id db = historyIn f c.attrs := by
  unfold historyAt
  rw [hc]
  rfl

/-- The entry that a history ends with. -/
theorem historyIn_of_replaced {price : ℚ} (h : replaced env f old new = some price) :
    historyIn f (editedAttrs env today old new) =
      (historySoFar (OrderedMap.get old f.historyKey)).toList ++ (priceEntry env price today).toList := by
  rw [historyIn_editedAttrs, h]
  exact String.toList_append

theorem priceIn_of_replaced {price : ℚ} (h : replaced env f old new = some price) : priceIn env f old = some price := by
  unfold replaced at h
  split at h
  · next hold _ =>
    split_ifs at h
    rw [hold, h]
  · cases h

variable {s s' : Db} {a : CardCall}

theorem tracked_recorded (htracked : Tracked env f id s steps s') (hdb : s'.Numbered)
    (hkept : PricesKept env f id s (steps ++ [⟨s', a, serve env s' a⟩])) {last price : ℚ}
    (hlast : lastPrice env f id s steps = some last) (hprice : priceAt env f id (serve env s' a) = some price)
    (hne : price ≠ last) : ∃ today, (priceEntry env last today).toList <:+: historyAt f id (serve env s' a) := by
  rcases hc : s'.card id with _ | c
  · rw [(htracked.absent hc).1] at hlast
    cases hlast
  · obtain ⟨c', hc', hattrs⟩ := @serve_attrs env s' a id c hdb hc
    rw [priceAt_of_card hc'] at hprice
    rw [historyAt_of_card hc']
    have hcurrent : ∀ price, priceIn env f c.attrs = some price → price = last := fun price h =>
      Option.some.inj ((htracked.current price ((priceAt_of_card hc).trans h)).symm.trans hlast)
    rcases hattrs.cases with ⟨hsame, -⟩ | ⟨new, hrequested, hwrite⟩
    · rw [hsame] at hprice
      exact absurd (hcurrent price hprice) hne
    · have hnew : priceIn env f new = some price := by
        rcases hwrite with ⟨-, hattrs, -⟩ | ⟨-, today, hattrs, -⟩
        · rwa [hattrs] at hprice
        · rwa [hattrs, priceIn_editedAttrs] at hprice
      rcases hkept steps _ [] rfl c new hc hrequested with ⟨hedits, hreplaced⟩ | ⟨hsame, -⟩
      · rcases hwrite with ⟨hno, -⟩ | ⟨-, today, hattrs, -⟩
        · exact absurd (hedits.symm.trans hno) (by decide)
        · obtain ⟨old, hold⟩ := Option.isSome_iff_exists.mp hreplaced
          obtain rfl := hcurrent old (priceIn_of_replaced hold)
          refine ⟨today, ?_⟩
          rw [hattrs, historyIn_of_replaced hold]
          exact (List.suffix_append _ _).isInfix
      · exact absurd (hsame price last hnew hlast) hne

theorem tracked_kept (htracked : Tracked env f id s steps s') (hdb : s'.Numbered)
    (hkept : PricesKept env f id s (steps ++ [⟨s', a, serve env s' a⟩])) :
    OccurInOrder ((List.flatMap (written env f id) (steps ++ [⟨s', a, serve env s' a⟩])).map String.toList)
      (historyAt f id (serve env s' a)) := by
  rw [List.flatMap_append, List.flatMap_singleton, List.map_append]
  rcases hc : s'.card id with _ | c
  · have hnone : written env f id ⟨s', a, serve env s' a⟩ = [] := by
      unfold written
      split
      · rw [hc]
      · rfl
    rw [(htracked.absent hc).2, hnone]
    trivial
  · obtain ⟨c', hc', hattrs⟩ := @serve_attrs env s' a id c hdb hc
    have hbefore := htracked.law.kept
    rw [historyAt_of_card hc] at hbefore
    rw [historyAt_of_card hc']
    rcases hattrs.cases with ⟨hsame, hwritten⟩ | ⟨new, hrequested, hwrite⟩
    · rw [hwritten f, hsame, List.map_nil, List.append_nil]
      exact hbefore
    · have hcond := hkept steps _ [] rfl c new hc hrequested
      rcases hwrite with ⟨hno, hattrs, hwritten⟩ | ⟨-, today, hattrs, hwritten⟩
      · rcases hcond with ⟨hedits, -⟩ | ⟨-, hinfix⟩
        · exact absurd (hedits.symm.trans hno) (by decide)
        · rw [hwritten f, hattrs, List.map_nil, List.append_nil]
          exact hbefore.of_infix hinfix
      · rw [hwritten f, hattrs]
        rcases hreplaced : replaced env f c.attrs new with _ | price
        · rcases hcond with ⟨-, hsome⟩ | ⟨-, hinfix⟩
          · rw [hreplaced] at hsome
            cases hsome
          · rw [historyIn_editedAttrs, hreplaced]
            simpa using hbefore.of_infix hinfix
        · rw [historyIn_of_replaced hreplaced]
          exact (hbefore.of_infix (historySoFar_eq c.attrs)).append (.singleton _)

theorem tracked_step (htracked : Tracked env f id s steps s') (hdb : s'.Numbered)
    (hkept : PricesKept env f id s (steps ++ [⟨s', a, serve env s' a⟩])) :
    Tracked env f id s (steps ++ [⟨s', a, serve env s' a⟩]) (serve env s' a) := by
  refine ⟨fun price hprice => ?_, fun hnone => ?_, ⟨?_, tracked_kept htracked hdb hkept⟩⟩
  · rw [lastPrice_append, hprice]
    rfl
  · have hbefore : s'.card id = none := by
      rcases hc : s'.card id with _ | c
      · rfl
      · obtain ⟨c', hc', -⟩ := @serve_attrs env s' a id c hdb hc
        rw [hnone] at hc'
        cases hc'
    obtain ⟨hlast, hwritten⟩ := htracked.absent hbefore
    constructor
    · rw [lastPrice_append, hlast]
      simp [priceAt, hnone]
    · rw [List.flatMap_append, hwritten, List.flatMap_singleton]
      unfold written
      split
      · rw [hbefore]
        rfl
      · rfl
  · intro earlier e later hsplit last price hlast hprice hne
    rcases List.eq_nil_or_concat later with rfl | ⟨later, e', rfl⟩
    · obtain ⟨rfl, rfl⟩ := List.append_singleton_inj.mp hsplit
      exact tracked_recorded htracked hdb hkept hlast hprice hne
    · rw [List.concat_eq_append, ← List.cons_append, ← List.append_assoc] at hsplit
      obtain ⟨rfl, -⟩ := List.append_singleton_inj.mp hsplit
      exact htracked.law.recorded earlier e later rfl last price hlast hprice hne

/-- No price is lost in a run that writes prices by edits from one number to another, and leaves the history be. -/
theorem historyLaw_of_run (hrun : Run (fun db call db' => db' = serve env db call) s steps s') (hdb : s.Numbered)
    (hkept : PricesKept env f id s steps) : HistoryLaw env f id s steps s' := by
  suffices htracked : Tracked env f id s steps s' from htracked.law
  induction hrun with
  | start => exact tracked_start
  | @step steps s' s'' a hrun hnext ih =>
    obtain rfl : s'' = serve env s' a := hnext
    refine tracked_step (ih fun earlier e later hsplit => ?_) (run_numbered hrun hdb) hkept
    exact hkept earlier e (later ++ [⟨s', a, serve env s' a⟩]) (by rw [hsplit, List.append_assoc, List.cons_append])

/-! A product that gets dearer. -/

def newProduct : CardCall := .create ⟨"product", "Кофе", none, some [("цена", .num 10)], none⟩ "owner"

def dearer : CardCall := .update 0 ⟨none, none, some [("цена", .num 20)]⟩ 0

theorem historyLaw_edited :
    HistoryLaw mapEnv .sale 0 noCards (runActions (serve mapEnv) noCards [newProduct, dearer]).1
      (runActions (serve mapEnv) noCards [newProduct, dearer]).2 := by
  refine historyLaw_of_run (run_runActions (serve mapEnv) noCards _) (List.forall_mem_nil _) ?_
  rintro (_ | ⟨x, _ | ⟨y, earlier⟩⟩) e later hsplit c new hc hrequested
  · obtain ⟨rfl, -⟩ := List.cons.inj hsplit
    cases hc
  · obtain ⟨-, hsplit⟩ := List.cons.inj hsplit
    obtain ⟨rfl, -⟩ := List.cons.inj hsplit
    have hreplaced : ((serve mapEnv noCards newProduct).card 0).bind (fun c =>
        (requested mapEnv (serve mapEnv noCards newProduct) 0 dearer).map fun new =>
          (replaced mapEnv .sale c.attrs new).isSome) = some true := by
      decide +kernel
    rw [hc, Option.bind_some, hrequested] at hreplaced
    exact .inl ⟨rfl, Option.some.inj hreplaced⟩
  · obtain ⟨-, hsplit⟩ := List.cons.inj hsplit
    obtain ⟨-, hsplit⟩ := List.cons.inj hsplit
    cases earlier <;> cases hsplit

theorem priceEntry_ne_nil (env : Env) (price : ℚ) (today : ℤ) : (priceEntry env price today).toList ≠ [] := by
  simp only [priceEntry, ne_eq, String.toList_eq_nil_iff, String.append_eq_empty_iff, not_and]
  exact fun _ => by decide

/-- A price is approved by itself, and the one that it replaces is nowhere. -/
theorem price_lost : ¬ ∀ (env : Env) (f : PriceField) (id : ℕ) (steps : List (Step Db CardCall)) (db' : Db),
    Run (fun db call db' => db' = serve env db call) noCards steps db' → (∀ e ∈ steps, CarriesHistory e) →
      HistoryLaw env f id noCards steps db' := by
  intro h
  let early := runActions (serve mapEnv) noCards [newProduct, .propose ⟨0, "цена", "42"⟩]
  let late := serve mapEnv early.2 (.approveField 0 "цена")
  have hrun : Run (fun db call db' => db' = serve mapEnv db call) noCards (early.1 ++ [⟨early.2, _, late⟩]) late :=
    (run_runActions (serve mapEnv) noCards _).step rfl
  have hcarries : ∀ e ∈ early.1 ++ [⟨early.2, .approveField 0 "цена", late⟩], CarriesHistory e := by
    have hcalls : ∀ e ∈ early.1 ++ [⟨early.2, .approveField 0 "цена", late⟩], e.action.edits = false := by
      refine List.forall_mem_append.mpr ⟨fun e he => ?_, List.forall_mem_singleton.mpr rfl⟩
      have hmem := action_mem_of_runActions he
      simp only [List.mem_cons, List.not_mem_nil, or_false] at hmem
      rcases hmem with hmem | hmem <;> rw [hmem] <;> rfl
    intro e he id dto today new c haction
    have := hcalls e he
    rw [haction] at this
    cases this
  have hlast : lastPrice mapEnv .sale 0 noCards early.1 = some 10 := by decide +kernel
  have hprice : priceAt mapEnv .sale 0 late = some 42 := by decide +kernel
  have hhistory : historyAt .sale 0 late = [] := by decide +kernel
  obtain ⟨today, hentry⟩ :=
    (h mapEnv .sale 0 _ _ hrun hcarries).recorded early.1 _ [] rfl 10 42 hlast hprice (by decide)
  rw [hhistory] at hentry
  exact priceEntry_ne_nil _ _ _ (List.infix_nil.mp hentry)

end Mydon.Entities
