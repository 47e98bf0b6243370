import Mydon.Lib.OrderedMap
import Mydon.Lib.Run
import Mathlib.Algebra.Order.Ring.Int

/-! The cache of the report views: ready reports for a while, and one computation a key. `get` is
two sections with an await between them, so a `clear` or another computation may come in the middle. -/

namespace Mydon.Vending

open Mydon.Lib

variable {K V : Type*} [DecidableEq K]

/-- A ready report. The number of the computation that made it is for the statements, the code keeps none. -/
structure ReadyReport (V : Type*) where
  readyAt : ℤ
  report : V
  source : ℕ
  deriving DecidableEq

/-- The promises in flight are the numbers of their computations. -/
structure ReportCache (K V : Type*) where
  ready : List (K × ReadyReport V)
  inFlight : List (K × ℕ)
  generation : ℕ
  deriving DecidableEq

/-- What a `get` goes on with when its first section ends. -/
inductive GetAnswer (V : Type*)
  | ready (entry : ReadyReport V)
  | joined (work : ℕ)
  | started (work : ℕ)
  deriving DecidableEq

def GetAnswer.source : GetAnswer V → ℕ
  | .ready entry => entry.source
  | .joined work => work
  | .started work => work

inductive WorkOutcome (V : Type*)
  | report (report : V)
  | failed
  deriving DecidableEq

namespace ReportCache

def clear (cache : ReportCache K V) : ReportCache K V := ⟨[], [], cache.generation + 1⟩

/-- The loop over the ceiling: the entry asked for the longest time ago is the first one. -/
def evictOldest (maxEntries : ℤ) : List (K × ReadyReport V) → List (K × ReadyReport V)
  | [] => []
  | entry :: rest => if maxEntries ≤ (entry :: rest).length then evictOldest maxEntries rest else entry :: rest

/-- `выселить`: the expired entries, then those over the ceiling. -/
def evict (ttlMs maxEntries now : ℤ) (ready : List (K × ReadyReport V)) : List (K × ReadyReport V) :=
  evictOldest maxEntries (ready.filter fun entry => ¬ entry.2.readyAt ≤ now - ttlMs)

/-- The section of `get` before its await. A callback that throws at once leaves nothing in flight. -/
def get (ttlMs now : ℤ) (key : K) (work : ℕ) (throws : Bool) (cache : ReportCache K V) :
    ReportCache K V × GetAnswer V :=
  match (OrderedMap.get cache.ready key).filter fun entry => now - entry.readyAt < ttlMs with
  | some entry => ({ cache with ready := OrderedMap.set key entry (OrderedMap.delete key cache.ready) }, .ready entry)
  | none =>
    match OrderedMap.get cache.inFlight key with
    | some work => (cache, .joined work)
    | none =>
      if throws then (cache, .started work)
      else ({ cache with inFlight := OrderedMap.set key work cache.inFlight }, .started work)

/-- The report is put where no `clear` came since the computation started. -/
def store (ttlMs maxEntries checkedAt storedAt : ℤ) (key : K) (generation work : ℕ) (cache : ReportCache K V) :
    WorkOutcome V → ReportCache K V
  | .failed => cache
  | .report report =>
    if generation = cache.generation then
      { cache with ready := OrderedMap.set key ⟨storedAt, report, work⟩ (evict ttlMs maxEntries checkedAt cache.ready) }
    else cache

/-- `finally`: only its own entry, another computation of the key may be in flight. -/
def release (key : K) (work : ℕ) (cache : ReportCache K V) : ReportCache K V :=
  if OrderedMap.get cache.inFlight key = some work then
    { cache with inFlight := OrderedMap.delete key cache.inFlight }
  else cache

end ReportCache

/-! The cache among its callers. -/

/-- A computation with the generation its owner captured; the number of clears is for the statements. -/
structure Work (K V : Type*) where
  key : K
  generation : ℕ
  clears : ℕ
  finished : Option (WorkOutcome V × ℤ)
  deriving DecidableEq

structure GetCall (K V : Type*) where
  key : K
  calledAt : ℤ
  clears : ℕ
  answer : GetAnswer V
  deriving DecidableEq

structure CacheWorld (K V : Type*) where
  cache : ReportCache K V
  works : List (Work K V)
  gets : List (GetCall K V)
  clears : ℕ
  clock : ℤ
  deriving DecidableEq

/-- The sections between the awaits. `resume` follows the await of the owner of a computation: its two
moments are the readings of the clock that evict and that stamp the entry. -/
inductive CacheAction (K V : Type*)
  | get (key : K) (now : ℤ) (throws : Bool)
  | resume (work : ℕ) (outcome : WorkOutcome V) (checkedAt storedAt : ℤ)
  | clear
  deriving DecidableEq

namespace CacheWorld

def start (clock : ℤ) : CacheWorld K V := ⟨⟨[], [], 0⟩, [], [], 0, clock⟩

def newWork (w : CacheWorld K V) (key : K) (now : ℤ) (throws : Bool) : Work K V :=
  ⟨key, w.cache.generation, w.clears, if throws then some (.failed, now) else none⟩

def get (ttlMs now : ℤ) (key : K) (throws : Bool) (w : CacheWorld K V) : CacheWorld K V :=
  let (cache, answer) := w.cache.get ttlMs now key w.works.length throws
  { w with
    cache
    works := match answer with
      | .started _ => w.works ++ [w.newWork key now throws]
      | _ => w.works
    gets := w.gets ++ [⟨key, now, w.clears, answer⟩]
    clock := now }

def resume (ttlMs maxEntries : ℤ) (work : ℕ) (outcome : WorkOutcome V) (checkedAt storedAt : ℤ) (owned : Work K V)
    (w : CacheWorld K V) : CacheWorld K V :=
  { w with
    cache := (w.cache.store ttlMs maxEntries checkedAt storedAt owned.key owned.generation work outcome).release
      owned.key work
    works := w.works.set work { owned with finished := some (outcome, storedAt) }
    clock := storedAt }

def clear (w : CacheWorld K V) : CacheWorld K V := { w with cache := w.cache.clear, clears := w.clears + 1 }

/-- A section runs at a clock that has not gone back, and an await is left once. -/
def step (ttlMs maxEntries : ℤ) (w : CacheWorld K V) : CacheAction K V → Option (CacheWorld K V)
  | .get key now throws => if w.clock ≤ now then some (w.get ttlMs now key throws) else none
  | .resume work outcome checkedAt storedAt =>
    if w.clock ≤ checkedAt ∧ checkedAt ≤ storedAt then
      (w.works[work]?.filter fun owned => owned.finished.isNone).map fun owned =>
        w.resume ttlMs maxEntries work outcome checkedAt storedAt owned
    else none
  | .clear => some w.clear

end CacheWorld

def CacheNext (ttlMs maxEntries : ℤ) (w : CacheWorld K V) (a : CacheAction K V) (w' : CacheWorld K V) : Prop :=
  w.step ttlMs maxEntries a = some w'

/-! What one section does. -/

namespace ReportCache

variable {ttlMs maxEntries now : ℤ} {key k : K} {work : ℕ} {throws : Bool} {cache : ReportCache K V}
  {checkedAt storedAt : ℤ} {generation : ℕ} {outcome : WorkOutcome V}

omit [DecidableEq K] in
theorem evictOldest_sublist (ready : List (K × ReadyReport V)) : (evictOldest maxEntries ready).Sublist ready := by
  induction ready with
  | nil => exact List.Sublist.refl _
  | cons entry rest ih =>
    unfold evictOldest
    split_ifs
    · exact ih.trans (List.sublist_cons_self entry rest)
    · exact List.Sublist.refl _

omit [DecidableEq K] in
theorem length_evictOldest (hmax : 1 ≤ maxEntries) (ready : List (K × ReadyReport V)) :
    ((evictOldest maxEntries ready).length : ℤ) < maxEntries := by
  induction ready with
  | nil => simp [evictOldest]; omega
  | cons entry rest ih =>
    unfold evictOldest
    split_ifs with h
    · exact ih
    · omega

omit [DecidableEq K] in
theorem mem_of_mem_evict {ready : List (K × ReadyReport V)} {e : K × ReadyReport V}
    (h : e ∈ evict ttlMs maxEntries now ready) : e ∈ ready :=
  List.mem_of_mem_filter ((evictOldest_sublist _).subset h)

/-- The three ways the first section of `get` ends. -/
theorem get_cases (ttlMs now : ℤ) (key : K) (work : ℕ) (throws : Bool) (cache : ReportCache K V) :
    (∃ entry, OrderedMap.get cache.ready key = some entry ∧ now - entry.readyAt < ttlMs ∧
      cache.get ttlMs now key work throws =
        ({ cache with ready := OrderedMap.set key entry (OrderedMap.delete key cache.ready) }, .ready entry)) ∨
    (∃ other, OrderedMap.get cache.inFlight key = some other ∧
      cache.get ttlMs now key work throws = (cache, .joined other)) ∨
    (OrderedMap.get cache.inFlight key = none ∧ cache.get ttlMs now key work throws =
      ({ cache with inFlight := if throws then cache.inFlight else OrderedMap.set key work cache.inFlight },
        .started work)) := by
  unfold get
  split
  · rename_i entry hentry
    obtain ⟨hget, hfresh⟩ := Option.filter_eq_some_iff.mp hentry
    exact .inl ⟨entry, hget, of_decide_eq_true hfresh, rfl⟩
  · split
    · rename_i other hother
      exact .inr (.inl ⟨other, hother, rfl⟩)
    · rename_i hnone
      refine .inr (.inr ⟨hnone, ?_⟩)
      cases throws <;> rfl

@[simp] theorem store_inFlight :
    (cache.store ttlMs maxEntries checkedAt storedAt key generation work outcome).inFlight = cache.inFlight := by
  cases outcome with
  | failed => rfl
  | report report =>
    unfold store
    split_ifs <;> rfl

@[simp] theorem store_generation :
    (cache.store ttlMs maxEntries checkedAt storedAt key generation work outcome).generation = cache.generation := by
  cases outcome with
  | failed => rfl
  | report report =>
    unfold store
    split_ifs <;> rfl

/-- A ready entry after the store was there before, or is the report just made. -/
theorem mem_store {e : K × ReadyReport V}
    (he : e ∈ (cache.store ttlMs maxEntries checkedAt storedAt key generation work outcome).ready) :
    e ∈ cache.ready ∨ ∃ report, outcome = .report report ∧ generation = cache.generation ∧
      e = (key, ⟨storedAt, report, work⟩) := by
  cases outcome with
  | failed => exact .inl he
  | report report =>
    unfold store at he
    split_ifs at he with hg
    · rcases OrderedMap.mem_set he with hold | rfl
      · exact .inl (mem_of_mem_evict hold)
      · exact .inr ⟨report, rfl, hg, rfl⟩
    · exact .inl he

theorem length_store (hmax : 1 ≤ maxEntries)
    (h : (cache.ready.length : ℤ) ≤ maxEntries) :
    ((cache.store ttlMs maxEntries checkedAt storedAt key generation work outcome).ready.length : ℤ) ≤ maxEntries := by
  cases outcome with
  | failed => exact h
  | report report =>
    unfold store
    split_ifs
    · have hset := OrderedMap.length_set_le key (⟨storedAt, report, work⟩ : ReadyReport V)
        (evict ttlMs maxEntries checkedAt cache.ready)
      have hevict := length_evictOldest hmax (cache.ready.filter fun entry => ¬ entry.2.readyAt ≤ checkedAt - ttlMs)
      unfold evict at hset ⊢
      dsimp only
      omega
    · exact h

@[simp] theorem release_ready : (cache.release key work).ready = cache.ready := by
  unfold release
  split_ifs <;> rfl

@[simp] theorem release_generation : (cache.release key work).generation = cache.generation := by
  unfold release
  split_ifs <;> rfl

/-- The release takes away its own promise and no other. -/
theorem get_release : OrderedMap.get (cache.release key work).inFlight k =
    if key = k ∧ OrderedMap.get cache.inFlight key = some work then none else OrderedMap.get cache.inFlight k := by
  unfold release
  by_cases hown : OrderedMap.get cache.inFlight key = some work
  · rw [if_pos hown]
    simp only [OrderedMap.get_delete, hown, and_true]
  · rw [if_neg hown, if_neg fun h => hown h.2]

end ReportCache

/-! The invariant of the sections. -/

/-- The number is that of a computation of the key that started with this many clears before it. -/
def IsWork (works : List (Work K V)) (key : K) (clears i : ℕ) : Prop :=
  ∃ c, works[i]? = some c ∧ c.key = key ∧ c.clears = clears

/-- The entry is the report of its computation, at the moment that the computation finished. -/
def MadeBy (works : List (Work K V)) (entry : ReadyReport V) : Prop :=
  ∃ c, works[entry.source]? = some c ∧ c.finished = some (.report entry.report, entry.readyAt)

/-- What a `get` was answered with: a computation since the last clear, and a ready report within its time. -/
structure GetSound (ttlMs : ℤ) (works : List (Work K V)) (g : GetCall K V) : Prop where
  source : IsWork works g.key g.clears g.answer.source
  ready : ∀ entry, g.answer = .ready entry →
    MadeBy works entry ∧ entry.readyAt ≤ g.calledAt ∧ g.calledAt - entry.readyAt < ttlMs

structure CacheConsistent (ttlMs maxEntries : ℤ) (w : CacheWorld K V) : Prop where
  generation : w.cache.generation = w.clears
  captured : ∀ c ∈ w.works, c.generation = c.clears
  clears_le : ∀ c ∈ w.works, c.clears ≤ w.clears
  /-- The promises in flight are those of the unfinished computations since the last clear. -/
  inFlight : ∀ key i, OrderedMap.get w.cache.inFlight key = some i ↔
    ∃ c, w.works[i]? = some c ∧ c.key = key ∧ c.clears = w.clears ∧ c.finished = none
  ready : ∀ e ∈ w.cache.ready, IsWork w.works e.1 w.clears e.2.source ∧ MadeBy w.works e.2 ∧ e.2.readyAt ≤ w.clock
  bounded : (w.cache.ready.length : ℤ) ≤ maxEntries
  gets : ∀ g ∈ w.gets, GetSound ttlMs w.works g

/-- No section forgets a computation, or changes what a finished one came to. -/
def WorksKept (works works' : List (Work K V)) : Prop :=
  ∀ (i : ℕ) (c : Work K V), works[i]? = some c →
    ∃ c' : Work K V, works'[i]? = some c' ∧ c'.key = c.key ∧ c'.clears = c.clears ∧
      (∀ f, c.finished = some f → c'.finished = some f)

section

omit [DecidableEq K]

theorem worksKept_append (works : List (Work K V)) (c : Work K V) : WorksKept works (works ++ [c]) := by
  intro i c' h
  refine ⟨c', ?_, rfl, rfl, fun _ hf => hf⟩
  rw [List.getElem?_append_left (List.getElem?_eq_some_iff.mp h).1]
  exact h

theorem worksKept_set {works : List (Work K V)} {work : ℕ} {owned : Work K V} (howned : works[work]? = some owned)
    (hopen : owned.finished = none) (f : WorkOutcome V × ℤ) :
    WorksKept works (works.set work { owned with finished := some f }) := by
  intro i c h
  by_cases hi : work = i
  · subst hi
    obtain rfl := Option.some.inj (howned.symm.trans h)
    refine ⟨{ owned with finished := some f }, ?_, rfl, rfl, fun f' hf' => ?_⟩
    · exact List.getElem?_set_self (List.getElem?_eq_some_iff.mp h).1
    · rw [hopen] at hf'
      cases hf'
  · refine ⟨c, ?_, rfl, rfl, fun _ hf => hf⟩
    rw [List.getElem?_set_ne hi]
    exact h

theorem WorksKept.isWork {works works' : List (Work K V)} (h : WorksKept works works') {key : K} {clears i : ℕ}
    (hwork : IsWork works key clears i) : IsWork works' key clears i := by
  obtain ⟨c, hc, hkey, hclears⟩ := hwork
  obtain ⟨c', hc', hkey', hclears', -⟩ := h i c hc
  exact ⟨c', hc', hkey'.trans hkey, hclears'.trans hclears⟩

theorem WorksKept.madeBy {works works' : List (Work K V)} (h : WorksKept works works') {entry : ReadyReport V}
    (hmade : MadeBy works entry) : MadeBy works' entry := by
  obtain ⟨c, hc, hf⟩ := hmade
  obtain ⟨c', hc', -, -, hkept⟩ := h _ c hc
  exact ⟨c', hc', hkept _ hf⟩

theorem WorksKept.getSound {works works' : List (Work K V)} (h : WorksKept works works') {ttlMs : ℤ}
    {g : GetCall K V} (hg : GetSound ttlMs works g) : GetSound ttlMs works' g :=
  ⟨h.isWork hg.source, fun entry hentry => ⟨h.madeBy (hg.ready entry hentry).1, (hg.ready entry hentry).2⟩⟩

end

variable {ttlMs maxEntries : ℤ} {w w' : CacheWorld K V}

theorem cacheConsistent_start (hmax : 1 ≤ maxEntries) (clock : ℤ) :
    CacheConsistent ttlMs maxEntries (CacheWorld.start clock : CacheWorld K V) := by
  refine ⟨rfl, List.forall_mem_nil _, List.forall_mem_nil _, fun key i => ⟨fun h => ?_, ?_⟩, List.forall_mem_nil _, ?_,
    List.forall_mem_nil _⟩
  · cases h
  · rintro ⟨c, hc, -⟩
    simp [CacheWorld.start] at hc
  · simp [CacheWorld.start]
    omega

theorem cacheConsistent_clear (h : CacheConsistent ttlMs maxEntries w) : CacheConsistent ttlMs maxEntries w.clear := by
  refine ⟨congrArg (· + 1) h.generation, h.captured, fun c hc => Nat.le_succ_of_le (h.clears_le c hc),
    fun key i => ⟨fun hget => ?_, ?_⟩, List.forall_mem_nil _, ?_, h.gets⟩
  · cases hget
  · -- every computation so far started before the clear
    rintro ⟨c, hc, -, hclears, hopen⟩
    have hbefore := h.clears_le c (List.mem_of_getElem? hc)
    dsimp only [CacheWorld.clear] at hclears
    omega
  · have hbounded := h.bounded
    dsimp only [CacheWorld.clear, ReportCache.clear, List.length_nil]
    omega

theorem getElem?_concat {α : Type*} {items : List α} {a c : α} {i : ℕ} :
    (items ++ [a])[i]? = some c ↔ items[i]? = some c ∨ i = items.length ∧ c = a := by
  rcases lt_trichotomy i items.length with hlt | rfl | hgt
  · rw [List.getElem?_append_left hlt]
    exact ⟨.inl, fun hc => hc.elim id fun hc => absurd hc.1 (by omega)⟩
  · simp [eq_comm]
  · rw [List.getElem?_eq_none (by simp; omega), List.getElem?_eq_none (by omega)]
    have hno : ¬ (none : Option α) = some c := (Option.some_ne_none c).symm
    exact ⟨fun hc => absurd hc hno, fun hc => hc.elim (absurd · hno) fun hc => absurd hc.1 (by omega)⟩

/-- A computation that starts is the only one of its key in flight. -/
theorem inFlight_get {now : ℤ} {key : K} {throws : Bool} (h : CacheConsistent ttlMs maxEntries w)
    (hnone : OrderedMap.get w.cache.inFlight key = none) (k : K) (i : ℕ) :
    OrderedMap.get (if throws then w.cache.inFlight else OrderedMap.set key w.works.length w.cache.inFlight) k =
      some i ↔ ∃ c, (w.works ++ [w.newWork key now throws])[i]? = some c ∧ c.key = k ∧ c.clears = w.clears ∧
        c.finished = none := by
  cases throws with
  | true =>
    rw [if_pos rfl, h.inFlight k i]
    refine exists_congr fun c => ⟨fun hc => ⟨getElem?_concat.mpr (.inl hc.1), hc.2⟩, fun hc => ⟨?_, hc.2⟩⟩
    rcases getElem?_concat.mp hc.1 with hw | ⟨-, rfl⟩
    · exact hw
    · cases hc.2.2.2
  | false =>
    rw [if_neg Bool.false_ne_true, OrderedMap.get_set]
    split_ifs with hk
    · subst hk
      constructor
      · rintro hi
        obtain rfl := Option.some.inj hi
        exact ⟨_, getElem?_concat.mpr (.inr ⟨rfl, rfl⟩), rfl, rfl, rfl⟩
      · rintro ⟨c, hc, hkey, hclears, hopen⟩
        rcases getElem?_concat.mp hc with hw | ⟨rfl, -⟩
        · rw [(h.inFlight key i).mpr ⟨c, hw, hkey, hclears, hopen⟩] at hnone
          cases hnone
        · rfl
    · rw [h.inFlight k i]
      refine exists_congr fun c => ⟨fun hc => ⟨getElem?_concat.mpr (.inl hc.1), hc.2⟩, fun hc => ⟨?_, hc.2⟩⟩
      rcases getElem?_concat.mp hc.1 with hw | ⟨-, rfl⟩
      · exact hw
      · exact absurd hc.2.1 hk

/-- The computation that is resumed, and no other, is in flight no more. -/
theorem inFlight_resume {work : ℕ} {outcome : WorkOutcome V} {checkedAt storedAt : ℤ} {owned : Work K V}
    (h : CacheConsistent ttlMs maxEntries w) (howned : w.works[work]? = some owned) (k : K) (i : ℕ) :
    OrderedMap.get ((w.cache.store ttlMs maxEntries checkedAt storedAt owned.key owned.generation work outcome).release
      owned.key work).inFlight k = some i ↔
      ∃ c, (w.works.set work { owned with finished := some (outcome, storedAt) })[i]? = some c ∧ c.key = k ∧
        c.clears = w.clears ∧ c.finished = none := by
  rw [ReportCache.get_release, ReportCache.store_inFlight]
  by_cases hi : work = i
  · subst hi
    constructor
    · intro hget
      split_ifs at hget with hown
      obtain ⟨c, hc, hkey, -⟩ := (h.inFlight k work).mp hget
      obtain rfl := Option.some.inj (howned.symm.trans hc)
      exact absurd ⟨hkey, hkey ▸ hget⟩ hown
    · rintro ⟨c, hc, -, -, hopen⟩
      rw [List.getElem?_set_self (List.getElem?_eq_some_iff.mp howned).1] at hc
      obtain rfl := Option.some.inj hc
      cases hopen
  · rw [List.getElem?_set_ne hi, ← h.inFlight k i]
    split_ifs with hown
    · obtain ⟨rfl, hget⟩ := hown
      rw [hget, Option.some.injEq]
      exact ⟨fun hc => hc.elim, fun hc => absurd hc hi⟩
    · rfl

theorem cacheConsistent_get {now : ℤ} {key : K} {throws : Bool} (h : CacheConsistent ttlMs maxEntries w)
    (hnow : w.clock ≤ now) : CacheConsistent ttlMs maxEntries (w.get ttlMs now key throws) := by
  unfold CacheWorld.get
  rcases w.cache.get_cases ttlMs now key w.works.length throws with
    ⟨entry, hget, hfresh, heq⟩ | ⟨other, hget, heq⟩ | ⟨hnone, heq⟩ <;> rw [heq]
  · -- a ready report moves to the end
    have hentry := h.ready (key, entry) (OrderedMap.mem_of_get hget)
    refine ⟨h.generation, h.captured, h.clears_le, h.inFlight, fun e he => ?_, ?_, fun g hg => ?_⟩
    · have hold : e ∈ w.cache.ready := by
        rcases OrderedMap.mem_set he with hd | rfl
        · exact List.mem_of_mem_filter hd
        · exact OrderedMap.mem_of_get hget
      obtain ⟨hwork, hmade, hat⟩ := h.ready e hold
      exact ⟨hwork, hmade, hat.trans hnow⟩
    · have hset := OrderedMap.length_set_le key entry (OrderedMap.delete key w.cache.ready)
      have hdelete := OrderedMap.length_delete_lt hget
      have hbounded := h.bounded
      dsimp only
      omega
    · rcases List.mem_append.mp hg with hg | hg
      · exact h.gets g hg
      · obtain rfl := List.mem_singleton.mp hg
        refine ⟨hentry.1, fun e he => ?_⟩
        obtain rfl := GetAnswer.ready.inj he
        exact ⟨hentry.2.1, hentry.2.2.trans hnow, hfresh⟩
  · -- an unfinished computation is joined
    obtain ⟨c, hc, hkey, hclears, -⟩ := (h.inFlight key other).mp hget
    refine ⟨h.generation, h.captured, h.clears_le, h.inFlight, fun e he => ?_, h.bounded, fun g hg => ?_⟩
    · obtain ⟨hwork, hmade, hat⟩ := h.ready e he
      exact ⟨hwork, hmade, hat.trans hnow⟩
    · rcases List.mem_append.mp hg with hg | hg
      · exact h.gets g hg
      · obtain rfl := List.mem_singleton.mp hg
        exact ⟨⟨c, hc, hkey, hclears⟩, fun e he => nomatch he⟩
  · -- a computation starts, and is in flight unless its callback threw
    have hkept := worksKept_append w.works (w.newWork key now throws)
    have hnew : (w.works ++ [w.newWork key now throws])[w.works.length]? = some (w.newWork key now throws) := by simp
    refine ⟨h.generation, ?_, ?_, fun k i => ?_, fun e he => ?_, h.bounded, fun g hg => ?_⟩
    · exact List.forall_mem_append.mpr ⟨h.captured, List.forall_mem_singleton.mpr h.generation⟩
    · exact List.forall_mem_append.mpr ⟨h.clears_le, List.forall_mem_singleton.mpr le_rfl⟩
    · exact inFlight_get h hnone k i
    · obtain ⟨hwork, hmade, hat⟩ := h.ready e he
      exact ⟨hkept.isWork hwork, hkept.madeBy hmade, hat.trans hnow⟩
    · rcases List.mem_append.mp hg with hg | hg
      · exact hkept.getSound (h.gets g hg)
      · obtain rfl := List.mem_singleton.mp hg
        exact ⟨⟨_, hnew, rfl, rfl⟩, fun e he => nomatch he⟩

theorem cacheConsistent_resume {work : ℕ} {outcome : WorkOutcome V} {checkedAt storedAt : ℤ} {owned : Work K V}
    (hmax : 1 ≤ maxEntries) (h : CacheConsistent ttlMs maxEntries w) (hchecked : w.clock ≤ checkedAt)
    (hstored : checkedAt ≤ storedAt) (howned : w.works[work]? = some owned) (hopen : owned.finished = none) :
    CacheConsistent ttlMs maxEntries (w.resume ttlMs maxEntries work outcome checkedAt storedAt owned) := by
  have hkept := worksKept_set howned hopen (outcome, storedAt)
  have hmem := List.mem_of_getElem? howned
  unfold CacheWorld.resume
  refine ⟨?_, fun c hc => ?_, fun c hc => ?_, inFlight_resume h howned, fun e he => ?_, ?_,
    fun g hg => hkept.getSound (h.gets g hg)⟩
  · rw [ReportCache.release_generation, ReportCache.store_generation]
    exact h.generation
  · rcases List.mem_or_eq_of_mem_set hc with hc | rfl
    · exact h.captured c hc
    · exact h.captured owned hmem
  · rcases List.mem_or_eq_of_mem_set hc with hc | rfl
    · exact h.clears_le c hc
    · exact h.clears_le owned hmem
  · rw [ReportCache.release_ready] at he
    rcases ReportCache.mem_store he with hold | ⟨report, rfl, hgeneration, rfl⟩
    · obtain ⟨hwork, hmade, hat⟩ := h.ready e hold
      exact ⟨hkept.isWork hwork, hkept.madeBy hmade, hat.trans (hchecked.trans hstored)⟩
    · have hset := List.getElem?_set_self (a := { owned with finished := some (.report report, storedAt) })
        (List.getElem?_eq_some_iff.mp howned).1
      have hclears : owned.clears = w.clears := (h.captured owned hmem).symm.trans (hgeneration.trans h.generation)
      exact ⟨⟨_, hset, rfl, hclears⟩, ⟨_, hset, rfl⟩, le_rfl⟩
  · rw [ReportCache.release_ready]
    exact ReportCache.length_store hmax h.bounded

theorem cacheConsistent_step {a : CacheAction K V} (hmax : 1 ≤ maxEntries) (h : CacheConsistent ttlMs maxEntries w)
    (hnext : CacheNext ttlMs maxEntries w a w') : CacheConsistent ttlMs maxEntries w' := by
  unfold CacheNext at hnext
  cases a with
  | get key now throws =>
    obtain ⟨hnow, rfl⟩ := (Option.ite_none_right_eq_some.mp hnext).imp_right Option.some.inj
    exact cacheConsistent_get h hnow
  | resume work outcome checkedAt storedAt =>
    obtain ⟨⟨hchecked, hstored⟩, hresume⟩ := Option.ite_none_right_eq_some.mp hnext
    obtain ⟨owned, howned, rfl⟩ := Option.map_eq_some_iff.mp hresume
    obtain ⟨hwork, hopen⟩ := Option.filter_eq_some_iff.mp howned
    exact cacheConsistent_resume hmax h hchecked hstored hwork (Option.isNone_iff_eq_none.mp hopen)
  | clear =>
    obtain rfl := Option.some.inj hnext
    exact cacheConsistent_clear h

/-- The cache serves neither stale reports nor one computation twice. -/
structure CacheSound (ttlMs maxEntries : ℤ) (w : CacheWorld K V) : Prop where
  single : ∀ (i j : ℕ) (c d : Work K V), w.works[i]? = some c → w.works[j]? = some d → c.key = d.key →
    c.clears = w.clears → d.clears = w.clears → c.finished = none → d.finished = none → i = j
  /-- What a `get` returns comes from a computation that no clear separates from it. -/
  sinceClear : ∀ g ∈ w.gets, ∃ c, w.works[g.answer.source]? = some c ∧ c.key = g.key ∧ c.clears = g.clears
  fresh : ∀ g ∈ w.gets, ∀ entry, g.answer = .ready entry → ∃ c, w.works[entry.source]? = some c ∧
    c.finished = some (.report entry.report, entry.readyAt) ∧ entry.readyAt ≤ g.calledAt ∧
    g.calledAt - entry.readyAt < ttlMs
  /-- What is stored is the report of a computation that has not failed. -/
  stored : ∀ key entry, (key, entry) ∈ w.cache.ready → ∃ c, w.works[entry.source]? = some c ∧ c.key = key ∧
    c.finished = some (.report entry.report, entry.readyAt)
  /-- Where no computation of the key runs any more, a `get` waits for none. -/
  unblocked : ∀ key, (∀ c ∈ w.works, c.key = key → c.clears = w.clears → c.finished ≠ none) →
    ∀ now work throws other, (w.cache.get ttlMs now key work throws).2 ≠ .joined other
  bounded : (w.cache.ready.length : ℤ) ≤ maxEntries

theorem CacheConsistent.sound (h : CacheConsistent ttlMs maxEntries w) : CacheSound ttlMs maxEntries w where
  single i j c d hc hd hkey hcc hdc hco hdo := by
    have hi := (h.inFlight c.key i).mpr ⟨c, hc, rfl, hcc, hco⟩
    have hj := (h.inFlight c.key j).mpr ⟨d, hd, hkey.symm, hdc, hdo⟩
    exact Option.some.inj (hi.symm.trans hj)
  sinceClear g hg := (h.gets g hg).source
  fresh g hg entry hentry := by
    obtain ⟨⟨c, hc, hf⟩, hat, hfresh⟩ := (h.gets g hg).ready entry hentry
    exact ⟨c, hc, hf, hat, hfresh⟩
  stored key entry hentry := by
    obtain ⟨⟨c, hc, hkey, -⟩, ⟨d, hd, hf⟩, -⟩ := h.ready (key, entry) hentry
    obtain rfl := Option.some.inj (hc.symm.trans hd)
    exact ⟨c, hc, hkey, hf⟩
  unblocked key hdone now work throws other hjoined := by
    have hnone : OrderedMap.get w.cache.inFlight key = none := by
      refine Option.eq_none_iff_forall_ne_some.mpr fun i hi => ?_
      obtain ⟨c, hc, hkey, hclears, hopen⟩ := (h.inFlight key i).mp hi
      exact hdone c (List.mem_of_getElem? hc) hkey hclears hopen
    rcases w.cache.get_cases ttlMs now key work throws with ⟨_, _, _, heq⟩ | ⟨i, hi, _⟩ | ⟨_, heq⟩
    · rw [heq] at hjoined
      cases hjoined
    · rw [hnone] at hi
      cases hi
    · rw [heq] at hjoined
      cases hjoined
  bounded := h.bounded

theorem reportCache_sound (hmax : 1 ≤ maxEntries) {clock : ℤ} {steps : List (Step (CacheWorld K V) (CacheAction K V))}
    (hrun : Run (CacheNext ttlMs maxEntries) (CacheWorld.start clock) steps w) : CacheSound ttlMs maxEntries w :=
  (hrun.invariant (fun _ _ _ h hnext => cacheConsistent_step hmax h hnext) (cacheConsistent_start hmax clock)).sound

/-- A price is edited while a report is computed: the report is not stored, and the next one is computed. -/
def editedMeanwhile : List (CacheAction ℕ String) :=
  [.get 1 0 false, .clear, .get 1 10 false, .resume 0 (.report "old") 20 20, .get 1 30 false,
    .resume 1 (.report "new") 40 40, .get 1 50 false]

theorem reportCache_editedMeanwhile : ∃ steps w, steps.map Step.action = editedMeanwhile ∧
    Run (CacheNext 300000 64) (CacheWorld.start 0) steps w ∧ w.gets.map (·.answer) =
      [.started 0, .started 1, .joined 1, .ready ⟨40, "new", 1⟩] ∧ CacheSound 300000 64 w := by
  have henabled : runEnabled (CacheWorld.step 300000 64) (CacheWorld.start 0) editedMeanwhile =
      some ((runEnabled (CacheWorld.step 300000 64) (CacheWorld.start 0) editedMeanwhile).get (by decide)) := by simp
  have hrun := run_runEnabled henabled
  exact ⟨_, _, hrun.2, hrun.1, by decide, reportCache_sound (by decide) hrun.1⟩

end Mydon.Vending
