import Mydon.Lib.Run
import Mydon.Stock.StockService

/-! Interleaved stocktakes and movements. A stocktake reads, then inserts; the
balance it leaves is the count exactly when nothing that matters to the rounded
difference came in between. -/

namespace Mydon.Stock.Stocktake

open Mydon.Lib

/-- An answer given to a caller, with the client key of the call. -/
inductive Answer
  | movement (clientKey : Option String) (row : StockMovementRow)
  | stocktake (clientKey : Option String) (result : StocktakeResult)

def Answer.clientKey : Answer → Option String
  | .movement clientKey _ => clientKey
  | .stocktake clientKey _ => clientKey

/-- `pending` holds the stocktakes between their two steps, `answers` what was answered so far. -/
structure State where
  journal : List StockMovementRow
  pending : List StocktakeCall
  answers : List Answer

inductive Action
  | createMovement (input : CreateMovementInput) (w : Written)
  | stocktakeRead (input : StocktakeInput)
  | stocktakeInsert (i : ℕ) (w : Written)

variable (cards : List Entity)

def stepCreate (s : State) (input : CreateMovementInput) (w : Written) : State :=
  match movementRow cards input w with
  | .error _ => s
  | .ok row =>
    let r := insertMovement s.journal row
    { s with journal := r.1, answers := s.answers ++ [.movement input.clientKey r.2] }

def stepRead (s : State) (input : StocktakeInput) : State :=
  match stocktakeRead cards s.journal input with
  | .error _ => s
  | .ok call =>
    if call.delta = 0 then { s with answers := s.answers ++ [.stocktake input.clientKey call.unchanged] }
    else { s with pending := s.pending ++ [call] }

def stepInsert (s : State) (i : ℕ) (w : Written) : State :=
  match s.pending[i]? with
  | none => s
  | some call =>
    let rest := { s with pending := s.pending.eraseIdx i }
    match call.row w with
    | .error _ => rest
    | .ok row =>
      { rest with
        journal := (insertMovement s.journal row).1
        answers := s.answers ++ [.stocktake call.input.clientKey (call.written s.journal row)] }

def step (s : State) : Action → State
  | .createMovement input w => stepCreate cards s input w
  | .stocktakeRead input => stepRead cards s input
  | .stocktakeInsert i w => stepInsert s i w

def Next (s : State) (a : Action) (s' : State) : Prop := s' = step cards s a

def start (journal : List StockMovementRow) : State := ⟨journal, [], []⟩

/-- The row of an insert, unless its key has one already. -/
def fresh (journal : List StockMovementRow) : Except Js.HttpError StockMovementRow → Option StockMovementRow
  | .ok row => if (findKey journal row.clientKey).isNone then some row else none
  | .error _ => none

/-- The row that a step adds to the journal, when it adds one. -/
def inserted (s : State) : Action → Option StockMovementRow
  | .createMovement input w => fresh s.journal (movementRow cards input w)
  | .stocktakeRead _ => none
  | .stocktakeInsert i w => s.pending[i]?.bind fun call => fresh s.journal (call.row w)

def keyOf (s : State) : Action → Option String
  | .createMovement input _ => input.clientKey
  | .stocktakeRead input => input.clientKey
  | .stocktakeInsert i _ => s.pending[i]?.bind (·.input.clientKey)

theorem insertMovement_fst (journal : List StockMovementRow) (row : StockMovementRow) :
    (insertMovement journal row).1 = journal ++ (fresh journal (.ok row)).toList := by
  unfold insertMovement fresh
  cases h : findKey journal row.clientKey <;> simp [h]

/-- A step adds at most one row. -/
theorem step_journal (s : State) (a : Action) :
    (step cards s a).journal = s.journal ++ (inserted cards s a).toList := by
  cases a with
  | createMovement input w =>
    simp only [step, stepCreate, inserted]
    cases movementRow cards input w with
    | error e => simp [fresh]
    | ok row => exact insertMovement_fst s.journal row
  | stocktakeRead input =>
    simp only [step, stepRead, inserted]
    cases stocktakeRead cards s.journal input with
    | error e => simp
    | ok call => by_cases h : call.delta = 0 <;> simp [h]
  | stocktakeInsert i w =>
    simp only [step, stepInsert, inserted]
    cases hp : s.pending[i]? with
    | none => simp
    | some call =>
      simp only [Option.bind_some]
      cases call.row w with
      | error e => simp [fresh]
      | ok row => exact insertMovement_fst s.journal row

/-! Rounding to thousandths. -/

theorem round3_sub_round3 (x y : ℚ) : round3 (x - round3 y) = round3 x - round3 y := by
  unfold round3
  have h : (x - (⌊y * 1000 + 1 / 2⌋ : ℚ) / 1000) * 1000 + 1 / 2 =
      x * 1000 + 1 / 2 - (⌊y * 1000 + 1 / 2⌋ : ℤ) := by ring
  rw [h, Int.floor_sub_intCast, Int.cast_sub, sub_div]

theorem round3_eq_zero_iff (x : ℚ) : round3 x = 0 ↔ -(1 / 2000) ≤ x ∧ x < 1 / 2000 := by
  unfold round3
  rw [div_eq_zero_iff, or_iff_left (by norm_num), Int.cast_eq_zero, Int.floor_eq_zero_iff, Set.mem_Ico]
  constructor
  · rintro ⟨h1, h2⟩
    exact ⟨by linarith, by linarith⟩
  · rintro ⟨h1, h2⟩
    exact ⟨by linarith, by linarith⟩

/-- A rounded difference is stored as it is. -/
theorem numeric_round3 {x q : ℚ} (h : numeric 14 3 (round3 x) = .ok q) : q = round3 x :=
  (numeric_eq_self_iff h).mpr ⟨⌊x * 1000 + 1 / 2⌋, by norm_num [round3]⟩

/-! The balance after the insert of a stocktake. -/

/-- The balance of the pair that a call counts. -/
def balanceOf (s : State) (call : StocktakeCall) : ℚ :=
  (itemBalance s.journal call.input.ingredientId call.base (some call.input.warehouseId)).qty

theorem ofText_text (u : QtyUnit) : QtyUnit.ofText u.text = some u := by
  cases u <;> decide

theorem rowContribution_row {call : StocktakeCall} {w : Written} {row : StockMovementRow} {x : ℚ}
    (hd : call.delta = round3 x) (h : call.row w = .ok row) :
    rowContribution call.input.ingredientId call.base (some call.input.warehouseId) row = call.delta := by
  obtain ⟨qty, hn, rfl⟩ := Js.map_eq_ok.mp h
  rw [hd] at hn
  have hq := numeric_round3 hn
  simp [rowContribution, StockMovementRow.toMovement, ofText_text, contribution, convertQty, signedFor, hd, hq]

/-! What is claimed of a step, and when it holds. -/

/-- The key was answered in an earlier step. -/
def Answered (s : State) (key : String) : Prop := ∃ a ∈ s.answers, a.clientKey = some key

/-- The key was answered by a stocktake that found no difference. -/
def AnsweredUnchanged (s : State) (key : String) : Prop :=
  ∃ result, .stocktake (some key) result ∈ s.answers ∧ result.changed = false

/-- The stocktake whose adjustment the step adds, when it adds one. -/
def counted (s : State) : Action → Option StocktakeCall
  | .stocktakeInsert i _ => s.pending[i]?
  | _ => none

/-- The balance is the count up to rounding, right after an adjustment is added; and a
step under an answered key changes nothing. -/
structure Correct (e : Lib.Step State Action) : Prop where
  count : ∀ call, counted e.before e.action = some call → inserted cards e.before e.action ≠ none →
    -(1 / 2000) ≤ call.actualBase - balanceOf e.after call ∧
      call.actualBase - balanceOf e.after call < 1 / 2000
  repeated : ∀ key, keyOf e.before e.action = some key → Answered e.before key →
    e.after.journal = e.before.journal

/-- A stocktake that adds an adjustment finds a balance with the same rounded difference as
it had read; and no row is added under a key that was answered without a row. -/
structure Undisturbed (e : Lib.Step State Action) : Prop where
  fresh : ∀ call, counted e.before e.action = some call → inserted cards e.before e.action ≠ none →
    round3 (call.actualBase - balanceOf e.before call) = call.delta
  keyed : ∀ key, keyOf e.before e.action = some key → inserted cards e.before e.action ≠ none →
    ¬ AnsweredUnchanged e.before key

/-- Pending calls carry a rounded difference; answered keys have a row or an unchanged answer. -/
structure Inv (s : State) : Prop where
  delta : ∀ call ∈ s.pending, ∃ x, call.delta = round3 x
  answered : ∀ key, Answered s key → AnsweredUnchanged s key ∨ ∃ row ∈ s.journal, row.clientKey = some key

theorem fresh_eq_some {journal : List StockMovementRow} {r : Except Js.HttpError StockMovementRow}
    {row : StockMovementRow} (h : fresh journal r = some row) :
    r = .ok row ∧ (findKey journal row.clientKey).isNone := by
  unfold fresh at h
  split at h
  · split_ifs at h with hn
    cases h
    exact ⟨rfl, hn⟩
  · cases h

/-- A row goes in under the key of its call, which has no row yet. -/
theorem inserted_eq_some {s : State} {a : Action} {row : StockMovementRow} (h : inserted cards s a = some row) :
    row.clientKey = keyOf s a ∧ (findKey s.journal row.clientKey).isNone := by
  cases a with
  | createMovement input w =>
    obtain ⟨hok, hn⟩ := fresh_eq_some h
    exact ⟨movementRow_clientKey hok, hn⟩
  | stocktakeRead input => cases h
  | stocktakeInsert i w =>
    obtain ⟨call, hp, hf⟩ := Option.bind_eq_some_iff.mp h
    obtain ⟨hok, hn⟩ := fresh_eq_some hf
    refine ⟨?_, hn⟩
    rw [keyOf, hp]
    exact StocktakeCall.row_clientKey hok

theorem insertMovement_key (journal : List StockMovementRow) (row : StockMovementRow) {key : String}
    (h : row.clientKey = some key) : ∃ r ∈ (insertMovement journal row).1, r.clientKey = some key := by
  unfold insertMovement
  cases hf : findKey journal row.clientKey with
  | none => exact ⟨row, by simp, h⟩
  | some existing =>
    rw [h, findKey, Option.bind_some] at hf
    exact ⟨existing, List.mem_of_find?_eq_some hf, by simpa using List.find?_some hf⟩

/-- What a step may answer: a row under the key of the call, or no difference. -/
theorem step_answers (s : State) (a : Action) :
    (step cards s a).answers = s.answers ∨ ∃ answer, (step cards s a).answers = s.answers ++ [answer] ∧
      ((∃ key result, answer = .stocktake key result ∧ result.changed = false) ∨
        ∀ key, answer.clientKey = some key → ∃ row ∈ (step cards s a).journal, row.clientKey = some key) := by
  cases a with
  | createMovement input w =>
    simp only [step, stepCreate]
    cases h : movementRow cards input w with
    | error e => exact .inl rfl
    | ok row =>
      refine .inr ⟨_, rfl, .inr fun key hkey => ?_⟩
      exact insertMovement_key s.journal row ((movementRow_clientKey h).trans hkey)
  | stocktakeRead input =>
    simp only [step, stepRead]
    cases stocktakeRead cards s.journal input with
    | error e => exact .inl rfl
    | ok call =>
      by_cases hd : call.delta = 0
      · simp only [hd, if_true]
        exact .inr ⟨_, rfl, .inl ⟨_, _, rfl, rfl⟩⟩
      · simp [hd]
  | stocktakeInsert i w =>
    simp only [step, stepInsert]
    cases s.pending[i]? with
    | none => simp
    | some call =>
      cases h : call.row w with
      | error e => simp [h]
      | ok row =>
        simp only [h]
        refine .inr ⟨_, rfl, .inr fun key hkey => ?_⟩
        exact insertMovement_key s.journal row ((StocktakeCall.row_clientKey h).trans hkey)

theorem step_pending (s : State) (a : Action) :
    ∀ call ∈ (step cards s a).pending, call ∈ s.pending ∨ ∃ x, call.delta = round3 x := by
  cases a with
  | createMovement input w =>
    simp only [step, stepCreate]
    cases movementRow cards input w <;> exact fun call h => .inl h
  | stocktakeRead input =>
    simp only [step, stepRead]
    cases h : stocktakeRead cards s.journal input with
    | error e => exact fun call h => .inl h
    | ok call' =>
      intro call hc
      by_cases hd : call'.delta = 0
      · simp only [hd, if_true] at hc
        exact .inl hc
      · simp only [hd, if_false, List.mem_append, List.mem_singleton] at hc
        rcases hc with hc | rfl
        · exact .inl hc
        · exact .inr ⟨_, (stocktakeRead_spec h).2.1⟩
  | stocktakeInsert i w =>
    simp only [step, stepInsert]
    intro call hc
    cases hp : s.pending[i]? with
    | none => simp only [hp] at hc; exact .inl hc
    | some call' =>
      simp only [hp] at hc
      cases hr : call'.row w <;> simp only [hr] at hc <;> exact .inl (List.mem_of_mem_eraseIdx hc)

theorem inv_start (journal : List StockMovementRow) : Inv (start journal) where
  delta := by simp [start]
  answered := by rintro key ⟨a, ha, _⟩; cases ha

theorem inv_step {s s' : State} {a : Action} (h : Inv s) (hn : Next cards s a s') : Inv s' := by
  subst hn
  refine ⟨fun call hc => ?_, fun key hkey => ?_⟩
  · rcases step_pending cards s a call hc with hm | hx
    · exact h.delta call hm
    · exact hx
  · have hgrow : ∀ row ∈ s.journal, row ∈ (step cards s a).journal := by
      intro row hr
      rw [step_journal]
      exact List.mem_append_left _ hr
    have hold : Answered s key → AnsweredUnchanged (step cards s a) key ∨
        ∃ row ∈ (step cards s a).journal, row.clientKey = some key := by
      intro ha
      rcases h.answered key ha with ⟨result, hr, hc⟩ | ⟨row, hr, hk⟩
      · refine .inl ⟨result, ?_, hc⟩
        rcases step_answers cards s a with heq | ⟨answer, heq, _⟩ <;> rw [heq] <;> simp [hr]
      · exact .inr ⟨row, hgrow row hr, hk⟩
    obtain ⟨answer, ha, hk⟩ := hkey
    rcases step_answers cards s a with heq | ⟨new, heq, hnew⟩
    · rw [heq] at ha
      exact hold ⟨answer, ha, hk⟩
    · rw [heq, List.mem_append, List.mem_singleton] at ha
      rcases ha with ha | rfl
      · exact hold ⟨answer, ha, hk⟩
      · rcases hnew with ⟨key', result, rfl, hc⟩ | hrow
        · refine .inl ⟨result, ?_, hc⟩
          cases hk
          simp [heq]
        · exact .inr (hrow key hk)

/-- An adjustment moves the balance of its pair by the difference that was computed. -/
theorem balanceOf_insert {s : State} {a : Action} {call : StocktakeCall} {x : ℚ}
    (hcall : counted s a = some call) (hd : call.delta = round3 x) (hin : inserted cards s a ≠ none) :
    balanceOf (step cards s a) call = balanceOf s call + call.delta := by
  obtain ⟨row, hrow⟩ := Option.ne_none_iff_exists'.mp hin
  cases a with
  | createMovement input w => cases hcall
  | stocktakeRead input => cases hcall
  | stocktakeInsert i w =>
    have hp : s.pending[i]? = some call := hcall
    rw [balanceOf, step_journal, hrow, Option.toList_some, itemBalance_append, balanceOf]
    simp only [inserted, hp, Option.bind_some] at hrow
    rw [rowContribution_row hd (fresh_eq_some hrow).1]

theorem correct_iff {s s' : State} {a : Action} (hi : Inv s) (hn : Next cards s a s') :
    Correct cards ⟨s, a, s'⟩ ↔ Undisturbed cards ⟨s, a, s'⟩ := by
  subst hn
  have hcount : ∀ call, counted s a = some call → inserted cards s a ≠ none →
      ((-(1 / 2000) ≤ call.actualBase - balanceOf (step cards s a) call ∧
          call.actualBase - balanceOf (step cards s a) call < 1 / 2000) ↔
        round3 (call.actualBase - balanceOf s call) = call.delta) := by
    intro call hcall hin
    have hmem : call ∈ s.pending := by
      cases a with
      | createMovement input w => cases hcall
      | stocktakeRead input => cases hcall
      | stocktakeInsert i w => exact List.mem_of_getElem? hcall
    obtain ⟨x, hx⟩ := hi.delta call hmem
    rw [balanceOf_insert cards hcall hx hin, ← round3_eq_zero_iff, ← sub_sub, hx, round3_sub_round3, sub_eq_zero]
  have hsame : (step cards s a).journal = s.journal ↔ inserted cards s a = none := by
    rw [step_journal]
    cases inserted cards s a <;> simp
  constructor
  · intro h
    refine ⟨fun call hcall hin => (hcount call hcall hin).mp (h.count call hcall hin), ?_⟩
    rintro key hkey hin ⟨result, hr, _⟩
    exact hin (hsame.mp (h.repeated key hkey ⟨_, hr, rfl⟩))
  · intro h
    refine ⟨fun call hcall hin => (hcount call hcall hin).mpr (h.fresh call hcall hin), ?_⟩
    intro key hkey ha
    refine hsame.mpr ?_
    by_contra hin
    obtain ⟨row, hrow⟩ := Option.ne_none_iff_exists'.mp hin
    obtain ⟨hkrow, hnone⟩ := inserted_eq_some cards hrow
    rcases hi.answered key ha with hun | ⟨r, hr, hk⟩
    · exact h.keyed key hkey hin hun
    · rw [hkrow, show keyOf s a = some key from hkey] at hnone
      simp only [findKey, Option.bind_some, Option.isNone_iff_eq_none, List.find?_eq_none] at hnone
      exact hnone r hr (by simpa using hk)

/-- Over every interleaving, from any journal. -/
theorem stocktake_correct_iff (journal : List StockMovementRow) {steps : List (Lib.Step State Action)}
    {s : State} (h : Run (Next cards) (start journal) steps s) :
    (∀ e ∈ steps, Correct cards e) ↔ ∀ e ∈ steps, Undisturbed cards e :=
  Run.forall_congr (fun _ _ _ hi hn => inv_step cards hi hn) (fun _ _ _ hi hn => correct_iff cards hi hn) h
    (inv_start journal)

/-! Two counters of one shelf. -/

def sampleCards : List Entity :=
  [⟨"w1", "warehouse", "Склад", []⟩, ⟨"coffee", "product", "Кофе", [("вид", .str "перепродажа")]⟩]

def sampleIntake : StockMovementRow :=
  ⟨"m1", .intake, "coffee", "w1", none, none, "2026-09-01", 10, "шт", none, none, none, "owner", none, none,
    "owner"⟩

def sampleCount : StocktakeInput := ⟨"w1", "coffee", 7, none, none, none, none⟩

def sampleWritten : Written := ⟨"m2", "2026-09-01", "owner"⟩

/-- The state after the actions, from a journal with one intake. -/
def sampleState (actions : List Action) : State :=
  (runActions (step sampleCards) (start [sampleIntake]) actions).2

/-- Both count seven of ten before either writes: the correction is made twice. -/
theorem stocktake_twice :
    ∃ steps s, Run (Next sampleCards) (start [sampleIntake]) steps s ∧
      ¬ ∀ e ∈ steps, Correct sampleCards e := by
  refine ⟨_, _, run_runActions (step sampleCards) (start [sampleIntake])
    [.stocktakeRead sampleCount, .stocktakeRead sampleCount, .stocktakeInsert 0 sampleWritten,
      .stocktakeInsert 0 sampleWritten], fun h => ?_⟩
  let s := sampleState
    [.stocktakeRead sampleCount, .stocktakeRead sampleCount, .stocktakeInsert 0 sampleWritten]
  have hlast : Correct sampleCards
      ⟨s, .stocktakeInsert 0 sampleWritten, step sampleCards s (.stocktakeInsert 0 sampleWritten)⟩ :=
    h _ (by simp only [runActions, List.mem_cons]; exact .inr (.inr (.inr (.inl rfl))))
  obtain ⟨_, hlt⟩ := hlast.count ⟨sampleCount, .piece, 7, 10, -3, "Кофе", "Склад"⟩ (by decide +kernel)
    (by decide +kernel)
  revert hlt
  decide +kernel

/-- One counter alone sets the balance. -/
theorem stocktake_once :
    ∃ steps s, Run (Next sampleCards) (start [sampleIntake]) steps s ∧ steps.length = 2 ∧
      ∀ e ∈ steps, Correct sampleCards e := by
  have hrun := run_runActions (step sampleCards) (start [sampleIntake])
    [.stocktakeRead sampleCount, .stocktakeInsert 0 sampleWritten]
  refine ⟨_, _, hrun, rfl, (stocktake_correct_iff sampleCards [sampleIntake] hrun).mpr fun e he => ?_⟩
  simp only [runActions, List.mem_cons, List.not_mem_nil, or_false] at he
  rcases he with rfl | rfl
  · refine ⟨fun call hcall => ?_, fun key _ hin => absurd rfl hin⟩
    cases hcall
  · refine ⟨fun call hcall _ => ?_, fun key hkey => ?_⟩
    · have hc : call = ⟨sampleCount, .piece, 7, 10, -3, "Кофе", "Склад"⟩ :=
        Option.some_injective _ (hcall.symm.trans (by decide +kernel))
      rw [hc]
      decide +kernel
    · have hnone : keyOf (step sampleCards (start [sampleIntake]) (.stocktakeRead sampleCount))
          (.stocktakeInsert 0 sampleWritten) = none := by decide +kernel
      exact absurd (hkey.symm.trans hnone) (Option.some_ne_none key)

end Mydon.Stock.Stocktake
