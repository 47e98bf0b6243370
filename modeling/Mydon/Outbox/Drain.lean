import Mydon.Lib.Run
import Mydon.Outbox.Model

/-! Any number of workers that drain the outbox at once. A call may be lost before its effect or
after it, and a worker may stop at any point. -/

namespace Mydon.Outbox

open Mydon.Lib
open Js (Json HttpError)

/-- A page, with the delivery that it was made for. -/
structure Page where
  id : String
  delivery : String
  deriving DecidableEq

structure System where
  rows : List DeliveryRow
  workers : ℕ → Worker
  pages : List Page

/-- What becomes of a call to Core. -/
inductive Loss
  | none
  | before
  | after
  deriving DecidableEq

inductive Action
  /-- A committed report adds a delivery. -/
  | enqueue (row : DeliveryRow)
  | start (w : ℕ) (options : DrainOptions)
  | crash (w : ℕ)
  | claim (w : ℕ) (token : String) (now : ℤ) (locked : String → Bool) (loss : Loss)
  /-- `page` is the page that Notion makes, whatever it answers. -/
  | publish (w : ℕ) (page : Option String) (reply : NotionReply)
  /-- `message` is of the error that the worker sees where the call fails. -/
  | complete (w : ℕ) (now : ℤ) (loss : Loss) (message : String)

def NOTION_REPORT : String := "notion-report"

/-- The fields that the worker reads of a claimed row. -/
def claimedOf (token : String) (r : DeliveryRow) : ClaimedOutboxDelivery :=
  ⟨r.id, r.key, r.destination, r.payload, token⟩

namespace System

variable (s : System)

def setWorker (w : ℕ) (worker : Worker) : System := { s with workers := Function.update s.workers w worker }

/-- The page that Notion makes for a delivery, if it makes one. -/
def addPage (d : ClaimedOutboxDelivery) (page : Option String) : System :=
  { s with pages := s.pages ++ (page.map fun id => (⟨id, d.id⟩ : Page)).toList }

def setRows (rows : List DeliveryRow) : System := { s with rows }

/-- The rows after a call of `complete`, and whether it answered with the row. -/
def completeRows (d : ClaimedOutboxDelivery) (status : TerminalStatus) (options : CompleteOptions) (now : ℤ) :
    Bool × List DeliveryRow :=
  match complete s.rows d.id d.leaseToken status options now with
  | .ok (_, rows) => (true, rows)
  | .error _ => (false, s.rows)

/-- A completion: the rows that the call leaves, and whether the worker sees it succeed. -/
def perform (d : ClaimedOutboxDelivery) (status : TerminalStatus) (options : CompleteOptions) (now : ℤ) : Loss →
    Bool × List DeliveryRow
  | .before => (false, s.rows)
  | .after => (false, (s.completeRows d status options now).2)
  | .none => s.completeRows d status options now

/-- One action, where it is enabled. -/
def step (host : Js.Host) : Action → Option System
  | .enqueue row =>
    if row.status = .pending ∧ s.rows.all (·.id ≠ row.id) then some { s with rows := s.rows ++ [row] } else none
  | .start w options =>
    match (s.workers w).phase with
    | .stopped => some (s.setWorker w ⟨.claiming, 0, options, ⟨0, 0, 0, 0, 0⟩⟩)
    | _ => none
  | .crash w => some (s.setWorker w (s.workers w).stop)
  | .claim w token now locked loss =>
    match (s.workers w).phase with
    | .claiming =>
      let (delivery, rows) := Outbox.claim host s.rows NOTION_REPORT token now locked
      some (match loss with
        | .before => s.setWorker w (s.workers w).stop
        | .after => (s.setRows rows).setWorker w (s.workers w).stop
        | .none => (s.setRows rows).setWorker w (match delivery with
          | none => (s.workers w).stop
          | some r => (s.workers w).take (claimedOf token r)))
    | _ => none
  | .publish w page reply =>
    match (s.workers w).phase with
    | .publishing d report retries =>
      some ((s.addPage d page).setWorker w (match published reply with
        | .ok id => { s.workers w with phase := .confirming d report retries id }
        | .error e => (s.workers w).caught d report retries e))
    | _ => none
  | .complete w now loss message =>
    match (s.workers w).phase with
    | .confirming d report retries page =>
      let (seen, rows) := s.perform d .sent ⟨some page, none⟩ now loss
      some ((s.setRows rows).setWorker w (if seen then ((s.workers w).count .sent).next
        else (s.workers w).caught d report retries (.other message)))
    | .completing d status error =>
      let (seen, rows) := s.perform d status ⟨none, some error⟩ now loss
      some ((s.setRows rows).setWorker w (if seen then ((s.workers w).count status).next else (s.workers w).stop))
    | _ => none

end System

/-- Notion answers with the page that it made, and a refusal says that it made none. -/
def NotionAnswers : Action → Prop
  | .publish _ page reply =>
    (∀ id, published reply = .ok id → page = some id) ∧
      ∀ reason status, published reply = .error (.notion reason status) → status ∈ refusals → page = none
  | _ => True

def Next (host : Js.Host) (s : System) (a : Action) (s' : System) : Prop := NotionAnswers a ∧ s.step host a = some s'

/-- The outbox before the first delivery. -/
structure Fresh (s : System) : Prop where
  rows : s.rows = []
  pages : s.pages = []
  workers : ∀ w, (s.workers w).phase = .stopped

/-! What a worker holds. -/

def Phase.holding : Phase → Option ClaimedOutboxDelivery
  | .stopped => none
  | .claiming => none
  | .publishing d _ _ => some d
  | .confirming d _ _ _ => some d
  | .completing d _ _ => some d

def System.pagesOf (s : System) (delivery : String) : List Page := s.pages.filter (·.delivery = delivery)

/-- What the pages of a delivery are while a worker holds it. -/
def Phase.Fits (s : System) : Phase → Prop
  | .publishing d _ _ => s.pagesOf d.id = []
  | .confirming d _ _ page => s.pagesOf d.id = [⟨page, d.id⟩]
  | .completing d status _ => status ≠ .sent ∧ (status = .dead ∨ status = .skipped → s.pagesOf d.id = [])
  | _ => True

/-- A row that may still have a page or get one. -/
def DeliveryRow.live (r : DeliveryRow) : Prop := r.status ≠ .pending ∧ r.status ≠ .dead ∧ r.status ≠ .skipped

structure Inv (s : System) : Prop where
  ids : (s.rows.map DeliveryRow.id).Nodup
  held : ∀ w d, (s.workers w).phase.holding = some d →
    ∃ r ∈ s.rows, r.id = d.id ∧ r.leaseToken = some d.leaseToken ∧ r.live
  one : ∀ w w' d d', (s.workers w).phase.holding = some d → (s.workers w').phase.holding = some d' → d.id = d'.id → w = w'
  paged : ∀ page ∈ s.pages, ∃ r ∈ s.rows, r.id = page.delivery ∧ r.live
  single : ∀ x, (s.pagesOf x).length ≤ 1
  fits : ∀ w, (s.workers w).phase.Fits s
  sent : ∀ r ∈ s.rows, r.status = .sent → ∃ page, s.pagesOf r.id = [page] ∧ r.providerRef = clip 512 (some page.id)

section
variable {s : System} {w : ℕ} {worker : Worker} {rows : List DeliveryRow}

theorem Phase.fits_congr {s' : System} (h : s'.pages = s.pages) (p : Phase) : p.Fits s' ↔ p.Fits s := by
  unfold Phase.Fits System.pagesOf
  rw [h]

/-! The parts of a step. -/

/-- A worker may go on with what it holds, take what nobody holds, or let go. -/
theorem Inv.setWorker (h : Inv s) (hfits : worker.phase.Fits s)
    (hheld : ∀ d, worker.phase.holding = some d →
      (∃ r ∈ s.rows, r.id = d.id ∧ r.leaseToken = some d.leaseToken ∧ r.live) ∧
        ∀ w' ≠ w, ∀ d', (s.workers w').phase.holding = some d' → d'.id ≠ d.id) : Inv (s.setWorker w worker) := by
  have hself : (s.setWorker w worker).workers w = worker := Function.update_self ..
  have hother : ∀ w' ≠ w, (s.setWorker w worker).workers w' = s.workers w' := fun w' hne => Function.update_of_ne hne ..
  refine ⟨h.ids, fun w' d hd => ?_, fun w₁ w₂ d₁ d₂ h₁ h₂ hid => ?_, h.paged, h.single, fun w' => ?_, h.sent⟩
  · rcases eq_or_ne w' w with rfl | hne
    · rw [hself] at hd
      exact (hheld d hd).1
    · rw [hother w' hne] at hd
      exact h.held w' d hd
  · by_cases hne₁ : w₁ = w <;> by_cases hne₂ : w₂ = w
    · rw [hne₁, hne₂]
    · rw [hne₁, hself] at h₁
      rw [hother w₂ hne₂] at h₂
      exact absurd hid.symm ((hheld d₁ h₁).2 w₂ hne₂ d₂ h₂)
    · rw [hne₂, hself] at h₂
      rw [hother w₁ hne₁] at h₁
      exact absurd hid ((hheld d₂ h₂).2 w₁ hne₁ d₁ h₁)
    · rw [hother w₁ hne₁] at h₁
      rw [hother w₂ hne₂] at h₂
      exact h.one w₁ w₂ d₁ d₂ h₁ h₂ hid
  · rw [Phase.fits_congr (rfl : (s.setWorker w worker).pages = s.pages)]
    rcases eq_or_ne w' w with rfl | hne
    · rwa [hself]
    · rw [hother w' hne]
      exact h.fits w'

theorem Inv.letGo (h : Inv s) (hnone : worker.phase.holding = none) (hfits : worker.phase.Fits s) :
    Inv (s.setWorker w worker) := by
  refine h.setWorker hfits fun d hd => ?_
  rw [hnone] at hd
  cases hd

/-- Rows may change as long as live ones stay live under their token, and none is newly sent. -/
theorem Inv.setRows (h : Inv s) (hids : (rows.map DeliveryRow.id).Nodup)
    (hlive : ∀ r ∈ s.rows, r.live → ∃ r' ∈ rows, r'.id = r.id ∧ r'.leaseToken = r.leaseToken ∧ r'.live)
    (hsent : ∀ r' ∈ rows, r'.status = .sent → ∃ r ∈ s.rows, r.status = .sent ∧ r.id = r'.id ∧
      r.providerRef = r'.providerRef) : Inv (s.setRows rows) := by
  refine ⟨hids, fun w d hd => ?_, h.one, fun page hpage => ?_, h.single, fun w => ?_, fun r' hr' hs => ?_⟩
  · obtain ⟨r, hr, hid, htoken, hl⟩ := h.held w d hd
    obtain ⟨r', hr', hid', htoken', hl'⟩ := hlive r hr hl
    exact ⟨r', hr', hid'.trans hid, htoken'.trans htoken, hl'⟩
  · obtain ⟨r, hr, hid, hl⟩ := h.paged page hpage
    obtain ⟨r', hr', hid', _, hl'⟩ := hlive r hr hl
    exact ⟨r', hr', hid'.trans hid, hl'⟩
  · exact (Phase.fits_congr (s := s) rfl _).mpr (h.fits w)
  · obtain ⟨r, hr, hstatus, hid, hprovider⟩ := hsent r' hr' hs
    obtain ⟨page, hpages, hpage⟩ := h.sent r hr hstatus
    exact ⟨page, hid ▸ hpages, hprovider ▸ hpage⟩

/-- Nobody holds the delivery. -/
def Unheld (s : System) (id : String) : Prop := ∀ w d, (s.workers w).phase.holding = some d → d.id ≠ id

theorem Inv.addPage (h : Inv s) {d : ClaimedOutboxDelivery} {page : Option String} (hfree : Unheld s d.id)
    (hrow : ∃ r ∈ s.rows, r.id = d.id ∧ r.live) (hnone : s.pagesOf d.id = []) : Inv (s.addPage d page) := by
  have hpages : ∀ x, (s.addPage d page).pagesOf x =
      s.pagesOf x ++ ((page.map fun id => (⟨id, d.id⟩ : Page)).toList.filter (·.delivery = x)) := fun x =>
    List.filter_append ..
  have hother : ∀ x, x ≠ d.id → (s.addPage d page).pagesOf x = s.pagesOf x := by
    intro x hx
    rw [hpages]
    rcases page with _ | id
    · simp
    · simp [Ne.symm hx]
  refine ⟨h.ids, h.held, h.one, fun p hp => ?_, fun x => ?_, fun w => ?_, fun r hr hs => ?_⟩
  · rcases List.mem_append.mp hp with hp | hp
    · exact h.paged p hp
    · rcases page with _ | id
      · cases hp
      · rw [List.mem_singleton.mp hp]
        exact hrow
  · rcases eq_or_ne x d.id with rfl | hx
    · rw [hpages, hnone]
      rcases page with _ | id <;> simp
    · rw [hother x hx]
      exact h.single x
  · have hw := h.fits w
    have hid := hfree w
    change Phase.Fits (s.addPage d page) (s.workers w).phase
    revert hw hid
    generalize (s.workers w).phase = p
    rcases p with _ | _ | ⟨d', report, n⟩ | ⟨d', report, n, id⟩ | ⟨d', status, error⟩ <;> intro hw hid
    · trivial
    · trivial
    · exact (hother _ (hid d' rfl)).trans hw
    · exact (hother _ (hid d' rfl)).trans hw
    · exact ⟨hw.1, fun hs => (hother _ (hid d' rfl)).trans (hw.2 hs)⟩
  · rcases eq_or_ne r.id d.id with hrd | hne
    · -- a row that is sent already has a page
      obtain ⟨p, hp, _⟩ := h.sent r hr hs
      rw [hrd, hnone] at hp
      cases hp
    · rw [hother _ hne]
      exact h.sent r hr hs

/-- A dispatching row that nobody holds may be completed with what is true of its pages. -/
theorem Inv.completeRows (h : Inv s) {r : DeliveryRow} {status : TerminalStatus} {options : CompleteOptions} {now : ℤ}
    (hr : r ∈ s.rows) (hfree : Unheld s r.id) (hnone : status = .dead ∨ status = .skipped → s.pagesOf r.id = [])
    (hpage : status = .sent → ∃ page, s.pagesOf r.id = [page] ∧ options.providerRef = some page.id) :
    Inv (s.setRows (Table.update DeliveryRow.id s.rows r.id (completed status options now))) := by
  have hmem : ∀ r' ∈ Table.update DeliveryRow.id s.rows r.id (completed status options now),
      r' = completed status options now r ∨ r' ∈ s.rows ∧ r'.id ≠ r.id := by
    intro r' hr'
    obtain ⟨r₀, hr₀, rfl⟩ := List.mem_map.mp hr'
    split_ifs with hid
    · rw [Table.eq_of_key_eq h.ids hr₀ hr hid]
      exact .inl rfl
    · exact .inr ⟨hr₀, hid⟩
  have hkept : ∀ r₀ ∈ s.rows, r₀.id ≠ r.id →
      r₀ ∈ Table.update DeliveryRow.id s.rows r.id (completed status options now) := fun r₀ hr₀ hid =>
    List.mem_map.mpr ⟨r₀, hr₀, if_neg hid⟩
  have hself : completed status options now r ∈ Table.update DeliveryRow.id s.rows r.id (completed status options now) :=
    List.mem_map.mpr ⟨r, hr, if_pos rfl⟩
  refine ⟨?_, fun w d hd => ?_, h.one, fun page hpage' => ?_, h.single, fun w => ?_, fun r' hr' hs => ?_⟩
  · have hids : (Table.update DeliveryRow.id s.rows r.id (completed status options now)).map DeliveryRow.id =
        s.rows.map DeliveryRow.id := by
      unfold Table.update
      rw [List.map_map]
      refine List.map_congr_left fun r₀ _ => ?_
      rw [Function.comp_apply]
      split_ifs <;> rfl
    exact hids ▸ h.ids
  · obtain ⟨r₀, hr₀, hid, htoken, hl⟩ := h.held w d hd
    exact ⟨r₀, hkept r₀ hr₀ (hid ▸ hfree w d hd), hid, htoken, hl⟩
  · obtain ⟨r₀, hr₀, hid, hl⟩ := h.paged page hpage'
    by_cases hsame : r₀.id = r.id
    · refine ⟨_, hself, hsame ▸ hid, ?_⟩
      have hpages : page ∈ s.pagesOf r.id := List.mem_filter.mpr ⟨hpage', by simpa using hid.symm.trans hsame⟩
      have hnot : ¬ (status = .dead ∨ status = .skipped) := by
        intro hdead
        rw [hnone hdead] at hpages
        cases hpages
      unfold DeliveryRow.live completed
      rcases status with _ | _ | _ | _ <;> simp_all [TerminalStatus.toStatus]
    · exact ⟨r₀, hkept r₀ hr₀ hsame, hid, hl⟩
  · exact (Phase.fits_congr (s := s) rfl _).mpr (h.fits w)
  · rcases hmem r' hr' with rfl | ⟨hr₀, _⟩
    · have hsent : status = .sent := by
        rcases status with _ | _ | _ | _
        · rfl
        all_goals cases hs
      obtain ⟨page, hpages, hprovider⟩ := hpage hsent
      refine ⟨page, hpages, ?_⟩
      change clip 512 options.providerRef = _
      rw [hprovider]
    · exact h.sent r' hr₀ hs

/-- The claim of another delivery or of none keeps what is known of the rest. -/
theorem Inv.claimRows (h : Inv s) {host : Js.Host} {token : String} {now : ℤ} {locked : String → Bool} :
    Inv (s.setRows (claim host s.rows NOTION_REPORT token now locked).2) := by
  obtain ⟨f, hrows, hf⟩ := @claim_rows host s.rows NOTION_REPORT token now locked h.ids
  rw [hrows]
  refine h.setRows ?_ (fun r hr hl => ?_) fun r' hr' hs => ?_
  · rw [List.map_map]
    refine (List.map_congr_left fun r hr => ?_).symm ▸ h.ids
    rw [Function.comp_apply]
    rcases hf r hr with hexpire | ⟨_, hmismatched | hdispatched⟩
    · rw [hexpire, expire_id]
    · rw [hmismatched]
      rfl
    · rw [hdispatched]
      rfl
  · refine ⟨f r, List.mem_map_of_mem hr, ?_⟩
    rcases hf r hr with hexpire | ⟨hpending, _⟩
    · rw [hexpire]
      rcases expire_cases NOTION_REPORT now r with hsame | ⟨_, hid, hstatus, htoken⟩
      · rw [hsame]
        exact ⟨rfl, rfl, hl⟩
      · refine ⟨hid, htoken, ?_⟩
        unfold DeliveryRow.live
        rw [hstatus]
        exact ⟨by decide, by decide, by decide⟩
    · exact absurd hpending hl.1
  · obtain ⟨r, hr, rfl⟩ := List.mem_map.mp hr'
    rcases hf r hr with hexpire | ⟨_, hmismatched | hdispatched⟩
    · rw [hexpire] at hs ⊢
      rcases expire_cases NOTION_REPORT now r with hsame | ⟨_, _, hstatus, _⟩
      · rw [hsame] at hs ⊢
        exact ⟨r, hr, hs, rfl, rfl⟩
      · rw [hstatus] at hs
        cases hs
    · rw [hmismatched] at hs
      cases hs
    · rw [hdispatched] at hs
      cases hs

/-! Steps. -/

theorem Worker.next_free (worker : Worker) : worker.next.phase.holding = none ∧ worker.next.phase.Fits s := by
  unfold Worker.next
  split_ifs
  · exact ⟨rfl, trivial⟩
  · exact ⟨rfl, trivial⟩

/-- After an error a worker asks again or buries the delivery where Notion refused, and doubts it elsewhere. -/
theorem Worker.caught_phase (worker : Worker) (d : ClaimedOutboxDelivery) (report : NotionReport) (retries : ℕ)
    (e : PublishError) : (∃ reason status, e = .notion reason status ∧ status ∈ refusals ∧
        ((∃ n, (worker.caught d report retries e).phase = .publishing d report n) ∨
          ∃ message, (worker.caught d report retries e).phase = .completing d .dead message)) ∨
      ∃ message, (worker.caught d report retries e).phase = .completing d .unknown message := by
  unfold Worker.caught
  by_cases hretry : (isRateLimit e && decide (retries < worker.options.retriesOf)) = true
  · rw [if_pos hretry]
    rcases e with ⟨reason, status⟩ | message
    · simp only [isRateLimit, Bool.and_eq_true, decide_eq_true_eq] at hretry
      refine .inl ⟨reason, status, rfl, ?_, .inl ⟨_, rfl⟩⟩
      rw [hretry.1]
      decide
    · cases hretry
  · rw [if_neg hretry]
    by_cases hbury : (isDeterministicClientError e || isRateLimit e) = true
    · rw [if_pos hbury]
      rcases e with ⟨reason, status⟩ | message
      · refine .inl ⟨reason, status, rfl, ?_, .inr ⟨_, rfl⟩⟩
        simp only [isDeterministicClientError, isRateLimit, Bool.or_eq_true, decide_eq_true_eq] at hbury
        unfold refusals
        simp only [List.mem_cons, List.not_mem_nil, or_false] at hbury ⊢
        omega
      · cases hbury
    · rw [if_neg hbury]
      exact .inr ⟨_, rfl⟩

/-- The state in which a worker has let go of what it held. -/
theorem Inv.released (h : Inv s) {d : ClaimedOutboxDelivery} (hd : (s.workers w).phase.holding = some d) :
    Inv (s.setWorker w (s.workers w).stop) ∧ Unheld (s.setWorker w (s.workers w).stop) d.id := by
  refine ⟨h.letGo rfl trivial, fun w' d' hd' hid => ?_⟩
  rcases eq_or_ne w' w with rfl | hne
  · change ((Function.update s.workers w' _) w').phase.holding = _ at hd'
    rw [Function.update_self] at hd'
    cases hd'
  · change ((Function.update s.workers w _) w').phase.holding = _ at hd'
    rw [Function.update_of_ne hne] at hd'
    exact hne (h.one w' w d' d hd' hd hid)

theorem setWorker_setWorker (worker worker' : Worker) :
    (s.setWorker w worker).setWorker w worker' = s.setWorker w worker' := by
  unfold System.setWorker
  rw [Function.update_idem]

theorem Inv.claim (h : Inv s) {host : Js.Host} {token : String} {now : ℤ} {locked : String → Bool} {r' : DeliveryRow}
    (hclaim : (Outbox.claim host s.rows NOTION_REPORT token now locked).1 = some r') :
    Inv ((s.setRows (Outbox.claim host s.rows NOTION_REPORT token now locked).2).setWorker w
      ((s.workers w).take (claimedOf token r'))) := by
  obtain ⟨⟨r, hr, hpending, rfl⟩, hmem⟩ := claim_delivery hclaim
  have hnone : s.pagesOf r.id = [] := by
    refine List.filter_eq_nil_iff.mpr fun page hpage hdelivery => ?_
    obtain ⟨r₀, hr₀, hid, hl⟩ := h.paged page hpage
    have hsame := Table.eq_of_key_eq h.ids hr₀ hr (hid.trans (by simpa using hdelivery))
    exact hl.1 (hsame ▸ hpending)
  have htake : ((s.workers w).take (claimedOf token (dispatched token now r))).phase.holding =
        some (claimedOf token (dispatched token now r)) ∧
      ((s.workers w).take (claimedOf token (dispatched token now r))).phase.Fits s := by
    unfold Worker.take
    dsimp only
    split_ifs
    · exact ⟨rfl, by decide, fun _ => hnone⟩
    · split
      · exact ⟨rfl, by decide, fun _ => hnone⟩
      · exact ⟨rfl, hnone⟩
  refine h.claimRows.setWorker ((Phase.fits_congr (s := s) rfl _).mpr htake.2) fun d hd => ?_
  rw [htake.1] at hd
  cases hd
  refine ⟨⟨_, hmem, rfl, rfl, ⟨by simp [dispatched], by simp [dispatched], by simp [dispatched]⟩⟩,
    fun w' _ d' hd' hid => ?_⟩
  -- what somebody holds is not pending
  obtain ⟨r₀, hr₀, hid₀, _, hl⟩ := h.held w' d' hd'
  have hsame := Table.eq_of_key_eq h.ids hr₀ hr (hid₀.trans hid)
  exact hl.1 (hsame ▸ hpending)

theorem Inv.publish (h : Inv s) {d : ClaimedOutboxDelivery} {report : NotionReport} {retries : ℕ} {page : Option String}
    {reply : NotionReply} (hphase : (s.workers w).phase = .publishing d report retries)
    (hanswers : NotionAnswers (.publish w page reply)) :
    Inv ((s.addPage d page).setWorker w (match published reply with
      | .ok id => { s.workers w with phase := .confirming d report retries id }
      | .error e => (s.workers w).caught d report retries e)) := by
  have hd : (s.workers w).phase.holding = some d := by rw [hphase]; rfl
  obtain ⟨r, hr, hid, htoken, hl⟩ := h.held w d hd
  obtain ⟨hreleased, hfree⟩ := h.released hd
  have hnone : s.pagesOf d.id = [] := by
    have hfits := h.fits w
    rw [hphase] at hfits
    exact hfits
  have hadded : Inv ((s.setWorker w (s.workers w).stop).addPage d page) := hreleased.addPage hfree ⟨r, hr, hid, hl⟩ hnone
  have hpages : (s.addPage d page).pagesOf d.id = (page.map fun id => (⟨id, d.id⟩ : Page)).toList := by
    change (s.pages ++ _).filter _ = _
    rw [List.filter_append]
    change s.pagesOf d.id ++ _ = _
    rw [hnone, List.nil_append]
    rcases page with _ | id <;> simp
  have hsame : (s.addPage d page).setWorker w (s.workers w).stop = (s.setWorker w (s.workers w).stop).addPage d page := rfl
  rw [← setWorker_setWorker (s.workers w).stop, hsame]
  -- whatever Notion answers, the worker goes on with the delivery
  suffices hnext : ∀ worker : Worker, worker.phase.holding = some d → worker.phase.Fits (s.addPage d page) →
      Inv (((s.setWorker w (s.workers w).stop).addPage d page).setWorker w worker) by
    rcases hp : published reply with e | id
    · dsimp only
      rcases (s.workers w).caught_phase d report retries e with ⟨reason, status, rfl, hrefused, hphase'⟩ | ⟨message, hphase'⟩
      · have hpage : page = none := hanswers.2 reason status hp hrefused
        rw [hpage] at hpages
        rcases hphase' with ⟨n, hphase'⟩ | ⟨message, hphase'⟩
        · refine hnext _ (by rw [hphase']; rfl) ?_
          rw [hphase', hpage]
          exact hpages
        · refine hnext _ (by rw [hphase']; rfl) ?_
          rw [hphase', hpage]
          exact ⟨by decide, fun _ => hpages⟩
      · refine hnext _ (by rw [hphase']; rfl) ?_
        rw [hphase']
        exact ⟨by decide, by simp⟩
    · refine hnext _ rfl ?_
      have hpage : page = some id := hanswers.1 id hp
      change (s.addPage d page).pagesOf d.id = _
      rw [hpages, hpage]
      rfl
  intro worker hholds hfits
  refine hadded.setWorker ((Phase.fits_congr (s := s.addPage d page) rfl _).mpr hfits) fun d' hd' => ?_
  rw [hholds] at hd'
  cases hd'
  exact ⟨⟨r, hr, hid, htoken, hl⟩, fun w' _ d' hd' => hfree w' d' hd'⟩

/-- What a completion leaves of the rows: nothing new, or the row of the delivery completed. -/
theorem perform_rows (h : Inv s) (d : ClaimedOutboxDelivery) (status : TerminalStatus) (options : CompleteOptions)
    (now : ℤ) (loss : Loss) : (s.perform d status options now loss).2 = s.rows ∨
      ∃ r ∈ s.rows, r.id = d.id ∧ r.leaseToken = some d.leaseToken ∧ r.status = .dispatching ∧
        (s.perform d status options now loss).2 = Table.update DeliveryRow.id s.rows r.id (completed status options now) := by
  have hcall : (s.completeRows d status options now).2 = s.rows ∨
      ∃ r ∈ s.rows, r.id = d.id ∧ r.leaseToken = some d.leaseToken ∧ r.status = .dispatching ∧
        (s.completeRows d status options now).2 =
          Table.update DeliveryRow.id s.rows r.id (completed status options now) := by
    unfold System.completeRows
    rcases hc : complete s.rows d.id d.leaseToken status options now with e | ⟨r', rows'⟩
    · exact .inl rfl
    · obtain ⟨r, hr, hid, htoken, ⟨hstatus, _, hrows⟩ | ⟨_, _, _, _, hrows⟩⟩ := complete_eq_ok h.ids hc
      · exact .inr ⟨r, hr, hid, htoken, hstatus, by rw [hid]; exact hrows⟩
      · exact .inl hrows
  rcases loss with _ | _ | _
  · exact hcall
  · exact .inl rfl
  · exact hcall

/-- A completion by the holder, who then lets go or doubts what it holds. -/
theorem Inv.complete (h : Inv s) {d : ClaimedOutboxDelivery} (hd : (s.workers w).phase.holding = some d)
    {status : TerminalStatus} {options : CompleteOptions} {now : ℤ} {loss : Loss}
    (hnone : status = .dead ∨ status = .skipped → s.pagesOf d.id = [])
    (hpage : status = .sent → ∃ page, s.pagesOf d.id = [page] ∧ options.providerRef = some page.id)
    (hworker : worker.phase.Fits s ∧ (worker.phase.holding = none ∨
      worker.phase.holding = some d ∧ status = .sent)) :
    Inv ((s.setRows (s.perform d status options now loss).2).setWorker w worker) := by
  obtain ⟨hreleased, hfree⟩ := h.released hd
  obtain ⟨r, hr, hid, htoken, hl⟩ := h.held w d hd
  have hsame : (s.setRows (s.perform d status options now loss).2).setWorker w (s.workers w).stop =
      (s.setWorker w (s.workers w).stop).setRows (s.perform d status options now loss).2 := rfl
  rw [← setWorker_setWorker (s.workers w).stop, hsame]
  have hrows : Inv ((s.setWorker w (s.workers w).stop).setRows (s.perform d status options now loss).2) ∧
      (status = .sent → ∃ r' ∈ (s.perform d status options now loss).2, r'.id = d.id ∧
        r'.leaseToken = some d.leaseToken ∧ r'.live) := by
    rcases perform_rows h d status options now loss with
      hkept | ⟨r₀, hr₀, hid₀, htoken₀, _, hupdate⟩
    · rw [hkept]
      exact ⟨hreleased, fun _ => ⟨r, hr, hid, htoken, hl⟩⟩
    · rw [hupdate]
      rw [← hid₀] at hfree hnone hpage
      refine ⟨hreleased.completeRows hr₀ hfree hnone hpage, fun hsent => ?_⟩
      refine ⟨completed status options now r₀, List.mem_map.mpr ⟨r₀, hr₀, if_pos rfl⟩, hid₀, htoken₀, ?_⟩
      unfold DeliveryRow.live completed
      simp [hsent, TerminalStatus.toStatus]
  refine hrows.1.setWorker ((Phase.fits_congr (s := s) rfl _).mpr hworker.1) fun d' hd' => ?_
  rcases hworker.2 with hlet | ⟨hholds, hsent⟩
  · rw [hlet] at hd'
    cases hd'
  · rw [hholds] at hd'
    cases hd'
    exact ⟨hrows.2 hsent, fun w' _ d' hd' => hfree w' d' hd'⟩

theorem Inv.next {host : Js.Host} {s' : System} {a : Action} (h : Inv s) (hnext : Next host s a s') : Inv s' := by
  obtain ⟨hanswers, hstep⟩ := hnext
  unfold System.step at hstep
  rcases a with row | ⟨w, options⟩ | w | ⟨w, token, now, locked, loss⟩ | ⟨w, page, reply⟩ | ⟨w, now, loss, message⟩
  · dsimp only at hstep
    split_ifs at hstep with hfresh
    cases hstep
    obtain ⟨hpending, hnew⟩ := hfresh
    rw [List.all_eq_true] at hnew
    refine h.setRows ?_ (fun r hr hl => ⟨r, List.mem_append_left _ hr, rfl, rfl, hl⟩) fun r' hr' hs => ?_
    · rw [List.map_append, List.map_singleton, ← List.concat_eq_append]
      refine h.ids.concat fun hmem => ?_
      obtain ⟨r, hr, hid⟩ := List.mem_map.mp hmem
      exact (of_decide_eq_true (hnew r hr)) hid
    · rcases List.mem_append.mp hr' with hr' | hr'
      · exact ⟨r', hr', hs, rfl, rfl⟩
      · rw [List.mem_singleton.mp hr', hpending] at hs
        cases hs
  · dsimp only at hstep
    split at hstep
    · cases hstep
      exact h.letGo rfl trivial
    · cases hstep
  · cases hstep
    exact h.letGo rfl trivial
  · dsimp only at hstep
    split at hstep
    · cases hstep
      rcases loss with _ | _ | _
      · rcases hclaim : (Outbox.claim host s.rows NOTION_REPORT token now locked).1 with _ | r'
        · exact h.claimRows.letGo rfl trivial
        · exact h.claim hclaim
      · exact h.letGo rfl trivial
      · exact h.claimRows.letGo rfl trivial
    · cases hstep
  · dsimp only at hstep
    split at hstep
    · cases hstep
      exact h.publish ‹_› hanswers
    · cases hstep
  · dsimp only at hstep
    split at hstep
    · rename_i d report retries page hphase
      cases hstep
      have hd : (s.workers w).phase.holding = some d := by rw [hphase]; rfl
      have hfits := h.fits w
      rw [hphase] at hfits
      refine h.complete hd (by simp) (fun _ => ⟨_, hfits, rfl⟩) ?_
      split_ifs
      · exact ⟨(Worker.next_free _).2, .inl (Worker.next_free (s := s) _).1⟩
      · rcases (s.workers w).caught_phase d report retries (.other message) with ⟨_, _, hnotion, _⟩ | ⟨_, hphase'⟩
        · cases hnotion
        · rw [hphase']
          exact ⟨⟨by decide, by simp⟩, .inr ⟨rfl, rfl⟩⟩
    · rename_i d status error hphase
      cases hstep
      have hd : (s.workers w).phase.holding = some d := by rw [hphase]; rfl
      have hfits := h.fits w
      rw [hphase] at hfits
      refine h.complete hd hfits.2 (fun hsent => absurd hsent hfits.1) ?_
      split_ifs
      · exact ⟨(Worker.next_free _).2, .inl (Worker.next_free (s := s) _).1⟩
      · exact ⟨trivial, .inl rfl⟩
    · cases hstep

theorem Fresh.inv (h : Fresh s) : Inv s := by
  have hstopped : ∀ w, (s.workers w).phase.holding = none := fun w => by rw [h.workers w]; rfl
  refine ⟨by rw [h.rows]; exact List.nodup_nil, fun w d hd => ?_, fun w w' d d' hd => ?_, ?_, fun x => ?_, fun w => ?_, ?_⟩
  · rw [hstopped] at hd
    cases hd
  · rw [hstopped] at hd
    cases hd
  · rw [h.pages]
    exact List.forall_mem_nil _
  · unfold System.pagesOf
    rw [h.pages]
    exact Nat.zero_le _
  · rw [h.workers w]
    trivial
  · rw [h.rows]
    exact List.forall_mem_nil _

end

end Mydon.Outbox
