import Mydon.Outbox.Drain

/-! A committed report is delivered at most once, however the workers' steps fall and whatever
they lose. -/

namespace Mydon.Outbox

open Mydon.Lib
open Js (Json HttpError)

/-- The delivery that Core hands out in a step, whether or not the worker gets to see it. -/
def handedOut (host : Js.Host) (s : System) : Action → Option String
  | .claim _ token now locked loss =>
    if loss = .before then none else (claim host s.rows NOTION_REPORT token now locked).1.map DeliveryRow.id
  | _ => none

/-- What becomes of the rows in a step, with the delivery that is handed out. -/
inductive RowMove (host : Js.Host) (rows : List DeliveryRow) : List DeliveryRow → Option String → Prop
  | kept : RowMove host rows rows none
  | enqueued (row : DeliveryRow) (hpending : row.status = .pending) : RowMove host rows (rows ++ [row]) none
  | claimed (token : String) (now : ℤ) (locked : String → Bool) :
    RowMove host rows (claim host rows NOTION_REPORT token now locked).2
      ((claim host rows NOTION_REPORT token now locked).1.map DeliveryRow.id)
  | ended (r : DeliveryRow) (hr : r ∈ rows) (hdispatching : r.status = .dispatching) (status : TerminalStatus)
    (options : CompleteOptions) (now : ℤ) :
    RowMove host rows (Table.update DeliveryRow.id rows r.id (completed status options now)) none

/-- What a step may do to a row: a claim takes it or buries it, and a dispatch comes to an end. -/
def Advances (r r' : DeliveryRow) : Prop :=
  r'.id = r.id ∧ (r' = r ∨ r.status = .pending ∧ (r'.status = .dispatching ∨ r'.status = .dead) ∨
    r.status = .dispatching ∧ r'.status.isTerminal = true)

section
variable {host : Js.Host} {s s' : System} {a : Action} {rows rows' : List DeliveryRow} {handed : Option String}

theorem rowMove_of_next (h : Inv s) (hnext : Next host s a s') : RowMove host s.rows s'.rows (handedOut host s a) := by
  obtain ⟨_, hstep⟩ := hnext
  unfold System.step at hstep
  rcases a with row | ⟨w, options⟩ | w | ⟨w, token, now, locked, loss⟩ | ⟨w, page, reply⟩ | ⟨w, now, loss, message⟩
  · dsimp only at hstep
    split_ifs at hstep with hfresh
    cases hstep
    exact .enqueued row hfresh.1
  · dsimp only at hstep
    split at hstep
    · cases hstep
      exact .kept
    · cases hstep
  · cases hstep
    exact .kept
  · dsimp only at hstep
    split at hstep
    · cases hstep
      rcases loss with _ | _ | _
      · exact .claimed token now locked
      · exact .kept
      · exact .claimed token now locked
    · cases hstep
  · dsimp only at hstep
    split at hstep
    · cases hstep
      exact .kept
    · cases hstep
  · have hperform : ∀ (d : ClaimedOutboxDelivery) (status : TerminalStatus) (options : CompleteOptions),
        RowMove host s.rows (s.perform d status options now loss).2 none := by
      intro d status options
      rcases perform_rows h d status options now loss with
        hkept | ⟨r, hr, _, _, hdispatching, hrows⟩
      · rw [hkept]
        exact .kept
      · rw [hrows]
        exact .ended r hr hdispatching status options now
    dsimp only at hstep
    split at hstep
    · cases hstep
      exact hperform _ _ _
    · cases hstep
      exact hperform _ _ _
    · cases hstep

theorem TerminalStatus.isTerminal_toStatus (status : TerminalStatus) : status.toStatus.isTerminal = true := by
  rcases status with _ | _ | _ | _ <;> rfl

theorem RowMove.advances (h : RowMove host rows rows' handed) (hids : (rows.map DeliveryRow.id).Nodup) :
    ∀ r ∈ rows, ∃ r' ∈ rows', Advances r r' := by
  intro r hr
  rcases h with _ | ⟨row, _⟩ | ⟨token, now, locked⟩ | ⟨r₀, hr₀, hdispatching, status, options, now⟩
  · exact ⟨r, hr, rfl, .inl rfl⟩
  · exact ⟨r, List.mem_append_left _ hr, rfl, .inl rfl⟩
  · obtain ⟨f, hrows, hf⟩ := @claim_rows host rows NOTION_REPORT token now locked hids
    rw [hrows]
    refine ⟨f r, List.mem_map_of_mem hr, ?_⟩
    rcases hf r hr with hexpire | ⟨hpending, hmismatched | hdispatched⟩
    · rw [hexpire]
      rcases expire_cases NOTION_REPORT now r with hsame | ⟨hwas, hid, hunknown, _⟩
      · exact ⟨expire_id, .inl hsame⟩
      · exact ⟨hid, .inr (.inr ⟨hwas, by rw [hunknown]; rfl⟩)⟩
    · rw [hmismatched]
      exact ⟨rfl, .inr (.inl ⟨hpending, .inr rfl⟩)⟩
    · rw [hdispatched]
      exact ⟨rfl, .inr (.inl ⟨hpending, .inl rfl⟩)⟩
  · by_cases hid : r.id = r₀.id
    · have hsame := Table.eq_of_key_eq hids hr hr₀ hid
      refine ⟨completed status options now r, List.mem_map.mpr ⟨r, hr, if_pos hid⟩, rfl, .inr (.inr ⟨?_, ?_⟩)⟩
      · rw [hsame, hdispatching]
      · exact status.isTerminal_toStatus
    · exact ⟨r, List.mem_map.mpr ⟨r, hr, if_neg hid⟩, rfl, .inl rfl⟩

/-- A delivery that is handed out was pending, and is not pending any more. -/
theorem RowMove.handed_gone (h : RowMove host rows rows' handed) {id : String} (hid : handed = some id) :
    (∃ r ∈ rows, r.id = id ∧ r.status = .pending) ∧ ∃ r ∈ rows', r.id = id ∧ r.status ≠ .pending := by
  rcases h with _ | ⟨row, _⟩ | ⟨token, now, locked⟩ | ⟨r₀, hr₀, hdispatching, status, options, now⟩
  · cases hid
  · cases hid
  · obtain ⟨r', hclaim, rfl⟩ := Option.map_eq_some_iff.mp hid
    obtain ⟨⟨r, hr, hpending, rfl⟩, hmem⟩ := claim_delivery hclaim
    exact ⟨⟨r, hr, rfl, hpending⟩, _, hmem, rfl, by simp [dispatched]⟩
  · cases hid

theorem Advances.status_ne_pending {r r' : DeliveryRow} (h : Advances r r') (hr : r.status ≠ .pending) :
    r'.status ≠ .pending := by
  rcases h.2 with rfl | ⟨hpending, _⟩ | ⟨_, hterminal⟩
  · exact hr
  · exact absurd hpending hr
  · intro hpending
    rw [hpending] at hterminal
    cases hterminal

/-- A row whose delivery is over stays as it is. -/
theorem Advances.eq_of_isTerminal {r r' : DeliveryRow} (h : Advances r r') (hr : r.status.isTerminal = true) :
    r' = r := by
  rcases h.2 with hsame | ⟨hpending, _⟩ | ⟨hdispatching, _⟩
  · exact hsame
  · rw [hpending] at hr
    cases hr
  · rw [hdispatching] at hr
    cases hr

theorem inv_of_run {s₀ : System} {steps : List (Step System Action)} (h : Run (Next host) s₀ steps s) (hfresh : Fresh s₀) :
    Inv s := h.invariant (fun _ _ _ hi hn => hi.next hn) hfresh.inv

/-- What was handed out once is no longer pending, so that it is not handed out again. -/
theorem nodup_handedOut {s₀ : System} {steps : List (Step System Action)} (h : Run (Next host) s₀ steps s)
    (hfresh : Fresh s₀) : (steps.filterMap fun e => handedOut host e.before e.action).Nodup := by
  suffices hboth : (steps.filterMap fun e => handedOut host e.before e.action).Nodup ∧
      ∀ id ∈ steps.filterMap fun e => handedOut host e.before e.action, ∃ r ∈ s.rows, r.id = id ∧ r.status ≠ .pending from
    hboth.1
  induction h with
  | start => exact ⟨List.nodup_nil, List.forall_mem_nil _⟩
  | @step steps s s' a hrun hnext ih =>
    obtain ⟨hnd, hgone⟩ := ih
    have hinv := inv_of_run hrun hfresh
    have hmove := rowMove_of_next hinv hnext
    have hgone' : ∀ id ∈ steps.filterMap fun e => handedOut host e.before e.action,
        ∃ r ∈ s'.rows, r.id = id ∧ r.status ≠ .pending := by
      intro id hid
      obtain ⟨r, hr, rfl, hpending⟩ := hgone id hid
      obtain ⟨r', hr', hadvances⟩ := hmove.advances hinv.ids r hr
      exact ⟨r', hr', hadvances.1, hadvances.status_ne_pending hpending⟩
    have hlast : ([⟨s, a, s'⟩] : List (Step System Action)).filterMap (fun e => handedOut host e.before e.action) =
        (handedOut host s a).toList := by
      rcases hhanded : handedOut host s a with _ | id <;> simp [hhanded]
    rw [List.filterMap_append, hlast]
    rcases hhanded : handedOut host s a with _ | id
    · rw [Option.toList_none, List.append_nil]
      exact ⟨hnd, hgone'⟩
    · obtain ⟨⟨r, hr, hrid, hpending⟩, hafter⟩ := hmove.handed_gone hhanded
      rw [Option.toList_some, ← List.concat_eq_append]
      refine ⟨hnd.concat fun hmem => ?_, fun id' hid' => ?_⟩
      · obtain ⟨r', hr', hid, hnot⟩ := hgone id hmem
        exact hnot (Table.eq_of_key_eq hinv.ids hr' hr (hid.trans hrid.symm) ▸ hpending)
      · rw [List.concat_eq_append] at hid'
        rcases List.mem_append.mp hid' with hid' | hid'
        · exact hgone' id' hid'
        · rw [List.mem_singleton.mp hid']
          exact hafter

/-- A buried or skipped delivery has no page. -/
theorem Inv.pagesOf_eq_nil (h : Inv s) {r : DeliveryRow} (hr : r ∈ s.rows) (hstatus : r.status = .dead ∨ r.status = .skipped) :
    s.pagesOf r.id = [] := by
  refine List.filter_eq_nil_iff.mpr fun page hpage hdelivery => ?_
  obtain ⟨r₀, hr₀, hid, hlive⟩ := h.paged page hpage
  have hsame := Table.eq_of_key_eq h.ids hr₀ hr (hid.trans (by simpa using hdelivery))
  subst hsame
  rcases hstatus with hdead | hskipped
  · exact hlive.2.1 hdead
  · exact hlive.2.2 hskipped

/-- What holds of the deliveries after a run. -/
structure DeliveryLaw (host : Js.Host) (steps : List (Step System Action)) (s : System) : Prop where
  claimed : (steps.filterMap fun e => handedOut host e.before e.action).Nodup
  advances : ∀ e ∈ steps, ∀ r ∈ e.before.rows, ∃ r' ∈ e.after.rows, Advances r r'
  terminal : ∀ e ∈ steps, ∀ r ∈ e.before.rows, r.status.isTerminal = true → r ∈ s.rows
  completes : ∀ id leaseToken status options now r' rows',
    complete s.rows id leaseToken status options now = .ok (r', rows') →
      ∃ r ∈ s.rows, r.id = id ∧ r.leaseToken = some leaseToken ∧ (r.status = .dispatching ∨
        r.status = status.toStatus ∧ r.providerRef = clip 512 options.providerRef ∧
          r.lastError = clip 2000 options.error ∧ r' = r ∧ rows' = s.rows)
  single : ∀ id, (s.pagesOf id).length ≤ 1
  pageless : ∀ r ∈ s.rows, r.status = .dead ∨ r.status = .skipped → s.pagesOf r.id = []
  paged : ∀ r ∈ s.rows, r.status = .sent → ∃ page, s.pagesOf r.id = [page] ∧ r.providerRef = clip 512 (some page.id)

theorem deliveryLaw_of_run {s₀ : System} {steps : List (Step System Action)} (h : Run (Next host) s₀ steps s)
    (hfresh : Fresh s₀) : DeliveryLaw host steps s := by
  have hinv := inv_of_run h hfresh
  have hadvances : ∀ e ∈ steps, ∀ r ∈ e.before.rows, ∃ r' ∈ e.after.rows, Advances r r' := by
    intro e he
    obtain ⟨earlier, later, _, hbefore, hnext, _⟩ := h.split he
    have hinv' := inv_of_run hbefore hfresh
    exact (rowMove_of_next hinv' hnext).advances hinv'.ids
  refine ⟨nodup_handedOut h hfresh, hadvances, fun e he r hr hterminal => ?_, ?_, hinv.single,
    fun r hr hstatus => hinv.pagesOf_eq_nil hr hstatus, hinv.sent⟩
  · obtain ⟨earlier, later, rfl, hbefore, hnext, hafter⟩ := h.split he
    have hrest := Run.append (Run.step .start hnext) hafter
    have hstep : ∀ s a s', Inv s ∧ r ∈ s.rows → Next host s a s' → Inv s' ∧ r ∈ s'.rows := by
      intro s a s' hi hn
      obtain ⟨r', hr', hadv⟩ := (rowMove_of_next hi.1 hn).advances hi.1.ids r hi.2
      exact ⟨hi.1.next hn, hadv.eq_of_isTerminal hterminal ▸ hr'⟩
    exact (hrest.invariant hstep ⟨inv_of_run hbefore hfresh, hr⟩).2
  · intro id leaseToken status options now r' rows' hcomplete
    obtain ⟨r, hr, hid, htoken, ⟨hdispatching, _⟩ | hreplay⟩ := complete_eq_ok hinv.ids hcomplete
    · exact ⟨r, hr, hid, htoken, .inl hdispatching⟩
    · exact ⟨r, hr, hid, htoken, .inr hreplay⟩

end

/-! A report that Notion refuses once for its rate, and of which the confirmation is lost. -/

def drainHost : Js.Host where
  toLowerCase := id
  number _ := none
  numberText n := toString n.num
  toFixed12 _ := ""
  localeCompare a b := if a < b then -1 else if a = b then 0 else 1
  sha256 := id

def reportPayload : Json :=
  .obj [("report", .obj [("title", .str "Cash"), ("author", .str "agent"), ("blocks", .arr [])])]

def reportRow : DeliveryRow where
  id := "r1"
  key := "task:t1:report"
  destination := NOTION_REPORT
  payload := reportPayload
  payloadHash := reportPayload.canonicalHash drainHost
  status := .pending
  attempts := 0
  leaseToken := none
  claimedAt := none
  completedAt := none
  providerRef := none
  lastError := none
  createdAt := 0
  updatedAt := 0

def emptySystem : System := ⟨[], fun _ => ⟨.stopped, 0, ⟨true, none, none⟩, ⟨0, 0, 0, 0, 0⟩⟩, []⟩

def lostConfirmation : List Action :=
  [.enqueue reportRow, .start 0 ⟨true, some 1, none⟩, .claim 0 "t1" 1000 (fun _ => false) .none,
    .publish 0 none (.response 429 none (some "rate_limited") none),
    .publish 0 (some "page-1") (.response 200 none none (some "page-1")), .complete 0 2000 .after "fetch failed",
    .complete 0 3000 .none ""]

def lostConfirmationRun : List (Step System Action) × System :=
  (runEnabled (System.step · drainHost) emptySystem lostConfirmation).get (by decide +kernel)

theorem lostConfirmationRun_run : Run (Next drainHost) emptySystem lostConfirmationRun.1 lostConfirmationRun.2 := by
  have hrun : Run (fun s a s' => System.step s drainHost a = some s') emptySystem lostConfirmationRun.1
      lostConfirmationRun.2 ∧ lostConfirmationRun.1.map Step.action = lostConfirmation :=
    run_runEnabled (Option.some_get _).symm
  refine hrun.1.strengthen fun e he hstep => ⟨?_, hstep⟩
  have hanswers : ∀ a ∈ lostConfirmation, NotionAnswers a := by simp [lostConfirmation, NotionAnswers, published]
  exact hanswers e.action (hrun.2 ▸ List.mem_map_of_mem he)

theorem deliveryLaw_lostConfirmationRun :
    (lostConfirmationRun.2.rows.map fun r => (r.status, r.providerRef)) = [(.sent, some "page-1")] ∧
      lostConfirmationRun.2.pages = [⟨"page-1", "r1"⟩] ∧
      DeliveryLaw drainHost lostConfirmationRun.1 lostConfirmationRun.2 :=
  ⟨by decide +kernel, by decide +kernel, deliveryLaw_of_run lostConfirmationRun_run ⟨rfl, rfl, fun _ => rfl⟩⟩

end Mydon.Outbox
