import Mydon.Tasks.Effects

/-! What a call can do to the row of a task, and to its generation. -/

namespace Mydon.Tasks

open Mydon.Lib
open Jobs (World TaskRow TaskStatus)
open Board

/-- A change that keeps the attempt, keeps the run or clears it, and closes nothing. -/
structure Kept (t t' : TaskRow) : Prop where
  id : t'.id = t.id
  attempt : t'.agentExecutionAttemptId = t.agentExecutionAttemptId
  run : (t'.agentRunId = t.agentRunId ∧ t'.agentRunClaimedAt = t.agentRunClaimedAt) ∨
    (t'.agentRunId = none ∧ t'.agentRunClaimedAt = none)
  status : t'.status = t.status ∨ isOpen t'

theorem Kept.refl (t : TaskRow) : Kept t t := ⟨rfl, rfl, .inl ⟨rfl, rfl⟩, .inl rfl⟩

theorem Kept.trans {t t' t'' : TaskRow} (h : Kept t t') (h' : Kept t' t'') : Kept t t'' := by
  refine ⟨h'.id.trans h.id, h'.attempt.trans h.attempt, ?_, ?_⟩
  · rcases h'.run with ⟨hr, hc⟩ | hnone
    · rw [hr, hc]
      exact h.run
    · exact .inr hnone
  · rcases h'.status with hs | hopen
    · unfold isOpen
      rw [hs]
      exact h.status
    · exact .inr hopen

/-- A run that is cleared and a status that is open are what every release has. -/
theorem kept_cleared {t t' : TaskRow} (hid : t'.id = t.id)
    (hattempt : t'.agentExecutionAttemptId = t.agentExecutionAttemptId) (hrun : t'.agentRunId = none)
    (hclaimed : t'.agentRunClaimedAt = none) (hstatus : t'.status = .todo) : Kept t t' := by
  refine ⟨hid, hattempt, .inr ⟨hrun, hclaimed⟩, .inr ?_⟩
  unfold isOpen
  rw [hstatus]
  exact ⟨TaskStatus.noConfusion, TaskStatus.noConfusion⟩

theorem kept_blockedTask (t : TaskRow) (reason : String) (now : ℤ) : Kept t (World.blockedTask t reason now) :=
  kept_cleared rfl rfl rfl rfl rfl

/-- The row without its run, and without its attempt. -/
structure Rotated (t t' : TaskRow) : Prop where
  id : t'.id = t.id
  attempt : t'.agentExecutionAttemptId = none
  run : t'.agentRunId = none ∧ t'.agentRunClaimedAt = none
  open_ : isOpen t'

/-- What a call can do to the row of one task. -/
inductive RowChange (b : Board) (a : Action) (t : TaskRow) : TaskRow → Prop
  | kept (t' : TaskRow) : Kept t t' → RowChange b a t t'
  | taken (agentName : String) (now : ℤ) (invocation : Invocation) (runId newAttemptId : String) :
    a = .claimAgentRun t.id agentName now invocation runId newAttemptId → claimable t agentName now invocation →
    RowChange b a t (claimedTask t runId newAttemptId now)
  | takenBlocked (agentName : String) (now : ℤ) (invocation : Invocation) (runId newAttemptId reason : String) :
    a = .claimAgentRun t.id agentName now invocation runId newAttemptId → claimable t agentName now invocation →
    RowChange b a t (World.blockedTask (claimedTask t runId newAttemptId now) reason now)
  | renewed (agentName runId : String) (now : ℤ) : a = .heartbeatAgentRun t.id agentName runId now →
    HoldsLease t agentName runId → RowChange b a t { t with agentRunClaimedAt := some now }
  | closed (input : AgentRunCommitInput) (ids : CommitIds) (now : ℤ) : a = .commitAgentRun t.id input ids now →
    Fenced b t input.toFence → RowChange b a t (closedTask t)
  | status (ledger : Ledger.LedgerEnv) (status : TaskStatus) (actorRef : String) (resultNote expected : Option String)
    (now : ℤ) : a = .setStatus ledger t.id status actorRef resultNote expected now →
    RowChange b a t { t with status }
  | rotated (agentName runId executionAttemptId : String) (detail : Option String) (now : ℤ) (t' : TaskRow) :
    a = .releaseAgentRun t.id agentName runId executionAttemptId (some .budgetDenied) detail now →
    HoldsRun t agentName runId executionAttemptId →
    (b.releaseEvidence t.id executionAttemptId (some .budgetDenied)).safeBudgetRetry = true →
    Rotated t t' → RowChange b a t t'
  | retried (ledger : Ledger.LedgerEnv) (now : ℤ) : a = .retryBlockedAgentExecution ledger t.id now → isRetryable t →
    RowChange b a t (retriedTask t)

section
variable {env : Env} {b b' : Board} {a : Action} {id : String} {row row' t : TaskRow}

theorem findTask_writeTask (hfound : b.world.findTask row.id = some row) (hid : row'.id = row.id)
    (ht : b.world.findTask id = some t) :
    (id = row.id ∧ t = row ∧ (b.writeTask row').world.findTask id = some row') ∨
      (id ≠ row.id ∧ (b.writeTask row').world.findTask id = some t) := by
  by_cases h : id = row.id
  · subst h
    rw [hfound] at ht
    refine .inl ⟨rfl, (Option.some.inj ht).symm, ?_⟩
    rw [← hid] at hfound ⊢
    exact Table.lookup_write_self hfound
  · refine .inr ⟨h, ?_⟩
    have : (b.writeTask row').world.findTask id = b.world.findTask id :=
      Table.lookup_write_of_ne (by rwa [hid])
    rw [this, ht]

/-- Only a budget that may be retried safely takes the attempt away. -/
theorem releasedTask_cases (t : TaskRow) (reason : Option ReleaseReason) (evidence : ReleaseEvidence)
    (detail : Option String) (now : ℤ) :
    Kept t (releasedTask t reason evidence detail now) ∨
      (evidence.safeBudgetRetry = true ∧ Rotated t (releasedTask t reason evidence detail now)) := by
  unfold releasedTask
  split_ifs with _ hsafe
  · exact .inl (kept_cleared rfl rfl rfl rfl rfl)
  · exact .inr ⟨hsafe, rfl, rfl, ⟨rfl, rfl⟩, TaskStatus.noConfusion, TaskStatus.noConfusion⟩
  · exact .inl (kept_cleared rfl rfl rfl rfl rfl)
  · exact .inl (kept_cleared rfl rfl rfl rfl rfl)
  · exact .inl (kept_cleared rfl rfl rfl rfl rfl)
  · exact .inl (kept_cleared rfl rfl rfl rfl rfl)

theorem reason_of_safeBudgetRetry {attemptId : String} {reason : Option ReleaseReason}
    (h : (b.releaseEvidence id attemptId reason).safeBudgetRetry = true) : reason = some .budgetDenied := by
  simp only [Board.releaseEvidence, Bool.and_eq_true, decide_eq_true_eq] at h
  exact h.1.1

theorem kept_unassignedTask (changed : Bool) : Kept t (unassignedTask t changed) := by
  unfold unassignedTask
  split_ifs
  · exact ⟨rfl, rfl, .inr ⟨rfl, rfl⟩, .inl rfl⟩
  · exact .refl t

theorem kept_awaitingRetry (blocked : Bool) (reason : String) (now : ℤ) : Kept t (awaitingRetry t blocked reason now) := by
  unfold awaitingRetry
  split_ifs
  · exact ⟨rfl, rfl, .inl ⟨rfl, rfl⟩, .inl rfl⟩
  · exact .refl t

theorem kept_editedTask (before : TaskRow) (patch : EditPatch) (now : ℤ) : Kept t (editedTask before t patch now) := by
  have hpatch : Kept t (patchedTask t patch) := ⟨rfl, rfl, .inl ⟨rfl, rfl⟩, .inl rfl⟩
  exact (hpatch.trans (kept_unassignedTask _)).trans (kept_awaitingRetry _ _ _)

theorem kept_ratedTask (quality : Quality) (now : ℤ) : Kept t (ratedTask t quality now) := by
  unfold ratedTask
  split_ifs
  · have hredo : Kept t { t with status := .inProgress } :=
      ⟨rfl, rfl, .inl ⟨rfl, rfl⟩, .inr ⟨TaskStatus.noConfusion, TaskStatus.noConfusion⟩⟩
    exact (hredo.trans (kept_unassignedTask _)).trans (kept_awaitingRetry _ _ _)
  · exact .refl t

/-- The LLM jobs block an open task, or unblock it. -/
theorem kept_move {w w' : World} (h : Jobs.Move w w') (ht : w.findTask id = some t) :
    ∃ t', w'.findTask id = some t' ∧ Kept t t' := by
  have hwrite : ∀ row row' : TaskRow, w.findTask row.id = some row → row'.id = row.id → Kept row row' →
      ∃ t', (w.writeTask row').findTask id = some t' ∧ Kept t t' := by
    intro row row' hfound hid hkept
    rcases findTask_writeTask (b := ⟨w, fun _ => {}, fun _ => {}, [], [], []⟩) hfound hid ht with
      ⟨_, rfl, h⟩ | ⟨_, h⟩
    · exact ⟨row', h, hkept⟩
    · exact ⟨t, h, .refl t⟩
  rcases h with ⟨task, reason, now, hfound, _⟩ | ⟨task, hfound, hst⟩ | _ | _ | _ | _ | _ | _ | _ | _
  · exact hwrite task _ hfound rfl (kept_blockedTask task reason now)
  · refine hwrite task _ hfound rfl ⟨rfl, rfl, .inl ⟨rfl, rfl⟩, .inl ?_⟩
    exact hst.symm
  all_goals exact ⟨t, ht, .refl t⟩

theorem kept_moved {w w' : World} (h : Jobs.Moved w w') (ht : w.findTask id = some t) :
    ∃ t', w'.findTask id = some t' ∧ Kept t t' := by
  induction h with
  | refl => exact ⟨t, ht, .refl t⟩
  | tail _ hmove ih =>
    obtain ⟨t', ht', hk⟩ := ih
    obtain ⟨t'', ht'', hk'⟩ := kept_move hmove ht'
    exact ⟨t'', ht'', hk.trans hk'⟩

/-- Cancelling jobs does not touch the tasks. -/
theorem Cancels.tasks {executionId : String} (h : Cancels b executionId b') : b'.world.tasks = b.world.tasks := by
  obtain ⟨_, _, _, _, _, _, rfl⟩ := h.released
  rfl

theorem Cleans.tasks {status : TaskStatus} (h : Cleans b row status b') : b'.world.tasks = b.world.tasks := by
  rcases h with _ | _ | _ | ⟨_, _, _, _, hc⟩
  · rfl
  · rfl
  · rfl
  · exact hc.tasks

theorem loseDispatches_tasks (executionAttemptId : String) (now : ℤ) :
    (b.loseDispatches executionAttemptId now).world.tasks = b.world.tasks := by
  unfold Board.loseDispatches
  split <;> rfl

theorem Bridged.tasks {fence : Fence} (h : Bridged b row fence b') : b'.world.tasks = b.world.tasks := by
  rcases h with _ | _ <;> rfl

theorem findTask_congr {w w' : World} (h : w'.tasks = w.tasks) (id : String) : w'.findTask id = w.findTask id := by
  unfold World.findTask
  rw [h]

/-- The LLM jobs touch open tasks only. -/
theorem done_move {w w' : World} (h : Jobs.Move w w') (ht : w.findTask id = some t) (hdone : t.status = .done) :
    w'.findTask id = some t := by
  have hother : ∀ row row' : TaskRow, w.findTask row.id = some row → row.status ≠ .done → row'.id = row.id →
      (w.writeTask row').findTask id = some t := by
    intro row row' hfound hopen hid
    have hne : id ≠ row'.id := by
      rintro rfl
      rw [hid, hfound] at ht
      cases ht
      exact hopen hdone
    exact (Table.lookup_write_of_ne hne).trans ht
  rcases h with ⟨task, reason, now, hfound, hopen, _⟩ | ⟨task, hfound, hst⟩ | _ | _ | _ | _ | _ | _ | _ | _
  · exact hother task _ hfound hopen rfl
  · exact hother task _ hfound (by rw [hst]; exact TaskStatus.noConfusion) rfl
  all_goals exact ht

theorem done_moved {w w' : World} (h : Jobs.Moved w w') (ht : w.findTask id = some t) (hdone : t.status = .done) :
    w'.findTask id = some t := by
  induction h with
  | refl => exact ht
  | tail _ hmove ih => exact done_move hmove ih hdone

theorem status_editedTask (before row : TaskRow) (patch : EditPatch) (now : ℤ) :
    (editedTask before row patch now).status = row.status := by
  unfold editedTask awaitingRetry unassignedTask patchedTask
  dsimp only
  split_ifs <;> rfl

/-- A status and a redo may take a task out of done. -/
def Reopening (id : String) (a : Action) : Prop :=
  (∃ ledger status actorRef note expected now, a = .setStatus ledger id status actorRef note expected now ∧
    status ≠ .done) ∨ ∃ actor now, a = .rate id .redo actor now

/-- The row of a task after a call. Nothing else takes it out of done. -/
theorem Effect.taskRow (h : Effect env b a b') (ht : b.world.findTask id = some t) :
    ∃ t', b'.world.findTask id = some t' ∧ RowChange b a t t' ∧
      (t.status = .done → t'.status = .done ∨ Reopening id a) := by
  have hsame : ∀ b' : Board, b'.world.tasks = b.world.tasks →
      ∃ t', b'.world.findTask id = some t' ∧ RowChange b a t t' ∧
        (t.status = .done → t'.status = .done ∨ Reopening id a) := fun b' htasks =>
    ⟨t, by rw [findTask_congr htasks, ht], .kept t (.refl t), .inl⟩
  -- a row written on a board that has the tasks of this one
  have hwrite : ∀ (b₁ : Board) (row row' : TaskRow), b₁.world.tasks = b.world.tasks →
      b.world.findTask row.id = some row → row'.id = row.id → RowChange b a row row' →
      (row.status = .done → row'.status = .done ∨ Reopening row.id a) →
      ∃ t', (b₁.writeTask row').world.findTask id = some t' ∧ RowChange b a t t' ∧
        (t.status = .done → t'.status = .done ∨ Reopening id a) := by
    intro b₁ row row' htasks hfound hid hchange hdone
    rw [← findTask_congr htasks] at hfound ht
    rcases findTask_writeTask hfound hid ht with ⟨rfl, rfl, h⟩ | ⟨_, h⟩
    · exact ⟨row', h, hchange, hdone⟩
    · exact ⟨t, h, .kept t (.refl t), .inl⟩
  -- a task that a run holds, that may be claimed or that may be retried is open
  have hopen : ∀ {row row' : TaskRow}, isOpen row → row.status = .done → row'.status = .done ∨ Reopening row.id a :=
    fun hopen hd => absurd hd hopen.1
  rcases h with _ | ⟨row, now, hnew⟩ | ⟨row, agentName, now, invocation, runId, newAttemptId, hfound, hclaim⟩ |
    ⟨row, agentName, now, invocation, runId, newAttemptId, reason, hfound, hclaim⟩ |
    ⟨row, agentName, runId, now, hfound, hholds⟩ | ⟨_, row, fence, reason, bridged, _, hfenced, hbridged⟩ |
    ⟨row, input, now, createdAt, newId, execution, columns, hfenced, hnew⟩ |
    ⟨row, input, now, execution, view, hfenced, hx, _, _⟩ |
    ⟨row, input, now, createdAt, newId, execution, payload, hash, hfenced, hx, _, _, _⟩ |
    ⟨row, input, now, createdAt, newId, execution, columns, payload, hash, hfenced, hnew⟩ |
    ⟨row, input, ids, now, execution, recorded, hash, approvalId, deliveryId, hfenced, hx, _, _, hrec⟩ |
    ⟨row, input, ids, now, hfenced⟩ | ⟨row, agentName, runId, attemptId, reason, detail, now, hfound, hholds⟩ |
    ⟨row, ledger, now, execution, hfound, hretryable, hx, _⟩ |
    ⟨row, ledger, now, execution, cancelled, hfound, hretryable, hx, _, _, hcancels⟩ |
    ⟨row, ledger, now, hfound, hretryable, _⟩ | ⟨row, ledger, actorRef, note, expected, now, cleaned, hfound, hcleans⟩ |
    ⟨row, ledger, status, actorRef, note, expected, now, cleaned, hfound, hcleans⟩ |
    ⟨row, before, patch, actor, now, hfound⟩ | ⟨row, quality, actor, now, hfound, _⟩ | ⟨call, world, hmoved⟩
  · exact hsame b rfl
  · refine ⟨t, ?_, .kept t (.refl t), .inl⟩
    simp only [World.findTask, Table.lookup, List.find?_append] at ht ⊢
    rw [ht]
    rfl
  · exact hwrite b row _ rfl hfound rfl (.taken agentName now invocation runId newAttemptId rfl hclaim)
      (hopen hclaim.2.2.2.1)
  · have hid : (claimedTask row runId newAttemptId now).id = row.id := rfl
    rcases findTask_writeTask hfound hid ht with ⟨rfl, rfl, hclaimed⟩ | ⟨hne, hother⟩
    · refine ⟨_, Table.lookup_write_self hclaimed,
        .takenBlocked agentName now invocation runId newAttemptId reason rfl hclaim, hopen hclaim.2.2.2.1⟩
    · refine ⟨t, ?_, .kept t (.refl t), .inl⟩
      rw [← hother]
      exact Table.lookup_write_of_ne hne
  · exact hwrite b row _ rfl hfound rfl (.renewed agentName runId now rfl hholds) .inl
  · exact hwrite bridged row _ hbridged.tasks hfenced.found rfl (.kept _ (kept_blockedTask ..))
      (hopen hfenced.holds.1.open_)
  · exact hsame _ rfl
  · exact hsame _ rfl
  · exact hsame _ rfl
  · exact hsame _ rfl
  · exact hwrite recorded row _ (by rw [hrec.world]) hfenced.found rfl (.closed input ids now rfl hfenced)
      fun _ => .inl rfl
  · exact hwrite b row _ rfl hfenced.found rfl (.kept _ (kept_cleared rfl rfl rfl rfl rfl)) (hopen hfenced.holds.1.open_)
  · have htasks : (if reason = some .executionUnknown then b.loseDispatches attemptId now else b).world.tasks =
        b.world.tasks := by
      split_ifs
      · exact loseDispatches_tasks attemptId now
      · rfl
    rcases releasedTask_cases row reason ((if reason = some .executionUnknown then b.loseDispatches attemptId now
        else b).releaseEvidence row.id attemptId reason) detail now with hkept | ⟨hsafe, hrotated⟩
    · exact hwrite _ row _ htasks hfound hkept.id (.kept _ hkept) (hopen hholds.1.open_)
    · obtain rfl := reason_of_safeBudgetRetry hsafe
      exact hwrite _ row _ htasks hfound hrotated.id
        (.rotated agentName runId attemptId detail now _ rfl hholds hsafe hrotated) (hopen hholds.1.open_)
  · exact hwrite _ row _ rfl hfound rfl (.kept _ (kept_cleared rfl rfl rfl rfl rfl)) (hopen hretryable.2.2)
  · exact hwrite (cancelled.abandon execution now) row _ hcancels.tasks hfound rfl (.retried ledger now rfl hretryable)
      (hopen hretryable.2.2)
  · exact hwrite b row _ rfl hfound rfl (.retried ledger now rfl hretryable) (hopen hretryable.2.2)
  · exact hsame _ hcleans.tasks
  · refine hwrite cleaned row _ hcleans.tasks hfound rfl (.status ledger status actorRef note expected now rfl) fun _ => ?_
    by_cases hstatus : status = .done
    · exact .inl hstatus
    · exact .inr (.inl ⟨ledger, status, actorRef, note, expected, now, rfl, hstatus⟩)
  · exact hwrite b row _ rfl hfound (kept_editedTask ..).id (.kept _ (kept_editedTask ..)) fun hd =>
      .inl ((status_editedTask before row patch now).trans hd)
  · refine hwrite b row _ rfl hfound (kept_ratedTask ..).id (.kept _ (kept_ratedTask ..)) fun hd => ?_
    by_cases hredo : quality = .redo
    · subst hredo
      exact .inr (.inr ⟨actor, now, rfl⟩)
    · unfold ratedTask
      rw [if_neg hredo]
      exact .inl hd
  · obtain ⟨t', ht', hk⟩ := kept_moved hmoved ht
    refine ⟨t', ht', .kept t' hk, fun hdone => ?_⟩
    obtain rfl := Option.some.inj (ht'.symm.trans (done_moved hmoved ht hdone))
    exact .inl hdone

/-- The ids of the tasks. -/
def taskIds (b : Board) : List String := b.world.tasks.map TaskRow.id

theorem taskIds_congr (h : b'.world.tasks = b.world.tasks) : taskIds b' = taskIds b := by
  unfold taskIds
  rw [h]

@[simp] theorem taskIds_writeTask (row : TaskRow) : taskIds (b.writeTask row) = taskIds b :=
  Table.map_key_write

theorem taskIds_moved {w w' : World} (h : Jobs.Moved w w') : w'.tasks.map TaskRow.id = w.tasks.map TaskRow.id := by
  induction h with
  | refl => rfl
  | tail _ hmove ih =>
    rw [← ih]
    rcases hmove with _ | _ | _ | _ | _ | _ | _ | _ | _ | _ <;> first | rfl | exact Table.map_key_write

theorem Effect.taskIds (h : Effect env b a b') :
    taskIds b' = taskIds b ∨ ∃ row now, a = .createTask row now ∧ row.id ∉ taskIds b ∧
      b'.world.tasks = b.world.tasks ++ [newTask row] := by
  rcases h with _ | ⟨row, now, hnew⟩ | _ | _ | _ | ⟨_, row, _, _, bridged, _, _, hbridged⟩ | _ | _ | _ | _ |
    ⟨row, _, _, _, _, recorded, _, _, _, _, _, _, _, hrec⟩ | _ | ⟨row, _, _, attemptId, reason, _, now, _, _⟩ | _ |
    ⟨row, _, now, execution, cancelled, _, _, _, _, _, hcancels⟩ | _ | ⟨_, _, _, _, _, _, _, _, hcleans⟩ |
    ⟨_, _, _, _, _, _, _, cleaned, _, hcleans⟩ | _ | _ | ⟨_, _, hmoved⟩
  · exact .inl rfl
  · refine .inr ⟨row, now, rfl, fun hmem => ?_, rfl⟩
    obtain ⟨t, ht, hid⟩ := List.mem_map.mp hmem
    exact hnew t ht hid
  · exact .inl (taskIds_writeTask _)
  · exact .inl ((taskIds_writeTask _).trans (taskIds_writeTask _))
  · exact .inl (taskIds_writeTask _)
  · exact .inl ((taskIds_writeTask _).trans (taskIds_congr hbridged.tasks))
  · exact .inl rfl
  · exact .inl rfl
  · exact .inl rfl
  · exact .inl rfl
  · exact .inl ((taskIds_writeTask _).trans (taskIds_congr (by rw [hrec.world])))
  · exact .inl (taskIds_writeTask _)
  · refine .inl ((taskIds_writeTask _).trans (taskIds_congr ?_))
    split_ifs
    · exact loseDispatches_tasks attemptId now
    · rfl
  · exact .inl (taskIds_writeTask _)
  · exact .inl ((taskIds_writeTask _).trans (taskIds_congr hcancels.tasks))
  · exact .inl (taskIds_writeTask _)
  · exact .inl (taskIds_congr hcleans.tasks)
  · exact .inl ((taskIds_writeTask _).trans (taskIds_congr hcleans.tasks))
  · exact .inl (taskIds_writeTask _)
  · exact .inl (taskIds_writeTask _)
  · exact .inl (taskIds_moved hmoved)

theorem findTask_eq_none_iff : b.world.findTask id = none ↔ id ∉ taskIds b := by
  unfold World.findTask Tasks.taskIds
  rw [Table.lookup_eq_none_iff, List.mem_map]
  push Not
  rfl

/-- A task that a call creates has no run and no attempt. -/
theorem Effect.newTaskRow (h : Effect env b a b') (hnone : b.world.findTask id = none)
    (ht : b'.world.findTask id = some t) : ∃ row, t = newTask row := by
  rcases h.taskIds with hids | ⟨row, now, _, _, htasks⟩
  · rw [findTask_eq_none_iff, ← hids, ← findTask_eq_none_iff, ht] at hnone
    cases hnone
  · have hmem : t ∈ b.world.tasks ++ [newTask row] := htasks ▸ Table.mem_of_lookup ht
    rcases List.mem_append.mp hmem with hold | hnew
    · exact absurd (Table.key_of_lookup ht) (Table.lookup_eq_none_iff.mp hnone t hold)
    · exact ⟨row, List.mem_singleton.mp hnew⟩

theorem generation_setTaskColumns {columns : TaskColumns} (rowId : String)
    (h : columns.agentRunGeneration = (b.taskColumns rowId).agentRunGeneration) (id : String) :
    ((b.setTaskColumns rowId columns).taskColumns id).agentRunGeneration =
      (b.taskColumns id).agentRunGeneration := by
  unfold Board.setTaskColumns
  by_cases hid : id = rowId
  · subst hid
    simp only [Function.update_self, h]
  · simp only [Function.update_of_ne hid]

theorem generation_takeRun (row : TaskRow) (runId newAttemptId : String) (now : ℤ) (id : String) :
    ((b.takeRun row runId newAttemptId now).taskColumns id).agentRunGeneration =
      (b.taskColumns id).agentRunGeneration + if id = row.id then 1 else 0 := by
  unfold Board.takeRun Board.setTaskColumns
  by_cases hid : id = row.id
  · subst hid
    simp [Board.writeTask]
  · simp [hid, Board.writeTask]

theorem taskColumns_cancels {executionId : String} (h : Cancels b executionId b') :
    b'.taskColumns = b.taskColumns := by
  obtain ⟨_, _, _, _, _, _, rfl⟩ := h.released
  rfl

theorem taskColumns_cleans {status : TaskStatus} (h : Cleans b row status b') : b'.taskColumns = b.taskColumns := by
  rcases h with _ | _ | _ | ⟨_, _, _, _, hc⟩
  · rfl
  · rfl
  · rfl
  · exact taskColumns_cancels hc

/-- Only a claim counts a generation. -/
theorem Effect.generation (h : Effect env b a b') (id : String) :
    (b'.taskColumns id).agentRunGeneration = (b.taskColumns id).agentRunGeneration ∨
      ∃ agentName now invocation runId newAttemptId,
        a = .claimAgentRun id agentName now invocation runId newAttemptId ∧
        (b'.taskColumns id).agentRunGeneration = (b.taskColumns id).agentRunGeneration + 1 := by
  rcases h with _ | _ | ⟨row, agentName, now, invocation, runId, newAttemptId, _, _⟩ |
    ⟨row, agentName, now, invocation, runId, newAttemptId, reason, _, _⟩ | _ | ⟨_, _, _, _, _, _, _, hbridged⟩ | _ | _ |
    _ | _ | ⟨row, _, _, _, _, recorded, _, _, _, _, _, _, _, hrec⟩ | _ | ⟨_, _, _, attemptId, reason, _, now, _, _⟩ | _ |
    ⟨_, _, _, _, _, _, _, _, _, _, hcancels⟩ | _ | ⟨_, _, _, _, _, _, _, _, hcleans⟩ |
    ⟨row, _, status, actorRef, note, _, now, cleaned, _, hcleans⟩ | _ | ⟨row, quality, _, now, _, _⟩ | _
  · exact .inl rfl
  · exact .inl rfl
  · by_cases hid : id = row.id
    · subst hid
      exact .inr ⟨agentName, now, invocation, runId, newAttemptId, rfl, by rw [generation_takeRun, if_pos rfl]⟩
    · exact .inl (by rw [generation_takeRun, if_neg hid, Nat.add_zero])
  · by_cases hid : id = row.id
    · subst hid
      refine .inr ⟨agentName, now, invocation, runId, newAttemptId, rfl, ?_⟩
      exact (generation_takeRun row runId newAttemptId now row.id).trans (by rw [if_pos rfl])
    · exact .inl ((generation_takeRun row runId newAttemptId now id).trans (by rw [if_neg hid, Nat.add_zero]))
  · exact .inl rfl
  · rcases hbridged with _ | _ <;> exact .inl rfl
  · exact .inl rfl
  · exact .inl rfl
  · exact .inl rfl
  · exact .inl rfl
  · left
    unfold Board.closeRun
    refine (generation_setTaskColumns (b := recorded.writeTask _) row.id ?_ id).trans ?_
    · rfl
    · simp only [Board.writeTask, hrec.taskColumns]
  · exact .inl rfl
  · left
    split_ifs
    · unfold Board.loseDispatches
      split <;> rfl
    · rfl
  · exact .inl rfl
  · exact .inl (congrArg (fun c => (c id).agentRunGeneration) (taskColumns_cancels hcancels))
  · exact .inl rfl
  · exact .inl (congrArg (fun c => (c id).agentRunGeneration) (taskColumns_cleans hcleans))
  · left
    rw [generation_setTaskColumns (b := cleaned.writeTask _) row.id]
    · exact congrArg (fun c => (c id).agentRunGeneration) (taskColumns_cleans hcleans)
    · unfold statusColumns
      split_ifs <;> rfl
  · exact .inl rfl
  · left
    refine generation_setTaskColumns (b := b.writeTask _) row.id ?_ id
    rfl
  · exact .inl rfl

end

end Mydon.Tasks
