import Mydon.Tasks.TaskRows

/-! What a call can do to the executions: an attempt is inserted once, takes at most one
input snapshot and one checkpoint, and ends committed or abandoned. -/

namespace Mydon.Tasks

open Mydon.Lib
open Js (Json)
open Jobs (World TaskRow ExecutionRow JobRow)
open Board

/-- What a call can do to one execution and its columns. -/
inductive ExecutionChange (b : Board) (a : Action) (x : ExecutionRow) (c : ExecutionColumns) :
    ExecutionRow → ExecutionColumns → Prop
  | kept : ExecutionChange b a x c x c
  | snapshotted (view : AgentInputSnapshotView) : x.status = .active →
    x.inputSnapshotKind = none ∧ x.inputSnapshotPayload = none ∧ x.inputSnapshotHash = none →
    ExecutionChange b a x c (snapshottedExecution x view) c
  | readied (kind : CheckpointKind) (payload : Json) (hash : String) : x.status = .active →
    (∀ job ∈ b.jobsOf x.id, World.isTerminal job.status = true) →
    ExecutionChange b a x c { x with status := .ready } (readyColumns c kind payload hash)
  | committed (id : String) (input : AgentRunCommitInput) (ids : CommitIds) (now : ℤ) (payload : Json) (hash : String)
    (approvalId : Option String) : a = .commitAgentRun id input ids now → x.status = .ready →
    x.executionAttemptId = input.executionAttemptId →
    ExecutionChange b a x c { x with status := .committed } (committedColumns c payload hash approvalId now)
  | abandoned (ledger : Ledger.LedgerEnv) (id : String) (now : ℤ) : a = .retryBlockedAgentExecution ledger id now →
    x.status = .active ∨ x.status = .ready →
    ExecutionChange b a x c { x with status := .abandoned } (abandonedColumns c now)

/-- An execution that a call inserts for the attempt of a fenced task: active, or bridged to its checkpoint. -/
structure Inserted (b : Board) (x : ExecutionRow) (c : ExecutionColumns) : Prop where
  id : ∀ e ∈ b.world.executions, e.id ≠ x.id
  attempt : ∀ e ∈ b.world.executions, e.executionAttemptId ≠ x.executionAttemptId
  own : ∃ t agentName runId, b.world.findTask t.id = some t ∧ HoldsRun t agentName runId x.executionAttemptId ∧
    x.taskId = t.id
  status : (x.status = .active ∧ c.checkpointKind = none ∧ c.checkpointPayload = none ∧ c.checkpointHash = none) ∨
    x.status = .ready
  outcome : c.outcomePayload = none ∧ c.outcomeHash = none ∧ c.approvalId = none

/-- What a call can do to the table. -/
inductive ExecutionsChange (b : Board) (a : Action) : List ExecutionRow → (String → ExecutionColumns) → Prop
  | same : ExecutionsChange b a b.world.executions b.executionColumns
  | add (x : ExecutionRow) (c : ExecutionColumns) : Inserted b x c →
    ExecutionsChange b a (b.world.executions ++ [x]) (Function.update b.executionColumns x.id c)
  | change (x x' : ExecutionRow) (c' : ExecutionColumns) : x ∈ b.world.executions →
    ExecutionChange b a x (b.executionColumns x.id) x' c' →
    ExecutionsChange b a (Table.write ExecutionRow.id b.world.executions x')
      (Function.update b.executionColumns x.id c')

theorem ExecutionChange.key {b : Board} {a : Action} {x x' : ExecutionRow} {c c' : ExecutionColumns}
    (h : ExecutionChange b a x c x' c') :
    x'.id = x.id ∧ x'.executionAttemptId = x.executionAttemptId ∧ x'.taskId = x.taskId := by
  rcases h with _ | _ | _ | _ | _ <;> exact ⟨rfl, rfl, rfl⟩

section
variable {env : Env} {b b' : Board} {a : Action} {row : TaskRow} {fence : Fence} {x : ExecutionRow}
  {c : ExecutionColumns}

theorem NewExecution.inserted (h : NewExecution b row fence x c) (hfenced : Fenced b row fence) : Inserted b x c := by
  obtain ⟨_, _, _, rfl⟩ := h.columns
  have hholds := hfenced.holds
  rw [← h.attemptId] at hholds
  exact ⟨h.id, h.attempt, ⟨row, _, _, hfenced.found, hholds, h.own⟩, .inl ⟨h.active, rfl, rfl, rfl⟩, rfl, rfl, rfl⟩

/-- A bridged execution is ready as soon as it is there. -/
theorem NewExecution.inserted_ready (h : NewExecution b row fence x c) (hfenced : Fenced b row fence)
    (kind : CheckpointKind) (payload : Json) (hash : String) :
    Inserted b { x with status := .ready } (readyColumns c kind payload hash) := by
  have hinserted := h.inserted hfenced
  exact ⟨hinserted.id, hinserted.attempt, hinserted.own, .inr rfl, hinserted.outcome⟩

theorem write_append_new {rows : List ExecutionRow} (x' : ExecutionRow) (hid : ∀ e ∈ rows, e.id ≠ x.id)
    (hkey : x'.id = x.id) : Table.write ExecutionRow.id (rows ++ [x]) x' = rows ++ [x'] := by
  unfold Table.write
  rw [List.map_append, List.map_singleton, if_pos hkey.symm]
  congr 1
  refine (List.map_congr_left fun e he => ?_).trans rows.map_id
  rw [hkey, if_neg (hid e he)]
  rfl

theorem Cancels.executions {executionId : String} (h : Cancels b executionId b') :
    b'.world.executions = b.world.executions ∧ b'.executionColumns = b.executionColumns := by
  obtain ⟨_, _, _, _, _, _, rfl⟩ := h.released
  exact ⟨rfl, rfl⟩

theorem Cleans.executions {status : Jobs.TaskStatus} (h : Cleans b row status b') :
    b'.world.executions = b.world.executions ∧ b'.executionColumns = b.executionColumns := by
  rcases h with _ | _ | _ | ⟨_, _, _, _, hc⟩
  · exact ⟨rfl, rfl⟩
  · exact ⟨rfl, rfl⟩
  · exact ⟨rfl, rfl⟩
  · exact hc.executions

/-- The LLM jobs change no execution. -/
theorem executions_moved {w w' : World} (h : Jobs.Moved w w') : w'.executions = w.executions := by
  induction h with
  | refl => rfl
  | tail _ hmove ih =>
    rw [← ih]
    rcases hmove with _ | _ | _ | _ | _ | _ | _ | _ | _ | _ <;> rfl

theorem Effect.executions (h : Effect env b a b') :
    ExecutionsChange b a b'.world.executions b'.executionColumns := by
  rcases h with _ | _ | _ | _ | _ | ⟨_, _, _, _, _, _, hfenced, hbridged⟩ |
    ⟨_, _, _, _, _, execution, columns, hfenced, hnew⟩ | ⟨row, input, now, execution, view, hfenced, hx, hactive, hnone⟩ |
    ⟨_, _, _, _, _, execution, payload, hash, hfenced, hx, _, hactive, hterminal⟩ |
    ⟨row, input, now, createdAt, newId, execution, columns, payload, hash, hfenced, hnew⟩ |
    ⟨row, input, ids, now, execution, recorded, hash, approvalId, deliveryId, hfenced, hx, _, hready, hrec⟩ | _ |
    ⟨_, _, _, attemptId, _, _, now, _, _⟩ | _ |
    ⟨row, ledger, now, execution, cancelled, _, _, hx, hstatus, _, hcancels⟩ | _ | ⟨_, _, _, _, _, _, _, _, hcleans⟩ |
    ⟨_, _, _, _, _, _, _, _, _, hcleans⟩ | _ | _ | ⟨_, _, hmoved⟩
  · exact .same
  · exact .same
  · exact .same
  · exact .same
  · exact .same
  · rcases hbridged with _ | ⟨execution, columns, hnew⟩
    · exact .same
    · exact .add execution columns (hnew.inserted hfenced)
  · exact .add execution columns (hnew.inserted hfenced)
  · have h : ExecutionsChange b (.ensureAgentRunInputSnapshot row.id input now) _ _ :=
      .change _ _ _ (Table.mem_of_lookup hx) (.snapshotted view hactive hnone)
    rwa [Function.update_eq_self] at h
  · exact .change _ _ _ (Table.mem_of_lookup hx) (.readied _ payload hash hactive hterminal)
  · have h : ExecutionsChange b (.checkpointAgentRun row.id input now createdAt newId) _ _ :=
      .add _ _ (hnew.inserted_ready hfenced input.kind payload hash)
    unfold Board.makeReady Board.addExecution Board.setExecutionColumns Board.writeExecution
    dsimp only
    rw [write_append_new { execution with status := .ready } hnew.id rfl, Function.update_idem, Function.update_self]
    exact h
  · have hattempt : execution.executionAttemptId = input.executionAttemptId := Table.key_of_lookup hx
    have h := ExecutionsChange.change (b := b) _ _ _ (Table.mem_of_lookup hx)
      (.committed row.id input ids now (outcomeJson row.id execution.executionAttemptId (commitPayload input) approvalId
        deliveryId) hash approvalId rfl hready hattempt)
    unfold Board.closeRun Board.setExecutionColumns Board.writeExecution Board.setTaskColumns Board.writeTask
    rw [hrec.world, hrec.executionColumns]
    exact h
  · exact .same
  · split_ifs
    · unfold Board.loseDispatches
      split <;> exact .same
    · exact .same
  · exact .same
  · obtain ⟨attempt, _, hx⟩ := Option.bind_eq_some_iff.mp hx
    obtain ⟨hrows, hcolumns⟩ := hcancels.executions
    have h := ExecutionsChange.change (b := b) _ _ _ (Table.mem_of_lookup hx) (.abandoned ledger row.id now rfl hstatus)
    unfold Board.abandon Board.setExecutionColumns Board.writeExecution Board.writeTask
    rw [hrows, hcolumns]
    exact h
  · exact .same
  · obtain ⟨hrows, hcolumns⟩ := hcleans.executions
    rw [hrows, hcolumns]
    exact .same
  · obtain ⟨hrows, hcolumns⟩ := hcleans.executions
    unfold Board.setTaskColumns Board.writeTask
    dsimp only [World.writeTask]
    rw [hrows, hcolumns]
    exact .same
  · exact .same
  · exact .same
  · have hrows := executions_moved hmoved
    rw [hrows]
    exact .same

/-- Ids and attempts are unique. -/
structure Keyed (b : Board) : Prop where
  ids : (b.world.executions.map ExecutionRow.id).Nodup
  attempts : (b.world.executions.map ExecutionRow.executionAttemptId).Nodup

theorem keyed_emptyBoard : Keyed emptyBoard := ⟨List.nodup_nil, List.nodup_nil⟩

theorem Keyed.find (h : Keyed b) {attempt : String} :
    b.world.findExecutionByAttempt attempt = some x ↔ x ∈ b.world.executions ∧ x.executionAttemptId = attempt :=
  Table.lookup_eq_some_iff h.attempts

theorem map_append_new {κ : Type} {f : ExecutionRow → κ} (hnd : (b.world.executions.map f).Nodup)
    (hnew : ∀ e ∈ b.world.executions, f e ≠ f x) : ((b.world.executions ++ [x]).map f).Nodup := by
  rw [List.map_append, List.map_singleton, ← List.concat_eq_append]
  refine hnd.concat fun hmem => ?_
  obtain ⟨e, he, hf⟩ := List.mem_map.mp hmem
  exact hnew e he hf

theorem Effect.keyed (h : Effect env b a b') (hk : Keyed b) : Keyed b' := by
  have hchange := h.executions
  generalize hrows : b'.world.executions = rows at hchange
  generalize b'.executionColumns = columns at hchange
  suffices hnd : (rows.map ExecutionRow.id).Nodup ∧ (rows.map ExecutionRow.executionAttemptId).Nodup by
    rw [← hrows] at hnd
    exact ⟨hnd.1, hnd.2⟩
  rcases hchange with _ | ⟨x, c, hinserted⟩ | ⟨x, x', c', hx, hchange⟩
  · exact ⟨hk.ids, hk.attempts⟩
  · exact ⟨map_append_new hk.ids hinserted.id, map_append_new hk.attempts hinserted.attempt⟩
  · obtain ⟨hid, hattempt, _⟩ := hchange.key
    rw [Table.map_key_write, Table.map_write]
    · exact ⟨hk.ids, hk.attempts⟩
    · intro e he hkey
      rw [hid] at hkey
      rw [hattempt, Table.eq_of_key_eq hk.ids he hx hkey]

/-- An execution is still there after a call, changed as the call changes it. -/
theorem Effect.execution (h : Effect env b a b') (hk : Keyed b) (hx : x ∈ b.world.executions) :
    ∃ x' ∈ b'.world.executions, x'.id = x.id ∧
      ExecutionChange b a x (b.executionColumns x.id) x' (b'.executionColumns x.id) := by
  have hchange := h.executions
  generalize b'.world.executions = rows, b'.executionColumns = columns at hchange
  rcases hchange with _ | ⟨y, c, hinserted⟩ | ⟨y, y', c', hy, hchange⟩
  · exact ⟨x, hx, rfl, .kept⟩
  · refine ⟨x, List.mem_append_left _ hx, rfl, ?_⟩
    rw [Function.update_of_ne (hinserted.id x hx)]
    exact .kept
  · obtain ⟨hid, _, _⟩ := hchange.key
    by_cases hxy : x.id = y.id
    · obtain rfl : x = y := Table.eq_of_key_eq hk.ids hx hy hxy
      refine ⟨y', Table.mem_write.mpr (.inr ⟨rfl, x, hx, hid.symm⟩), hid, ?_⟩
      rw [Function.update_self]
      exact hchange
    · refine ⟨x, Table.mem_write_of_ne hx (hid ▸ hxy), rfl, ?_⟩
      rw [Function.update_of_ne hxy]
      exact .kept

/-- What is there after a call was there before it, or is inserted by it. -/
theorem Effect.execution_of_after (h : Effect env b a b') (hk : Keyed b) {x' : ExecutionRow}
    (hx' : x' ∈ b'.world.executions) :
    (∃ x ∈ b.world.executions, x'.id = x.id ∧
      ExecutionChange b a x (b.executionColumns x.id) x' (b'.executionColumns x.id)) ∨
      Inserted b x' (b'.executionColumns x'.id) := by
  by_cases hold : ∃ x ∈ b.world.executions, x.id = x'.id
  · obtain ⟨x, hx, hid⟩ := hold
    obtain ⟨y, hy, hyid, hchange⟩ := h.execution hk hx
    obtain rfl : y = x' := Table.eq_of_key_eq (h.keyed hk).ids hy hx' (hyid.trans hid)
    exact .inl ⟨x, hx, hyid, hchange⟩
  · have hchange := h.executions
    generalize b'.world.executions = rows, b'.executionColumns = columns at hchange hx' ⊢
    rcases hchange with _ | ⟨y, c, hinserted⟩ | ⟨y, y', c', hy, hchange⟩
    · exact absurd ⟨x', hx', rfl⟩ hold
    · rcases List.mem_append.mp hx' with hx' | hx'
      · exact absurd ⟨x', hx', rfl⟩ hold
      · rw [List.mem_singleton.mp hx', Function.update_self]
        exact .inr hinserted
    · rcases Table.mem_write.mp hx' with ⟨hx', _⟩ | ⟨rfl, _⟩
      · exact absurd ⟨x', hx', rfl⟩ hold
      · exact absurd ⟨y, hy, hchange.key.1.symm⟩ hold

end

end Mydon.Tasks
