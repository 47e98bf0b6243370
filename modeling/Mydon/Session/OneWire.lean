import Mydon.Jobs.Dispatch
import Mydon.Session.System

/-! The provider is asked once for a job, with the body that is stored for it, however the sessions'
steps fall and whatever they lose. -/

namespace Mydon.Session

open Mydon.Lib
open Mydon.Jobs (World JobStatus EnsureResponse ClaimResponse CompleteResponse StoredResult StoredFor Sound KeepsBodies
  ExecutionPlanStep)
open Js (Json HttpError)
open Ledger (LedgerEnv)

/-- A session that has asked nothing of the provider yet. -/
def System.Unasked (s : System) (i : ℕ) : Prop := ∀ c ∈ s.invocations, c.session ≠ i

/-- What is true of a session, by its phase. -/
def TaskLlmSession.Fits (s : System) (i : ℕ) (σ : TaskLlmSession) : Prop :=
  match σ.phase with
  | .ensuring => s.Unasked i
  | .claiming _ dispatchToken _ => σ.token = some dispatchToken ∧ s.Unasked i
  | .dispatching jobId dispatchToken _ => σ.token = some dispatchToken ∧ s.Unasked i ∧ GrantedTo s.core jobId dispatchToken
  | .returned jobId result => StoredFor s.core jobId result
  | _ => True

structure Inv (s : System) : Prop where
  core : Sound s.core
  fits : ∀ i σ, s.sessions i = some σ → σ.Fits s i
  tokens : ∀ i i' σ σ' t, s.sessions i = some σ → s.sessions i' = some σ' → σ.token = some t → σ'.token = some t → i = i'
  granted : ∀ c ∈ s.invocations, ∃ σ, s.sessions c.session = some σ ∧ ∃ t, σ.token = some t ∧ GrantedTo s.core c.jobId t
  once : (s.invocations.map Invocation.session).Nodup

section
variable {s s' : System} {i : ℕ} {σ σ' : TaskLlmSession} {w : World} {steps : List (Step System Action)}

theorem TaskLlmSession.Fits.congr (h : σ.Fits s i) (hi : s'.invocations = s.invocations) (hmove : CoreMove s.core s'.core)
    (hs : Sound s.core) : σ.Fits s' i := by
  unfold TaskLlmSession.Fits System.Unasked at *
  rw [hi]
  split at h
  · exact h
  · exact h
  · exact ⟨h.1, h.2.1, h.2.2.move hmove hs⟩
  · exact StoredFor.move h hmove hs
  · trivial

theorem Inv.setCore (h : Inv s) (hmove : CoreMove s.core w) : Inv (s.setCore w) := by
  refine ⟨hmove.sound h.core, fun i σ hσ => (h.fits i σ hσ).congr rfl hmove h.core, h.tokens, fun c hc => ?_, h.once⟩
  obtain ⟨σ, hσ, t, ht, hg⟩ := h.granted c hc
  exact ⟨σ, hσ, t, ht, hg.move hmove h.core⟩

/-- A session goes on under a token that no other session has. -/
theorem Inv.setSession (h : Inv s) (hfits : σ'.Fits s i)
    (htoken : ∀ t, σ'.token = some t → ∀ i' ≠ i, ∀ σ, s.sessions i' = some σ → σ.token ≠ some t)
    (hasked : s.Unasked i ∨ ∃ σ, s.sessions i = some σ ∧ σ'.token = σ.token) : Inv (s.setSession i σ') := by
  have hself : (s.setSession i σ').sessions i = some σ' := Function.update_self ..
  have hother : ∀ i' ≠ i, (s.setSession i σ').sessions i' = s.sessions i' := fun i' hne => Function.update_of_ne hne ..
  refine ⟨h.core, fun i' σ hσ => ?_, fun i₁ i₂ σ₁ σ₂ t h₁ h₂ ht₁ ht₂ => ?_, fun c hc => ?_, h.once⟩
  · have hcongr : ∀ {j : ℕ} {σ₁ : TaskLlmSession}, σ₁.Fits s j → σ₁.Fits (s.setSession i σ') j := fun hf =>
      hf.congr rfl (.inl rfl) h.core
    rcases eq_or_ne i' i with rfl | hne
    · rw [hself] at hσ
      cases hσ
      exact hcongr hfits
    · rw [hother i' hne] at hσ
      exact hcongr (h.fits i' σ hσ)
  · by_cases hne₁ : i₁ = i <;> by_cases hne₂ : i₂ = i
    · rw [hne₁, hne₂]
    · rw [hne₁, hself] at h₁
      cases h₁
      rw [hother i₂ hne₂] at h₂
      exact absurd ht₂ (htoken t ht₁ i₂ hne₂ σ₂ h₂)
    · rw [hne₂, hself] at h₂
      cases h₂
      rw [hother i₁ hne₁] at h₁
      exact absurd ht₁ (htoken t ht₂ i₁ hne₁ σ₁ h₁)
    · rw [hother i₁ hne₁] at h₁
      rw [hother i₂ hne₂] at h₂
      exact h.tokens i₁ i₂ σ₁ σ₂ t h₁ h₂ ht₁ ht₂
  · obtain ⟨σ, hσ, t, ht, hg⟩ := h.granted c hc
    rcases eq_or_ne c.session i with hci | hne
    · rcases hasked with hnone | ⟨σ₀, hσ₀, hsame⟩
      · exact absurd hci (hnone c hc)
      · rw [hci] at hσ ⊢
        obtain rfl : σ = σ₀ := Option.some.inj (hσ.symm.trans hσ₀)
        exact ⟨σ', hself, t, hsame.trans ht, hg⟩
    · exact ⟨σ, (hother _ hne).trans hσ, t, ht, hg⟩

/-- A session that keeps its token goes on. -/
theorem Inv.goOn (h : Inv s) (hσ : s.sessions i = some σ) (htoken : σ'.token = σ.token) (hfits : σ'.Fits s i) :
    Inv (s.setSession i σ') := by
  refine h.setSession hfits (fun t ht i' hne σ₁ hσ₁ ht₁ => ?_) (.inr ⟨σ, hσ, htoken⟩)
  exact hne (h.tokens i' i σ₁ σ t hσ₁ hσ ht₁ (htoken ▸ ht))

/-- The provider is asked by a session to which the dispatch was granted, and that has not asked before. -/
theorem Inv.invoke (h : Inv s) {c : Invocation} {t : String} (hσ : s.sessions c.session = some σ)
    (htoken : σ.token = some t) (hg : GrantedTo s.core c.jobId t) (hunasked : s.Unasked c.session)
    (hfits : ∀ s' : System, σ.Fits s' c.session) : Inv { s with invocations := s.invocations ++ [c] } := by
  refine ⟨h.core, fun i σ' hσ' => ?_, h.tokens, fun c' hc' => ?_, ?_⟩
  · rcases eq_or_ne i c.session with rfl | hne
    · obtain rfl : σ' = σ := Option.some.inj (hσ'.symm.trans hσ)
      exact hfits _
    · have hf := h.fits i σ' hσ'
      have hunasked' : s.Unasked i → System.Unasked { s with invocations := s.invocations ++ [c] } i := by
        intro hi c' hc'
        rcases List.mem_append.mp hc' with hc' | hc'
        · exact hi c' hc'
        · rw [List.mem_singleton.mp hc']
          exact hne.symm
      unfold TaskLlmSession.Fits at hf ⊢
      split at hf
      · exact hunasked' hf
      · exact ⟨hf.1, hunasked' hf.2⟩
      · exact ⟨hf.1, hunasked' hf.2.1, hf.2.2⟩
      · exact hf
      · trivial
  · rcases List.mem_append.mp hc' with hc' | hc'
    · exact h.granted c' hc'
    · rw [List.mem_singleton.mp hc']
      exact ⟨σ, hσ, t, htoken, hg⟩
  · change ((s.invocations ++ [c]).map Invocation.session).Nodup
    rw [List.map_append, List.map_singleton, ← List.concat_eq_append]
    refine h.once.concat fun hmem => ?_
    obtain ⟨c', hc', hsame⟩ := List.mem_map.mp hmem
    exact hunasked c' hc' hsame

theorem Inv.next {a : Action} (h : Inv s) (hnext : Next s a s') : Inv s' := by
  obtain ⟨hdraws, hstep⟩ := hnext
  unfold Enabled System.step at hstep
  rcases a with action | ⟨i, fence, step, route⟩ | i | ⟨i, env, now, clock, newJobId, newSpendId, dispatchToken, loss⟩ |
    ⟨i, env, now, clock, newSpendId, loss⟩ | ⟨i, host, reply⟩ | ⟨i, env, now, detectedAt, loss⟩
  · cases hstep
    exact h.setCore (.inr ⟨action, rfl⟩)
  · dsimp only at hstep
    split at hstep
    · rename_i hnone
      cases hstep
      have hunasked : s.Unasked i := by
        intro c hc hci
        obtain ⟨σ, hσ, _⟩ := h.granted c hc
        rw [hci, hnone] at hσ
        cases hσ
      exact h.setSession hunasked (fun t ht => nomatch ht) (.inl hunasked)
    · cases hstep
  · obtain ⟨σ, hσ, rfl⟩ := Option.map_eq_some_iff.mp hstep
    exact h.goOn hσ rfl trivial
  · obtain ⟨σ, hσ, hstep⟩ := Option.bind_eq_some_iff.mp hstep
    split at hstep
    · rename_i hphase
      have hunasked : s.Unasked i := by
        have hf := h.fits i σ hσ
        unfold TaskLlmSession.Fits at hf
        rwa [hphase] at hf
      have hmove : CoreMove s.core (σ.callEnsure s.core env now clock newJobId newSpendId loss).2 := coreMove_call _ _
      rcases hcall : σ.callEnsure s.core env now clock newJobId newSpendId loss with ⟨reply, core⟩
      rw [hcall] at hstep hmove
      cases hstep
      refine (h.setCore hmove).setSession ?_ (fun t ht i' hne σ₁ hσ₁ => ?_) (.inl hunasked)
      · rcases ensured_cases σ dispatchToken reply with ⟨e, hp⟩ | ⟨r, result, rfl, hr, _, hp⟩ | ⟨r, rfl, _, hp⟩ <;>
          rw [hp]
        · trivial
        · have hok := callEnsure_eq_ok (congrArg Prod.fst hcall)
          rw [hcall] at hok
          exact Jobs.ensure_result hok hr
        · exact ⟨rfl, hunasked⟩
      · cases ht
        exact hdraws i' σ₁ hσ₁
    · cases hstep
  · obtain ⟨σ, hσ, hstep⟩ := Option.bind_eq_some_iff.mp hstep
    split at hstep
    · rename_i ensured dispatchToken recovery hphase
      obtain ⟨htoken, hunasked⟩ : σ.token = some dispatchToken ∧ s.Unasked i := by
        have hf := h.fits i σ hσ
        unfold TaskLlmSession.Fits at hf
        rwa [hphase] at hf
      have hmove : CoreMove s.core (σ.callClaim s.core ensured.jobId dispatchToken env now clock newSpendId loss).2 :=
        coreMove_call _ _
      rcases hcall : σ.callClaim s.core ensured.jobId dispatchToken env now clock newSpendId loss with ⟨reply, core⟩
      rw [hcall] at hstep hmove
      cases hstep
      refine (h.setCore hmove).goOn hσ rfl ?_
      rcases claimed_cases σ ensured dispatchToken recovery reply with ⟨e, hp⟩ | ⟨r, result, rfl, hr, _, hp⟩ |
        ⟨_, hp⟩ | ⟨r, payload, rfl, hg, _, hp⟩ <;> rw [hp]
      · trivial
      · have hok := callClaim_eq_ok (congrArg Prod.fst hcall)
        rw [hcall] at hok
        exact (Jobs.claimDispatch_answered hok).1 result hr
      · exact ⟨htoken, hunasked⟩
      · have hgranted := callClaim_granted (congrArg Prod.fst hcall) hg
        rw [hcall] at hgranted
        exact ⟨htoken, hunasked, hgranted⟩
    · cases hstep
  · obtain ⟨σ, hσ, hstep⟩ := Option.bind_eq_some_iff.mp hstep
    split at hstep
    · rename_i jobId dispatchToken payload hphase
      obtain ⟨htoken, hunasked, hg⟩ : σ.token = some dispatchToken ∧ s.Unasked i ∧ GrantedTo s.core jobId dispatchToken := by
        have hf := h.fits i σ hσ
        unfold TaskLlmSession.Fits at hf
        rwa [hphase] at hf
      cases hstep
      have hfits : ∀ s' : System, TaskLlmSession.Fits s' i
          { σ with phase := TaskLlmSession.answered host jobId dispatchToken reply } := by
        intro s'
        rcases reply with message | ⟨outcome, result⟩ <;> trivial
      have hgone : Inv (s.setSession i { σ with phase := TaskLlmSession.answered host jobId dispatchToken reply }) :=
        h.goOn hσ rfl (hfits s)
      exact @Inv.invoke _ _ hgone ⟨i, jobId, payload⟩ dispatchToken (Function.update_self ..) htoken hg hunasked hfits
    · cases hstep
  · obtain ⟨σ, hσ, hstep⟩ := Option.bind_eq_some_iff.mp hstep
    split at hstep
    · rename_i jobId input provider recovery hphase
      have hmove : CoreMove s.core (σ.callComplete s.core jobId input env now detectedAt loss).2 := coreMove_call _ _
      rcases hcall : σ.callComplete s.core jobId input env now detectedAt loss with ⟨reply, core⟩
      rw [hcall] at hstep hmove
      cases hstep
      refine (h.setCore hmove).goOn hσ rfl ?_
      rcases completed_cases σ jobId input provider recovery reply with ⟨e, hp⟩ | ⟨r, result, rfl, hr, hp⟩ | hp <;> rw [hp]
      · trivial
      · have hok := callComplete_eq_ok (congrArg Prod.fst hcall)
        rw [hcall] at hok
        exact Jobs.complete_result hok hr
      · trivial
    · cases hstep

theorem Fresh.inv (h : Fresh s) : Inv s := by
  refine ⟨by rw [h.core]; exact Jobs.sound_empty, fun i σ hσ => ?_, fun i _ σ _ _ hσ => ?_, ?_, ?_⟩
  · rw [h.sessions] at hσ
    cases hσ
  · rw [h.sessions] at hσ
    cases hσ
  · rw [h.invocations]
    exact List.forall_mem_nil _
  · rw [h.invocations]
    exact List.nodup_nil

theorem inv_of_run {s₀ : System} (h : Run Next s₀ steps s) (hfresh : Fresh s₀) :
    Inv s := h.invariant (fun _ _ _ hi hn => hi.next hn) hfresh.inv

/-! What a step may change. -/

/-- The session that takes the step. -/
def Action.session : Action → Option ℕ
  | .core _ => none
  | .start i _ _ _ => some i
  | .crash i => some i
  | .ensure i _ _ _ _ _ _ _ => some i
  | .claim i _ _ _ _ _ => some i
  | .dispatch i _ _ => some i
  | .complete i _ _ _ _ => some i

/-- What becomes of the phase of the session that takes the step. -/
inductive Turn (s : System) (i : ℕ) : Phase → List Invocation → Prop
  | started : s.sessions i = none → Turn s i .ensuring []
  | crashed : Turn s i .crashed []
  | ensured (σ : TaskLlmSession) (token : String) (reply : Except CallError EnsureResponse) :
    s.sessions i = some σ → σ.phase = .ensuring → Turn s i (σ.ensured token reply) []
  | claimed (σ : TaskLlmSession) (ensured : EnsureResponse) (token : String) (recovery : Bool)
    (reply : Except CallError ClaimResponse) : s.sessions i = some σ → σ.phase = .claiming ensured token recovery →
    (∀ r, reply = .ok r → r.granted = true → ∀ payload, r.requestPayload = some payload →
      ∃ job ∈ s.core.jobs, job.id = ensured.jobId ∧ ∃ stored, job.requestPayload = some stored ∧
        payload = stored.canonical) → Turn s i (σ.claimed ensured token recovery reply) []
  | asked (σ : TaskLlmSession) (host : Js.Host) (jobId token : String) (payload : Json)
    (reply : Except String (ProviderOutcome × ProviderResult)) : s.sessions i = some σ →
    σ.phase = .dispatching jobId token payload →
    Turn s i (TaskLlmSession.answered host jobId token reply) [⟨i, jobId, payload⟩]
  | completed (σ : TaskLlmSession) (jobId : String) (input : Jobs.CompleteDto) (provider : Except String ProviderOutcome)
    (recovery : Bool) (reply : Except CallError CompleteResponse) : s.sessions i = some σ →
    σ.phase = .completing jobId input provider recovery → Turn s i (σ.completed jobId input provider recovery reply) []

/-- What a step does: to Core, and to the session that takes it. -/
theorem step_cases {a : Action} (hstep : s.step a = some s') : CoreMove s.core s'.core ∧
    ((a.session = none ∧ s'.sessions = s.sessions ∧ s'.invocations = s.invocations) ∨
      ∃ i σ' calls, a.session = some i ∧ s'.sessions = Function.update s.sessions i (some σ') ∧
        (∀ t, σ'.token = some t → (∃ σ, s.sessions i = some σ ∧ σ.token = some t) ∨ a.draws = some t) ∧
        Turn s i σ'.phase calls ∧ s'.invocations = s.invocations ++ calls) := by
  have hnil : s.invocations = s.invocations ++ [] := (List.append_nil _).symm
  unfold System.step at hstep
  rcases a with action | ⟨i, fence, step, route⟩ | i | ⟨i, env, now, clock, newJobId, newSpendId, dispatchToken, loss⟩ |
    ⟨i, env, now, clock, newSpendId, loss⟩ | ⟨i, host, reply⟩ | ⟨i, env, now, detectedAt, loss⟩
  · cases hstep
    exact ⟨.inr ⟨action, rfl⟩, .inl ⟨rfl, rfl, rfl⟩⟩
  · dsimp only at hstep
    split at hstep
    · rename_i hnone
      cases hstep
      exact ⟨.inl rfl, .inr ⟨i, _, [], rfl, rfl, fun _ ht => (nomatch ht), .started hnone, hnil⟩⟩
    · cases hstep
  · obtain ⟨σ, hσ, rfl⟩ := Option.map_eq_some_iff.mp hstep
    exact ⟨.inl rfl, .inr ⟨i, _, [], rfl, rfl, fun _ ht => .inl ⟨σ, hσ, ht⟩, .crashed, hnil⟩⟩
  · obtain ⟨σ, hσ, hstep⟩ := Option.bind_eq_some_iff.mp hstep
    split at hstep
    · rename_i hphase
      cases hstep
      exact ⟨coreMove_call _ _, .inr ⟨i, _, [], rfl, rfl, fun _ ht => .inr ht,
        .ensured σ dispatchToken _ hσ hphase, hnil⟩⟩
    · cases hstep
  · obtain ⟨σ, hσ, hstep⟩ := Option.bind_eq_some_iff.mp hstep
    split at hstep
    · rename_i ensured dispatchToken recovery hphase
      cases hstep
      refine ⟨coreMove_call _ _, .inr ⟨i, _, [], rfl, rfl, fun _ ht => .inl ⟨σ, hσ, ht⟩,
        .claimed σ ensured dispatchToken recovery _ hσ hphase fun r hr hg payload hpayload => ?_, hnil⟩⟩
      exact (Jobs.claimDispatch_answered (callClaim_eq_ok hr)).2 hg payload hpayload
    · cases hstep
  · obtain ⟨σ, hσ, hstep⟩ := Option.bind_eq_some_iff.mp hstep
    split at hstep
    · rename_i jobId dispatchToken payload hphase
      cases hstep
      exact ⟨.inl rfl, .inr ⟨i, _, _, rfl, rfl, fun _ ht => .inl ⟨σ, hσ, ht⟩,
        .asked σ host jobId dispatchToken payload reply hσ hphase, rfl⟩⟩
    · cases hstep
  · obtain ⟨σ, hσ, hstep⟩ := Option.bind_eq_some_iff.mp hstep
    split at hstep
    · rename_i jobId input provider recovery hphase
      cases hstep
      exact ⟨coreMove_call _ _, .inr ⟨i, _, [], rfl, rfl, fun _ ht => .inl ⟨σ, hσ, ht⟩,
        .completed σ jobId input provider recovery _ hσ hphase, hnil⟩⟩
    · cases hstep

/-- A step leaves the other sessions alone. -/
theorem step_frame {a : Action} (hstep : s.step a = some s') (j : ℕ) (hj : a.session ≠ some j) :
    s'.sessions j = s.sessions j := by
  rcases (step_cases hstep).2 with ⟨_, hsame, _⟩ | ⟨i, σ', _, hi, hset, _, _, _⟩
  · rw [hsame]
  · rw [hset, Function.update_of_ne (by rintro rfl; exact hj hi)]

theorem step_turn {a : Action} (hstep : s.step a = some s') : (a.session = none ∧ s'.invocations = s.invocations) ∨
    ∃ i σ' calls, a.session = some i ∧ s'.sessions i = some σ' ∧ Turn s i σ'.phase calls ∧
      s'.invocations = s.invocations ++ calls := by
  rcases (step_cases hstep).2 with ⟨hnone, _, hcalls⟩ | ⟨i, σ', calls, hi, hset, _, hturn, hcalls⟩
  · exact .inl ⟨hnone, hcalls⟩
  · exact .inr ⟨i, σ', calls, hi, by rw [hset, Function.update_self], hturn, hcalls⟩

theorem Turn.session_of_mem {p : Phase} {calls : List Invocation} (h : Turn s i p calls) : ∀ c ∈ calls, c.session = i := by
  rcases h with _ | _ | _ | _ | ⟨σ, host, jobId, token, payload, reply, _, _⟩ | _
  · exact List.forall_mem_nil _
  · exact List.forall_mem_nil _
  · exact List.forall_mem_nil _
  · exact List.forall_mem_nil _
  · intro c hc
    rw [List.mem_singleton.mp hc]
  · exact List.forall_mem_nil _

/-! A session that saw a job that is not its to dispatch. -/

def Phase.ended : Phase → Prop
  | .threw _ => True
  | .crashed => True
  | _ => False

/-- A session that is over can only be stopped. -/
theorem Turn.of_ended {p : Phase} {calls : List Invocation} (h : Turn s i p calls) (hσ : s.sessions i = some σ)
    (hended : σ.phase.ended) : p = .crashed ∧ calls = [] := by
  have hother : ∀ σ₁ q, s.sessions i = some σ₁ → σ₁.phase = q → q.ended := by
    intro σ₁ q h₁ hq
    rw [hσ] at h₁
    cases h₁
    exact hq ▸ hended
  rcases h with hnone | _ | ⟨σ₁, _, _, h₁, hp⟩ | ⟨σ₁, _, _, _, _, h₁, hp, _⟩ | ⟨σ₁, _, _, _, _, _, h₁, hp⟩ |
    ⟨σ₁, _, _, _, _, _, h₁, hp⟩
  · rw [hσ] at hnone
    cases hnone
  · exact ⟨rfl, rfl⟩
  · exact (hother _ _ h₁ hp).elim
  · exact (hother _ _ h₁ hp).elim
  · exact (hother _ _ h₁ hp).elim
  · exact (hother _ _ h₁ hp).elim

/-- The session is over, and has asked nothing of the provider. -/
def System.Silent (s : System) (i : ℕ) : Prop := s.Unasked i ∧ ∃ σ, s.sessions i = some σ ∧ σ.phase.ended

theorem System.Silent.step {a : Action} (h : s.Silent i) (hstep : s.step a = some s') : s'.Silent i := by
  obtain ⟨hunasked, σ, hσ, hended⟩ := h
  have hother : a.session ≠ some i → s'.sessions i = some σ := fun hne => (step_frame hstep i hne).trans hσ
  rcases step_turn hstep with ⟨hnone, hcalls⟩ | ⟨j, σ', calls, hj, hσ', hturn, hcalls⟩
  · refine ⟨?_, σ, hother (by rw [hnone]; nofun), hended⟩
    unfold System.Unasked
    rwa [hcalls]
  · rcases eq_or_ne j i with rfl | hne
    · obtain ⟨hcrashed, rfl⟩ := hturn.of_ended hσ hended
      refine ⟨?_, σ', hσ', by rw [hcrashed]; trivial⟩
      unfold System.Unasked
      rwa [hcalls, List.append_nil]
    · refine ⟨fun c hc => ?_, σ, hother (by rw [hj]; exact fun heq => hne (Option.some.inj heq)), hended⟩
      rw [hcalls] at hc
      rcases List.mem_append.mp hc with hc | hc
      · exact hunasked c hc
      · rw [hturn.session_of_mem c hc]
        exact hne

theorem System.Silent.run (h : s.Silent i) (hrun : Run Next s steps s') :
    s'.Silent i := by
  have hstep : ∀ (t : System) (a : Action) (t' : System), t.Silent i → Next t a t' → t'.Silent i :=
    fun _ _ _ hs hn => hs.step hn.2
  exact @Run.invariant _ _ Next s s' steps (fun t => t.Silent i) hstep hrun h

/-- A session that sees its job dispatched, lost or out of budget throws. -/
theorem silent_of_observed {a : Action} (hinv : Inv s) (hnext : Next s a s') {jobId : String} {status : JobStatus}
    (hobserved : observed s a = some (i, jobId, status))
    (hstatus : status = .dispatching ∨ status = .unknown ∨ status = .waitingBudget) : s'.Silent i := by
  have hlive : ¬ (status = .succeeded ∨ status = .rejected) ∧ status ≠ .ready := by
    rcases hstatus with rfl | rfl | rfl <;> decide
  have hself : ∀ (s : System) (σ : TaskLlmSession), s.Unasked i → σ.phase.ended → (s.setSession i σ).Silent i :=
    fun s σ hu hended => ⟨hu, σ, Function.update_self .., hended⟩
  obtain ⟨_, hstep⟩ := hnext
  unfold Enabled System.step at hstep
  unfold observed at hobserved
  rcases a with action | ⟨j, fence, step, route⟩ | j | ⟨j, env, now, clock, newJobId, newSpendId, dispatchToken, loss⟩ |
    ⟨j, env, now, clock, newSpendId, loss⟩ | ⟨j, host, reply⟩ | ⟨j, env, now, detectedAt, loss⟩
  · cases hobserved
  · cases hobserved
  · cases hobserved
  · obtain ⟨σ, hσ, hobserved⟩ := Option.bind_eq_some_iff.mp hobserved
    rcases hcall : σ.callEnsure s.core env now clock newJobId newSpendId loss with ⟨_ | r, core⟩
    · rw [hcall] at hobserved
      cases hobserved
    · rw [hcall] at hobserved
      cases hobserved
      simp only [hσ, Option.bind_some, hcall] at hstep
      split at hstep
      · rename_i hphase
        cases hstep
        have hf := hinv.fits _ σ hσ
        unfold TaskLlmSession.Fits at hf
        rw [hphase] at hf
        refine hself _ _ hf ?_
        rcases ensured_cases σ dispatchToken (.ok r) with ⟨e, hp⟩ | ⟨r', _, hr', _, hover, _⟩ | ⟨r', hr', hready, _⟩
        · rw [hp]
          trivial
        · cases hr'
          exact absurd hover hlive.1
        · cases hr'
          exact absurd hready hlive.2
      · cases hstep
  · obtain ⟨σ, hσ, hobserved⟩ := Option.bind_eq_some_iff.mp hobserved
    simp only [hσ, Option.bind_some] at hstep
    rcases hphase : σ.phase with _ | ⟨ensured, token, recovery⟩ | _ | _ | _ | _ | _ <;>
      simp only [hphase] at hobserved hstep
    · cases hobserved
    · rcases hcall : σ.callClaim s.core ensured.jobId token env now clock newSpendId loss with ⟨_ | r, core⟩
      · rw [hcall] at hobserved
        cases hobserved
      · simp only [hcall] at hobserved hstep
        split_ifs at hobserved with hgranted
        cases hobserved
        cases hstep
        have hf := hinv.fits _ σ hσ
        unfold TaskLlmSession.Fits at hf
        rw [hphase] at hf
        refine hself _ _ hf.2 ?_
        rcases claimed_cases σ ensured token recovery (.ok r) with ⟨e, hp⟩ | ⟨r', _, hr', _, hover, _⟩ | ⟨⟨e, he⟩, _⟩ |
          ⟨r', _, hr', hg, _⟩
        · rw [hp]
          trivial
        · cases hr'
          exact absurd hover hlive.1
        · cases he
        · cases hr'
          exact absurd hg hgranted
    · cases hobserved
    · cases hobserved
    · cases hobserved
    · cases hobserved
    · cases hobserved
  · cases hobserved
  · cases hobserved

/-! The body that the provider gets. -/

/-- The body is one that was stored for the job in the course of the run. -/
def Origin (steps : List (Step System Action)) (jobId : String) (payload : Json) : Prop :=
  ∃ e ∈ steps, ∃ job ∈ e.before.core.jobs, job.id = jobId ∧ ∃ stored, job.requestPayload = some stored ∧
    payload = stored.canonical

theorem Turn.of_dispatching {p : Phase} {calls : List Invocation} (h : Turn s i p calls) {jobId token : String}
    {payload : Json} (hp : p = .dispatching jobId token payload) : ∃ job ∈ s.core.jobs, job.id = jobId ∧
      ∃ stored, job.requestPayload = some stored ∧ payload = stored.canonical := by
  rcases h with hnone | _ | ⟨σ, token', reply, _, _⟩ | ⟨σ, ensured, token', recovery, reply, _, _, hbody⟩ |
    ⟨σ, host, jobId', token', payload', reply, _, _⟩ | ⟨σ, jobId', input, provider, recovery, reply, _, _⟩
  · cases hp
  · cases hp
  · rcases ensured_cases σ token' reply with ⟨e, hp'⟩ | ⟨_, _, _, _, _, hp'⟩ | ⟨_, _, _, hp'⟩ <;>
      (rw [hp'] at hp; cases hp)
  · rcases claimed_cases σ ensured token' recovery reply with ⟨e, hp'⟩ | ⟨_, _, _, _, _, hp'⟩ | ⟨_, hp'⟩ |
      ⟨r, payload', hr, hg, hpayload, hp'⟩ <;> (rw [hp'] at hp; cases hp)
    exact hbody r hr hg _ hpayload
  · rcases reply with message | ⟨outcome, result⟩ <;> cases hp
  · rcases completed_cases σ jobId' input provider recovery reply with ⟨e, hp'⟩ | ⟨_, _, _, _, hp'⟩ | hp' <;>
      (rw [hp'] at hp; cases hp)

theorem origin_of_run {s₀ : System} (h : Run Next s₀ steps s) (hfresh : Fresh s₀) :
    (∀ i σ jobId token payload, s.sessions i = some σ → σ.phase = .dispatching jobId token payload →
      Origin steps jobId payload) ∧ ∀ c ∈ s.invocations, Origin steps c.jobId c.payload := by
  induction h with
  | start =>
    refine ⟨fun i σ _ _ _ hσ => ?_, ?_⟩
    · rw [hfresh.sessions] at hσ
      cases hσ
    · rw [hfresh.invocations]
      exact List.forall_mem_nil _
  | @step steps s s' a hrun hnext ih =>
    obtain ⟨hphases, hinvocations⟩ := ih
    have hlater : ∀ {jobId payload}, Origin steps jobId payload → Origin (steps ++ [⟨s, a, s'⟩]) jobId payload := by
      rintro jobId payload ⟨e, he, hjob⟩
      exact ⟨e, List.mem_append_left _ he, hjob⟩
    have hframe := step_frame hnext.2
    rcases step_turn hnext.2 with ⟨hnone, hcalls⟩ | ⟨j, σ', calls, hj, hσ', hturn, hcalls⟩
    · refine ⟨fun i σ jobId token payload hσ hp => ?_, fun c hc => hlater (hinvocations c (hcalls ▸ hc))⟩
      rw [hframe i (by rw [hnone]; nofun)] at hσ
      exact hlater (hphases i σ jobId token payload hσ hp)
    · refine ⟨fun i σ jobId token payload hσ hp => ?_, fun c hc => ?_⟩
      · rcases eq_or_ne j i with rfl | hne
        · obtain rfl : σ = σ' := Option.some.inj (hσ.symm.trans hσ')
          obtain ⟨job, hjob⟩ := hturn.of_dispatching hp
          exact ⟨⟨s, a, s'⟩, List.mem_append_right _ (List.mem_singleton_self _), job, hjob⟩
        · rw [hframe i (by rw [hj]; exact fun heq => hne (Option.some.inj heq))] at hσ
          exact hlater (hphases i σ jobId token payload hσ hp)
      · rw [hcalls] at hc
        rcases List.mem_append.mp hc with hc | hc
        · exact hlater (hinvocations c hc)
        · generalize σ'.phase = p at hturn
          rcases hturn with _ | _ | _ | _ | ⟨σ, host, jobId, token, payload, reply, hσ, hphase⟩ | _
          · cases hc
          · cases hc
          · cases hc
          · cases hc
          · rw [List.mem_singleton.mp hc]
            exact hlater (hphases j σ jobId token payload hσ hphase)
          · cases hc

theorem keepsBodies_of_run (h : Run Next s steps s') (hs : Sound s.core) :
    KeepsBodies s.core s'.core := by
  have hstep : ∀ t a t', Sound t.core ∧ KeepsBodies s.core t.core → Next t a t' →
      Sound t'.core ∧ KeepsBodies s.core t'.core := by
    intro t a t' ⟨ht, hkept⟩ hn
    have hmove := (step_cases hn.2).1
    exact ⟨hmove.sound ht, hkept.trans (hmove.keepsBodies ht)⟩
  exact (h.invariant hstep ⟨hs, .of_jobs_eq rfl⟩).2

/-- A body that a job has later is the one that it had. -/
theorem body_eq_of_run (h : Run Next s steps s') (hs : Sound s.core)
    (hs' : Sound s'.core) {job job' : Jobs.JobRow} (hjob : job ∈ s.core.jobs) (hjob' : job' ∈ s'.core.jobs)
    (hid : job'.id = job.id) {stored : Json} (hstored : job'.requestPayload = some stored) :
    job.requestPayload = some stored := by
  obtain ⟨job'', hjob'', hid'', hbody⟩ := keepsBodies_of_run h hs job hjob
  obtain rfl : job'' = job' := Table.eq_of_key_eq hs'.tables.ids hjob'' hjob' (hid''.trans hid.symm)
  rcases hbody with hnone | hsame
  · rw [hnone] at hstored
    cases hstored
  · exact hsame ▸ hstored

/-! Tokens that are drawn once are fresh when they are drawn. -/

theorem token_of_step {a : Action} (hstep : s.step a = some s') (hσ : s'.sessions i = some σ) {t : String}
    (ht : σ.token = some t) : (∃ σ₀, s.sessions i = some σ₀ ∧ σ₀.token = some t) ∨ a.draws = some t := by
  rcases (step_cases hstep).2 with ⟨_, hsame, _⟩ | ⟨j, σ', _, _, hset, htoken, _, _⟩
  · exact .inl ⟨σ, hsame ▸ hσ, ht⟩
  · rw [hset, Function.update_apply] at hσ
    split_ifs at hσ with hij
    · obtain rfl := Option.some.inj hσ
      exact hij ▸ htoken t ht
    · exact .inl ⟨σ, hσ, ht⟩

/-- Every token of a session was drawn in the run. -/
theorem token_mem_of_run {s₀ : System} (h : Run Enabled s₀ steps s) (hfresh : Fresh s₀) :
    ∀ i σ t, s.sessions i = some σ → σ.token = some t → t ∈ steps.filterMap fun e => e.action.draws := by
  induction h with
  | start =>
    intro i σ t hσ
    rw [hfresh.sessions] at hσ
    cases hσ
  | @step steps s s' a _ hstep ih =>
    intro i σ t hσ ht
    rw [List.filterMap_append]
    rcases token_of_step hstep hσ ht with ⟨σ₀, hσ₀, ht₀⟩ | hdraws
    · exact List.mem_append_left _ (ih i σ₀ t hσ₀ ht₀)
    · exact List.mem_append_right _ (List.mem_filterMap.mpr ⟨_, List.mem_singleton_self _, hdraws⟩)

theorem run_of_tokens {s₀ : System} (h : Run Enabled s₀ steps s) (hfresh : Fresh s₀)
    (htokens : (steps.filterMap fun e => e.action.draws).Nodup) : Run Next s₀ steps s := by
  refine h.strengthen fun e he hstep => ⟨?_, hstep⟩
  obtain ⟨earlier, later, rfl, hbefore, _, _⟩ := h.split he
  have hdrawn := token_mem_of_run hbefore hfresh
  obtain ⟨before, a, after⟩ := e
  rcases a with action | ⟨j, fence, step, route⟩ | j | ⟨j, env, now, clock, newJobId, newSpendId, dispatchToken, loss⟩ |
    ⟨j, env, now, clock, newSpendId, loss⟩ | ⟨j, host, reply⟩ | ⟨j, env, now, detectedAt, loss⟩
  · trivial
  · trivial
  · trivial
  · intro i σ hσ ht
    rw [List.filterMap_append, List.nodup_append] at htokens
    refine htokens.2.2 _ (hdrawn i σ dispatchToken hσ ht) dispatchToken ?_ rfl
    exact List.mem_filterMap.mpr ⟨_, List.mem_cons_self, rfl⟩
  · trivial
  · trivial
  · trivial

/-- What holds of the calls of the provider after a run. -/
structure WireLaw (steps : List (Step System Action)) (s : System) : Prop where
  once : ∀ jobId, (s.invocations.filter (·.jobId = jobId)).length ≤ 1
  stored : ∀ c ∈ s.invocations, Origin steps c.jobId c.payload
  payload : ∀ c ∈ s.invocations, ∀ e ∈ steps, ∀ job ∈ e.after.core.jobs, job.id = c.jobId →
    ∀ stored, job.requestPayload = some stored → c.payload = stored.canonical
  returned : ∀ i σ jobId result, s.sessions i = some σ → σ.phase = .returned jobId result → StoredFor s.core jobId result
  silent : ∀ e ∈ steps, ∀ i jobId status, observed e.before e.action = some (i, jobId, status) →
    status = .dispatching ∨ status = .unknown ∨ status = .waitingBudget → ∀ c ∈ s.invocations, c.session ≠ i

theorem wireLaw_of_run {s₀ : System} {steps : List (Step System Action)} (hrun : Run Enabled s₀ steps s)
    (hfresh : Fresh s₀) (htokens : (steps.filterMap fun e => e.action.draws).Nodup) : WireLaw steps s := by
  have h := run_of_tokens hrun hfresh htokens
  have hinv := inv_of_run h hfresh
  have horigin := (origin_of_run h hfresh).2
  refine ⟨fun jobId => ?_, horigin, fun c hc e he job hjob hid stored hstored => ?_, fun i σ jobId result hσ hp => ?_,
    fun e he i jobId status hobserved hstatus => ?_⟩
  · have hsame : ∀ c ∈ s.invocations.filter (·.jobId = jobId), ∀ c' ∈ s.invocations.filter (·.jobId = jobId),
        c.session = c'.session := by
      intro c hc c' hc'
      simp only [List.mem_filter, decide_eq_true_eq] at hc hc'
      obtain ⟨σ, hσ, t, ht, hg⟩ := hinv.granted c hc.1
      obtain ⟨σ', hσ', t', ht', hg'⟩ := hinv.granted c' hc'.1
      rw [hc.2] at hg
      rw [hc'.2] at hg'
      obtain rfl := hg.token_eq hg' hinv.core
      exact hinv.tokens _ _ σ σ' t hσ hσ' ht ht'
    have hnd : ((s.invocations.filter (·.jobId = jobId)).map Invocation.session).Nodup :=
      (List.filter_sublist.map _).nodup hinv.once
    generalize s.invocations.filter (·.jobId = jobId) = calls at hsame hnd
    rcases calls with _ | ⟨c, _ | ⟨c', calls⟩⟩
    · exact Nat.zero_le _
    · exact le_rfl
    · have heq := hsame c List.mem_cons_self c' (List.mem_cons_of_mem _ List.mem_cons_self)
      rw [List.map_cons, List.map_cons, heq] at hnd
      exact absurd List.mem_cons_self (List.nodup_cons.mp hnd).1
  · obtain ⟨e', he', job', hjob', hid', stored', hstored', hpayload⟩ := horigin c hc
    have hids : job'.id = job.id := hid'.trans hid.symm
    obtain ⟨earlier, later, rfl, hbefore, hnext, hafter⟩ := h.split he'
    have hsound := (inv_of_run hbefore hfresh).core
    have hrest := Run.append (Run.step .start hnext) hafter
    suffices heq : stored' = stored by rw [hpayload, heq]
    rcases List.mem_append.mp he with hm | hm
    · obtain ⟨earlier', later', rfl, hbefore', hnext', hafter'⟩ := hbefore.split hm
      have hsound' := (inv_of_run (hbefore'.step hnext') hfresh).core
      have hbody := body_eq_of_run hafter' hsound' hsound hjob hjob' hids hstored'
      exact Option.some.inj (hbody.symm.trans hstored)
    · obtain ⟨earlier', later', hsteps, hbefore', hnext', hafter'⟩ := hrest.split hm
      have hto := hbefore'.step hnext'
      have hsound' := (inv_of_run (hbefore.append hto) hfresh).core
      have hbody := body_eq_of_run hto hsound hsound' hjob' hjob hids.symm hstored
      exact Option.some.inj (hstored'.symm.trans hbody)
  · have hf := hinv.fits i σ hσ
    unfold TaskLlmSession.Fits at hf
    rwa [hp] at hf
  · obtain ⟨earlier, later, _, hbefore, hnext, hafter⟩ := h.split he
    exact ((silent_of_observed (inv_of_run hbefore hfresh) hnext hobserved hstatus).run hafter).1

end

/-! Two sessions of one job, the first of which loses the answer to its claim and asks again. -/

/-- Of the digest only its shape matters here. -/
def digestHost : Js.Host := { Ledger.sampleHost with sha256 := fun _ => String.ofList (List.replicate 64 '0') }

def digestEnv : LedgerEnv := { Jobs.agentEnv with host := digestHost }

def digestExecution : Jobs.ExecutionRow :=
  { Jobs.sampleExecution with
    taskInputHash := Jobs.durableTaskInputHash digestHost Jobs.sampleTask
    executionPlanHash := Jobs.samplePlan.json.canonicalHash digestHost }

def embedFence : TaskLlmFence := ⟨"task", "agent", "run", "attempt"⟩

def embedStep : ExecutionPlanStep where
  stepKey := "embed"
  kind := .embedding
  feature := "search"
  adapter := Jobs.OPENAI_COMPATIBLE_ADAPTER
  adapterVersion := 1
  endpointProfile := "openai-embeddings:sha256:" ++ String.ofList (List.replicate 64 'a')
  provider := "provider"
  models := ["model"]

def embedRoute : AttemptRoute :=
  ⟨.embedding, "search", "model", 1, 260, 0, .obj [("model", .str "model"), ("input", .str "text")]⟩

def embedResult : ProviderResult :=
  ⟨none, some [.num 1], some (.obj [("inputTokens", .num 4), ("outputTokens", .num 0)]), none, some "model", none, none, none⟩

def embedJob : String := "00000000-0000-4000-8000-000000000001"

def lostAnswers : List Action :=
  [.core (.others [Jobs.sampleTask] [digestExecution]), .start 0 embedFence embedStep embedRoute,
    .start 1 embedFence embedStep embedRoute,
    .ensure 0 digestEnv 1 [1, 1, 1] embedJob "spend" "token-0" .none,
    .claim 0 digestEnv 2 [2, 2] "unused" (.after (.other "fetch failed")),
    .ensure 1 digestEnv 3 [3, 3, 3] "unused" "unused" "token-1" .none,
    .claim 0 digestEnv 4 [4, 4] "unused" .none,
    .dispatch 0 digestHost (.ok (.success, embedResult)),
    .complete 0 digestEnv 5 5 .none]

def emptySystem : System := ⟨Jobs.emptyWorld, fun _ => none, []⟩

def lostAnswersRun : List (Step System Action) × System :=
  (runEnabled System.step emptySystem lostAnswers).get (by decide +kernel)

theorem wireLaw_lostAnswersRun : lostAnswersRun.2.invocations.map (fun c => (c.session, c.jobId)) = [(0, embedJob)] ∧
    WireLaw lostAnswersRun.1 lostAnswersRun.2 := by
  obtain ⟨hrun, hactions⟩ : Run Enabled emptySystem lostAnswersRun.1 lostAnswersRun.2 ∧
      lostAnswersRun.1.map Step.action = lostAnswers := run_runEnabled (Option.some_get _).symm
  refine ⟨by decide +kernel, wireLaw_of_run hrun ⟨rfl, fun _ => rfl, rfl⟩ ?_⟩
  have hdraws : lostAnswersRun.1.filterMap (fun e => e.action.draws) = lostAnswers.filterMap Action.draws := by
    rw [← hactions, List.filterMap_map]
    rfl
  rw [hdraws]
  decide

end Mydon.Session
