import Mydon.Issues.Service

/-! The events of a projection: every transition of an issue is announced by one event. -/

namespace Mydon.Issues

open Mydon.Lib
open Js (Json HttpError)
open Lib.Matching (Plan Rules)
open Tasks (EventRow)

/-- What one event announces. -/
structure Announcement (K : Type) where
  type : String
  items : List (TransitionEventItem K)

structure Transition (K : Type) where
  type : String
  kind : K
  fingerprint : String
  episode : ℕ
  deriving DecidableEq

namespace Announcement

variable {K : Type}

def transitions (b : Announcement K) : List (Transition K) :=
  b.items.map fun x => ⟨b.type, x.kind, x.fingerprint, x.episode⟩

end Announcement

namespace Service

variable {K α ρ C : Type} [DecidableEq K] (S : Service K α ρ C)

def eventKey (b : Announcement K) : String := transitionEventKey S.host S.source S.identity b.type b.items

/-- What an accepted call announces. -/
def announcements (d : Desk K) (c : C) : List (Announcement K) :=
  match S.reconcile d c, S.observe c with
  | .ok (r, _), .ok observations =>
    if r.staleSkipped then []
    else
      let p := S.plan c observations (d.existing (S.relevant observations))
      [⟨S.openedEvent, openedItems (S.wording c) (S.ids c) p⟩, ⟨S.resolvedEvent, resolvedItems p⟩].filter fun b =>
        !b.items.isEmpty
  | _, _ => []

def announcementsOf (e : Step (Desk K) (Act C)) : List (Announcement K) :=
  match e.action with
  | .call c => S.announcements e.before c
  | .others => []

def announced (steps : List (Step (Desk K) (Act C))) : List (Announcement K) := steps.flatMap S.announcementsOf

/-- An issue that a step makes, reopens or resolves. -/
inductive TransitionOf (d d' : Desk K) : Transition K → Prop
  | opened {i' : IssueRow K} (hi' : i' ∈ d'.issues) (hnew : ∀ i ∈ d.issues, i.id = i'.id → i.episode ≠ i'.episode) :
    TransitionOf d d' ⟨S.openedEvent, i'.kind, i'.fingerprint, i'.episode⟩
  | resolved {i i' : IssueRow K} (hi : i ∈ d.issues) (hi' : i' ∈ d'.issues) (hid : i'.id = i.id)
      (hopen : i.status = .open) (hclosed : i'.status = .resolved) :
    TransitionOf d d' ⟨S.resolvedEvent, i'.kind, i'.fingerprint, i'.episode⟩

/-- Texts of which the parts can be read back. -/
structure Readable : Prop where
  types : ':' ∉ S.openedEvent.toList ∧ ':' ∉ S.resolvedEvent.toList
  fingerprint : ∀ k s, ':' ∉ (S.fingerprint k s).toList ∧ '|' ∉ (S.fingerprint k s).toList
  bar : ∀ x, '|' ∉ x.fingerprint.toList → '|' ∉ (S.identity x).toList
  identity : ∀ x y, ':' ∉ x.fingerprint.toList → ':' ∉ y.fingerprint.toList → S.identity x = S.identity y →
    x.kind = y.kind ∧ x.fingerprint = y.fingerprint ∧ x.episode = y.episode

theorem plain_digest {host : Js.Host} (hhex : host.HexDigests) (s : String) :
    ':' ∉ (host.sha256 s).toList ∧ '|' ∉ (host.sha256 s).toList :=
  ⟨fun hc => absurd (hhex s _ hc) (by decide), fun hc => absurd (hhex s _ hc) (by decide)⟩

theorem bar_notMem_episode {f : String} (hf : '|' ∉ f.toList) (n : ℕ) :
    '|' ∉ f.toList ++ ':' :: (toString n).toList := by
  have hepisode : '|' ∉ (toString n).toList := by
    intro hc
    have hdigits : (toString n).toList = Nat.toDigits 10 n := Nat.toList_repr
    rw [hdigits] at hc
    exact absurd (Nat.isDigit_of_mem_toDigits (by decide) (by decide) hc) (by decide)
  rw [List.mem_append, List.mem_cons, not_or, not_or]
  exact ⟨hf, by decide, hepisode⟩

theorem episode_inj {f f' : String} {n n' : ℕ} (hf : ':' ∉ f.toList) (hf' : ':' ∉ f'.toList)
    (h : f.toList ++ ':' :: (toString n).toList = f'.toList ++ ':' :: (toString n').toList) : f = f' ∧ n = n' := by
  obtain ⟨hfingerprint, hepisode⟩ := Js.cut_inj hf hf' h
  exact ⟨String.ext hfingerprint, Js.toString_inj (String.ext hepisode)⟩

variable {S} {d d' d₀ : Desk K} {c : C} {steps : List (Step (Desk K) (Act C))}

/-- What an accepted call announces of its plan. -/
def planned (S : Service K α ρ C) (c : C) (p : Plan (Observation K α) (ExistingIssue K) ρ) : List (Announcement K) :=
  [⟨S.openedEvent, openedItems (S.wording c) (S.ids c) p⟩, ⟨S.resolvedEvent, resolvedItems p⟩].filter fun b =>
    !b.items.isEmpty

/-- A call changes and announces nothing, or is accepted and announces its plan. -/
theorem step_announced (hk : Keyed d) : (S.step d c = d ∧ S.announcements d c = []) ∨
    ∃ observations, S.observe c = .ok observations ∧ S.AcceptedBy c observations d (S.step d c) ∧
      S.announcements d c = planned S c (S.plan c observations (d.existing (S.relevant observations))) := by
  unfold step announcements
  rcases hr : S.reconcile d c with e | ⟨r, d'⟩
  · exact .inl ⟨rfl, rfl⟩
  · obtain ⟨observations, hobserve, ⟨_, hstale, rfl⟩ | ⟨_, hstale, haccepted⟩⟩ := reconcile_cases hk hr
    · refine .inl ⟨rfl, ?_⟩
      simp only [hobserve, hstale, if_true]
    · refine .inr ⟨observations, hobserve, haccepted, ?_⟩
      simp only [hobserve, hstale, Bool.false_eq_true, if_false]
      rfl

omit [DecidableEq K] in
theorem transitions_planned (p : Plan (Observation K α) (ExistingIssue K) ρ) :
    (planned S c p).flatMap Announcement.transitions =
      (p.create.map (fun o => ⟨S.openedEvent, o.kind, o.fingerprint, 1⟩) ++
        p.reopen.map fun x => ⟨S.openedEvent, x.2.kind, x.1.fingerprint, x.1.episode + 1⟩) ++
      p.resolve.map fun x => ⟨S.resolvedEvent, x.1.kind, x.1.fingerprint, x.1.episode⟩ := by
  have hflat : (planned S c p).flatMap Announcement.transitions =
      (openedItems (S.wording c) (S.ids c) p).map (fun x => ⟨S.openedEvent, x.kind, x.fingerprint, x.episode⟩) ++
        (resolvedItems p).map fun x => ⟨S.resolvedEvent, x.kind, x.fingerprint, x.episode⟩ := by
    unfold planned
    rcases hopened : openedItems (S.wording c) (S.ids c) p with _ | ⟨x, xs⟩ <;>
      rcases hresolved : resolvedItems p with _ | ⟨y, ys⟩ <;> simp [Announcement.transitions]
  rw [hflat]
  unfold openedItems resolvedItems
  simp only [List.map_append, List.map_map, Function.comp_def]

omit [DecidableEq K] in
theorem mem_transitions_planned {p : Plan (Observation K α) (ExistingIssue K) ρ} {t : Transition K} :
    t ∈ (planned S c p).flatMap Announcement.transitions ↔
      (∃ o ∈ p.create, t = ⟨S.openedEvent, o.kind, o.fingerprint, 1⟩) ∨
      (∃ x ∈ p.reopen, t = ⟨S.openedEvent, x.2.kind, x.1.fingerprint, x.1.episode + 1⟩) ∨
      ∃ x ∈ p.resolve, t = ⟨S.resolvedEvent, x.1.kind, x.1.fingerprint, x.1.episode⟩ := by
  rw [transitions_planned]
  simp only [List.mem_append, List.mem_map, or_assoc, eq_comm]

/-- The issue of a transition that was announced, at its episode or past it. -/
def Past (S : Service K α ρ C) (d : Desk K) (t : Transition K) : Prop :=
  ∃ i ∈ d.issues, i.kind = t.kind ∧ i.fingerprint = t.fingerprint ∧
    ((t.type = S.openedEvent ∧ t.episode ≤ i.episode) ∨
      (t.type = S.resolvedEvent ∧ (t.episode < i.episode ∨ t.episode = i.episode ∧ i.status = .resolved)))

variable {observations : List (Observation K α)}

theorem Past.kept (h : S.AcceptedBy c observations d d') (hk : Keyed d) {t : Transition K} (ht : S.Past d t) :
    S.Past d' t := by
  obtain ⟨i, hi, hkind, hfingerprint, hpast⟩ := ht
  obtain ⟨i', hi', hmoved⟩ := h.exists_moved (S.matching c) hk hi
  refine ⟨i', hi', hmoved.key.1.trans hkind, hmoved.key.2.trans hfingerprint, ?_⟩
  rcases hmoved with _ | _ | ⟨e, o, _, hread, _, _, hover⟩ | _ | _
  · exact hpast
  · exact hpast
  · refine hpast.imp id (And.imp_right (Or.imp id (And.imp_right fun hresolved => ?_)))
    -- a resolved issue is over, and would be reopened
    have hstatus : e.status = .resolved := hread.status.trans hresolved
    simp [ExistingIssue.isOver, hstatus] at hover
  · refine hpast.imp (And.imp_right fun hle => ?_) (And.imp_right fun hle => .inl ?_)
    · change t.episode ≤ i.episode + 1
      omega
    · change t.episode < i.episode + 1
      omega
  · exact hpast.imp id (And.imp_right (Or.imp id (And.imp_right fun _ => rfl)))

/-- What a call announces is past after it, and was not before. -/
theorem past_of_announced (h : S.AcceptedBy c observations d d') (hk : Keyed d) {t : Transition K}
    (ht : t ∈ (planned S c (S.plan c observations (d.existing (S.relevant observations)))).flatMap
      Announcement.transitions) : S.Past d' t ∧ ¬ S.Past d t := by
  rcases mem_transitions_planned.mp ht with ⟨o, ho, rfl⟩ | ⟨⟨e, o'⟩, hx, rfl⟩ | ⟨⟨e, r⟩, hx, rfl⟩
  · obtain ⟨hnew, hfree⟩ := Accepted.created h ho
    refine ⟨⟨_, hnew, rfl, rfl, .inl ⟨rfl, le_rfl⟩⟩, ?_⟩
    rintro ⟨i, hi, hkind, hfingerprint, _⟩
    exact hfree i hi ⟨hkind, hfingerprint⟩
  · obtain ⟨i, hi, hread, hmem, o, hkind, rfl⟩ := Accepted.reopened h (S.matching c) hk hx
    refine ⟨⟨_, hmem, ?_, hread.fingerprint.symm, .inl ⟨rfl, ?_⟩⟩, ?_⟩
    · exact hkind.symm.trans (S.merged_kind c o e).symm
    · exact (congrArg (· + 1) hread.episode).le
    · rintro ⟨j, hj, hjkind, hjfingerprint, hpast⟩
      have hsame : j = i := Table.eq_of_key_eq hk.keys hj hi (Prod.ext
        (hjkind.trans ((S.merged_kind c o e).trans hkind)) (hjfingerprint.trans hread.fingerprint))
      subst hsame
      have hepisode := hread.episode
      rcases hpast with ⟨_, hle⟩ | ⟨htype, _⟩
      · dsimp only at hle
        omega
      · exact S.events_ne htype
  · obtain ⟨i, hi, hread, hopen, hmem⟩ := Accepted.resolved h (S.matching c) hk hx
    refine ⟨⟨_, hmem, hread.kind.symm, hread.fingerprint.symm, .inr ⟨rfl, .inr ⟨hread.episode, rfl⟩⟩⟩, ?_⟩
    rintro ⟨j, hj, hjkind, hjfingerprint, hpast⟩
    have hsame : j = i := Table.eq_of_key_eq hk.keys hj hi (Prod.ext (hjkind.trans hread.kind)
      (hjfingerprint.trans hread.fingerprint))
    subst hsame
    have hepisode := hread.episode
    rcases hpast with ⟨htype, _⟩ | ⟨_, hlt | ⟨_, hresolved⟩⟩
    · exact S.events_ne htype.symm
    · dsimp only at hlt
      omega
    · exact absurd (hopen.symm.trans hresolved) (by simp)

/-- Every transition of the issues is announced by the call that makes it. -/
theorem announced_of_transition (h : S.AcceptedBy c observations d d') (hk : Keyed d) {t : Transition K}
    (ht : S.TransitionOf d d' t) :
    t ∈ (planned S c (S.plan c observations (d.existing (S.relevant observations)))).flatMap
      Announcement.transitions := by
  have hrecords := nodup_records (S.relevant observations) (S.matching c) hk
  rw [mem_transitions_planned]
  rcases ht with ⟨hi', hnew⟩ | ⟨hi, hi', hid, hopen, hclosed⟩
  · rcases h.issue_of_mem (S.matching c) hk hi' with ⟨i, hi, hmoved⟩ | ⟨o, _, ho, rfl⟩
    · have hchanged := hnew i hi hmoved.id.symm
      rcases hmoved with _ | _ | _ | ⟨e, o, he, hread, ho, hkey, hover⟩ | _
      · exact absurd rfl hchanged
      · exact absurd rfl hchanged
      · exact absurd rfl hchanged
      · have hmem : (e, (S.rules c).merge o e) ∈ (S.plan c observations (d.existing (S.relevant observations))).reopen :=
          (Rules.mem_reopen hrecords).mpr ⟨o, ho, he, (hread.key (S.matching c)).trans hkey.symm,
            by rw [(S.matching c).isOver, hover], rfl⟩
        rw [(S.matching c).observation, Prod.mk.injEq] at hkey
        refine .inr (.inl ⟨_, hmem, ?_⟩)
        rw [S.merged_kind, hread.fingerprint, hread.episode, hkey.1]
        rfl
      · exact absurd rfl hchanged
    · exact .inl ⟨o, ho, rfl⟩
  · have hne : ∀ {i i' : IssueRow K}, i.status = .open → i'.status = .resolved → i' ≠ i := by
      rintro i i' ho hr rfl
      rw [ho] at hr
      cases hr
    rcases h.moved (S.matching c) hk hi hi' hid with _ | _ | _ | _ | ⟨e, r, he, hread, hfree, _, hverdict⟩
    · exact absurd rfl (hne hopen hclosed)
    · exact absurd rfl (hne hopen hclosed)
    · exact absurd (hopen.symm.trans hclosed) (by simp)
    · cases hclosed
    · have hmem : (e, r) ∈ (S.plan c observations (d.existing (S.relevant observations))).resolve := by
        refine (Rules.mem_resolve hrecords).mpr ⟨he, fun o ho => ?_, ?_, hverdict⟩
        · rw [hread.key (S.matching c)]
          exact hfree o ho
        · rw [(S.matching c).isOpen]
          exact hread.isOpen.mpr hopen
      refine .inr (.inr ⟨_, hmem, ?_⟩)
      rw [hread.kind, hread.fingerprint, hread.episode]
      rfl

/-- No call announces a transition twice. -/
theorem nodup_planned (hk : Keyed d) :
    ((planned S c (S.plan c observations (d.existing (S.relevant observations)))).flatMap
      Announcement.transitions).Nodup := by
  have hrecords := nodup_records (S.relevant observations) (S.matching c) hk
  rw [transitions_planned]
  unfold plan
  refine List.Nodup.append ?_ ?_ ?_
  · refine List.Nodup.of_map (fun t : Transition K => (t.kind, t.fingerprint)) ?_
    convert Rules.nodup_opened (R := S.rules c) using 1
    rw [List.map_append, List.map_map, List.map_map]
    refine congrArg₂ _ (List.map_congr_left fun o _ => ((S.matching c).observation o).symm)
      (List.map_congr_left fun t ht => ?_)
    obtain ⟨o, _, _, hkey, _, ho⟩ := (Rules.mem_reopen hrecords).mp ht
    rw [(S.matching c).record, (S.matching c).observation, Prod.mk.injEq] at hkey
    rw [(S.matching c).record, Function.comp_apply, ho, S.merged_kind, hkey.1]
  · refine List.Nodup.of_map (fun t : Transition K => (t.kind, t.fingerprint)) ?_
    convert Rules.nodup_resolved (R := S.rules c) using 1
    rw [List.map_map]
    exact List.map_congr_left fun t _ => ((S.matching c).record t.1).symm
  · intro t ht ht'
    obtain ⟨x, _, rfl⟩ := List.mem_map.mp ht'
    simp only [List.mem_append, List.mem_map, Transition.mk.injEq] at ht
    rcases ht with ⟨_, _, htype, _⟩ | ⟨_, _, htype, _⟩
    · exact S.events_ne htype
    · exact S.events_ne htype

/-! Runs. -/

theorem announced_append (steps : List (Step (Desk K) (Act C))) (e : Step (Desk K) (Act C)) :
    S.announced (steps ++ [e]) = S.announced steps ++ S.announcementsOf e := by
  unfold announced
  rw [List.flatMap_append, List.flatMap_singleton]

/-- No transition is announced twice, and all that were announced are past. -/
theorem transitions_of_run (h : Run S.Next d₀ steps d) (hfresh : S.Fresh d₀) :
    ((S.announced steps).flatMap Announcement.transitions).Nodup ∧
      ∀ t ∈ (S.announced steps).flatMap Announcement.transitions, S.Past d t := by
  induction h with
  | start => exact ⟨List.nodup_nil, List.forall_mem_nil _⟩
  | @step steps d₁ d₂ a hrun hnext ih =>
    obtain ⟨hnodup, hpast⟩ := ih
    have hs := sound_of_run hrun hfresh
    rw [announced_append, List.flatMap_append]
    rcases a with c | _
    · have hafter : d₂ = S.step d₁ c := hnext
      subst hafter
      rcases step_announced (S := S) (c := c) hs.keyed with ⟨hsame, hnone⟩ | ⟨observations, _, haccepted, hannounced⟩
      · change ((S.announced steps).flatMap Announcement.transitions ++
          (S.announcements d₁ c).flatMap Announcement.transitions).Nodup ∧ ∀ t ∈ _ ++ (S.announcements d₁ c).flatMap _, _
        rw [hnone, hsame, List.flatMap_nil, List.append_nil]
        exact ⟨hnodup, hpast⟩
      · change ((S.announced steps).flatMap Announcement.transitions ++
          (S.announcements d₁ c).flatMap Announcement.transitions).Nodup ∧ ∀ t ∈ _ ++ (S.announcements d₁ c).flatMap _, _
        rw [hannounced]
        refine ⟨hnodup.append (nodup_planned hs.keyed) fun t ht ht' =>
          (past_of_announced haccepted hs.keyed ht').2 (hpast t ht), fun t ht => ?_⟩
        rcases List.mem_append.mp ht with ht | ht
        · exact (hpast t ht).kept haccepted hs.keyed
        · exact (past_of_announced haccepted hs.keyed ht).1
    · have hothers : S.Others d₁ d₂ := hnext
      change ((S.announced steps).flatMap Announcement.transitions ++ []).Nodup ∧ ∀ t ∈ _ ++ [], _
      rw [List.append_nil]
      refine ⟨hnodup, fun t ht => ?_⟩
      obtain ⟨i, hi, hrest⟩ := hpast t ht
      exact ⟨i, hothers.issues ▸ hi, hrest⟩

/-! The rows of the event table. -/

/-- The row is the event of the announcement. -/
structure Tells (S : Service K α ρ C) (b : Announcement K) (row : EventRow) : Prop where
  source : row.source = S.source
  type : row.type = b.type
  count : row.payload.get? "count" = some (.num b.items.length)
  clientKey : row.clientKey = some (S.eventKey b)

/-- The events that a call inserts are those of its announcements. -/
theorem events_of_accepted (h : S.AcceptedBy c observations d d') :
    ∃ rows, List.Forall₂ S.Tells (planned S c (S.plan c observations (d.existing (S.relevant observations)))) rows ∧
      d'.events = rows.foldl (fun events row => insertEvent events (some row)) d.events := by
  have hevents : d'.events = insertEvent (insertEvent d.events (openedEventRow S.host (S.wording c)
      (openedItems (S.wording c) (S.ids c) (S.plan c observations (d.existing (S.relevant observations))))
      (S.plan c observations (d.existing (S.relevant observations))).reopen.length (S.occurredAt c)))
    (resolvedEventRow S.host (S.wording c) (resolvedItems (S.plan c observations (d.existing (S.relevant observations))))
      (S.occurredAt c)) := h.events
  rw [hevents]
  unfold planned openedEventRow resolvedEventRow
  generalize (S.plan c observations (d.existing (S.relevant observations))).reopen.length = reopened
  generalize openedItems (S.wording c) (S.ids c) (S.plan c observations (d.existing (S.relevant observations))) = opened
  generalize resolvedItems (S.plan c observations (d.existing (S.relevant observations))) = resolved
  have htells : ∀ type items payload, payload.get? "count" = some (.num (items.length : ℕ)) →
      S.Tells ⟨type, items⟩ ⟨(S.wording c).source, type, payload,
        some (transitionEventKey S.host (S.wording c).source (S.wording c).identity type items), S.occurredAt c⟩ := by
    intro type items payload hcount
    refine ⟨S.wording_source c, rfl, hcount, ?_⟩
    rw [S.wording_source, S.wording_identity]
    rfl
  have hcount : ∀ (items : List (TransitionEventItem K)) reopened,
      (transitionEventPayload (S.wording c) items reopened).get? "count" = some (.num (items.length : ℕ)) := by
    intro items reopened
    simp [transitionEventPayload, Json.get?]
  rw [S.wording_opened, S.wording_resolved]
  rcases hopened : opened.isEmpty with _ | _ <;> rcases hresolved : resolved.isEmpty with _ | _
  · refine ⟨[_, _], ?_, rfl⟩
    simp only [List.filter_cons, hopened, hresolved, Bool.not_false, if_true, List.filter_nil]
    exact .cons (htells _ _ _ (hcount _ _)) (.cons (htells _ _ _ (hcount _ _)) .nil)
  · refine ⟨[_], ?_, rfl⟩
    simp only [List.filter_cons, hopened, hresolved, Bool.not_false, Bool.not_true, if_true, Bool.false_eq_true, if_false,
      List.filter_nil]
    exact .cons (htells _ _ _ (hcount _ _)) .nil
  · refine ⟨[_], ?_, rfl⟩
    simp only [List.filter_cons, hopened, hresolved, Bool.not_false, Bool.not_true, if_true, Bool.false_eq_true, if_false,
      List.filter_nil]
    exact .cons (htells _ _ _ (hcount _ _)) .nil
  · refine ⟨[], ?_, rfl⟩
    simp only [List.filter_cons, hopened, hresolved, Bool.not_true, Bool.false_eq_true, if_false, List.filter_nil]
    exact .nil

omit [DecidableEq K] in
/-- Events of which no key is taken are all inserted. -/
theorem foldl_insertEvent {bs : List (Announcement K)} {rows : List EventRow} (hrows : List.Forall₂ S.Tells bs rows)
    (events : List EventRow) (hnd : (bs.map S.eventKey).Nodup)
    (hfree : ∀ b ∈ bs, ∀ row ∈ events, row.clientKey ≠ some (S.eventKey b)) :
    rows.foldl (fun events row => insertEvent events (some row)) events = events ++ rows := by
  induction hrows generalizing events with
  | nil => exact (List.append_nil events).symm
  | @cons b row bs rows htells hrest ih =>
    rw [List.map_cons, List.nodup_cons] at hnd
    have hinsert : insertEvent events (some row) = events ++ [row] := by
      unfold insertEvent
      refine if_neg ?_
      rw [List.any_eq_true]
      rintro ⟨row', hrow', hkey⟩
      rw [decide_eq_true_iff, htells.clientKey] at hkey
      exact hfree b List.mem_cons_self row' hrow' hkey
    rw [List.foldl_cons, hinsert, ih _ hnd.2, List.append_assoc]
    · rfl
    · intro b' hb' row' hrow'
      rcases List.mem_append.mp hrow' with hrow' | hrow'
      · exact hfree b' (List.mem_cons_of_mem _ hb') row' hrow'
      · rw [List.mem_singleton.mp hrow', htells.clientKey]
        intro hkey
        exact hnd.1 (List.mem_map.mpr ⟨b', hb', (Option.some.inj hkey).symm⟩)

omit [DecidableEq K] in
theorem countP_of_tells {bs : List (Announcement K)} {rows : List EventRow} (hrows : List.Forall₂ S.Tells bs rows)
    (key : String) : rows.countP (fun row => row.clientKey = some key) = (bs.map S.eventKey).count key := by
  induction hrows with
  | nil => rfl
  | @cons b row bs rows htells hrest ih =>
    rw [List.countP_cons, ih, List.map_cons, List.count_cons, htells.clientKey]
    simp

omit [DecidableEq K] in
theorem exists_of_tells {bs : List (Announcement K)} {rows : List EventRow} (hrows : List.Forall₂ S.Tells bs rows)
    {b : Announcement K} (hb : b ∈ bs) : ∃ row ∈ rows, S.Tells b row := by
  induction hrows with
  | nil => cases hb
  | @cons b' row bs rows htells hrest ih =>
    rcases List.mem_cons.mp hb with rfl | hb
    · exact ⟨row, List.mem_cons_self, htells⟩
    · obtain ⟨row', hrow', htells'⟩ := ih hb
      exact ⟨row', List.mem_cons_of_mem _ hrow', htells'⟩

/-- Where no two announcements have one key, each has one event. -/
theorem events_of_run (h : Run S.Next d₀ steps d) (hfresh : S.Fresh d₀)
    (hnd : ((S.announced steps).map S.eventKey).Nodup) :
    (∀ b : Announcement K, d.events.countP (fun row => row.clientKey = some (S.eventKey b)) =
      ((S.announced steps).map S.eventKey).count (S.eventKey b)) ∧
    ∀ b ∈ S.announced steps, ∃ row ∈ d.events, S.Tells b row := by
  induction h with
  | start =>
    refine ⟨fun b => ?_, List.forall_mem_nil _⟩
    rw [List.countP_eq_zero.mpr]
    · rfl
    · intro row hrow hkey
      exact hfresh.events row hrow b.type b.items (of_decide_eq_true hkey)
  | @step steps d₁ d₂ a hrun hnext ih =>
    have hs := sound_of_run hrun hfresh
    rw [announced_append, List.map_append] at hnd
    obtain ⟨hcount, htold⟩ := ih (List.nodup_append.mp hnd).1
    rw [announced_append, List.map_append]
    rcases a with c | _
    · have hafter : d₂ = S.step d₁ c := hnext
      subst hafter
      have hof : S.announcementsOf ⟨d₁, .call c, S.step d₁ c⟩ = S.announcements d₁ c := rfl
      rw [hof] at hnd ⊢
      rcases step_announced (S := S) (c := c) hs.keyed with ⟨hsame, hnone⟩ | ⟨observations, _, haccepted, hannounced⟩
      · rw [hsame, hnone, List.map_nil, List.append_nil, List.append_nil]
        exact ⟨hcount, htold⟩
      · rw [hannounced] at hnd ⊢
        obtain ⟨rows, hrows, hevents⟩ := events_of_accepted haccepted
        rw [List.nodup_append] at hnd
        -- an event that is already there would be one of an earlier announcement
        have hfree : ∀ b ∈ planned S c (S.plan c observations (d₁.existing (S.relevant observations))),
            ∀ row ∈ d₁.events, row.clientKey ≠ some (S.eventKey b) := by
          intro b hb row hrow hkey
          have hpos : 0 < d₁.events.countP fun row => row.clientKey = some (S.eventKey b) :=
            List.countP_pos_iff.mpr ⟨row, hrow, by simpa using hkey⟩
          rw [hcount b] at hpos
          exact hnd.2.2 _ (List.count_pos_iff.mp hpos) _ (List.mem_map_of_mem hb) rfl
        rw [hevents, foldl_insertEvent hrows _ hnd.2.1 hfree]
        refine ⟨fun b => ?_, fun b hb => ?_⟩
        · rw [List.countP_append, hcount b, countP_of_tells hrows, List.count_append]
        · rcases List.mem_append.mp hb with hb | hb
          · obtain ⟨row, hrow, htells⟩ := htold b hb
            exact ⟨row, List.mem_append_left _ hrow, htells⟩
          · obtain ⟨row, hrow, htells⟩ := exists_of_tells hrows hb
            exact ⟨row, List.mem_append_right _ hrow, htells⟩
    · have hothers : S.Others d₁ d₂ := hnext
      have hof : S.announcementsOf ⟨d₁, .others, d₂⟩ = [] := rfl
      obtain ⟨rows, hevents, hforeign⟩ := hothers.events
      rw [hof, List.map_nil, List.append_nil, List.append_nil, hevents]
      refine ⟨fun b => ?_, fun b hb => ?_⟩
      · rw [List.countP_append, hcount b, List.countP_eq_zero.mpr, Nat.add_zero]
        intro row hrow hkey
        exact hforeign row hrow b.type b.items (of_decide_eq_true hkey)
      · obtain ⟨row, hrow, htells⟩ := htold b hb
        exact ⟨row, List.mem_append_left _ hrow, htells⟩

/-! Keys. -/

/-- An item of an announcement is a transition of an issue, so its fingerprint is one of the service. -/
theorem fingerprint_of_announced (h : Run S.Next d₀ steps d) (hfresh : S.Fresh d₀) {b : Announcement K}
    (hb : b ∈ S.announced steps) {x : TransitionEventItem K} (hx : x ∈ b.items) :
    ∃ k s, x.fingerprint = S.fingerprint k s := by
  have ht : (⟨b.type, x.kind, x.fingerprint, x.episode⟩ : Transition K) ∈
      (S.announced steps).flatMap Announcement.transitions :=
    List.mem_flatMap.mpr ⟨b, hb, List.mem_map.mpr ⟨x, hx, rfl⟩⟩
  obtain ⟨i, hi, _, hfingerprint, _⟩ := (transitions_of_run h hfresh).2 _ ht
  exact ⟨i.kind, i.scopeKey, hfingerprint.symm.trans ((sound_of_run h hfresh).named i hi)⟩

theorem announced_shape {b : Announcement K} (hb : b ∈ S.announced steps) :
    b.items ≠ [] ∧ (b.type = S.openedEvent ∨ b.type = S.resolvedEvent) := by
  obtain ⟨e, _, hb⟩ := List.mem_flatMap.mp hb
  unfold announcementsOf at hb
  split at hb
  · unfold announcements at hb
    split at hb
    · split_ifs at hb
      · cases hb
      · obtain ⟨hmem, hne⟩ := List.mem_filter.mp hb
        refine ⟨by simpa using hne, ?_⟩
        rcases List.mem_cons.mp hmem with rfl | hmem
        · exact .inl rfl
        · rw [List.mem_singleton.mp hmem]
          exact .inr rfl
    · cases hb
  · cases hb

omit [DecidableEq K] in
/-- Keys are equal for one type and one digest. -/
theorem eventKey_inj {b b' : Announcement K} (htype : ':' ∉ b.type.toList) (htype' : ':' ∉ b'.type.toList)
    (h : S.eventKey b = S.eventKey b') :
    b.type = b'.type ∧ S.host.sha256 (transitionIdentity S.identity b.items) =
      S.host.sha256 (transitionIdentity S.identity b'.items) := by
  have hchars : ∀ b : Announcement K, (S.eventKey b).toList =
      S.source.toList ++ ':' :: (b.type.toList ++ ':' ::
        (S.host.sha256 (transitionIdentity S.identity b.items)).toList) := by
    intro b
    unfold eventKey transitionEventKey
    simp only [String.toList_append, List.append_assoc]
    rfl
  have hlist := congrArg String.toList h
  rw [hchars, hchars, List.append_cancel_left_eq, List.cons.injEq] at hlist
  obtain ⟨hcut, hdigest⟩ := Js.cut_inj htype htype' hlist.2
  exact ⟨String.ext hcut, String.ext hdigest⟩

/-- The texts that the announcements of a run are digested from. -/
def digested (S : Service K α ρ C) (steps : List (Step (Desk K) (Act C))) : Set String :=
  {text | ∃ b ∈ S.announced steps, text = transitionIdentity S.identity b.items}

/-- Different announcements have different keys, where no two of their texts have one digest. -/
theorem nodup_keys_of_run (hreadable : S.Readable) (h : Run S.Next d₀ steps d) (hfresh : S.Fresh d₀)
    (hdigest : Set.InjOn S.host.sha256 (S.digested steps)) : ((S.announced steps).map S.eventKey).Nodup := by
  have htransitions := (List.nodup_flatMap.mp (transitions_of_run h hfresh).1).2
  refine List.pairwise_map.mpr (htransitions.imp_of_mem fun {b b'} hb hb' hdisjoint hkey => ?_)
  have htypes : ∀ {b : Announcement K}, b ∈ S.announced steps → ':' ∉ b.type.toList := by
    intro b hb
    rcases (announced_shape hb).2 with htype | htype
    · exact htype ▸ hreadable.types.1
    · exact htype ▸ hreadable.types.2
  have hplain : ∀ {b : Announcement K}, b ∈ S.announced steps → ∀ x ∈ b.items,
      ':' ∉ x.fingerprint.toList ∧ '|' ∉ x.fingerprint.toList := by
    intro b hb x hx
    obtain ⟨k, s, hfingerprint⟩ := fingerprint_of_announced h hfresh hb hx
    rw [hfingerprint]
    exact hreadable.fingerprint k s
  obtain ⟨htype, hdigests⟩ := eventKey_inj (htypes hb) (htypes hb') hkey
  have htext := hdigest ⟨b, hb, rfl⟩ ⟨b', hb', rfl⟩ hdigests
  have hbars : ∀ {b : Announcement K}, b ∈ S.announced steps →
      ∀ s ∈ (b.items.map S.identity).insertionSort (fun a b => Js.before b a = false), '|' ∉ s.toList := by
    intro b hb s hs
    obtain ⟨x, hx, rfl⟩ := List.mem_map.mp ((List.mem_insertionSort _).mp hs)
    exact hreadable.bar x (hplain hb x hx).2
  have hne : ∀ {b : Announcement K}, b ∈ S.announced steps →
      (b.items.map S.identity).insertionSort (fun a b => Js.before b a = false) ≠ [] := by
    intro b hb hnil
    have hlength := congrArg List.length hnil
    rw [List.length_insertionSort, List.length_map, List.length_nil, List.length_eq_zero_iff] at hlength
    exact (announced_shape hb).1 hlength
  have hsorted := Js.intercalate_inj (hbars hb) (hbars hb') (hne hb) (hne hb') htext
  obtain ⟨x, hx⟩ := List.exists_mem_of_ne_nil _ (announced_shape hb).1
  have hmem : S.identity x ∈ (b'.items.map S.identity).insertionSort (fun a b => Js.before b a = false) := by
    rw [← hsorted]
    exact (List.mem_insertionSort _).mpr (List.mem_map_of_mem hx)
  obtain ⟨y, hy, hxy⟩ := List.mem_map.mp ((List.mem_insertionSort _).mp hmem)
  -- the two announcements share the transition of x
  obtain ⟨hkind, hfingerprint, hepisode⟩ := hreadable.identity x y (hplain hb x hx).1 (hplain hb' y hy).1 hxy.symm
  refine hdisjoint (List.mem_map.mpr ⟨x, hx, rfl⟩) (List.mem_map.mpr ⟨y, hy, ?_⟩)
  rw [htype, hkind, hfingerprint, hepisode]

/-- Every transition is announced, by one call and by one event. -/
structure AnnouncedOnce (S : Service K α ρ C) (steps : List (Step (Desk K) (Act C))) (d : Desk K) : Prop where
  complete : ∀ e ∈ steps, ∀ t, S.TransitionOf e.before e.after t →
    t ∈ (S.announcementsOf e).flatMap Announcement.transitions
  once : ((S.announced steps).flatMap Announcement.transitions).Nodup
  event : ∀ b ∈ S.announced steps, d.events.countP (fun row => row.clientKey = some (S.eventKey b)) = 1 ∧
    ∃ row ∈ d.events, S.Tells b row

theorem announcedOnce_of_run (hreadable : S.Readable) (h : Run S.Next d₀ steps d) (hfresh : S.Fresh d₀)
    (hdigest : Set.InjOn S.host.sha256 (S.digested steps)) : S.AnnouncedOnce steps d := by
  have hkeys := nodup_keys_of_run hreadable h hfresh hdigest
  obtain ⟨hcount, htold⟩ := events_of_run h hfresh hkeys
  refine ⟨fun e he t ht => ?_, (transitions_of_run h hfresh).1, fun b hb => ⟨?_, htold b hb⟩⟩
  · obtain ⟨earlier, _, _, hrun, hnext, _⟩ := h.split he
    have hs := sound_of_run hrun hfresh
    obtain ⟨before, action, after⟩ := e
    have hsame : after.issues = before.issues → ¬ S.TransitionOf before after t := by
      rintro hissues (⟨hi', hnew⟩ | ⟨hi, hi', hid, hopen, hclosed⟩)
      · exact hnew _ (hissues ▸ hi') rfl rfl
      · have hrow := Table.eq_of_key_eq hs.keyed.issueIds (hissues ▸ hi') hi hid
        rw [hrow, hopen] at hclosed
        cases hclosed
    rcases action with c | _
    · have hafter : after = S.step before c := hnext
      subst hafter
      change t ∈ (S.announcements before c).flatMap Announcement.transitions
      rcases step_announced (S := S) (c := c) hs.keyed with ⟨hunchanged, _⟩ | ⟨observations, _, haccepted, hannounced⟩
      · exact absurd ht (hsame (congrArg Desk.issues hunchanged))
      · rw [hannounced]
        exact announced_of_transition haccepted hs.keyed ht
    · have hothers : S.Others before after := hnext
      exact absurd ht (hsame hothers.issues)
  · rw [hcount b]
    exact List.count_eq_one_of_mem hkeys (List.mem_map_of_mem hb)

end Service

end Mydon.Issues
