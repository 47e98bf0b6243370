import Mydon.People.Access

/-! Employee access by invitation, over every interleaving. -/

namespace Mydon.People

open Mydon.Lib Mydon.Lib.ReadCommitted

/-- Nothing is running, and the unique indexes hold. -/
structure Fresh (w : World) : Prop where
  txns : w.txns = []
  log : w.log = []
  person : ∀ q, pending w.person q = none
  staffInvite : ∀ i, pending w.staffInvite i = none
  chats : ∀ q q' p p' chat, committed w.person q = some p → committed w.person q' = some p' →
    p.tgChatId = some chat → p'.tgChatId = some chat → q = q'
  people : ∀ i i' v v', committed w.staffInvite i = some v → committed w.staffInvite i' = some v' →
    v.live = true → v'.live = true → v.personId = v'.personId → i = i'

/-- The chat belongs to exactly this person. -/
def OnlyChatOf (w : World) (personId : ℕ) (chatId : String) : Prop :=
  (∃ p, committed w.person personId = some p ∧ p.tgChatId = some chatId) ∧
    ∀ q p, committed w.person q = some p → p.tgChatId = some chatId → q = personId

/-- The statement that looks for the code picks every live invitation that has it. -/
def Looked (w : World) (c : RedeemCall) : RedeemStage → Prop
  | .finding picked => ∀ i v, committed w.staffInvite i = some v → liveWithCode c.codeHash v = true → i ∈ picked
  | _ => True

/-- A redemption is refused when no invitation with the code is live, when the one found has expired, or when
its person is not active. -/
def Justified (host : Host) (w : World) (c : RedeemCall) : RedeemStage → Refusal → Prop
  | .start, .notConfigured => assertPepperConfigured host = false
  | .start, .inviteNotFound => ∀ i v, committed w.staffInvite i = some v → liveWithCode c.codeHash v = false
  | .finding picked, .inviteNotFound =>
    ∀ i ∈ picked, ∀ v, committed w.staffInvite i = some v → liveWithCode c.codeHash v = false
  | .finding picked, .inviteExpired =>
    ∃ i ∈ picked, ∃ v, committed w.staffInvite i = some v ∧ liveWithCode c.codeHash v = true ∧ v.expiresAt ≤ w.now
  | .locked _ i, .inviteInactive => ∀ p, committed w.person i.personId = some p → p.active = false
  | _, _ => False

/-- A redemption waits for another transaction, goes on, binds the chat to its person alone, or is refused
for a reason. -/
def Outcome (host : Host) (w : World) (t : ℕ) (c : RedeemCall) (stage : RedeemStage) : Option World → Prop
  | none => ∃ u txn, u ≠ t ∧ w.txns[u]? = some txn ∧ txn.running = true
  | some w' =>
    (∃ stage', w'.txns[t]? = some (.redeem c stage') ∧ Looked w c stage') ∨
      (∃ row i, stage = .used row i ∧ w'.txns[t]? = some (.ended .committed) ∧ OnlyChatOf w' i.personId c.chatId) ∨
      ∃ r, w'.txns[t]? = some (.ended (.refused r)) ∧ Justified host w c stage r

structure AccessLaw (host : Host) (w : World) : Prop where
  /-- An invitation is redeemed at most once, and is then used up. -/
  once : (w.log.filterMap Event.redeemedRow).Nodup
  spent : ∀ row ∈ w.log.filterMap Event.redeemedRow, ∃ v, committed w.staffInvite row = some v ∧ v.live = false
  /-- What is about to be redeemed is neither used nor revoked nor expired, and its person is active. -/
  redeemable : ∀ (t : ℕ) c row i, w.txns[t]? = some (Txn.redeem c (.used row i)) →
    committed w.staffInvite row = some i ∧ liveWithCode c.codeHash i = true ∧ w.now < i.expiresAt ∧ IsActive w i.personId
  oneLive : ∀ i i' v v', committed w.staffInvite i = some v → committed w.staffInvite i' = some v' →
    v.live = true → v'.live = true → v.personId = v'.personId → i = i'
  /-- A chat after a revocation comes from an invitation issued after it. -/
  closed : ∀ later earlier p, w.log = later ++ .revoked p :: earlier → ∀ v, committed w.person p = some v →
    v.tgChatId ≠ none → ∃ l₁ l₂ row chat, later = l₁ ++ .redeemed row p chat :: l₂ ∧ .issued row p ∈ l₂
  outcome : ∀ (t : ℕ) c stage, w.txns[t]? = some (Txn.redeem c stage) → Outcome host w t c stage (advance host w t)

section
variable {host : Host} {w : World} {t : ℕ} {c : RedeemCall}

theorem Fresh.inv (h : Fresh w) : Inv w where
  chats := by
    refine ⟨h.chats, ?_, ?_⟩
    · intro q _ t _ p _ _ hq
      rw [h.person q] at hq
      cases hq
    · intro q _ t p _ _ hq
      rw [h.person q] at hq
      cases hq
  people := by
    refine ⟨?_, ?_, ?_⟩
    · intro i i' v v' k hi hi' hv hv'
      simp only [StaffInvite.livePerson, Option.ite_none_right_eq_some, Option.some.injEq] at hv hv'
      exact h.people i i' v v' hi hi' hv.1 hv'.1 (hv.2.trans hv'.2.symm)
    · intro i _ t _ v _ _ hi
      rw [h.staffInvite i] at hi
      cases hi
    · intro i _ t v _ _ hi
      rw [h.staffInvite i] at hi
      cases hi
  personHeld q t p hq := by
    rw [h.person q] at hq
    cases hq
  inviteHeld i t v hi := by
    rw [h.staffInvite i] at hi
    cases hi
  stands t txn ht := by
    rw [h.txns] at ht
    cases ht
  spent row hrow := by
    rw [h.log] at hrow
    cases hrow
  once := by
    rw [h.log]
    exact List.nodup_nil
  closed later earlier p hlog := by
    rw [h.log] at hlog
    exact absurd hlog.symm (List.append_ne_nil_of_right_ne_nil _ (List.cons_ne_nil _ _))

theorem Inv.other_of_person (h : Inv w) {q : ℕ} (hlocked : lockedByOther t w.person q = true) :
    ∃ u txn, u ≠ t ∧ w.txns[u]? = some txn ∧ txn.running = true := by
  obtain ⟨⟨u, p⟩, hp, hu⟩ := (Option.any_eq_true _ _).mp hlocked
  obtain ⟨txn, htxn, hrunning, -⟩ := h.personHeld q u p hp
  exact ⟨u, txn, bne_iff_ne.mp hu, htxn, hrunning⟩

theorem Inv.other_of_invite (h : Inv w) {i : ℕ} (hlocked : lockedByOther t w.staffInvite i = true) :
    ∃ u txn, u ≠ t ∧ w.txns[u]? = some txn ∧ txn.running = true := by
  obtain ⟨⟨u, v⟩, hv, hu⟩ := (Option.any_eq_true _ _).mp hlocked
  obtain ⟨txn, htxn, hrunning, -⟩ := h.inviteHeld i u v hv
  exact ⟨u, txn, bne_iff_ne.mp hu, htxn, hrunning⟩

theorem Inv.other_of_wait (h : Inv w) {picked : List ℕ} (hwait : mustWait t picked w.person = true) :
    ∃ u txn, u ≠ t ∧ w.txns[u]? = some txn ∧ txn.running = true := by
  obtain ⟨q, -, hq⟩ := List.any_eq_true.mp hwait
  exact h.other_of_person hq

theorem Inv.other_of_inviteWait (h : Inv w) {picked : List ℕ} (hwait : mustWait t picked w.staffInvite = true) :
    ∃ u txn, u ≠ t ∧ w.txns[u]? = some txn ∧ txn.running = true := by
  obtain ⟨i, -, hi⟩ := List.any_eq_true.mp hwait
  exact h.other_of_invite hi

/-- After the binding is committed nobody else has the chat. -/
theorem onlyChatOf_committed {row : ℕ} {i : StaffInvite} {e : Event} (h : Inv w)
    (htxn : w.txns[t]? = some (.redeem c (.used row i))) : OnlyChatOf (w.committed t e) i.personId c.chatId := by
  obtain ⟨-, -, -, p, hp, hchat⟩ := h.stands t _ htxn
  have hown : committed (w.committed t e).person i.personId = some p := committed_commit_own hp
  refine ⟨⟨p, hown, hchat⟩, fun q p' hq hchat' => ?_⟩
  exact (unique_commit h.chats t).both_committed q i.personId p' p c.chatId hq hown hchat' hchat

theorem Inv.outcome {stage : RedeemStage} (h : Inv w) (htxn : w.txns[t]? = some (.redeem c stage)) :
    Outcome host w t c stage (People.redeem host w t c stage) := by
  have hstands := h.stands t _ htxn
  have hset : ∀ {txn' : Txn}, (w.txns.set t txn')[t]? = some txn' := getElem?_set_self_of_some htxn
  cases stage with
  | start =>
    unfold People.redeem
    dsimp only
    split
    · split
      · rename_i hnone
        refine .inr (.inr ⟨_, hset, ?_⟩)
        intro i v hi
        by_contra hlive
        rw [Bool.not_eq_false] at hlive
        have hmem := mem_matching.mpr ⟨v, (view_of_unheld hstands).trans hi, hlive⟩
        rw [hnone] at hmem
        cases hmem
      · rename_i row rest hsome
        refine .inl ⟨_, hset, ?_⟩
        intro i v hi hlive
        rw [← hsome]
        exact mem_matching.mpr ⟨v, (view_of_unheld hstands).trans hi, hlive⟩
    · rename_i hpepper
      exact .inr (.inr ⟨_, hset, Bool.eq_false_iff.mpr hpepper⟩)
  | finding picked =>
    unfold People.redeem
    dsimp only
    split
    · exact h.other_of_inviteWait ‹_›
    · split
      · rename_i hnone
        refine .inr (.inr ⟨_, hset, ?_⟩)
        intro i hi v hv
        have hno := List.find?_eq_none.mp hnone i hi
        rw [view_of_unheld hstands, hv, Option.any_some, Bool.not_eq_true] at hno
        exact hno
      · rename_i row hfound
        have hcode := List.find?_some hfound
        split
        · rename_i hview
          rw [hview] at hcode
          cases hcode
        · rename_i invite hview
          split
          · rename_i hexpired
            refine .inr (.inr ⟨_, hset, row, List.mem_of_find?_eq_some hfound, invite, ?_, ?_, ?_⟩)
            · exact (view_of_unheld hstands).symm.trans hview
            · rwa [hview, Option.any_some] at hcode
            · rwa [isInviteExpired, decide_eq_true_eq] at hexpired
          · exact .inl ⟨_, hset, trivial⟩
  | locked row invite =>
    unfold People.redeem
    dsimp only
    split
    · rename_i hnone
      refine .inr (.inr ⟨_, hset, ?_⟩)
      intro p hp
      obtain ⟨p', hp'⟩ := exists_view hp t
      rw [hnone] at hp'
      cases hp'
    · rename_i target hview
      split
      · exact .inl ⟨_, hset, trivial⟩
      · rename_i hinactive
        refine .inr (.inr ⟨_, hset, ?_⟩)
        intro p hp
        obtain ⟨p₀, hp₀, -, hsame | hsets⟩ := h.personSeen htxn hview
        · rw [hp] at hp₀
          obtain rfl := Option.some.inj hp₀
          rw [← hsame]
          exact Bool.eq_false_iff.mpr hinactive
        · cases hsets
  | checked row invite targetRoles => exact .inl ⟨_, hset, trivial⟩
  | clearing row invite targetRoles picked =>
    unfold People.redeem
    dsimp only
    split
    · exact h.other_of_wait ‹_›
    · exact .inl ⟨_, hset, trivial⟩
  | cleared row invite targetRoles =>
    unfold People.redeem
    dsimp only
    split
    · exact h.other_of_wait ‹_›
    · split
      · rename_i hwaits
        unfold checkUnique at hwaits
        split_ifs at hwaits with hflight
        obtain ⟨q, -, hq⟩ := List.any_eq_true.mp hflight
        rw [inFlight, Bool.and_eq_true, Bool.and_eq_true] at hq
        exact h.other_of_person hq.1.2
      · -- the chat is vacant, so nobody is in the way
        rename_i htaken
        unfold checkUnique at htaken
        split_ifs at htaken with hflight hoccupied
        obtain ⟨q, -, hq⟩ := List.any_eq_true.mp hoccupied
        rw [occupied, Bool.and_eq_true, bne_iff_ne] at hq
        obtain ⟨p, hp, hchat⟩ := (Option.any_eq_true _ _).mp hq.2
        exact absurd (beq_iff_eq.mp hchat) (hstands.2.2.2 q p hq.1 hp)
      · exact .inl ⟨_, hset, trivial⟩
  | linked row invite =>
    unfold People.redeem
    dsimp only
    split
    · exact h.other_of_inviteWait ‹_›
    · split
      · exact .inl ⟨_, hset, trivial⟩
      · -- the row is the transaction's own, and unused
        rename_i hused
        have hlive : invite.live = true := (Bool.and_eq_true _ _ ▸ hstands.1.2.1).2
        rw [view_own hstands.2.1, Option.any_some] at hused
        exact absurd (Bool.and_eq_true _ _ ▸ hlive).1 hused
  | used row invite => exact .inr (.inl ⟨row, invite, rfl, hset, onlyChatOf_committed h htxn⟩)

theorem Inv.accessLaw (h : Inv w) : AccessLaw host w where
  once := h.once
  spent := h.spent
  redeemable t c row i htxn := by
    obtain ⟨⟨hrow, hlive, hexpires⟩, -, hactive, -⟩ := h.stands t _ htxn
    exact ⟨hrow, hlive, hexpires, hactive⟩
  oneLive i i' v v' hi hi' hv hv' hperson := by
    refine h.people.both_committed i i' v v' v.personId hi hi' ?_ ?_
    · rw [StaffInvite.livePerson, if_pos hv]
    · rw [StaffInvite.livePerson, if_pos hv', hperson]
  closed later earlier p hlog := (h.closed later earlier p hlog).2
  outcome t c stage htxn := by
    have hadvance : People.advance host w t = People.redeem host w t c stage := by rw [People.advance, htxn]
    rw [hadvance]
    exact h.outcome htxn

end

/-- Any interleaving in which nobody comes between the statements that belong together. -/
theorem access_law (host : Host) {w₀ w : World} {steps : List (Step World Action)} (hfresh : Fresh w₀)
    (hrun : Run (Next host) w₀ steps w) (horderly : ∀ e ∈ steps, Orderly e.before e.action) : AccessLaw host w := by
  have hinv : Inv w :=
    hrun.invariant_of (fun _ _ _ h hnext hcond => h.next hnext hcond) hfresh.inv horderly
  exact hinv.accessLaw

def inviteHost : Host where
  sha256 s := s
  beyond _ := []
  pepper := "0123456789abcdef"

/-- Two people; the first has the chat. -/
def twoPeople (active : Bool) : World where
  now := 0
  person := [⟨some ⟨active, ["operator"], some "7"⟩, none⟩, ⟨some ⟨true, [], none⟩, none⟩]
  staffInvite := []
  txns := []
  log := []

/-- The second is invited, and redeems the code in the first's chat. -/
def takeOver : List Action :=
  [.call (.issue 1 ["manager"] "ACDEFGHJKM"), .advance 0, .advance 0, .advance 0, .advance 0, .advance 0,
    .call (.redeem "acde-fghj-km" "7"), .advance 1, .advance 1, .advance 1, .advance 1, .advance 1]

theorem fresh_twoPeople (active : Bool) : Fresh (twoPeople active) where
  txns := rfl
  log := rfl
  person q := by rcases q with _ | _ | q <;> rfl
  staffInvite _ := rfl
  chats q q' p p' chat hq hq' hp hp' := by
    have hfirst : ∀ r v, committed (twoPeople active).person r = some v → v.tgChatId = some chat → r = 0 := by
      intro r v hr hv
      rcases r with _ | _ | r
      · rfl
      · obtain rfl := Option.some.inj hr
        cases hv
      · cases hr
    rw [hfirst q p hq hp, hfirst q' p' hq' hp']
  people _ _ _ _ hi := nomatch hi

theorem access_law_takeOver : ∃ w steps, Run (Next inviteHost) (twoPeople true) steps w ∧
    steps.map Step.action = takeOver ++ [.advance 1, .advance 1, .advance 1] ∧ AccessLaw inviteHost w := by
  obtain ⟨r, hr⟩ : ∃ r, runEnabled (act inviteHost) (twoPeople true) (takeOver ++ [.advance 1, .advance 1, .advance 1]) =
      some r := Option.isSome_iff_exists.mp (by decide +kernel)
  have horderly : (runEnabled (act inviteHost) (twoPeople true) (takeOver ++ [.advance 1, .advance 1, .advance 1])).all
      (fun r => r.1.all fun e => Orderly e.before e.action) = true := by decide +kernel
  rw [hr, Option.all_some, List.all_eq_true] at horderly
  obtain ⟨hrun, hactions⟩ := run_runEnabled hr
  exact ⟨r.2, r.1, hrun, hactions, access_law inviteHost (fresh_twoPeople true) hrun fun e he =>
    of_decide_eq_true (horderly e he)⟩

def clearedStage : Option Txn → Bool
  | some (.redeem _ (.cleared _ _ _)) => true
  | _ => false

def refusedAnyway : Option Txn → Bool
  | some (.ended (.refused .uniqueViolation)) => true
  | _ => false

/-- The first has left, and still has the chat: the code cannot be used. -/
theorem not_always_accessLaw :
    ¬ ∀ w₀ w steps, Fresh w₀ → Run (Next inviteHost) w₀ steps w → AccessLaw inviteHost w := by
  intro h
  obtain ⟨r, hr⟩ : ∃ r, runEnabled (act inviteHost) (twoPeople false) takeOver = some r :=
    Option.isSome_iff_exists.mp (by decide +kernel)
  have hlaw := h _ r.2 r.1 (fresh_twoPeople false) (run_runEnabled hr).1
  have hstage : (runEnabled (act inviteHost) (twoPeople false) takeOver).all (fun r => clearedStage r.2.txns[1]?) = true := by
    decide +kernel
  have hnext : (runEnabled (act inviteHost) (twoPeople false) takeOver).all (fun r =>
      (advance inviteHost r.2 1).any fun w => refusedAnyway w.txns[1]?) = true := by decide +kernel
  rw [hr, Option.all_some] at hstage hnext
  obtain ⟨w, hw, hrefused⟩ := (Option.any_eq_true _ _).mp hnext
  unfold clearedStage at hstage
  split at hstage
  · rename_i c row i roles htxn
    have houtcome := hlaw.outcome 1 c _ htxn
    unfold refusedAnyway at hrefused
    split at hrefused
    · rename_i hended
      rw [hw] at houtcome
      rcases houtcome with ⟨stage', hgoes, -⟩ | ⟨_, _, hused, -⟩ | ⟨reason, hreason, hjustified⟩
      · rw [hended] at hgoes
        cases hgoes
      · cases hused
      · exact hjustified
    · cases hrefused
  · cases hstage

end Mydon.People
