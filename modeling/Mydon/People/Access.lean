import Mydon.Lib.Run
import Mydon.People.Invites

/-! Access by invitation: what every interleaving keeps, as long as nobody else comes between the
statements that belong together. -/

namespace Mydon.People

open Mydon.Lib Mydon.Lib.ReadCommitted

/-! Where a transaction stands. -/

/-- The invitation a redemption has locked. -/
def RedeemStage.invite : RedeemStage → Option StaffInvite
  | .start | .finding _ => none
  | .locked _ i | .checked _ i _ | .clearing _ i _ _ | .cleared _ i _ | .linked _ i | .used _ i => some i

/-- The chat a transaction has given, and to whom. -/
def Txn.links : Txn → Option (ℕ × String)
  | .redeem c (.linked _ i) | .redeem c (.used _ i) => some (i.personId, c.chatId)
  | _ => none

/-- Whom a transaction has activated or deactivated. -/
def Txn.sets : Txn → Option (ℕ × Bool)
  | .setActive p active .updated => some (p, active)
  | _ => none

/-- The invitation a transaction has written, and for whom. -/
def Txn.issues : Txn → Option (ℕ × ℕ)
  | .issue c (.inserted row) => some (row, c.personId)
  | _ => none

/-- What a transaction that is about to commit has done. -/
def Txn.event : Txn → Option Event
  | .issue c (.inserted row) => some (.issued row c.personId)
  | .redeem c (.used row i) => some (.redeemed row i.personId c.chatId)
  | .revoke p .unlinked => some (.revoked p)
  | .setActive p active .updated => some (.activated p active)
  | _ => none

/-! The steps nobody may come between. -/

/-- Has a redemption locked an invitation that expires by then? -/
def Txn.expiresBy (m : ℤ) : Txn → Bool
  | .redeem _ stage => stage.invite.any (·.expiresAt ≤ m)
  | _ => false

/-- A revocation has looked for the invitations of this person. -/
def Txn.revokes (personId : ℕ) : Txn → Bool
  | .revoke p (.revoking _ _) | .revoke p .revoked | .revoke p .unlinked => p == personId
  | _ => false

/-- A redemption has found this person active, and does not yet hold the row. -/
def Txn.hasChecked (personId : ℕ) : Txn → Bool
  | .redeem _ (.checked _ i _) | .redeem _ (.clearing _ i _ _) | .redeem _ (.cleared _ i _) => i.personId == personId
  | _ => false

/-- A redemption has taken this chat from whoever had it, and not yet given it. -/
def Txn.hasCleared (chatId : String) : Txn → Bool
  | .redeem c (.cleared _ _ _) => c.chatId == chatId
  | _ => false

/-- Whoever else has the chat is active, and the statement has picked the row. -/
def Clearable (w : World) (t personId : ℕ) (chatId : String) (picked : List ℕ) : Prop :=
  ∀ q ∈ List.range w.person.length, q ≠ personId → ∀ p ∈ view t w.person q, p.tgChatId = some chatId →
    q ∈ picked ∧ p.active = true

/-- Time does not pass an invitation over while it is being redeemed. Invitations are not issued to a person
whose access is being revoked; a person is not deactivated between the check and the binding; a chat that is
given away has no inactive holder; and two redemptions do not give one chat away at once. -/
def Orderly (w : World) : Action → Prop
  | .tick d => ∀ txn ∈ w.txns, txn.expiresBy (w.now + d) = false
  | .advance t =>
    match w.txns[t]? with
    | some (.issue c (.inserted _)) => ∀ txn ∈ w.txns, txn.revokes c.personId = false
    | some (.setActive p false .updated) => ∀ txn ∈ w.txns, txn.hasChecked p = false
    | some (.redeem c (.clearing _ i _ picked)) => Clearable w t i.personId c.chatId picked
    | some (.redeem c (.used _ _)) => ∀ txn ∈ w.txns, txn.hasCleared c.chatId = false
    | _ => True
  | _ => True

instance decidableClearable (w : World) (t personId : ℕ) (chatId : String) (picked : List ℕ) :
    Decidable (Clearable w t personId chatId picked) := by
  unfold Clearable
  infer_instance

instance decidableOrderly (w : World) (a : Action) : Decidable (Orderly w a) := by
  unfold Orderly
  split
  · infer_instance
  · split <;> infer_instance
  · infer_instance

/-! Invariants. -/

/-- The redemption has locked a live invitation that has not expired. -/
def Claimed (w : World) (c : RedeemCall) (row : ℕ) (invite : StaffInvite) : Prop :=
  committed w.staffInvite row = some invite ∧ liveWithCode c.codeHash invite = true ∧ w.now < invite.expiresAt

def IsActive (w : World) (personId : ℕ) : Prop := ∃ p, committed w.person personId = some p ∧ p.active = true

/-- Nobody else has the chat. -/
def Vacant (w : World) (t personId : ℕ) (chatId : String) : Prop :=
  ∀ q p, q ≠ personId → view t w.person q = some p → p.tgChatId ≠ some chatId

def Linked (w : World) (t personId : ℕ) (chatId : String) : Prop :=
  ∃ p, pending w.person personId = some (t, p) ∧ p.tgChatId = some chatId

def Unlinked (w : World) (t personId : ℕ) : Prop :=
  ∀ p, committed w.person personId = some p → ∃ p', pending w.person personId = some (t, p') ∧ p'.tgChatId = none

/-- The transaction holds every live invitation of the person, and has revoked it. -/
def Withdrawn (w : World) (t personId : ℕ) : Prop :=
  ∀ i v, committed w.staffInvite i = some v → liveOf personId v = true →
    ∃ v', pending w.staffInvite i = some (t, v') ∧ v'.live = false

def Unheld (w : World) (t : ℕ) : Prop := ∀ i v, pending w.staffInvite i ≠ some (t, v)

def Stands (w : World) (t : ℕ) : Txn → Prop
  | .redeem _ .start | .redeem _ (.finding _) | .revoke _ .start | .revoke _ .read => Unheld w t
  | .redeem c (.locked row i) => Claimed w c row i ∧ pending w.staffInvite row = some (t, i)
  | .redeem c (.checked row i _) | .redeem c (.clearing row i _ _) =>
    Claimed w c row i ∧ pending w.staffInvite row = some (t, i) ∧ IsActive w i.personId
  | .redeem c (.cleared row i _) =>
    Claimed w c row i ∧ pending w.staffInvite row = some (t, i) ∧ IsActive w i.personId ∧ Vacant w t i.personId c.chatId
  | .redeem c (.linked row i) =>
    Claimed w c row i ∧ pending w.staffInvite row = some (t, i) ∧ IsActive w i.personId ∧ Linked w t i.personId c.chatId
  | .redeem c (.used row i) =>
    Claimed w c row i ∧ (∃ v, pending w.staffInvite row = some (t, v) ∧ v.usedAt.isSome = true) ∧
      IsActive w i.personId ∧ Linked w t i.personId c.chatId
  | .revoke p (.revoking picked _) =>
    Unheld w t ∧ ∀ i v, committed w.staffInvite i = some v → liveOf p v = true → i ∈ picked
  | .revoke p .revoked => Withdrawn w t p
  | .revoke p .unlinked => Withdrawn w t p ∧ Unlinked w t p
  | _ => True

/-- A row of a person that a transaction holds: the chat is the committed one, none, or one the transaction
gives; and only `setActive` changes whether the person is active. -/
def PersonHeld (w : World) (txn : Txn) (q : ℕ) (p : Person) : Prop :=
  ∃ p₀, committed w.person q = some p₀ ∧
    (∀ chat, p.tgChatId = some chat → p₀.tgChatId = some chat ∨ txn.links = some (q, chat)) ∧
    (p.active = p₀.active ∨ txn.sets = some (q, p.active))

/-- An invitation that a transaction holds was live, or is the one it issues. -/
def InviteHeld (w : World) (txn : Txn) (i : ℕ) (v : StaffInvite) : Prop :=
  (∀ v₀, committed w.staffInvite i = some v₀ → v₀.live = true) ∧
    (v.live = true → (∃ v₀, committed w.staffInvite i = some v₀ ∧ v₀.personId = v.personId) ∨
      txn.issues = some (i, v.personId))

/-- Since the access was revoked: a live invitation has been issued since, and whoever has a chat has redeemed
one that was. -/
def ClosedSince (w : World) (later : List Event) (p : ℕ) : Prop :=
  (∀ i v, committed w.staffInvite i = some v → liveOf p v = true → .issued i p ∈ later) ∧
    ∀ v, committed w.person p = some v → v.tgChatId ≠ none →
      ∃ l₁ l₂ row chat, later = l₁ ++ .redeemed row p chat :: l₂ ∧ .issued row p ∈ l₂

def Event.redeemedRow : Event → Option ℕ
  | .redeemed row _ _ => some row
  | _ => none

structure Inv (w : World) : Prop where
  chats : Unique Person.tgChatId w.person
  people : Unique StaffInvite.livePerson w.staffInvite
  personHeld : ∀ q t p, pending w.person q = some (t, p) →
    ∃ txn, w.txns[t]? = some txn ∧ txn.running = true ∧ PersonHeld w txn q p
  inviteHeld : ∀ i t v, pending w.staffInvite i = some (t, v) →
    ∃ txn, w.txns[t]? = some txn ∧ txn.running = true ∧ InviteHeld w txn i v
  stands : ∀ t txn, w.txns[t]? = some txn → Stands w t txn
  spent : ∀ row ∈ w.log.filterMap Event.redeemedRow, ∃ v, committed w.staffInvite row = some v ∧ v.live = false
  once : (w.log.filterMap Event.redeemedRow).Nodup
  closed : ∀ later earlier p, w.log = later ++ .revoked p :: earlier → ClosedSince w later p

/-! Steps that commit nothing. -/

/-- Only what `t` holds, and where it stands, has changed. -/
structure Apart (t : ℕ) (w w' : World) : Prop where
  now : w'.now = w.now
  log : w'.log = w.log
  person : Private t w.person w'.person
  staffInvite : Private t w.staffInvite w'.staffInvite
  txns : ∀ u, u ≠ t → w'.txns[u]? = w.txns[u]?

section
variable {w w' : World} {t u : ℕ} {txn txn' : Txn} {q i : ℕ} {p : Person} {v : StaffInvite}

theorem Apart.stands_iff (h : Apart t w w') (hu : u ≠ t) : Stands w' u txn ↔ Stands w u txn := by
  have hp := h.person.committed_eq
  have hi := h.staffInvite.committed_eq
  have hp' : ∀ i v, pending w'.person i = some (u, v) ↔ pending w.person i = some (u, v) := fun i v =>
    h.person.pending_iff i u v hu
  have hi' : ∀ i v, pending w'.staffInvite i = some (u, v) ↔ pending w.staffInvite i = some (u, v) := fun i v =>
    h.staffInvite.pending_iff i u v hu
  rcases txn with ⟨c, stage⟩ | ⟨c, stage⟩ | ⟨p, stage⟩ | ⟨p, active, stage⟩ | answer <;> try cases stage
  all_goals simp only [Stands, Unheld, Claimed, IsActive, Vacant, Linked, Unlinked, Withdrawn, h.now, hp, hi, hp', hi', ne_eq,
    h.person.view_eq hu]

theorem PersonHeld.congr (h : committed w'.person q = committed w.person q) :
    PersonHeld w' txn q p ↔ PersonHeld w txn q p := by simp only [PersonHeld, h]

theorem InviteHeld.congr (h : committed w'.staffInvite i = committed w.staffInvite i) :
    InviteHeld w' txn i v ↔ InviteHeld w txn i v := by simp only [InviteHeld, h]

/-- What is left to show of such a step concerns the transaction itself. -/
theorem Inv.apart (h : Inv w) (hapart : Apart t w w') (hchats : Unique Person.tgChatId w'.person)
    (hpeople : Unique StaffInvite.livePerson w'.staffInvite) (htxn : w'.txns[t]? = some txn) (hstands : Stands w' t txn)
    (hperson : ∀ q p, pending w'.person q = some (t, p) → txn.running = true ∧ PersonHeld w' txn q p)
    (hinvite : ∀ i v, pending w'.staffInvite i = some (t, v) → txn.running = true ∧ InviteHeld w' txn i v) : Inv w' where
  chats := hchats
  people := hpeople
  personHeld q u p hq := by
    by_cases hu : u = t
    · subst hu
      exact ⟨txn, htxn, hperson q p hq⟩
    · obtain ⟨txn', htxn', hrunning, hheld⟩ := h.personHeld q u p ((hapart.person.pending_iff q u p hu).mp hq)
      exact ⟨txn', (hapart.txns u hu).trans htxn', hrunning, (PersonHeld.congr (hapart.person.committed_eq q)).mpr hheld⟩
  inviteHeld i u v hi := by
    by_cases hu : u = t
    · subst hu
      exact ⟨txn, htxn, hinvite i v hi⟩
    · obtain ⟨txn', htxn', hrunning, hheld⟩ := h.inviteHeld i u v ((hapart.staffInvite.pending_iff i u v hu).mp hi)
      exact ⟨txn', (hapart.txns u hu).trans htxn', hrunning,
        (InviteHeld.congr (hapart.staffInvite.committed_eq i)).mpr hheld⟩
  stands u txn' hu' := by
    by_cases hu : u = t
    · subst hu
      rw [htxn] at hu'
      obtain rfl := Option.some.inj hu'
      exact hstands
    · rw [hapart.txns u hu] at hu'
      exact (hapart.stands_iff hu).mpr (h.stands u txn' hu')
  spent row hrow := by
    rw [hapart.log] at hrow
    rw [hapart.staffInvite.committed_eq]
    exact h.spent row hrow
  once := by
    rw [hapart.log]
    exact h.once
  closed later earlier p hlog := by
    rw [hapart.log] at hlog
    simp only [ClosedSince, hapart.person.committed_eq, hapart.staffInvite.committed_eq]
    exact h.closed later earlier p hlog

theorem getElem?_set_self_of_some {items : List Txn} (h : items[t]? = some txn) : (items.set t txn')[t]? = some txn' := by
  obtain ⟨hlt, -⟩ := List.getElem?_eq_some_iff.mp h
  rw [List.getElem?_set_self hlt]

/-- A transaction given up holds nothing. -/
theorem Inv.rolledBack (h : Inv w) (htxn : w.txns[t]? = some txn) (answer : Answer) : Inv (w.rolledBack t answer) := by
  refine @Inv.apart w _ t (.ended answer) h ⟨rfl, rfl, private_rollback t _, private_rollback t _, ?_⟩
    (unique_rollback h.chats t) (unique_rollback h.people t) (getElem?_set_self_of_some htxn) trivial ?_ ?_
  · intro u hu
    exact List.getElem?_set_ne hu.symm
  · intro q p hq
    exact absurd rfl (pending_rollback_iff.mp hq).1
  · intro i v hi
    exact absurd rfl (pending_rollback_iff.mp hi).1

/-- The transaction has given, set and issued what it had. -/
structure GoesOn (txn txn' : Txn) : Prop where
  running : txn'.running = true
  links : ∀ r, txn.links = some r → txn'.links = some r
  sets : ∀ r, txn.sets = some r → txn'.sets = some r
  issues : ∀ r, txn.issues = some r → txn'.issues = some r

theorem GoesOn.of_none (hrunning : txn'.running = true) (hlinks : txn.links = none) (hsets : txn.sets = none)
    (hissues : txn.issues = none) : GoesOn txn txn' where
  running := hrunning
  links _ hr := by cases hlinks.symm.trans hr
  sets _ hr := by cases hsets.symm.trans hr
  issues _ hr := by cases hissues.symm.trans hr

theorem PersonHeld.goesOn (h : PersonHeld w txn q p) (hon : GoesOn txn txn') :
    PersonHeld w txn' q p := by
  obtain ⟨p₀, hp₀, hchat, hactive⟩ := h
  exact ⟨p₀, hp₀, fun chat hp => (hchat chat hp).imp_right (hon.links _), hactive.imp_right (hon.sets _)⟩

theorem InviteHeld.goesOn (h : InviteHeld w txn i v) (hon : GoesOn txn txn') :
    InviteHeld w txn' i v :=
  ⟨h.1, fun hlive => (h.2 hlive).imp_right (hon.issues _)⟩

theorem Inv.personHeld_of (h : Inv w) (htxn : w.txns[t]? = some txn)
    (hq : pending w.person q = some (t, p)) : PersonHeld w txn q p := by
  obtain ⟨txn', htxn', -, hheld⟩ := h.personHeld q t p hq
  rw [htxn] at htxn'
  obtain rfl := Option.some.inj htxn'
  exact hheld

theorem Inv.inviteHeld_of (h : Inv w) (htxn : w.txns[t]? = some txn)
    (hi : pending w.staffInvite i = some (t, v)) : InviteHeld w txn i v := by
  obtain ⟨txn', htxn', -, hheld⟩ := h.inviteHeld i t v hi
  rw [htxn] at htxn'
  obtain rfl := Option.some.inj htxn'
  exact hheld

theorem Inv.moved (h : Inv w) (htxn : w.txns[t]? = some txn) (hon : GoesOn txn txn') (hstands : Stands w t txn') :
    Inv (w.moved t txn') := by
  have hstands' : Stands (w.moved t txn') t txn' := hstands
  refine @Inv.apart w _ t txn' h ⟨rfl, rfl, private_refl t _, private_refl t _, ?_⟩ h.chats h.people
    (getElem?_set_self_of_some htxn) hstands' ?_ ?_
  · intro u hu
    exact List.getElem?_set_ne hu.symm
  · intro q p hq
    exact ⟨hon.running, (h.personHeld_of htxn hq).goesOn hon⟩
  · intro i v hi
    exact ⟨hon.running, (h.inviteHeld_of htxn hi).goesOn hon⟩

/-- A row is seen as it was committed, or as the transaction holds it. -/
theorem Inv.personSeen (h : Inv w) (htxn : w.txns[t]? = some txn)
    (hview : view t w.person q = some p) : PersonHeld w txn q p := by
  rcases view_cases hview with hown | ⟨hcommitted, -⟩
  · exact h.personHeld_of htxn hown
  · exact ⟨p, hcommitted, fun chat hp => .inl hp, .inl rfl⟩

theorem Inv.updatePerson (h : Inv w) (htxn : w.txns[t]? = some txn) (hon : GoesOn txn txn') {picked : List ℕ}
    {m : Person → Bool} {f : Person → Person} (hfree : mustWait t picked w.person = false)
    (hchats : Unique Person.tgChatId (update t picked m f w.person))
    (hchat : ∀ q ∈ picked, ∀ p chat, (f p).tgChatId = some chat → p.tgChatId = some chat ∨ txn'.links = some (q, chat))
    (hactive : ∀ q ∈ picked, ∀ p, (f p).active = p.active ∨ txn'.sets = some (q, (f p).active))
    (hstands : Stands (w.updatePerson t picked m f txn') t txn') : Inv (w.updatePerson t picked m f txn') := by
  refine @Inv.apart w _ t txn' h ⟨rfl, rfl, private_update hfree m f, private_refl t _, ?_⟩ hchats h.people
    (getElem?_set_self_of_some htxn) hstands ?_ ?_
  · intro u hu
    exact List.getElem?_set_ne hu.symm
  · intro q p hq
    refine ⟨hon.running, ?_⟩
    rcases pending_update_cases t picked m f w.person q with ⟨p', hpicked, hview, -, heq⟩ | ⟨-, heq⟩
    · have hq' : pending (update t picked m f w.person) q = some (t, p) := hq
      rw [heq] at hq'
      obtain rfl : p = f p' := (congrArg Prod.snd (Option.some.inj hq')).symm
      obtain ⟨p₀, hp₀, hchat₀, hactive₀⟩ := (h.personSeen htxn hview).goesOn hon
      refine ⟨p₀, committed_update.trans hp₀, ?_, ?_⟩
      · intro chat hc
        rcases hchat q hpicked p' chat hc with hkept | hlinks
        · exact hchat₀ chat hkept
        · exact .inr hlinks
      · rcases hactive q hpicked p' with hkept | hsets
        · rcases hactive₀ with hactive₀ | hactive₀
          · exact .inl (hkept.trans hactive₀)
          · exact .inr (by rw [hkept, hactive₀])
        · exact .inr hsets
    · have hq' : pending (update t picked m f w.person) q = some (t, p) := hq
      rw [heq] at hq'
      exact (PersonHeld.congr committed_update).mpr ((h.personHeld_of htxn hq').goesOn hon)
  · intro i v hi
    exact ⟨hon.running, (h.inviteHeld_of htxn hi).goesOn hon⟩

theorem Inv.updateInvite (h : Inv w) (htxn : w.txns[t]? = some txn) (hon : GoesOn txn txn') {picked : List ℕ}
    {m : StaffInvite → Bool} {f : StaffInvite → StaffInvite} (hfree : mustWait t picked w.staffInvite = false)
    (hlive : ∀ i ∈ picked, ∀ v, view t w.staffInvite i = some v → m v = true → v.live = true)
    (hf : ∀ v, f v = v ∨ (f v).live = false) (hstands : Stands (w.updateInvite t picked m f txn') t txn') :
    Inv (w.updateInvite t picked m f txn') := by
  have hkey : ∀ v, (f v).livePerson = none ∨ (f v).livePerson = v.livePerson := by
    intro v
    rcases hf v with heq | hdead
    · exact .inr (by rw [heq])
    · exact .inl (by rw [StaffInvite.livePerson, hdead]; rfl)
  refine @Inv.apart w _ t txn' h ⟨rfl, rfl, private_refl t _, private_update hfree m f, ?_⟩ h.chats
    (unique_update h.people hfree fun v _ => hkey v) (getElem?_set_self_of_some htxn) hstands ?_ ?_
  · intro u hu
    exact List.getElem?_set_ne hu.symm
  · intro q p hq
    exact ⟨hon.running, (h.personHeld_of htxn hq).goesOn hon⟩
  · intro i v hi
    refine ⟨hon.running, ?_⟩
    have hi' : pending (update t picked m f w.staffInvite) i = some (t, v) := hi
    rcases pending_update_cases t picked m f w.staffInvite i with ⟨v', hpicked, hview, hm, heq⟩ | ⟨-, heq⟩
    · rw [heq] at hi'
      obtain rfl : v = f v' := (congrArg Prod.snd (Option.some.inj hi')).symm
      rw [InviteHeld.congr (show committed _ i = committed w.staffInvite i from committed_update)]
      have hlive' := hlive i hpicked v' hview hm
      rcases view_cases hview with hown | ⟨hcommitted, -⟩
      · have hheld := (h.inviteHeld_of htxn hown).goesOn hon
        refine ⟨hheld.1, fun hfl => ?_⟩
        rcases hf v' with hsame | hdead
        · rw [hsame]
          exact hheld.2 hlive'
        · rw [hdead] at hfl
          cases hfl
      · constructor
        · intro v₀ hv₀
          rw [hcommitted] at hv₀
          obtain rfl := Option.some.inj hv₀
          exact hlive'
        · intro hfl
          rcases hf v' with hsame | hdead
          · exact .inl ⟨v', hcommitted, by rw [hsame]⟩
          · rw [hdead] at hfl
            cases hfl
    · rw [heq] at hi'
      exact (InviteHeld.congr committed_update).mpr ((h.inviteHeld_of htxn hi').goesOn hon)

theorem Inv.insertInvite (h : Inv w) (htxn : w.txns[t]? = some txn) (hon : GoesOn txn txn')
    (hpeople : Unique StaffInvite.livePerson (insert t v w.staffInvite))
    (hissues : txn'.issues = some (w.staffInvite.length, v.personId)) (hstands : Stands (w.insertInvite t v txn') t txn') :
    Inv (w.insertInvite t v txn') := by
  refine @Inv.apart w _ t txn' h ⟨rfl, rfl, private_refl t _, private_insert t v _, ?_⟩ h.chats hpeople
    (getElem?_set_self_of_some htxn) hstands ?_ ?_
  · intro u hu
    exact List.getElem?_set_ne hu.symm
  · intro q p hq
    exact ⟨hon.running, (h.personHeld_of htxn hq).goesOn hon⟩
  · intro i v' hi
    refine ⟨hon.running, ?_⟩
    rw [InviteHeld.congr (show committed _ i = committed w.staffInvite i from committed_insert)]
    have hi' : pending (insert t v w.staffInvite) i = some (t, v') := hi
    rw [pending_insert] at hi'
    split_ifs at hi' with hlast
    · obtain rfl := congrArg Prod.snd (Option.some.inj hi')
      subst hlast
      refine ⟨?_, fun _ => .inr hissues⟩
      intro v₀ hv₀
      rw [committed, List.getElem?_eq_none (Nat.le_refl _)] at hv₀
      cases hv₀
    · exact (h.inviteHeld_of htxn hi').goesOn hon

/-! Commits. -/

/-- Nobody is between two statements that the commit would come between. -/
structure Undisturbed (w : World) (txn : Txn) : Prop where
  issues : ∀ row p, txn.issues = some (row, p) → ∀ txn' ∈ w.txns, txn'.revokes p = false
  sets : ∀ p, txn.sets = some (p, false) → ∀ txn' ∈ w.txns, txn'.hasChecked p = false
  links : ∀ q chat, txn.links = some (q, chat) → ∀ txn' ∈ w.txns, txn'.hasCleared chat = false

theorem undisturbed_of_orderly {e : Event} (htxn : w.txns[t]? = some txn) (hevent : txn.event = some e)
    (h : Orderly w (.advance t)) : Undisturbed w txn := by
  simp only [Orderly, htxn] at h
  rcases txn with ⟨c, stage⟩ | ⟨c, stage⟩ | ⟨p, stage⟩ | ⟨p, active, stage⟩ | answer <;> try cases stage
  all_goals try cases hevent
  · refine ⟨?_, nofun, nofun⟩
    rintro row p ⟨⟩
    exact h
  · refine ⟨nofun, nofun, ?_⟩
    rintro q chat ⟨⟩
    exact h
  · exact ⟨nofun, nofun, nofun⟩
  · refine ⟨nofun, ?_, nofun⟩
    rintro p ⟨⟩
    exact h

variable {e : Event} {txn'' : Txn} {host : Host}

theorem not_own {α : Type*} {rows : Rows α} {i : ℕ} {v : α} (hu : u ≠ t) (h : pending rows i = some (u, v)) (v' : α) :
    pending rows i ≠ some (t, v') := by
  rw [h]
  intro heq
  exact hu (congrArg Prod.fst (Option.some.inj heq))

theorem Claimed.commit {c : RedeemCall} {row : ℕ} {i v : StaffInvite} (h : Claimed w c row i) (hu : u ≠ t)
    (hheld : pending w.staffInvite row = some (u, v)) : Claimed (w.committed t e) c row i :=
  ⟨(committed_commit_other (not_own hu hheld)).trans h.1, h.2⟩

theorem IsActive.commit {p : ℕ} (hinv : Inv w) (htxn : w.txns[t]? = some txn) (h : IsActive w p)
    (hkept : txn.sets ≠ some (p, false)) : IsActive (w.committed t e) p := by
  obtain ⟨v, hv, hactive⟩ := h
  by_cases hown : ∃ v', pending w.person p = some (t, v')
  · obtain ⟨v', hv'⟩ := hown
    refine ⟨v', committed_commit_own hv', ?_⟩
    obtain ⟨p₀, hp₀, -, hsame | hsets⟩ := hinv.personHeld_of htxn hv'
    · rw [hv] at hp₀
      obtain rfl := Option.some.inj hp₀
      rw [hsame, hactive]
    · by_contra hnot
      rw [Bool.not_eq_true] at hnot
      rw [hnot] at hsets
      exact hkept hsets
  · rw [not_exists] at hown
    exact ⟨v, (committed_commit_other hown).trans hv, hactive⟩

/-- A chat stays vacant if the transaction does not give it away. -/
theorem Vacant.commit {p : ℕ} {chat : String} (hinv : Inv w) (htxn : w.txns[t]? = some txn) (hu : u ≠ t)
    (h : Vacant w u p chat) (hkept : ∀ q, txn.links ≠ some (q, chat)) : Vacant (w.committed t e) u p chat := by
  intro q v hq hview
  have hcommit : ∀ v', pending (w.committed t e).person q = some (u, v') ↔ pending w.person q = some (u, v') :=
    fun v' => pending_commit_iff.trans (and_iff_right hu)
  rcases view_cases hview with hown | ⟨hcommitted, hnot⟩
  · exact h q v hq (view_own ((hcommit v).mp hown))
  · have hview' : view u w.person q = committed w.person q := view_other fun v' hv' => hnot v' ((hcommit v').mpr hv')
    rcases committed_commit_cases hcommitted with hown | ⟨hcommitted, -⟩
    · obtain ⟨p₀, hp₀, hchat, -⟩ := hinv.personHeld_of htxn hown
      intro hv
      rcases hchat chat hv with hbefore | hlinks
      · exact h q p₀ hq (hview'.trans hp₀) hbefore
      · exact hkept q hlinks
    · exact h q v hq (hview'.trans hcommitted)

/-- A live invitation of the person was one before, or is the one issued. -/
theorem liveOf_commit {p i : ℕ} {v : StaffInvite} (hinv : Inv w) (htxn : w.txns[t]? = some txn)
    (hv : committed (w.committed t e).staffInvite i = some v) (hlive : liveOf p v = true) :
    (∃ v₀, committed w.staffInvite i = some v₀ ∧ liveOf p v₀ = true) ∨ txn.issues = some (i, p) := by
  rcases committed_commit_cases hv with hown | ⟨hcommitted, -⟩
  · simp only [liveOf, Bool.and_eq_true, beq_iff_eq] at hlive ⊢
    obtain ⟨hwas, hheld⟩ := hinv.inviteHeld_of htxn hown
    rcases hheld hlive.2 with ⟨v₀, hv₀, hperson⟩ | hissues
    · exact .inl ⟨v₀, hv₀, hperson.trans hlive.1, hwas v₀ hv₀⟩
    · exact .inr (by rw [hissues, hlive.1])
  · exact .inl ⟨v, hcommitted, hlive⟩

theorem Withdrawn.commit {p : ℕ} (hinv : Inv w) (htxn : w.txns[t]? = some txn) (hu : u ≠ t) (h : Withdrawn w u p)
    (hkept : ∀ row, txn.issues ≠ some (row, p)) : Withdrawn (w.committed t e) u p := by
  intro i v hv hlive
  rcases liveOf_commit hinv htxn hv hlive with ⟨v₀, hv₀, hlive₀⟩ | hissues
  · obtain ⟨v', hv', hdead⟩ := h i v₀ hv₀ hlive₀
    exact ⟨v', pending_commit_iff.mpr ⟨hu, hv'⟩, hdead⟩
  · exact absurd hissues (hkept i)

/-- The others stand where they stood. -/
theorem Stands.commit (hinv : Inv w) (htxn : w.txns[t]? = some txn) (hfree : Undisturbed w txn) (hu : u ≠ t)
    (hother : w.txns[u]? = some txn') (h : Stands w u txn') : Stands (w.committed t e) u txn' := by
  have hmem := List.mem_of_getElem? hother
  have hactive : ∀ p, txn'.hasChecked p = true → IsActive w p → IsActive (w.committed t e) p := by
    intro p hchecked hp
    refine hp.commit hinv htxn fun hsets => ?_
    rw [hfree.sets p hsets txn' hmem] at hchecked
    cases hchecked
  have hheld : ∀ {i v}, pending w.staffInvite i = some (u, v) → pending (w.committed t e).staffInvite i = some (u, v) :=
    fun hi => pending_commit_iff.mpr ⟨hu, hi⟩
  have hheldPerson : ∀ {q p}, pending w.person q = some (u, p) → pending (w.committed t e).person q = some (u, p) :=
    fun hq => pending_commit_iff.mpr ⟨hu, hq⟩
  have hkept : ∀ {p chat}, Linked w u p chat → IsActive w p → IsActive (w.committed t e) p := by
    rintro p chat ⟨v, hv, -⟩ ⟨v₀, hv₀, hactive₀⟩
    exact ⟨v₀, (committed_commit_other (not_own hu hv)).trans hv₀, hactive₀⟩
  have hlinked : ∀ {p chat}, Linked w u p chat → Linked (w.committed t e) u p chat := by
    rintro p chat ⟨v, hv, hchat⟩
    exact ⟨v, hheldPerson hv, hchat⟩
  have hunheld : Unheld w u → Unheld (w.committed t e) u := fun hnot i v hi => hnot i v (pending_commit_iff.mp hi).2
  have hrevokes : ∀ p, txn'.revokes p = true → ∀ row, txn.issues ≠ some (row, p) := by
    intro p hrevokes row hissues
    rw [hfree.issues row p hissues txn' hmem] at hrevokes
    cases hrevokes
  rcases txn' with ⟨c, stage⟩ | ⟨c, stage⟩ | ⟨p, stage⟩ | ⟨p, active, stage⟩ | answer
  · trivial
  · cases stage with
    | start => exact hunheld h
    | finding => exact hunheld h
    | locked row i => exact ⟨h.1.commit hu h.2, hheld h.2⟩
    | checked row i _ => exact ⟨h.1.commit hu h.2.1, hheld h.2.1, hactive _ (beq_self_eq_true _) h.2.2⟩
    | clearing row i _ _ => exact ⟨h.1.commit hu h.2.1, hheld h.2.1, hactive _ (beq_self_eq_true _) h.2.2⟩
    | cleared row i _ =>
      obtain ⟨hclaimed, hrow, hperson, hvacant⟩ := h
      refine ⟨hclaimed.commit hu hrow, hheld hrow, hactive _ (beq_self_eq_true _) hperson,
        hvacant.commit hinv htxn hu fun q hlinks => ?_⟩
      have hclear := hfree.links q c.chatId hlinks _ hmem
      simp [Txn.hasCleared] at hclear
    | linked row i =>
      obtain ⟨hclaimed, hrow, hperson, hlink⟩ := h
      exact ⟨hclaimed.commit hu hrow, hheld hrow, hkept hlink hperson, hlinked hlink⟩
    | used row i =>
      obtain ⟨hclaimed, ⟨v, hrow, hused⟩, hperson, hlink⟩ := h
      exact ⟨hclaimed.commit hu hrow, ⟨v, hheld hrow, hused⟩, hkept hlink hperson, hlinked hlink⟩
  · cases stage with
    | start => exact hunheld h
    | read => exact hunheld h
    | revoking picked _ =>
      refine ⟨hunheld h.1, ?_⟩
      intro i v hv hlive
      rcases liveOf_commit hinv htxn hv hlive with ⟨v₀, hv₀, hlive₀⟩ | hissues
      · exact h.2 i v₀ hv₀ hlive₀
      · exact absurd hissues (hrevokes p (beq_self_eq_true _) i)
    | revoked => exact Withdrawn.commit hinv htxn hu h (hrevokes p (beq_self_eq_true _))
    | unlinked =>
      refine ⟨h.1.commit hinv htxn hu (hrevokes p (beq_self_eq_true _)), ?_⟩
      intro v hv
      rcases committed_commit_cases hv with hown | ⟨hcommitted, -⟩
      · obtain ⟨p₀, hp₀, -⟩ := hinv.personHeld_of htxn hown
        obtain ⟨v', hv', -⟩ := h.2 p₀ hp₀
        exact absurd hown (not_own hu hv' v)
      · obtain ⟨v', hv', hnone⟩ := h.2 v hcommitted
        exact ⟨v', hheldPerson hv', hnone⟩
  · trivial
  · trivial

theorem event_of_issues {row p : ℕ} (hevent : txn.event = some e) (hissues : txn.issues = some (row, p)) :
    e = .issued row p := by
  rcases txn with ⟨c, stage⟩ | ⟨c, stage⟩ | ⟨p, stage⟩ | ⟨p, active, stage⟩ | answer <;> try cases stage
  all_goals try cases hissues
  exact (Option.some.inj hevent).symm

/-- Whoever is given a chat has redeemed a live invitation of their own. -/
theorem event_of_links {p : ℕ} {chat : String} (hstands : Stands w t txn) (hevent : txn.event = some e)
    (hlinks : txn.links = some (p, chat)) :
    ∃ row v, e = .redeemed row p chat ∧ committed w.staffInvite row = some v ∧ liveOf p v = true := by
  rcases txn with ⟨c, stage⟩ | ⟨c, stage⟩ | ⟨p, stage⟩ | ⟨p, active, stage⟩ | answer <;> try cases stage
  all_goals try cases hlinks
  · cases hevent
  · rename_i row i
    obtain ⟨⟨hrow, hlive, -⟩, -⟩ := hstands
    refine ⟨row, i, (Option.some.inj hevent).symm, hrow, ?_⟩
    rw [liveWithCode, Bool.and_eq_true] at hlive
    rw [liveOf, beq_self_eq_true, Bool.true_and, hlive.2]

theorem ClosedSince.commit {later : List Event} {p : ℕ} (hinv : Inv w) (htxn : w.txns[t]? = some txn)
    (hevent : txn.event = some e) (h : ClosedSince w later p) : ClosedSince (w.committed t e) (e :: later) p := by
  constructor
  · intro i v hv hlive
    rcases liveOf_commit hinv htxn hv hlive with ⟨v₀, hv₀, hlive₀⟩ | hissues
    · exact List.mem_cons_of_mem _ (h.1 i v₀ hv₀ hlive₀)
    · rw [event_of_issues hevent hissues]
      exact List.mem_cons_self
  · intro v hv hchat
    have hold : ∀ v₀, committed w.person p = some v₀ → v₀.tgChatId ≠ none →
        ∃ l₁ l₂ row chat, e :: later = l₁ ++ .redeemed row p chat :: l₂ ∧ .issued row p ∈ l₂ := by
      intro v₀ hv₀ hchat₀
      obtain ⟨l₁, l₂, row, chat, rfl, hissued⟩ := h.2 v₀ hv₀ hchat₀
      exact ⟨e :: l₁, l₂, row, chat, rfl, hissued⟩
    rcases committed_commit_cases hv with hown | ⟨hcommitted, -⟩
    · obtain ⟨chat, hsome⟩ := Option.ne_none_iff_exists'.mp hchat
      obtain ⟨p₀, hp₀, hheld, -⟩ := hinv.personHeld_of htxn hown
      rcases hheld chat hsome with hbefore | hlinks
      · exact hold p₀ hp₀ (by rw [hbefore]; exact Option.some_ne_none chat)
      · obtain ⟨row, i, rfl, hrow, hlive⟩ := event_of_links (hinv.stands t txn htxn) hevent hlinks
        exact ⟨[], later, row, chat, rfl, h.1 row i hrow hlive⟩
    · exact hold v hcommitted hchat

/-- A revocation leaves no live invitation and no chat. -/
theorem closedSince_nil {p : ℕ} (hinv : Inv w) (htxn : w.txns[t]? = some txn) (hevent : txn.event = some (.revoked p)) :
    ClosedSince (w.committed t (.revoked p)) [] p := by
  obtain rfl : txn = .revoke p .unlinked := by
    rcases txn with ⟨c, stage⟩ | ⟨c, stage⟩ | ⟨p, stage⟩ | ⟨p, active, stage⟩ | answer <;> try cases stage
    all_goals try cases hevent
    rfl
  obtain ⟨hwithdrawn, hunlinked⟩ := hinv.stands t _ htxn
  constructor
  · intro i v' hv' hlive
    rcases liveOf_commit hinv htxn hv' hlive with ⟨v₀, hv₀, hlive₀⟩ | hissues
    · obtain ⟨v'', hheld, hdead⟩ := hwithdrawn i v₀ hv₀ hlive₀
      have hv'' : committed (World.committed w t (.revoked p)).staffInvite i = some v'' := committed_commit_own hheld
      rw [hv''] at hv'
      obtain rfl := Option.some.inj hv'
      rw [liveOf, hdead, Bool.and_false] at hlive
      cases hlive
    · cases hissues
  · intro v' hv' hchat
    rcases committed_commit_cases hv' with hown | ⟨hcommitted, hnot⟩
    · obtain ⟨p₀, hp₀, -⟩ := hinv.personHeld_of htxn hown
      obtain ⟨v, hv, hnone⟩ := hunlinked p₀ hp₀
      rw [hv] at hown
      obtain rfl := congrArg Prod.snd (Option.some.inj hown)
      exact absurd hnone hchat
    · obtain ⟨v, hv, -⟩ := hunlinked v' hcommitted
      exact absurd hv (hnot v)

/-- An invitation that has been used stays so. -/
theorem dead_commit {row : ℕ} {v : StaffInvite} (hinv : Inv w) (htxn : w.txns[t]? = some txn)
    (hv : committed w.staffInvite row = some v) (hdead : v.live = false) :
    committed (w.committed t e).staffInvite row = some v := by
  rw [← hv]
  apply committed_commit_other
  intro v' hown
  have hlive := (hinv.inviteHeld_of htxn hown).1 v hv
  rw [hdead] at hlive
  cases hlive

/-- A redemption uses up a live invitation. -/
theorem redeemedRow_spec {row : ℕ} (hstands : Stands w t txn) (hevent : txn.event = some e)
    (hrow : e.redeemedRow = some row) : ∃ i v, committed w.staffInvite row = some i ∧ i.live = true ∧
      pending w.staffInvite row = some (t, v) ∧ v.live = false := by
  rcases txn with ⟨c, stage⟩ | ⟨c, stage⟩ | ⟨p, stage⟩ | ⟨p, active, stage⟩ | answer <;> try cases stage
  all_goals try cases hevent
  all_goals try cases hrow
  obtain ⟨⟨hcommitted, hlive, -⟩, ⟨v, hheld, hused⟩, -⟩ := hstands
  rw [liveWithCode, Bool.and_eq_true] at hlive
  refine ⟨_, v, hcommitted, hlive.2, hheld, ?_⟩
  rw [StaffInvite.live, Option.isNone_eq_false_iff.mpr hused, Bool.false_and]

theorem Inv.committed (h : Inv w) (htxn : w.txns[t]? = some txn) (hevent : txn.event = some e)
    (hfree : Undisturbed w txn) : Inv (w.committed t e) where
  chats := unique_commit h.chats t
  people := unique_commit h.people t
  personHeld q u p hq := by
    obtain ⟨hu, hq⟩ := pending_commit_iff.mp hq
    obtain ⟨txn', htxn', hrunning, hheld⟩ := h.personHeld q u p hq
    refine ⟨txn', ?_, hrunning, (PersonHeld.congr (committed_commit_other (not_own hu hq))).mpr hheld⟩
    exact (List.getElem?_set_ne hu.symm).trans htxn'
  inviteHeld i u v hi := by
    obtain ⟨hu, hi⟩ := pending_commit_iff.mp hi
    obtain ⟨txn', htxn', hrunning, hheld⟩ := h.inviteHeld i u v hi
    refine ⟨txn', ?_, hrunning, (InviteHeld.congr (committed_commit_other (not_own hu hi))).mpr hheld⟩
    exact (List.getElem?_set_ne hu.symm).trans htxn'
  stands u txn' hu' := by
    by_cases hu : u = t
    · subst hu
      rw [show (w.committed u e).txns[u]? = some (.ended .committed) from getElem?_set_self_of_some htxn] at hu'
      obtain rfl := Option.some.inj hu'
      trivial
    · rw [show (w.committed t e).txns[u]? = w.txns[u]? from List.getElem?_set_ne (Ne.symm hu)] at hu'
      exact Stands.commit h htxn hfree hu hu' (h.stands u txn' hu')
  spent row hrow := by
    have hrow' : row ∈ (e :: w.log).filterMap Event.redeemedRow := hrow
    rw [List.filterMap_cons] at hrow'
    have hold : row ∈ w.log.filterMap Event.redeemedRow →
        ∃ v, ReadCommitted.committed (w.committed t e).staffInvite row = some v ∧ v.live = false := by
      intro hmem
      obtain ⟨v, hv, hdead⟩ := h.spent row hmem
      exact ⟨v, dead_commit h htxn hv hdead, hdead⟩
    split at hrow'
    · exact hold hrow'
    · rename_i row' hredeemed
      rcases List.mem_cons.mp hrow' with rfl | hmem
      · obtain ⟨i, v, -, -, hheld, hdead⟩ := redeemedRow_spec (h.stands t txn htxn) hevent hredeemed
        exact ⟨v, committed_commit_own hheld, hdead⟩
      · exact hold hmem
  once := by
    show ((e :: w.log).filterMap Event.redeemedRow).Nodup
    rw [List.filterMap_cons]
    split
    · exact h.once
    · rename_i row hredeemed
      refine List.nodup_cons.mpr ⟨fun hmem => ?_, h.once⟩
      obtain ⟨i, v, hcommitted, hlive, -⟩ := redeemedRow_spec (h.stands t txn htxn) hevent hredeemed
      obtain ⟨v', hv', hdead⟩ := h.spent row hmem
      rw [hcommitted] at hv'
      obtain rfl := Option.some.inj hv'
      rw [hlive] at hdead
      cases hdead
  closed later earlier p hlog := by
    have hlog' : e :: w.log = later ++ .revoked p :: earlier := hlog
    rcases later with _ | ⟨e', later⟩
    · obtain ⟨rfl, -⟩ := List.cons.inj hlog'
      exact closedSince_nil h htxn hevent
    · obtain ⟨rfl, hrest⟩ := List.cons.inj hlog'
      exact (h.closed later earlier p hrest).commit h htxn hevent

/-! One step. -/

theorem of_guard {w₁ : World} {blocked : Bool} (h : (if blocked = true then none else some w₁) = some w') :
    blocked = false ∧ w₁ = w' := by
  split_ifs at h with hb
  exact ⟨Bool.not_eq_true _ ▸ hb, Option.some.inj h⟩

theorem Inv.of_rolledBack (h : Inv w) (htxn : w.txns[t]? = some txn) {answer : Answer}
    (hstep : some (w.rolledBack t answer) = some w') : Inv w' := Option.some.inj hstep ▸ h.rolledBack htxn answer

theorem Inv.issue {c : IssueCall} {stage : IssueStage} (h : Inv w)
    (htxn : w.txns[t]? = some (.issue c stage)) (hstep : issue host w t c stage = some w')
    (horderly : Orderly w (.advance t)) : Inv w' := by
  cases stage with
  | start =>
    unfold People.issue at hstep
    dsimp only at hstep
    split at hstep
    · split at hstep
      · exact h.of_rolledBack htxn hstep
      · split at hstep
        · obtain rfl := Option.some.inj hstep
          exact h.moved htxn (.of_none rfl rfl rfl rfl) trivial
        · exact h.of_rolledBack htxn hstep
    · exact h.of_rolledBack htxn hstep
  | read =>
    obtain rfl := Option.some.inj hstep
    exact h.moved htxn (.of_none rfl rfl rfl rfl) trivial
  | revoking picked moment =>
    unfold People.issue at hstep
    dsimp only at hstep
    split at hstep
    · cases hstep
    · rename_i hfree
      obtain rfl := Option.some.inj hstep
      refine h.updateInvite htxn (.of_none rfl rfl rfl rfl) (Bool.not_eq_true _ ▸ hfree) ?_ ?_ trivial
      · intro i _ v _ hm
        exact (Bool.and_eq_true _ _ ▸ hm).2
      · intro v
        exact .inr (Bool.and_false _)
  | revoked =>
    unfold People.issue at hstep
    dsimp only at hstep
    split at hstep
    · rename_i hcodes hpeople
      obtain rfl := Option.some.inj hstep
      refine h.insertInvite htxn (.of_none rfl rfl rfl rfl) ?_ rfl trivial
      refine @unique_assign _ _ t w.staffInvite.length w.staffInvite _ (newInvite c) _ c.personId _ h.people ?_ rfl hpeople
        (fun _ => committed_insert) (by rw [pending_insert, if_pos rfl]) ?_
      · intro u v hu
        rw [pending, List.getElem?_eq_none (Nat.le_refl _)] at hu
        cases hu
      · intro j hj
        rw [pending_insert, if_neg hj]
    · cases hstep
    · exact h.of_rolledBack htxn hstep
    · cases hstep
    · exact h.of_rolledBack htxn hstep
  | inserted row =>
    obtain rfl := Option.some.inj hstep
    exact h.committed htxn rfl (undisturbed_of_orderly htxn rfl horderly)

theorem view_of_unheld {i : ℕ} (h : Unheld w t) : view t w.staffInvite i = committed w.staffInvite i := view_other (h i)

theorem Inv.redeem {c : RedeemCall} {stage : RedeemStage} (h : Inv w)
    (htxn : w.txns[t]? = some (.redeem c stage)) (hstep : redeem host w t c stage = some w')
    (horderly : Orderly w (.advance t)) : Inv w' := by
  have hstands := h.stands t _ htxn
  cases stage with
  | start =>
    unfold People.redeem at hstep
    dsimp only at hstep
    split at hstep
    · split at hstep
      · exact h.of_rolledBack htxn hstep
      · obtain rfl := Option.some.inj hstep
        exact h.moved htxn (.of_none rfl rfl rfl rfl) hstands
    · exact h.of_rolledBack htxn hstep
  | finding picked =>
    unfold People.redeem at hstep
    dsimp only at hstep
    split at hstep
    · cases hstep
    · rename_i hfree
      rw [Bool.not_eq_true] at hfree
      split at hstep
      · exact h.of_rolledBack htxn hstep
      · rename_i row hfound
        split at hstep
        · exact h.of_rolledBack htxn hstep
        · rename_i invite hview
          split at hstep
          · exact h.of_rolledBack htxn hstep
          · rename_i hexpired
            obtain rfl := Option.some.inj hstep
            have hcode : liveWithCode c.codeHash invite = true := by
              have hany := List.find?_some hfound
              rwa [hview, Option.any_some] at hany
            have hcommitted : ReadCommitted.committed w.staffInvite row = some invite :=
              (view_of_unheld hstands).symm.trans hview
            have hrow : mustWait t [row] w.staffInvite = false := by
              rw [mustWait_eq_false] at hfree ⊢
              intro i hi
              rw [List.mem_singleton.mp hi]
              exact hfree row (List.mem_of_find?_eq_some hfound)
            refine h.updateInvite htxn (.of_none rfl rfl rfl rfl) hrow ?_ (fun v => .inl rfl) ?_
            · intro i _ v _ hm
              exact (Bool.and_eq_true _ _ ▸ hm).2
            · refine ⟨⟨committed_update.trans hcommitted, hcode, ?_⟩,
                pending_update_of_match (List.mem_singleton_self row) hview hcode⟩
              rw [isInviteExpired, decide_eq_true_eq] at hexpired
              exact not_le.mp hexpired
  | locked row invite =>
    unfold People.redeem at hstep
    dsimp only at hstep
    split at hstep
    · exact h.of_rolledBack htxn hstep
    · rename_i target hview
      split at hstep
      · rename_i hactive
        obtain rfl := Option.some.inj hstep
        obtain ⟨p₀, hp₀, -, hsame | hsets⟩ := h.personSeen htxn hview
        · exact h.moved htxn (.of_none rfl rfl rfl rfl) ⟨hstands.1, hstands.2, p₀, hp₀, hsame.symm.trans hactive⟩
        · cases hsets
      · exact h.of_rolledBack htxn hstep
  | checked row invite targetRoles =>
    obtain rfl := Option.some.inj hstep
    exact h.moved htxn (.of_none rfl rfl rfl rfl) hstands
  | clearing row invite targetRoles picked =>
    unfold People.redeem at hstep
    obtain ⟨hfree, rfl⟩ := of_guard hstep
    obtain ⟨hclaimed, hrow, ⟨v, hv, hactive⟩⟩ := hstands
    have hclear : Clearable w t invite.personId c.chatId picked := by
      simpa only [Orderly, htxn] using horderly
    refine h.updatePerson htxn (.of_none rfl rfl rfl rfl) hfree
      (unique_update h.chats hfree fun _ _ => .inl rfl) (fun _ _ _ _ hc => by cases hc) (fun _ _ _ => .inl rfl)
      ⟨hclaimed, hrow, ⟨v, committed_update.trans hv, hactive⟩, ?_⟩
    intro q p hq hp
    have hp' : view t (update t picked (activeInChat c.chatId) (fun p => { p with tgChatId := none }) w.person) q =
        some p := hp
    rcases view_update_cases t picked (activeInChat c.chatId) (fun p => { p with tgChatId := none }) w.person q with
      ⟨v', -, -, -, heq⟩ | ⟨hnot, heq⟩
    · rw [heq] at hp'
      obtain rfl := Option.some.inj hp'
      exact Option.some_ne_none _ ∘ Eq.symm
    · rw [heq] at hp'
      intro hchat
      have hlen : q ∈ List.range w.person.length := by
        rw [List.mem_range]
        by_contra hlen
        rw [view, List.getElem?_eq_none (not_lt.mp hlen)] at hp'
        cases hp'
      obtain ⟨hpicked, hactive'⟩ := hclear q hlen hq p hp' hchat
      have hno := hnot hpicked p hp'
      rw [activeInChat, hchat, beq_self_eq_true, hactive'] at hno
      cases hno
  | cleared row invite targetRoles =>
    unfold People.redeem at hstep
    dsimp only at hstep
    split at hstep
    · cases hstep
    · rename_i hfree
      rw [Bool.not_eq_true] at hfree
      split at hstep
      · cases hstep
      · exact h.of_rolledBack htxn hstep
      · rename_i hcheck
        obtain rfl := Option.some.inj hstep
        obtain ⟨hclaimed, hrow, ⟨v, hv, hactive⟩, -⟩ := hstands
        obtain ⟨v', hv'⟩ := exists_view hv t
        have hown := @pending_update_of_match _ t _ w.person v' [invite.personId] (fun _ => true)
          (fun p => { p with
            tgChatId := some c.chatId, roles := if invite.roles.isEmpty then targetRoles else invite.roles })
          (List.mem_singleton_self _) hv' rfl
        refine h.updatePerson htxn (.of_none rfl rfl rfl rfl) hfree ?_ ?_ (fun _ _ _ => .inl rfl)
          ⟨hclaimed, hrow, ⟨v, committed_update.trans hv, hactive⟩, _, hown, rfl⟩
        · refine unique_assign h.chats (fun u p hu => ?_) rfl hcheck (fun _ => committed_update) hown ?_
          · exact mustWait_eq_false.mp hfree _ (List.mem_singleton_self _) u p hu
          · intro j hj
            exact pending_update_of_not_match fun hmem => absurd (List.mem_singleton.mp hmem) hj
        · intro q hq p chat hchat
          have hchat' : c.chatId = chat := Option.some.inj hchat
          rw [List.mem_singleton.mp hq, ← hchat']
          exact .inr rfl
  | linked row invite =>
    unfold People.redeem at hstep
    dsimp only at hstep
    obtain ⟨hclaimed, hrow, hactive, hlinked⟩ := hstands
    split at hstep
    · cases hstep
    · rename_i hfree
      rw [Bool.not_eq_true] at hfree
      split at hstep
      · rename_i hunused
        obtain rfl := Option.some.inj hstep
        have hlive : invite.live = true := (Bool.and_eq_true _ _ ▸ hclaimed.2.1).2
        have hview := view_own hrow
        rw [hview, Option.any_some] at hunused
        have hon : GoesOn (.redeem c (.linked row invite)) (.redeem c (.used row invite)) :=
          ⟨rfl, fun _ hr => hr, fun _ hr => (by cases hr), fun _ hr => by cases hr⟩
        refine h.updateInvite htxn hon hfree ?_ ?_ ?_
        · intro i hi v hv _
          rw [List.mem_singleton.mp hi, hview] at hv
          rwa [← Option.some.inj hv]
        · intro v
          exact .inr rfl
        · exact ⟨⟨committed_update.trans hclaimed.1, hclaimed.2⟩,
            ⟨_, pending_update_of_match (List.mem_singleton_self row) hview hunused, rfl⟩, hactive, hlinked⟩
      · exact h.of_rolledBack htxn hstep
  | used row invite =>
    obtain rfl := Option.some.inj hstep
    exact h.committed htxn rfl (undisturbed_of_orderly htxn rfl horderly)

theorem Inv.revoke {p : ℕ} {stage : RevokeStage} (h : Inv w) (htxn : w.txns[t]? = some (.revoke p stage))
    (hstep : revoke w t p stage = some w') (horderly : Orderly w (.advance t)) : Inv w' := by
  have hstands := h.stands t _ htxn
  cases stage with
  | start =>
    unfold People.revoke at hstep
    dsimp only at hstep
    split at hstep
    · exact h.of_rolledBack htxn hstep
    · obtain rfl := Option.some.inj hstep
      exact h.moved htxn (.of_none rfl rfl rfl rfl) hstands
  | read =>
    obtain rfl := Option.some.inj hstep
    refine h.moved htxn (.of_none rfl rfl rfl rfl) ⟨hstands, ?_⟩
    intro i v hv hlive
    exact mem_matching.mpr ⟨v, (view_of_unheld hstands).trans hv, hlive⟩
  | revoking picked moment =>
    unfold People.revoke at hstep
    obtain ⟨hfree, rfl⟩ := of_guard hstep
    refine h.updateInvite htxn (.of_none rfl rfl rfl rfl) hfree ?_ ?_ ?_
    · intro i _ v _ hm
      exact (Bool.and_eq_true _ _ ▸ hm).2
    · intro v
      exact .inr (Bool.and_false _)
    · intro i v hv hlive
      have hv' : ReadCommitted.committed w.staffInvite i = some v := committed_update.symm.trans hv
      exact ⟨_, pending_update_of_match (hstands.2 i v hv' hlive) ((view_of_unheld hstands.1).trans hv') hlive,
        Bool.and_false _⟩
  | revoked =>
    unfold People.revoke at hstep
    obtain ⟨hfree, rfl⟩ := of_guard hstep
    refine h.updatePerson htxn (.of_none rfl rfl rfl rfl) hfree (unique_update h.chats hfree fun _ _ => .inl rfl)
      (fun _ _ _ _ hc => by cases hc) (fun _ _ _ => .inl rfl) ⟨hstands, ?_⟩
    intro v hv
    obtain ⟨v', hv'⟩ := exists_view (committed_update.symm.trans hv) t
    exact ⟨_, pending_update_of_match (List.mem_singleton_self p) hv' rfl, rfl⟩
  | unlinked =>
    obtain rfl := Option.some.inj hstep
    exact h.committed htxn rfl (undisturbed_of_orderly htxn rfl horderly)

theorem Inv.setActive {p : ℕ} {active : Bool} {stage : SetActiveStage} (h : Inv w)
    (htxn : w.txns[t]? = some (.setActive p active stage)) (hstep : setActive w t p active stage = some w')
    (horderly : Orderly w (.advance t)) : Inv w' := by
  cases stage with
  | start =>
    unfold People.setActive at hstep
    dsimp only at hstep
    split at hstep
    · exact h.of_rolledBack htxn hstep
    · obtain rfl := Option.some.inj hstep
      exact h.moved htxn (.of_none rfl rfl rfl rfl) trivial
  | read =>
    unfold People.setActive at hstep
    obtain ⟨hfree, rfl⟩ := of_guard hstep
    refine h.updatePerson htxn (.of_none rfl rfl rfl rfl) hfree (unique_update h.chats hfree fun _ _ => .inr rfl)
      (fun _ _ _ _ hc => .inl hc) ?_ trivial
    intro q hq _
    rw [List.mem_singleton.mp hq]
    exact .inr rfl
  | updated =>
    obtain rfl := Option.some.inj hstep
    exact h.committed htxn rfl (undisturbed_of_orderly htxn rfl horderly)

theorem Inv.advance (h : Inv w) (hstep : advance host w t = some w') (horderly : Orderly w (.advance t)) :
    Inv w' := by
  unfold People.advance at hstep
  split at hstep
  · exact h.issue ‹_› hstep horderly
  · exact h.redeem ‹_› hstep horderly
  · exact h.revoke ‹_› hstep horderly
  · exact h.setActive ‹_› hstep horderly
  · cases hstep
  · cases hstep

theorem stands_begin (host : Host) (c : Call) (h : Unheld w t) : Stands w t (begin host w c) := by
  cases c with
  | issue => trivial
  | redeem => exact h
  | revoke => exact h
  | setActive => trivial

theorem Inv.call (h : Inv w) (host : Host) (c : Call) : Inv { w with txns := w.txns ++ [begin host w c] } := by
  have hnew : ∀ {α : Type} {rows : Rows α} {i : ℕ} {v : α}, (pending rows i = some (w.txns.length, v) →
      ∃ txn, w.txns[w.txns.length]? = some txn) → pending rows i ≠ some (w.txns.length, v) := by
    intro α rows i v hold hi
    obtain ⟨txn, htxn⟩ := hold hi
    rw [List.getElem?_eq_none (Nat.le_refl _)] at htxn
    cases htxn
  have hperson : ∀ q p, pending w.person q ≠ some (w.txns.length, p) := fun q p => hnew fun hq =>
    let ⟨txn, htxn, _⟩ := h.personHeld q _ p hq
    ⟨txn, htxn⟩
  have hinvite : ∀ i v, pending w.staffInvite i ≠ some (w.txns.length, v) := fun i v => hnew fun hi =>
    let ⟨txn, htxn, _⟩ := h.inviteHeld i _ v hi
    ⟨txn, htxn⟩
  refine @Inv.apart w _ w.txns.length (begin host w c) h ⟨rfl, rfl, private_refl _ _, private_refl _ _, ?_⟩ h.chats
    h.people ?_ ?_ ?_ ?_
  · intro u hu
    show (w.txns ++ [begin host w c])[u]? = w.txns[u]?
    rw [List.getElem?_append]
    split_ifs with hlt
    · rfl
    · rw [List.getElem?_eq_none, List.getElem?_eq_none (not_lt.mp hlt)]
      rw [List.length_singleton]
      omega
  · exact List.getElem?_concat_length
  · exact stands_begin host c hinvite
  · intro q p hq
    exact absurd hq (hperson q p)
  · intro i v hi
    exact absurd hi (hinvite i v)

theorem Inv.tick (h : Inv w) (d : ℕ) (horderly : Orderly w (.tick d)) : Inv { w with now := w.now + d } where
  chats := h.chats
  people := h.people
  personHeld := h.personHeld
  inviteHeld := h.inviteHeld
  stands u txn hu := by
    have hold := h.stands u txn hu
    have hlater := horderly txn (List.mem_of_getElem? hu)
    have hclaimed : ∀ c row i, Claimed w c row i → decide (i.expiresAt ≤ w.now + d) = false →
        Claimed { w with now := w.now + d } c row i := fun c row i hclaimed hexpires =>
      ⟨hclaimed.1, hclaimed.2.1, not_le.mp (of_decide_eq_false hexpires)⟩
    rcases txn with ⟨c, stage⟩ | ⟨c, stage⟩ | ⟨p, stage⟩ | ⟨p, active, stage⟩ | answer
    · trivial
    · cases stage with
      | start => exact hold
      | finding => exact hold
      | locked row i => exact ⟨hclaimed c row i hold.1 hlater, hold.2⟩
      | checked row i _ => exact ⟨hclaimed c row i hold.1 hlater, hold.2⟩
      | clearing row i _ _ => exact ⟨hclaimed c row i hold.1 hlater, hold.2⟩
      | cleared row i _ => exact ⟨hclaimed c row i hold.1 hlater, hold.2⟩
      | linked row i => exact ⟨hclaimed c row i hold.1 hlater, hold.2⟩
      | used row i => exact ⟨hclaimed c row i hold.1 hlater, hold.2⟩
    · cases stage <;> exact hold
    · trivial
    · trivial
  spent := h.spent
  once := h.once
  closed := h.closed

theorem Inv.next {a : Action} (h : Inv w) (hnext : Next host w a w') (horderly : Orderly w a) : Inv w' := by
  cases a with
  | call c =>
    obtain rfl := Option.some.inj hnext
    exact h.call host c
  | advance t => exact h.advance hnext horderly
  | rollback t =>
    unfold Next act at hnext
    dsimp only at hnext
    split at hnext
    · rename_i hrunning
      obtain ⟨txn, htxn, -⟩ := (Option.any_eq_true _ _).mp hrunning
      obtain rfl := Option.some.inj hnext
      exact h.rolledBack htxn _
    · cases hnext
  | tick d =>
    obtain rfl := Option.some.inj hnext
    exact h.tick d horderly

end

end Mydon.People
