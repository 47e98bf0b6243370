import Mydon.Lib.ReadCommitted
import Mydon.Machines.Numbers

/-! Invitations of staff. A call is one transaction under read committed; its statements interleave
with those of the others, and each waits for the rows it needs. -/

namespace Mydon.People

open Mydon.Lib

structure Host where
  sha256 : String → String
  /-- `toUpperCase` of a character beyond ASCII. -/
  beyond : Char → List Char
  /-- `INVITE_PEPPER`. -/
  pepper : String

structure Person where
  active : Bool
  roles : List String
  tgChatId : Option String
  deriving DecidableEq

structure StaffInvite where
  personId : ℕ
  codeHash : String
  roles : List String
  expiresAt : ℤ
  usedAt : Option ℤ
  usedByChatId : Option String
  revokedAt : Option ℤ
  deriving DecidableEq

def StaffInvite.live (i : StaffInvite) : Bool := i.usedAt.isNone && i.revokedAt.isNone

/-- `ux_staff_invite_one_active`. -/
def StaffInvite.livePerson (i : StaffInvite) : Option ℕ := if i.live then some i.personId else none

/-- `ux_staff_invite_code`. -/
def StaffInvite.liveCode (i : StaffInvite) : Option String := if i.live then some i.codeHash else none

def MIN_PEPPER_LENGTH : ℕ := 16

def INVITE_TTL_HOURS : ℕ := 24

def STAFF_ROLES : List String := ["operator", "technician", "collector", "storekeeper", "manager", "owner"]

def normalizeRoles (input : List String) : List String :=
  (input.filter (STAFF_ROLES.contains ·)).foldl (fun seen r => if r ∈ seen then seen else seen ++ [r]) []

def normalizeInviteCode (host : Host) (input : String) : String :=
  String.ofList ((Machines.toUpperCase host.beyond (Js.trimChars input.toList)).filter fun c =>
    !(Js.isSpace c || c == '-' || c == '_'))

def hashInviteCode (host : Host) (code : String) : String :=
  host.sha256 (host.pepper ++ ":" ++ normalizeInviteCode host code)

def isInviteExpired (expiresAt now : ℤ) : Bool := expiresAt ≤ now

def inviteExpiry (now : ℤ) : ℤ := now + INVITE_TTL_HOURS * 3600000

inductive Refusal
  | notConfigured
  | personNotFound
  | personInactive
  | inviteNotFound
  | inviteExpired
  | inviteInactive
  | uniqueViolation
  deriving DecidableEq

def Refusal.text : Refusal → String
  | .notConfigured => "Приглашения сотрудников временно недоступны: INVITE_PEPPER не настроен на сервере. " ++
      "Обратитесь к владельцу."
  | .personNotFound => "Сотрудника нет"
  | .personInactive => "Карточка сотрудника неактивна"
  | .inviteNotFound => "Приглашение не найдено или уже использовано"
  | .inviteExpired => "Приглашение просрочено — попроси новое"
  | .inviteInactive => "Карточка сотрудника неактивна — скажи владельцу"
  | .uniqueViolation => "duplicate key value violates unique constraint"

inductive Answer
  | committed
  | refused (r : Refusal)
  /-- The database gave the transaction up: a deadlock, a lost connection. -/
  | rolledBack
  deriving DecidableEq

/-! Where a transaction stands. A statement that changes rows has picked them before it gets their locks. -/

structure IssueCall where
  personId : ℕ
  roles : List String
  codeHash : String
  expiresAt : ℤ

inductive IssueStage
  | start
  | read
  | revoking (picked : List ℕ) (moment : ℤ)
  | revoked
  | inserted (row : ℕ)

structure RedeemCall where
  codeHash : String
  chatId : String

inductive RedeemStage
  | start
  | finding (picked : List ℕ)
  | locked (row : ℕ) (invite : StaffInvite)
  | checked (row : ℕ) (invite : StaffInvite) (targetRoles : List String)
  | clearing (row : ℕ) (invite : StaffInvite) (targetRoles : List String) (picked : List ℕ)
  | cleared (row : ℕ) (invite : StaffInvite) (targetRoles : List String)
  | linked (row : ℕ) (invite : StaffInvite)
  | used (row : ℕ) (invite : StaffInvite)

inductive RevokeStage
  | start
  | read
  | revoking (picked : List ℕ) (moment : ℤ)
  | revoked
  | unlinked

inductive SetActiveStage
  | start
  | read
  | updated

inductive Txn
  | issue (call : IssueCall) (stage : IssueStage)
  | redeem (call : RedeemCall) (stage : RedeemStage)
  | revoke (personId : ℕ) (stage : RevokeStage)
  | setActive (personId : ℕ) (active : Bool) (stage : SetActiveStage)
  | ended (answer : Answer)

def Txn.running : Txn → Bool
  | .ended _ => false
  | _ => true

/-- What a committed transaction has done. -/
inductive Event
  | issued (row personId : ℕ)
  | redeemed (row personId : ℕ) (chatId : String)
  | revoked (personId : ℕ)
  | activated (personId : ℕ) (active : Bool)
  deriving DecidableEq

structure World where
  now : ℤ
  person : ReadCommitted.Rows Person
  staffInvite : ReadCommitted.Rows StaffInvite
  txns : List Txn
  /-- Newest first. -/
  log : List Event

namespace World

variable (w : World) (t : ℕ)

def moved (txn : Txn) : World := { w with txns := w.txns.set t txn }

def rolledBack (answer : Answer) : World :=
  { w with
    person := ReadCommitted.rollback t w.person
    staffInvite := ReadCommitted.rollback t w.staffInvite
    txns := w.txns.set t (.ended answer) }

def committed (e : Event) : World :=
  { w with
    person := ReadCommitted.commit t w.person
    staffInvite := ReadCommitted.commit t w.staffInvite
    txns := w.txns.set t (.ended .committed)
    log := e :: w.log }

def updatePerson (picked : List ℕ) (p : Person → Bool) (f : Person → Person) (txn : Txn) : World :=
  { w with person := ReadCommitted.update t picked p f w.person, txns := w.txns.set t txn }

def updateInvite (picked : List ℕ) (p : StaffInvite → Bool) (f : StaffInvite → StaffInvite) (txn : Txn) : World :=
  { w with staffInvite := ReadCommitted.update t picked p f w.staffInvite, txns := w.txns.set t txn }

def insertInvite (v : StaffInvite) (txn : Txn) : World :=
  { w with staffInvite := ReadCommitted.insert t v w.staffInvite, txns := w.txns.set t txn }

end World

/-! The transactions. `none`: the statement waits. -/

section
variable (host : Host) (w : World) (t : ℕ)

def assertPepperConfigured : Bool := MIN_PEPPER_LENGTH ≤ Js.length host.pepper

def liveOf (personId : ℕ) (i : StaffInvite) : Bool := i.personId == personId && i.live

def liveWithCode (codeHash : String) (i : StaffInvite) : Bool := i.codeHash == codeHash && i.live

def activeInChat (chatId : String) (p : Person) : Bool := p.tgChatId == some chatId && p.active

def newInvite (c : IssueCall) : StaffInvite where
  personId := c.personId
  codeHash := c.codeHash
  roles := c.roles
  expiresAt := c.expiresAt
  usedAt := none
  usedByChatId := none
  revokedAt := none

def issue (c : IssueCall) : IssueStage → Option World
  | .start =>
    if assertPepperConfigured host then
      match ReadCommitted.view t w.person c.personId with
      | none => some (w.rolledBack t (.refused .personNotFound))
      | some target =>
        if target.active then some (w.moved t (.issue c .read)) else some (w.rolledBack t (.refused .personInactive))
    else some (w.rolledBack t (.refused .notConfigured))
  | .read =>
    some (w.moved t (.issue c (.revoking (ReadCommitted.matching t (liveOf c.personId) w.staffInvite) w.now)))
  | .revoking picked moment =>
    if ReadCommitted.mustWait t picked w.staffInvite then none
    else some (w.updateInvite t picked (liveOf c.personId) (fun i => { i with revokedAt := some moment }) (.issue c .revoked))
  | .revoked =>
    let row := w.staffInvite.length
    match ReadCommitted.checkUnique t row StaffInvite.liveCode c.codeHash w.staffInvite,
        ReadCommitted.checkUnique t row StaffInvite.livePerson c.personId w.staffInvite with
    | .free, .free => some (w.insertInvite t (newInvite c) (.issue c (.inserted row)))
    | .waits, _ => none
    | .taken, _ => some (w.rolledBack t (.refused .uniqueViolation))
    | _, .waits => none
    | _, .taken => some (w.rolledBack t (.refused .uniqueViolation))
  | .inserted row => some (w.committed t (.issued row c.personId))

def redeem (c : RedeemCall) : RedeemStage → Option World
  | .start =>
    if assertPepperConfigured host then
      match ReadCommitted.matching t (liveWithCode c.codeHash) w.staffInvite with
      | [] => some (w.rolledBack t (.refused .inviteNotFound))
      | row :: rest => some (w.moved t (.redeem c (.finding (row :: rest))))
    else some (w.rolledBack t (.refused .notConfigured))
  | .finding picked =>
    if ReadCommitted.mustWait t picked w.staffInvite then none
    else
      match picked.find? fun i => (ReadCommitted.view t w.staffInvite i).any (liveWithCode c.codeHash) with
      | none => some (w.rolledBack t (.refused .inviteNotFound))
      | some row =>
        match ReadCommitted.view t w.staffInvite row with
        | none => some (w.rolledBack t (.refused .inviteNotFound))
        | some invite =>
          if isInviteExpired invite.expiresAt w.now then some (w.rolledBack t (.refused .inviteExpired))
          else some (w.updateInvite t [row] (liveWithCode c.codeHash) id (.redeem c (.locked row invite)))
  | .locked row invite =>
    match ReadCommitted.view t w.person invite.personId with
    | none => some (w.rolledBack t (.refused .inviteInactive))
    | some target =>
      if target.active then some (w.moved t (.redeem c (.checked row invite target.roles)))
      else some (w.rolledBack t (.refused .inviteInactive))
  | .checked row invite targetRoles =>
    let picked := ReadCommitted.matching t (activeInChat c.chatId) w.person
    some (w.moved t (.redeem c (.clearing row invite targetRoles picked)))
  | .clearing row invite targetRoles picked =>
    if ReadCommitted.mustWait t picked w.person then none
    else some (w.updatePerson t picked (activeInChat c.chatId) (fun p => { p with tgChatId := none })
      (.redeem c (.cleared row invite targetRoles)))
  | .cleared row invite targetRoles =>
    if ReadCommitted.mustWait t [invite.personId] w.person then none
    else
      match ReadCommitted.checkUnique t invite.personId Person.tgChatId c.chatId w.person with
      | .waits => none
      | .taken => some (w.rolledBack t (.refused .uniqueViolation))
      | .free =>
        let roles := if invite.roles.isEmpty then targetRoles else invite.roles
        some (w.updatePerson t [invite.personId] (fun _ => true)
          (fun p => { p with tgChatId := some c.chatId, roles := roles }) (.redeem c (.linked row invite)))
  | .linked row invite =>
    if ReadCommitted.mustWait t [row] w.staffInvite then none
    else if (ReadCommitted.view t w.staffInvite row).any (·.usedAt.isNone) then
      some (w.updateInvite t [row] (·.usedAt.isNone)
        (fun i => { i with usedAt := some w.now, usedByChatId := some c.chatId }) (.redeem c (.used row invite)))
    else some (w.rolledBack t (.refused .inviteNotFound))
  | .used row invite => some (w.committed t (.redeemed row invite.personId c.chatId))

def revoke (personId : ℕ) : RevokeStage → Option World
  | .start =>
    match ReadCommitted.view t w.person personId with
    | none => some (w.rolledBack t (.refused .personNotFound))
    | some _ => some (w.moved t (.revoke personId .read))
  | .read =>
    some (w.moved t (.revoke personId (.revoking (ReadCommitted.matching t (liveOf personId) w.staffInvite) w.now)))
  | .revoking picked moment =>
    if ReadCommitted.mustWait t picked w.staffInvite then none
    else some (w.updateInvite t picked (liveOf personId) (fun i => { i with revokedAt := some moment })
      (.revoke personId .revoked))
  | .revoked =>
    if ReadCommitted.mustWait t [personId] w.person then none
    else some (w.updatePerson t [personId] (fun _ => true) (fun p => { p with tgChatId := none, roles := [] })
      (.revoke personId .unlinked))
  | .unlinked => some (w.committed t (.revoked personId))

/-- `PeopleService.update` with a patch of `active`. -/
def setActive (personId : ℕ) (active : Bool) : SetActiveStage → Option World
  | .start =>
    match ReadCommitted.view t w.person personId with
    | none => some (w.rolledBack t (.refused .personNotFound))
    | some _ => some (w.moved t (.setActive personId active .read))
  | .read =>
    if ReadCommitted.mustWait t [personId] w.person then none
    else some (w.updatePerson t [personId] (fun _ => true) (fun p => { p with active := active })
      (.setActive personId active .updated))
  | .updated => some (w.committed t (.activated personId active))

def advance : Option World :=
  match w.txns[t]? with
  | some (.issue c stage) => issue host w t c stage
  | some (.redeem c stage) => redeem host w t c stage
  | some (.revoke personId stage) => revoke w t personId stage
  | some (.setActive personId active stage) => setActive w t personId active stage
  | some (.ended _) => none
  | none => none

end

inductive Call
  /-- With the code that `generateInviteCode` has drawn. -/
  | issue (personId : ℕ) (roles : List String) (code : String)
  | redeem (code chatId : String)
  | revoke (personId : ℕ)
  | setActive (personId : ℕ) (active : Bool)

inductive Action
  | call (c : Call)
  | advance (t : ℕ)
  | rollback (t : ℕ)
  | tick (d : ℕ)

def begin (host : Host) (w : World) : Call → Txn
  | .issue personId roles code =>
    .issue ⟨personId, normalizeRoles roles, hashInviteCode host code, inviteExpiry w.now⟩ .start
  | .redeem code chatId => .redeem ⟨hashInviteCode host code, chatId⟩ .start
  | .revoke personId => .revoke personId .start
  | .setActive personId active => .setActive personId active .start

def act (host : Host) (w : World) : Action → Option World
  | .call c => some { w with txns := w.txns ++ [begin host w c] }
  | .advance t => advance host w t
  | .rollback t => if w.txns[t]?.any Txn.running then some (w.rolledBack t .rolledBack) else none
  | .tick d => some { w with now := w.now + d }

def Next (host : Host) (w : World) (a : Action) (w' : World) : Prop := act host w a = some w'

end Mydon.People
