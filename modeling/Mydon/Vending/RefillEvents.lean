import Mydon.Lib.Run
import Mydon.Vending.Redelivery
import Mydon.Vending.StockRow

/-! The journal of the detected refills. A run of the detector adds the windows it has not written
yet, gives a window without a match the record of an operator, and announces the windows that stayed
without one for three hours. -/

namespace Mydon.Vending

open Mydon.Lib

def MATCH_PAD_MS : ℤ := 3 * 3600000

def DETECT_DAYS_DEFAULT : ℤ := 2

def DETECT_DAYS_MAX : ℤ := 30

/-- A row of `vending_refill_event`; the database makes the ids. -/
structure RefillEventRow where
  id : ℕ
  machineSerial : String
  machineId : Option String
  windowFrom : ℤ
  windowTo : ℤ
  units : ℤ
  slots : List SlotRise
  matchedRefillId : Option String
  deriving DecidableEq

/-- An event `vending.refill_detected`. -/
structure RefillDetected where
  eventId : ℕ
  serial : String
  name : String
  units : ℤ
  windowTo : String
  recorded : Bool
  occurredAt : ℤ
  deriving DecidableEq

structure FieldDb where
  mirror : MirrorDb
  refills : List RefillRow
  journal : List RefillEventRow
  feed : List RefillDetected
  deriving DecidableEq

inductive SkipReason
  | dead
  | uncalibrated
  | noSlots
  | notInService
  deriving DecidableEq

structure SkippedSerial where
  serial : String
  reason : SkipReason
  deriving DecidableEq

/-- What a run of the detector reads besides the tables; `dbNow` is the clock of the database. -/
structure DetectEnv where
  host : Js.Host
  catalog : Catalog
  machines : List MachineEntityRow
  /-- `machine_card`: the status by the card of the registry. -/
  cards : List (String × String)
  minUnits : ℤ
  now : ℤ
  dbNow : ℤ

/-! The registry. -/

/-- The card that stands for a canonical serial: the first one, as a whole. -/
def firstBySerial (host : Js.Host) (rows : List MachineEntityRow) : List (String × MachineEntityRow) :=
  (rows.filter fun r => r.externalRef.getD "" ≠ "").foldl
    (fun m r => OrderedMap.alter (fun own => own.getD r) (normalizeMachineSerial host (r.externalRef.getD "")) m) []

def nameOfSerial (env : DetectEnv) (canon : String) : String :=
  ((OrderedMap.get (firstBySerial env.host env.machines) canon).map (·.name)).getD canon

/-- A machine without a card, or whose card has no status, is in service. -/
def notInService (env : DetectEnv) (canon : String) : Bool :=
  match OrderedMap.get (firstBySerial env.host env.machines) canon with
  | none => false
  | some r => ((env.cards.reverse.find? fun c => c.1 = r.id).map Prod.snd).getD "in_service" ≠ "in_service"

/-! The detector. -/

def clampDays (days : Option ℤ) : ℤ :=
  let n := days.getD DETECT_DAYS_DEFAULT
  if n ≤ 0 then DETECT_DAYS_DEFAULT else min n DETECT_DAYS_MAX

/-- `от`, the start of the window. -/
def windowStart (env : DetectEnv) (days : Option ℤ) : ℤ := env.now - clampDays days * Clock.DAY_MS

def skipReasonOf (first : MachineSnapshot) (rest : List MachineSnapshot) : Option SkipReason :=
  if (first :: rest).any fun s => planogramStatus s.slots = .ok then none
  else
    let freshest := rest.foldl (fun a b => if a.capturedAt < b.capturedAt then b else a) first
    if deadMachine freshest.slots then some .dead
    else if planogramStatus freshest.slots = .noSlots then some .noSlots
    else some .uncalibrated

structure Scan where
  skipped : List SkippedSerial
  events : List RefillEvent
  machines : ℕ
  deriving DecidableEq

/-- The refills of a machine, or why it is left out. -/
def scanMachine (env : DetectEnv) (since : ℤ) (rows : List SlotSnapshotRow) (canon : String) (forms : List String) :
    Scan :=
  if notInService env canon then ⟨[⟨canon, .notInService⟩], [], 0⟩
  else
    match machineSnapshots (env.catalog.resolveProduct env.host) since rows canon forms with
    | [] => ⟨[], [], 0⟩
    | first :: rest =>
      match skipReasonOf first rest with
      | some reason => ⟨[⟨canon, reason⟩], [], 0⟩
      | none => ⟨[], detectRefills (first :: rest) env.minUnits, 1⟩

def scan (env : DetectEnv) (since : ℤ) (rows : List SlotSnapshotRow) : Scan :=
  let scans := (canonForms env.host since rows).map fun e => scanMachine env since rows e.1 e.2
  { skipped := (scans.flatMap Scan.skipped).insertionSort fun a b => env.host.localeCompare a.serial b.serial ≤ 0
    events := scans.flatMap Scan.events
    machines := (scans.map Scan.machines).sum }

/-! The journal. -/

/-- The records of the operators that the run may match. -/
def peopleSince (host : Js.Host) (since : ℤ) (refills : List RefillRow) : List HumanRefill :=
  (refills.filter fun r => since - MATCH_PAD_MS ≤ r.performedAt && r.source ≠ "storno").map fun r =>
    ⟨r.id, normalizeMachineSerial host r.machineSerial, r.performedAt, r.qty⟩

/-- `ужеЕсть`: the rows of the journal that the run reads. -/
def journalSince (since : ℤ) (journal : List RefillEventRow) : List RefillEventRow :=
  journal.filter fun r => since - MATCH_PAD_MS ≤ r.windowTo

/-- `ключ`. -/
def eventKey (host : Js.Host) (serial : String) (windowTo : ℤ) : String × ℤ :=
  (normalizeMachineSerial host serial, windowTo)

/-- The row of a window among those read; a map made of them keeps the last one of a key. -/
def findWindow (host : Js.Host) (old : List RefillEventRow) (ev : RefillEvent) : Option RefillEventRow :=
  old.reverse.find? fun r => eventKey host r.machineSerial r.windowTo = eventKey host ev.serial ev.windowTo

/-- The transaction over the events; `taken` are the records that confirm a window already. -/
structure Writing where
  journal : List RefillEventRow
  taken : List String
  written : ℕ
  matched : ℕ
  deriving DecidableEq

/-- `matchRefill` among the free records. -/
def freeMatch (host : Js.Host) (people : List HumanRefill) (taken : List String) (ev : RefillEvent) :
    Option HumanRefill :=
  matchRefill { ev with serial := normalizeMachineSerial host ev.serial } (people.filter (·.id ∉ taken)) MATCH_PAD_MS

def setMatch (journal : List RefillEventRow) (id : ℕ) (refillId : String) : List RefillEventRow :=
  journal.map fun r => if r.id = id then { r with matchedRefillId := some refillId } else r

def newRow (env : DetectEnv) (journal : List RefillEventRow) (ev : RefillEvent) (human : Option HumanRefill) :
    RefillEventRow where
  id := journal.length
  machineSerial := normalizeMachineSerial env.host ev.serial
  machineId := OrderedMap.get (idBySerial env.host env.machines) (normalizeMachineSerial env.host ev.serial)
  windowFrom := ev.windowFrom
  windowTo := ev.windowTo
  units := ev.units
  slots := ev.slots
  matchedRefillId := human.map (·.id)

/-- `ON CONFLICT (machine_serial, window_to) DO NOTHING` meets such a row. -/
def conflicts (journal : List RefillEventRow) (row : RefillEventRow) : Bool :=
  journal.any fun r => r.machineSerial = row.machineSerial && r.windowTo = row.windowTo

def writeEvent (env : DetectEnv) (people : List HumanRefill) (old : List RefillEventRow) (w : Writing)
    (ev : RefillEvent) : Writing :=
  let human := freeMatch env.host people w.taken ev
  match findWindow env.host old ev with
  | some was =>
    match was.matchedRefillId, human with
    | none, some h => ⟨setMatch w.journal was.id h.id, w.taken ++ [h.id], w.written, w.matched + 1⟩
    | _, _ => w
  | none =>
    let row := newRow env w.journal ev human
    if conflicts w.journal row then w
    else
      match human with
      | some h => ⟨w.journal ++ [row], w.taken ++ [h.id], w.written + 1, w.matched + 1⟩
      | none => ⟨w.journal ++ [row], w.taken, w.written + 1, w.matched⟩

/-- `записать`. -/
def record (env : DetectEnv) (since : ℤ) (db : FieldDb) (events : List RefillEvent) : Writing :=
  let old := journalSince since db.journal
  events.foldl (writeEvent env (peopleSince env.host since db.refills) old)
    ⟨db.journal, old.filterMap (·.matchedRefillId), 0, 0⟩

/-! The feed. -/

def announcement (env : DetectEnv) (r : RefillEventRow) : RefillDetected where
  eventId := r.id
  serial := normalizeMachineSerial env.host r.machineSerial
  name := nameOfSerial env (normalizeMachineSerial env.host r.machineSerial)
  units := r.units
  windowTo := Clock.isoText r.windowTo
  recorded := false
  occurredAt := env.dbNow

/-- The windows that had three hours for a record and got none. -/
def unmatchedSince (env : DetectEnv) (since : ℤ) (journal : List RefillEventRow) : List RefillEventRow :=
  journal.filter fun r => since ≤ r.windowTo && r.windowTo ≤ env.now - MATCH_PAD_MS && r.matchedRefillId.isNone

/-- The feed has an event of the row, or of its serial and window. -/
def isAnnounced (host : Js.Host) (seen : List RefillDetected) (r : RefillEventRow) : Bool :=
  seen.any (fun e => e.eventId = r.id) || seen.any fun e =>
    e.serial = normalizeMachineSerial host r.machineSerial && e.windowTo = Clock.isoText r.windowTo

def freshRows (env : DetectEnv) (since : ℤ) (db : FieldDb) : List RefillEventRow :=
  (unmatchedSince env since db.journal).filter (!isAnnounced env.host (db.feed.filter fun e => since ≤ e.occurredAt) ·)

/-- `опубликоватьНесопоставленные`. -/
def publishUnmatched (env : DetectEnv) (since : ℤ) (db : FieldDb) : FieldDb :=
  { db with feed := db.feed ++ (freshRows env since db).map (announcement env) }

structure DetectResult where
  machines : ℕ
  events : ℕ
  matched : ℕ
  skipped : List SkippedSerial
  deriving DecidableEq

def detect (env : DetectEnv) (db : FieldDb) (days : Option ℤ) : DetectResult × FieldDb :=
  let since := windowStart env days
  let found := scan env since db.mirror.snapshots
  let w := record env since db found.events
  (⟨found.machines, w.written, w.matched, found.skipped⟩,
    publishUnmatched env since { db with journal := w.journal })

/-! Runs. -/

inductive FieldAction
  | ingest (env : IngestEnv) (payload : IngestPayload)
  /-- An operator's record. -/
  | refill (row : RefillRow)
  | detect (env : DetectEnv) (days : Option ℤ)

def FieldDb.step (db : FieldDb) : FieldAction → FieldDb
  | .ingest env payload => { db with mirror := (ingestSlots env db.mirror payload).2 }
  | .refill row => { db with refills := db.refills ++ [row] }
  | .detect env days => (detect env db days).2

/-- The runs of the detector are on one host, and the clock of the database is not behind theirs. -/
def FieldAction.On (host : Js.Host) : FieldAction → Prop
  | .detect env _ => env.host = host ∧ env.now ≤ env.dbNow
  | _ => True

def FieldNext (host : Js.Host) (db : FieldDb) (a : FieldAction) (db' : FieldDb) : Prop := a.On host ∧ db' = db.step a

end Mydon.Vending
