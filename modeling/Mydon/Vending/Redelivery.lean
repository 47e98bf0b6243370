import Mydon.Vending.Mirror
import Mydon.Vending.Rises
import Mydon.Vending.Shrinkage

/-! A snapshot that is delivered a second time, seen through the refills and the shrinkage. -/

namespace Mydon.Vending

open Mydon.Lib

/-- The rows that a delivery adds to the history. -/
def payloadRows (p : IngestEnv × IngestPayload) : List SlotSnapshotRow :=
  (p.2.machines.filter fun m => m.slots.length ≤ MAX_SLOTS_PER_MACHINE).flatMap fun m =>
    m.slots.map (snapshotRow (p.2.capturedAt.getD p.1.now) m)

def ingestAll (db : MirrorDb) (ps : List (IngestEnv × IngestPayload)) : MirrorDb :=
  ps.foldl (fun db p => (ingestSlots p.1 db p.2).2) db

theorem snapshots_ingestSlots (db : MirrorDb) (p : IngestEnv × IngestPayload) :
    (ingestSlots p.1 db p.2).2.snapshots = db.snapshots ++ payloadRows p := by
  have hfold : ∀ (ms : List IngestMachineInput) (db : MirrorDb), (ms.foldl (ingestMachine p.1
      (p.2.capturedAt.getD p.1.now)) db).snapshots = db.snapshots ++
        ms.flatMap fun m => m.slots.map (snapshotRow (p.2.capturedAt.getD p.1.now) m) := by
    intro ms
    induction ms with
    | nil => simp
    | cons m ms ih =>
      intro db
      rw [List.foldl_cons, ih, List.flatMap_cons, ← List.append_assoc]
      rfl
  exact hfold _ db

/-- The history keeps every delivery, in the order they came. -/
theorem snapshots_ingestAll (db : MirrorDb) (ps : List (IngestEnv × IngestPayload)) :
    (ingestAll db ps).snapshots = db.snapshots ++ ps.flatMap payloadRows := by
  induction ps generalizing db with
  | nil => simp [ingestAll]
  | cons p ps ih =>
    have hstep : ingestAll db (p :: ps) = ingestAll (ingestSlots p.1 db p.2).2 ps := rfl
    rw [hstep, ih, snapshots_ingestSlots, List.flatMap_cons, List.append_assoc]

/-- A detector run and a report, with what they read besides the history. -/
structure Readers where
  host : Js.Host
  catalog : Catalog
  detectSince : ℤ
  minUnits : ℤ
  reportSince : ℤ
  dates : List ℤ
  tables : ShrinkTables

/-- The detector names a product by the catalogue. -/
def Readers.canonOf (q : Readers) (raw : String) : String := q.catalog.resolveProduct q.host raw

/-- The report knows a product by the normalized name. -/
def Readers.productKey (q : Readers) (raw : String) : String := normalizeProductName q.host (q.canonOf raw)

def Readers.refills (q : Readers) (rows : List SlotSnapshotRow) : List RefillEvent :=
  historyRefills q.host q.canonOf q.detectSince q.minUnits rows

def Readers.shrinkage (q : Readers) (rows : List SlotSnapshotRow) : List (String × List ShrinkItem) :=
  historyShrinkage q.host q.productKey q.reportSince q.dates q.tables rows

/-- The second delivery does not show: neither in the windows that meet its moment, nor, day by day, in what
the starts and the ends of the days hold. -/
structure Unseen (q : Readers) (T : ℤ) (before again after : List SlotSnapshotRow) : Prop where
  refills : ∀ e ∈ canonForms q.host q.detectSince (before ++ after),
    RefillsUnmoved q.canonOf q.detectSince q.minUnits T e.2 before again after
  shrinkage : ∀ e ∈ canonForms q.host q.reportSince (before ++ after), ∀ product,
    ((productDays q.tables e.1 (shrinkSnapshots q.productKey q.reportSince (before ++ after) e.2) q.dates product).map
      fun d => addedAt q.productKey q.reportSince again product d.start).sum =
    ((productDays q.tables e.1 (shrinkSnapshots q.productKey q.reportSince (before ++ after) e.2) q.dates product).map
      fun d => addedAt q.productKey q.reportSince again product d.finish).sum

variable {db : MirrorDb} {earlier later : List (IngestEnv × IngestPayload)} {env : IngestEnv}
  {payload : IngestPayload} {T : ℤ}

theorem again_payloadRows (hT : payload.capturedAt = some T) (hmem : payload ∈ earlier.map Prod.snd) :
    Again T (db.snapshots ++ earlier.flatMap payloadRows) (payloadRows (env, payload)) := by
  intro r hr
  obtain ⟨⟨first, _⟩, hfirst, rfl⟩ := List.mem_map.mp hmem
  obtain ⟨m, hm, hrow⟩ := List.mem_flatMap.mp hr
  rw [hT] at hrow
  refine ⟨List.mem_append_right _ (List.mem_flatMap.mpr ⟨_, hfirst, List.mem_flatMap.mpr ⟨m, hm, ?_⟩⟩), ?_⟩
  · rw [hT]
    exact hrow
  · obtain ⟨s, _, rfl⟩ := List.mem_map.mp hrow
    rfl

/-- One coil of cola, two of ten at first. -/
def colaPayload (capturedAt quantity : ℤ) : IngestPayload :=
  ⟨some capturedAt, [⟨"2508160376", [⟨"A", "cola", 10, quantity⟩]⟩]⟩

def sampleReaders : Readers where
  host := mirrorHost
  catalog := ⟨[], []⟩
  detectSince := 0
  minUnits := 10
  reportSince := 0
  dates := []
  tables := ⟨[], [], [], 30000⟩

def sampleHistory : List (IngestEnv × IngestPayload) :=
  [(sampleIngestEnv, colaPayload 1000 2), (sampleIngestEnv, colaPayload 2000 9)]

end Mydon.Vending
