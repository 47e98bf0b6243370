import Mydon.Spool.Bytes

/-! Rescheduling a record after a failed close. The counter and two timestamps are written
anew, and the record has to fit the limit it was accepted under. -/

namespace Mydon.Spool

open Mydon.Js Mydon.Js.Json Mydon.Lib

def DEAD_METADATA_RESERVE_BYTES : ℕ := 1024

structure RetryConfiguration where
  maxAttempts : ℕ
  retryBaseDelayMs : ℕ
  retryMaxDelayMs : ℕ
  attempts_bounds : 1 ≤ maxAttempts ∧ maxAttempts ≤ 1000
  base_bounds : 1 ≤ retryBaseDelayMs ∧ retryBaseDelayMs ≤ 60 * 60000
  max_bounds : 1 ≤ retryMaxDelayMs ∧ retryMaxDelayMs ≤ 24 * 60 * 60000

/-- What the clock says; a day later is still a time value. -/
structure Moment where
  time : ℤ
  bounds : -MAX_TIME ≤ time ∧ time + Clock.DAY_MS ≤ MAX_TIME

abbrev HttpStatus := {n : ℕ // 100 ≤ n ∧ n ≤ 599}

inductive DeadCategory
  | attemptsExhausted
  | exactConflict
  | terminalClose
  deriving DecidableEq

def DeadCategory.text : DeadCategory → String
  | .attemptsExhausted => "attempts_exhausted"
  | .exactConflict => "exact_conflict"
  | .terminalClose => "terminal_close"

def retryDelayMs (attempts : ℕ) (c : RetryConfiguration) : ℕ :=
  min (c.retryBaseDelayMs * 2 ^ min (attempts - 1) 30) c.retryMaxDelayMs

/-! Records as they are first written. -/

variable (host : Host)

def preReserveRecord (requestKey : String) (now next : ℤ) : Json :=
  .obj [("version", .num 1), ("recordId", .str (digest host ("pre-reserve:" ++ requestKey))), ("kind", .str "pre_reserve"),
    ("operation", .str "recover_pre_dispatch"), ("createdAt", .str (toISOString now)),
    ("updatedAt", .str (toISOString now)), ("nextAttemptAt", .str (toISOString next)), ("attempts", .num 0),
    ("requestKey", .str requestKey)]

def exactRecord (reservationId operation : String) (payload : Json) (now : ℤ) : Json :=
  .obj [("version", .num 1), ("recordId", .str (digest host ("close:" ++ reservationId))), ("kind", .str "exact"),
    ("operation", .str operation), ("createdAt", .str (toISOString now)), ("updatedAt", .str (toISOString now)),
    ("nextAttemptAt", .str (toISOString now)), ("attempts", .num 0), ("reservationId", .str reservationId),
    ("payload", payload)]

/-! Writing. -/

def atomicWrite (contents : String) (maxBytes : ℕ) : Except String String :=
  if maxBytes < byteLength contents then .error "LLM settlement outbox record превышает 64 KiB" else .ok contents

def atomicWriteRecord (record : Json) : Except String String :=
  atomicWrite (encodeRecord host record) (MAX_RECORD_BYTES - DEAD_METADATA_RESERVE_BYTES)

def atomicWriteDeadRecord (record : Json) : Except String String :=
  atomicWrite (encodeRecord host record) MAX_RECORD_BYTES

def statusEntry : Option HttpStatus → List (String × Json)
  | none => []
  | some status => [("httpStatus", .num (status.1 : ℕ))]

def deadRecord (source : Json) (category : DeadCategory) (deadAt : ℤ) (httpStatus : Option HttpStatus) : Json :=
  .obj ([("version", .num 1), ("state", .str "dead"), ("source", source), ("deadAt", .str (toISOString deadAt)),
    ("category", .str category.text)] ++ statusEntry httpStatus)

/-! Failed closes. -/

inductive Spooled
  | pending (record : Json)
  | dead (record : Json)

/-- A close that failed: it may be tried again; another intent has taken the record's place meanwhile;
or the answer was final. -/
inductive FailedClose
  | retryable (now : Moment)
  | conflict (now : Moment)
  | terminal (now : Moment) (httpStatus : Option HttpStatus)

def attemptsOf (record : Json) : ℕ := ((number? record "attempts").map fun n => n.num.toNat).getD 0

/-- `{ ...record, attempts, updatedAt, nextAttemptAt }`. -/
def rescheduled (c : RetryConfiguration) (record : Json) (attempts : ℕ) (now : Moment) : Json :=
  match record with
  | .obj entries =>
    .obj (OrderedMap.set "nextAttemptAt" (.str (toISOString (now.time + retryDelayMs attempts c)))
      (OrderedMap.set "updatedAt" (.str (toISOString now.time)) (OrderedMap.set "attempts" (.num attempts) entries)))
  | v => v

def deadLetter (record : Json) (category : DeadCategory) (now : Moment) (httpStatus : Option HttpStatus) :
    Except String Spooled := do
  let _ ← atomicWriteDeadRecord host (deadRecord record category now.time httpStatus)
  return .dead (deadRecord record category now.time httpStatus)

/-- `retryLater`; also the retry branch of the drain with `returnForRetry`. -/
def retryLater (c : RetryConfiguration) (record : Json) (now : Moment) : Except String Spooled :=
  if c.maxAttempts ≤ attemptsOf record + 1 then deadLetter host record .attemptsExhausted now none
  else do
    let _ ← atomicWriteRecord host (rescheduled c record (attemptsOf record + 1) now)
    return .pending (rescheduled c record (attemptsOf record + 1) now)

def failedClose (c : RetryConfiguration) (record : Json) : FailedClose → Except String Spooled
  | .retryable now => retryLater host c record now
  | .conflict now => do
    match ← retryLater host c record now with
    | .pending updated => deadLetter host updated .exactConflict now none
    | .dead record => return .dead record
  | .terminal now httpStatus => deadLetter host record .terminalClose now httpStatus

def failedCloses (c : RetryConfiguration) : Spooled → List FailedClose → Except String Spooled
  | .pending record, e :: rest => do
    let next ← failedClose host c record e
    failedCloses c next rest
  | .dead record, _ => .ok (.dead record)
  | .pending record, [] => .ok (.pending record)

/-! Sizes. -/

/-- A digest is 64 hexadecimal digits. -/
def Sha256Hex : Prop := host.HexDigests ∧ ∀ s, (host.sha256 s).toList.length = 64

/-- A natural number is printed in its decimal digits; from 10²¹ on an exponent is used. -/
def NaturalText : Prop := ∀ n : ℕ, n < 10 ^ 21 → host.numberText n = toString n

variable {host}

theorem atomicWrite_eq_ok {contents written : String} {maxBytes : ℕ} :
    atomicWrite contents maxBytes = .ok written ↔ byteLength contents ≤ maxBytes ∧ contents = written := by
  unfold atomicWrite
  split_ifs with h
  · simp [h]
  · simp [not_lt.mp h]

theorem bytes_digest (hsha : Sha256Hex host) (s : String) : bytes (quote (host.sha256 s)) = 66 := by
  rw [bytes_quote_plain, hsha.2]
  intro c hc
  apply plain_of_range
  rcases hsha.1 s c hc with ⟨hlo, hhi⟩ | ⟨hlo, hhi⟩
  · have hlo' : 48 ≤ c.toNat := hlo
    have hhi' : c.toNat ≤ 57 := hhi
    omega
  · have hlo' : 97 ≤ c.toNat := hlo
    have hhi' : c.toNat ≤ 102 := hhi
    omega

/-- The file holds the record and 89 bytes more. -/
theorem byteLength_encodeRecord (hsha : Sha256Hex host) (v : Json) :
    byteLength (encodeRecord host v) = valueBytes host v + 89 := by
  have hrecord : bytes (quote "record") = 8 ∧ bytes (quote "checksum") = 10 := by decide
  have hchecksum : valueBytes host (.str (digest host (canonicalJson host v))) = 66 := bytes_digest hsha _
  unfold encodeRecord
  rw [byteLength_canonicalJson, valueBytes_obj]
  simp only [List.map_cons, List.map_nil, List.sum_cons, List.sum_nil, List.length_cons, List.length_nil, entryBytes,
    hrecord.1, hrecord.2, hchecksum]
  omega

theorem valueBytes_nat (hnat : NaturalText host) {n k : ℕ} (hk : 0 < k ∧ k ≤ 21) (h : n < 10 ^ k) :
    valueBytes host (.num n) ≤ k := by
  have hn : n < 10 ^ 21 := h.trans_le (Nat.pow_le_pow_right (by decide) hk.2)
  have htext : valueBytes host (.num n) = bytes (Nat.toDigits 10 n) := by
    show bytes (host.numberText n).toList = _
    rw [hnat n hn, Nat.toString_eq_repr, Nat.toList_repr]
  have hone : (Nat.toDigits 10 n).map Char.utf8Size = List.replicate (Nat.toDigits 10 n).length 1 := by
    apply List.eq_replicate_iff.mpr
    refine ⟨List.length_map _, ?_⟩
    intro size hsize
    obtain ⟨c, hc, rfl⟩ := List.mem_map.mp hsize
    have hdigit := Nat.isDigit_of_mem_toDigits (by decide) (by decide) hc
    simp only [Char.isDigit, Bool.and_eq_true, decide_eq_true_eq] at hdigit
    have hlo : 48 ≤ c.toNat := hdigit.1
    have hhi : c.toNat ≤ 57 := hdigit.2
    exact (plain_of_range (by omega)).2
  rw [htext, bytes, hone, List.sum_replicate_nat, Nat.mul_one]
  exact (Nat.length_toDigits_le_iff (by decide) hk.1).mpr h

/-! Dead letters. -/

theorem plainText_of_ascii {s : String} (h : s.toList.all (fun c => 92 < c.toNat ∧ c.toNat < 128) = true) :
    PlainText s s.toList.length :=
  ⟨fun c hc => plain_of_range (.inr (of_decide_eq_true (List.all_eq_true.mp h c hc))), Nat.le_refl _⟩

theorem valueBytes_category (category : DeadCategory) : valueBytes host (.str category.text) ≤ 20 := by
  cases category <;> exact valueBytes_str (n := 18) ⟨(plainText_of_ascii (by decide)).1, by decide⟩

theorem valueBytes_deadRecord (hnat : NaturalText host) (source : Json) (category : DeadCategory) (now : Moment)
    (httpStatus : Option HttpStatus) :
    valueBytes host (deadRecord source category now.time httpStatus) ≤ valueBytes host source + 147 := by
  have hkeys : bytes (quote "version") = 9 ∧ bytes (quote "state") = 7 ∧ bytes (quote "source") = 8 ∧
      bytes (quote "deadAt") = 8 ∧ bytes (quote "category") = 10 ∧ bytes (quote "httpStatus") = 12 := by decide
  have hversion := @valueBytes_nat host hnat 1 1 (by decide) (by decide)
  have hstate : valueBytes host (.str "dead") = 6 := rfl
  have hday : 0 ≤ Clock.DAY_MS := by decide
  have htime := @plainText_toISOString now.time ⟨now.bounds.1, by have := now.bounds.2; omega⟩
  have hdeadAt := @valueBytes_str host _ _ htime
  have hcategory := @valueBytes_category host category
  have hstatus : ((statusEntry httpStatus).map (entryBytes host)).sum + (statusEntry httpStatus).length ≤ 17 := by
    rcases httpStatus with _ | ⟨status, hlo, hhi⟩
    · exact Nat.zero_le _
    · have hnumber := @valueBytes_nat host hnat status 3 (by decide) (by omega)
      simp only [statusEntry, List.map_cons, List.map_nil, List.sum_cons, List.sum_nil, List.length_cons, List.length_nil,
        entryBytes, hkeys.2.2.2.2.2]
      omega
  rw [Nat.cast_one] at hversion
  unfold deadRecord
  rw [valueBytes_obj, List.map_append, List.sum_append, List.length_append]
  simp only [List.map_cons, List.map_nil, List.sum_cons, List.sum_nil, List.length_cons, List.length_nil, entryBytes,
    hkeys.1, hkeys.2.1, hkeys.2.2.1, hkeys.2.2.2.1, hkeys.2.2.2.2.1, hstate]
  omega

/-- The wrapper of a record that was accepted is within its own limit. -/
theorem deadLetter_of_accepted (hsha : Sha256Hex host) (hnat : NaturalText host) {record : Json}
    (h : byteLength (encodeRecord host record) ≤ MAX_RECORD_BYTES - DEAD_METADATA_RESERVE_BYTES) (category : DeadCategory)
    (now : Moment) (httpStatus : Option HttpStatus) :
    deadLetter host record category now httpStatus = .ok (.dead (deadRecord record category now.time httpStatus)) := by
  have hdead := valueBytes_deadRecord hnat record category now httpStatus
  rw [byteLength_encodeRecord hsha] at h
  unfold deadLetter atomicWriteDeadRecord
  have hlimit : MAX_RECORD_BYTES - DEAD_METADATA_RESERVE_BYTES = 64512 ∧ MAX_RECORD_BYTES = 65536 := ⟨rfl, rfl⟩
  rw [atomicWrite_eq_ok.mpr ⟨by rw [byteLength_encodeRecord hsha]; omega, rfl⟩]
  rfl

/-! Rescheduling. -/

/-- The bytes of a counter and two timestamps. -/
def fieldsBytes (host : Host) (attempts : ℕ) (updatedAt nextAttemptAt : String) : ℕ :=
  valueBytes host (.num attempts) + valueBytes host (.str updatedAt) + valueBytes host (.str nextAttemptAt)

def fieldBytes (host : Host) (record : Json) (key : String) : ℕ := ((record.get? key).map (valueBytes host)).getD 0

/-- The bytes of the record's own counter and timestamps. -/
def scheduleBytes (host : Host) (record : Json) : ℕ :=
  fieldBytes host record "attempts" + fieldBytes host record "updatedAt" + fieldBytes host record "nextAttemptAt"

/-- The record leaves room for another counter and other timestamps. -/
def RoomFor (host : Host) (c : RetryConfiguration) (record : Json) (attempts : ℕ) (now : Moment) : Prop :=
  byteLength (encodeRecord host record) +
      fieldsBytes host attempts (toISOString now.time) (toISOString (now.time + retryDelayMs attempts c)) ≤
    MAX_RECORD_BYTES - DEAD_METADATA_RESERVE_BYTES + scheduleBytes host record

/-- A record with a counter and two timestamps. -/
def Scheduled (record : Json) (attempts : ℕ) : Prop :=
  ∃ entries updatedAt nextAttemptAt, record = .obj entries ∧ OrderedMap.get entries "attempts" = some (.num attempts) ∧
    OrderedMap.get entries "updatedAt" = some (.str updatedAt) ∧
    OrderedMap.get entries "nextAttemptAt" = some (.str nextAttemptAt)

theorem attemptsOf_eq {record : Json} {n : ℕ} (h : Scheduled record n) : attemptsOf record = n := by
  obtain ⟨entries, -, -, rfl, hattempts, -⟩ := h
  simp [attemptsOf, number?, get?_obj, hattempts, asNumber]

/-- Three fields are replaced, and nothing else is. -/
theorem rescheduled_spec (c : RetryConfiguration) {record : Json} {n : ℕ} (h : Scheduled record n) (attempts : ℕ)
    (now : Moment) :
    Scheduled (rescheduled c record attempts now) attempts ∧
    valueBytes host (rescheduled c record attempts now) + scheduleBytes host record =
      valueBytes host record + scheduleBytes host (rescheduled c record attempts now) ∧
    scheduleBytes host (rescheduled c record attempts now) =
      fieldsBytes host attempts (toISOString now.time) (toISOString (now.time + retryDelayMs attempts c)) := by
  obtain ⟨entries, updatedAt, nextAttemptAt, rfl, hattempts, hupdated, hnext⟩ := h
  have hupdated' : OrderedMap.get (OrderedMap.set "attempts" (.num attempts) entries) "updatedAt" = some (.str updatedAt) := by
    rw [OrderedMap.get_set, if_neg (by decide), hupdated]
  have hnext' : OrderedMap.get (OrderedMap.set "updatedAt" (.str (toISOString now.time))
      (OrderedMap.set "attempts" (.num attempts) entries)) "nextAttemptAt" = some (.str nextAttemptAt) := by
    rw [OrderedMap.get_set, if_neg (by decide), OrderedMap.get_set, if_neg (by decide), hnext]
  have hfirst := @valueBytes_set host entries "attempts" (.num attempts) _ hattempts
  have hsecond := @valueBytes_set host _ "updatedAt" (.str (toISOString now.time)) _ hupdated'
  have hthird := @valueBytes_set host _ "nextAttemptAt" (.str (toISOString (now.time + retryDelayMs attempts c))) _ hnext'
  refine ⟨⟨_, toISOString now.time, toISOString (now.time + retryDelayMs attempts c), rfl, ?_, ?_, ?_⟩, ?_, ?_⟩
  · simp [OrderedMap.get_set]
  · simp [OrderedMap.get_set]
  · simp [OrderedMap.get_set]
  · simp only [rescheduled, scheduleBytes, fieldBytes, get?_obj, OrderedMap.get_set, hattempts, hupdated, hnext,
      Option.map_some, Option.getD_some, reduceIte, String.reduceEq]
    omega
  · simp [rescheduled, scheduleBytes, fieldBytes, fieldsBytes, get?_obj, OrderedMap.get_set]

/-- A record rescheduled so many times since it was first accepted. -/
structure Pending (host : Host) (first record : Json) (n : ℕ) : Prop where
  scheduled : Scheduled record n
  accepted : byteLength (encodeRecord host record) ≤ MAX_RECORD_BYTES - DEAD_METADATA_RESERVE_BYTES
  size : valueBytes host record + scheduleBytes host first = valueBytes host first + scheduleBytes host record

theorem byteLength_rescheduled (hsha : Sha256Hex host) (c : RetryConfiguration) {first record : Json} {n : ℕ}
    (h : Pending host first record n) (attempts : ℕ) (now : Moment) :
    (byteLength (encodeRecord host (rescheduled c record attempts now)) ≤ MAX_RECORD_BYTES - DEAD_METADATA_RESERVE_BYTES ↔
      RoomFor host c first attempts now) ∧
    valueBytes host (rescheduled c record attempts now) + scheduleBytes host first =
      valueBytes host first + scheduleBytes host (rescheduled c record attempts now) := by
  obtain ⟨-, hbytes, hfields⟩ := @rescheduled_spec host c record n h.scheduled attempts now
  have hsize := h.size
  unfold RoomFor
  rw [byteLength_encodeRecord hsha, byteLength_encodeRecord hsha, ← hfields]
  constructor
  · constructor <;> intro hle <;> omega
  · omega

/-- Every rescheduling on the way finds room. -/
def Roomy (host : Host) (c : RetryConfiguration) (record : Json) : ℕ → List FailedClose → Prop
  | _, [] => True
  | n, .retryable now :: rest =>
    c.maxAttempts ≤ n + 1 ∨ RoomFor host c record (n + 1) now ∧ Roomy host c record (n + 1) rest
  | n, .conflict now :: _ => c.maxAttempts ≤ n + 1 ∨ RoomFor host c record (n + 1) now
  | _, .terminal _ _ :: _ => True

section
variable (hsha : Sha256Hex host) (hnat : NaturalText host) {c : RetryConfiguration} {first record : Json} {n : ℕ}
include hsha hnat

theorem retryLater_exhausted (h : Pending host first record n) (hmax : c.maxAttempts ≤ n + 1) (now : Moment) :
    ∃ r, retryLater host c record now = .ok (.dead r) := by
  unfold retryLater
  rw [attemptsOf_eq h.scheduled, if_pos hmax, deadLetter_of_accepted hsha hnat h.accepted]
  exact ⟨_, rfl⟩

omit hnat in
theorem retryLater_room (h : Pending host first record n) (hmax : ¬ c.maxAttempts ≤ n + 1) {now : Moment}
    (hroom : RoomFor host c first (n + 1) now) :
    ∃ updated, retryLater host c record now = .ok (.pending updated) ∧ Pending host first updated (n + 1) := by
  obtain ⟨hfits, hsize⟩ := byteLength_rescheduled hsha c h (n + 1) now
  refine ⟨rescheduled c record (n + 1) now, ?_, (@rescheduled_spec host c record n h.scheduled (n + 1) now).1,
    hfits.mpr hroom, hsize⟩
  unfold retryLater atomicWriteRecord
  rw [attemptsOf_eq h.scheduled, if_neg hmax, atomicWrite_eq_ok.mpr ⟨hfits.mpr hroom, rfl⟩]
  rfl

omit hnat in
theorem retryLater_no_room (h : Pending host first record n) (hmax : ¬ c.maxAttempts ≤ n + 1) {now : Moment}
    (hroom : ¬ RoomFor host c first (n + 1) now) :
    retryLater host c record now = .error "LLM settlement outbox record превышает 64 KiB" := by
  obtain ⟨hfits, -⟩ := byteLength_rescheduled hsha c h (n + 1) now
  unfold retryLater atomicWriteRecord atomicWrite
  rw [attemptsOf_eq h.scheduled, if_neg hmax, if_pos (not_le.mp (mt hfits.mp hroom))]
  rfl

omit hsha hnat in
theorem failedCloses_dead (r : Json) (events : List FailedClose) : failedCloses host c (.dead r) events = .ok (.dead r) := by
  cases events <;> rfl

/-- One failed close after another: no write is refused exactly when each finds room. -/
theorem failedCloses_ok_iff (h : Pending host first record n) (events : List FailedClose) :
    (∃ s, failedCloses host c (.pending record) events = .ok s) ↔ Roomy host c first n events := by
  induction events generalizing record n with
  | nil => exact ⟨fun _ => trivial, fun _ => ⟨_, rfl⟩⟩
  | cons e rest ih =>
    rw [failedCloses]
    cases e with
    | retryable now =>
      rw [failedClose, Roomy]
      by_cases hmax : c.maxAttempts ≤ n + 1
      · obtain ⟨r, hr⟩ := retryLater_exhausted hsha hnat h hmax now
        rw [hr]
        exact ⟨fun _ => .inl hmax, fun _ => ⟨_, failedCloses_dead r rest⟩⟩
      · rw [or_iff_right hmax]
        by_cases hroom : RoomFor host c first (n + 1) now
        · obtain ⟨updated, hr, hnext⟩ := retryLater_room hsha h hmax hroom
          rw [hr, and_iff_right hroom, ← ih hnext]
          rfl
        · rw [retryLater_no_room hsha h hmax hroom]
          exact ⟨fun ⟨_, hs⟩ => (nomatch hs), fun hs => absurd hs.1 hroom⟩
    | conflict now =>
      rw [failedClose, Roomy]
      by_cases hmax : c.maxAttempts ≤ n + 1
      · obtain ⟨r, hr⟩ := retryLater_exhausted hsha hnat h hmax now
        rw [hr]
        exact ⟨fun _ => .inl hmax, fun _ => ⟨_, failedCloses_dead r rest⟩⟩
      · rw [or_iff_right hmax]
        by_cases hroom : RoomFor host c first (n + 1) now
        · obtain ⟨updated, hr, hnext⟩ := retryLater_room hsha h hmax hroom
          rw [hr]
          refine ⟨fun _ => hroom, fun _ => ?_⟩
          refine ⟨.dead (deadRecord updated .exactConflict now.time none), ?_⟩
          simp only [bind, Except.bind, deadLetter_of_accepted hsha hnat hnext.accepted, failedCloses]
        · rw [retryLater_no_room hsha h hmax hroom]
          exact ⟨fun ⟨_, hs⟩ => (nomatch hs), fun hs => absurd hs hroom⟩
    | terminal now httpStatus =>
      rw [failedClose, deadLetter_of_accepted hsha hnat h.accepted]
      exact ⟨fun _ => trivial, fun _ => ⟨_, failedCloses_dead _ rest⟩⟩

end

/-- A record that has been accepted and never rescheduled survives a run of failed closes exactly when
each rescheduling finds room for the counter and the timestamps. -/
theorem rescheduled_iff_roomy (host : Host) (hsha : Sha256Hex host) (hnat : NaturalText host) (c : RetryConfiguration)
    (record : Json) (hscheduled : Scheduled record 0) (haccepted : ∃ contents, atomicWriteRecord host record = .ok contents)
    (events : List FailedClose) :
    (∃ s, failedCloses host c (.pending record) events = .ok s) ↔ Roomy host c record 0 events := by
  obtain ⟨contents, hcontents⟩ := haccepted
  exact failedCloses_ok_iff hsha hnat ⟨hscheduled, (atomicWrite_eq_ok.mp hcontents).1, rfl⟩ events

/-- A release whose reason has `n` letters. -/
def releaseRecord (n : ℕ) : Json :=
  exactRecord spoolHost "r1" "release" (.obj [("reason", .str (String.ofList (List.replicate n 'a')))]) 1788300000123

def quarterHour : RetryConfiguration := ⟨32, 1000, 900000, by decide, by decide, by decide⟩

def someMoment : Moment := ⟨1788300060123, by decide⟩

theorem sha256Hex_spoolHost : Sha256Hex spoolHost := by
  have htext : ∀ s, (spoolHost.sha256 s).toList = List.replicate 64 'a' := fun _ => String.toList_ofList
  refine ⟨?_, fun s => by rw [htext, List.length_replicate]⟩
  intro s c hc
  rw [htext] at hc
  rw [List.eq_of_mem_replicate hc]
  decide

theorem naturalText_spoolHost : NaturalText spoolHost := by
  intro n _
  simp [spoolHost]

theorem scheduled_releaseRecord (n : ℕ) : Scheduled (releaseRecord n) 0 :=
  ⟨_, toISOString 1788300000123, toISOString 1788300000123, rfl, rfl, rfl, rfl⟩

theorem byteLength_releaseRecord (n : ℕ) : byteLength (encodeRecord spoolHost (releaseRecord n)) = n + 396 := by
  have hempty : valueBytes spoolHost (releaseRecord 0) = 307 := by decide +kernel
  have hletters : bytes (quote (String.ofList (List.replicate n 'a'))) = n + 2 := by
    rw [bytes_quote_plain, String.toList_ofList, List.length_replicate]
    intro c hc
    rw [String.toList_ofList] at hc
    rw [List.eq_of_mem_replicate hc]
    exact plain_of_range (by decide)
  have hpayload : valueBytes spoolHost (.obj [("reason", .str (String.ofList (List.replicate n 'a')))]) = n + 13 := by
    have hkey : bytes (quote "reason") = 8 := by decide
    have hvalue : valueBytes spoolHost (.str (String.ofList (List.replicate n 'a'))) = n + 2 := hletters
    rw [valueBytes_obj]
    simp only [List.map_cons, List.map_nil, List.sum_cons, List.sum_nil, List.length_cons, List.length_nil, entryBytes,
      hkey, hvalue]
    omega
  obtain ⟨entries, hentries⟩ : ∃ entries, releaseRecord 0 = .obj entries ∧
      OrderedMap.get entries "payload" = some (.obj [("reason", .str "")]) ∧
      releaseRecord n =
        .obj (OrderedMap.set "payload" (.obj [("reason", .str (String.ofList (List.replicate n 'a')))]) entries) :=
    ⟨_, rfl, rfl, rfl⟩
  have hset := @valueBytes_set spoolHost entries "payload"
    (.obj [("reason", .str (String.ofList (List.replicate n 'a')))]) _ hentries.2.1
  have hzero : valueBytes spoolHost (.obj [("reason", .str "")]) = 13 := by decide +kernel
  rw [← hentries.1, ← hentries.2.2, hempty, hpayload, hzero] at hset
  rw [byteLength_encodeRecord sha256Hex_spoolHost]
  omega

theorem scheduleBytes_releaseRecord (n : ℕ) : scheduleBytes spoolHost (releaseRecord n) = 53 := by
  have hzero : scheduleBytes spoolHost (releaseRecord 0) = 53 := by decide +kernel
  have hsame : scheduleBytes spoolHost (releaseRecord n) = scheduleBytes spoolHost (releaseRecord 0) := rfl
  rw [hsame, hzero]

theorem accepted_releaseRecord {n : ℕ} (h : n ≤ 64116) :
    ∃ contents, atomicWriteRecord spoolHost (releaseRecord n) = .ok contents :=
  ⟨_, atomicWrite_eq_ok.mpr ⟨by rw [byteLength_releaseRecord]; exact Nat.add_le_add_right h 396, rfl⟩⟩

/-- A short record can be put off once. -/
theorem rescheduled_iff_roomy_short :
    (∃ s, failedCloses spoolHost quarterHour (.pending (releaseRecord 0)) [.retryable someMoment] = .ok s) ↔
      Roomy spoolHost quarterHour (releaseRecord 0) 0 [.retryable someMoment] :=
  rescheduled_iff_roomy spoolHost sha256Hex_spoolHost naturalText_spoolHost quarterHour (releaseRecord 0)
    (scheduled_releaseRecord 0) (accepted_releaseRecord (Nat.zero_le _)) [.retryable someMoment]

/-- The tenth retry of a record at the limit needs one byte more. -/
theorem not_always_rescheduled : ¬ ∀ record, Scheduled record 0 →
    (∃ contents, atomicWriteRecord spoolHost record = .ok contents) → ∀ events,
      ∃ s, failedCloses spoolHost quarterHour (.pending record) events = .ok s := by
  intro h
  have hscheduled := scheduled_releaseRecord 64116
  have haccepted := @accepted_releaseRecord 64116 (Nat.le_refl _)
  have hrun := h (releaseRecord 64116) hscheduled haccepted (List.replicate 10 (.retryable someMoment))
  obtain ⟨contents, hcontents⟩ := haccepted
  rw [failedCloses_ok_iff sha256Hex_spoolHost naturalText_spoolHost
    ⟨hscheduled, (atomicWrite_eq_ok.mp hcontents).1, rfl⟩] at hrun
  have hmax : quarterHour.maxAttempts = 32 := rfl
  simp only [List.replicate, Roomy, Nat.zero_add, Nat.reduceAdd, hmax, Nat.reduceLeDiff, false_or] at hrun
  obtain ⟨-, -, -, -, -, -, -, -, -, htenth, -⟩ := hrun
  have hfields : fieldsBytes spoolHost 10 (toISOString someMoment.time)
      (toISOString (someMoment.time + retryDelayMs 10 quarterHour)) = 54 := by decide +kernel
  unfold RoomFor at htenth
  rw [byteLength_releaseRecord, hfields, scheduleBytes_releaseRecord] at htenth
  exact absurd htenth (by decide)

end Mydon.Spool
