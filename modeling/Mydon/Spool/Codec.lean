import Mydon.Clock
import Mydon.Js.KeyOrder

/-! The records of the settlement outbox: their canonical text, the check of what is read,
and the file with its checksum. -/

namespace Mydon.Spool

open Mydon.Js Mydon.Js.Json

def MAX_RECORD_BYTES : ℕ := 64 * 1024

def FALLBACK_REASON : String := "settlement_outbox_fallback"

/-! Canonical text. -/

def keyOrder (a b : String × List Char) : Prop := before b.1 a.1 = false

instance : DecidableRel keyOrder := fun a b => inferInstanceAs (Decidable (before b.1 a.1 = false))

def join (texts : List (List Char)) : List Char := [','].intercalate texts

variable (host : Host)

mutual

/-- `canonicalJson`. -/
def canonicalChars : Json → List Char
  | .arr items => '[' :: join (canonicalItemTexts items) ++ [']']
  | .obj entries =>
    '{' :: join (((canonicalEntryTexts entries).insertionSort keyOrder).map fun e => quote e.1 ++ ':' :: e.2) ++ ['}']
  | .null => chars host .null
  | .bool b => chars host (.bool b)
  | .num n => chars host (.num n)
  | .str s => chars host (.str s)

def canonicalItemTexts : List Json → List (List Char)
  | [] => []
  | v :: items => canonicalChars v :: canonicalItemTexts items

def canonicalEntryTexts : List (String × Json) → List (String × List Char)
  | [] => []
  | (key, v) :: entries => (key, canonicalChars v) :: canonicalEntryTexts entries

end

def canonicalJson (v : Json) : String := String.ofList (canonicalChars host v)

def digest (text : String) : String := host.sha256 text

/-! What is accepted. -/

def isJsonObject : Json → Bool
  | .obj _ => true
  | _ => false

def text? (value : Json) (key : String) : Option String := (value.get? key).bind asString

def number? (value : Json) (key : String) : Option ℚ := (value.get? key).bind asNumber

/-- `/^[a-f0-9]{64}$/`. -/
def isRecordId (s : String) : Bool :=
  s.toList.length = 64 && s.toList.all fun c => isDigit c || ('a' ≤ c && c ≤ 'f')

/-- The largest time value of a `Date`. -/
def MAX_TIME : ℤ := 8640000000000000

/-- Years of other than four digits are written with a sign and six digits. -/
def yearText (year : ℤ) : String :=
  if 0 ≤ year ∧ year ≤ 9999 then Clock.padStart 4 year
  else (if year < 0 then "-" else "+") ++ Clock.padStart 6 year.natAbs

def toISOString (at_ : ℤ) : String :=
  let (year, month, day) := Clock.civil (at_ / Clock.DAY_MS)
  let ms := at_ % Clock.DAY_MS
  yearText year ++ "-" ++ Clock.padStart 2 month ++ "-" ++ Clock.padStart 2 day ++ "T" ++ Clock.padStart 2 (ms / 3600000) ++
    ":" ++ Clock.padStart 2 (ms / 60000 % 60) ++ ":" ++ Clock.padStart 2 (ms / 1000 % 60) ++ "." ++
    Clock.padStart 3 (ms % 1000) ++ "Z"

def digits (cs : List Char) : ℤ := cs.foldl (fun n c => n * 10 + (c.toNat - 48 : ℕ)) 0

/-- `Date.parse` of a text in the form of `toISOString`. -/
def parseISO (s : String) : Option ℤ :=
  let (year, rest) := match s.toList with
    | '+' :: rest => (digits (rest.take 6), rest.drop 6)
    | '-' :: rest => (-digits (rest.take 6), rest.drop 6)
    | cs => (digits (cs.take 4), cs.drop 4)
  match rest with
  | ['-', m₁, m₂, '-', d₁, d₂, 'T', h₁, h₂, ':', n₁, n₂, ':', s₁, s₂, '.', u₁, u₂, u₃, 'Z'] =>
    some (Clock.ofCivil year (digits [m₁, m₂]) (digits [d₁, d₂]) * Clock.DAY_MS + digits [h₁, h₂] * 3600000 +
      digits [n₁, n₂] * 60000 + digits [s₁, s₂] * 1000 + digits [u₁, u₂, u₃])
  | _ => none

def isIsoTimestamp (value : String) : Bool :=
  match parseISO value with
  | some at_ => -MAX_TIME ≤ at_ && at_ ≤ MAX_TIME && toISOString at_ = value
  | none => false

def isRecordKind (s : String) : Bool := ["pre_reserve", "fallback", "exact"].contains s

def isRecordOperation (s : String) : Bool := ["recover_pre_dispatch", "settle", "fail", "release"].contains s

def isFallbackPayload : Json → Bool
  | .obj entries =>
    text? (.obj entries) "outcome" = some "unknown" && text? (.obj entries) "reason" = some FALLBACK_REASON &&
      entries.length = 2
  | _ => false

def isValidExactPayload (record payload : Json) : Bool :=
  if text? record "operation" = some "release" then isJsonObject payload && (text? payload "reason").isSome
  else isJsonObject payload

def isStoredRecord (value : Json) : Bool :=
  isJsonObject value && number? value "version" = some 1 && (text? value "recordId").any isRecordId &&
    (text? value "kind").any isRecordKind && (text? value "operation").any isRecordOperation &&
    (text? value "createdAt").any isIsoTimestamp && (text? value "updatedAt").any isIsoTimestamp &&
    (text? value "nextAttemptAt").any isIsoTimestamp && (number? value "attempts").any (fun n => n.den = 1 && 0 ≤ n) &&
    if text? value "kind" = some "pre_reserve" then
      text? value "operation" = some "recover_pre_dispatch" && (text? value "requestKey").any (· ≠ "") &&
        (value.get? "reservationId").isNone && (value.get? "payload").isNone
    else
      (text? value "reservationId").any (· ≠ "") && (value.get? "requestKey").isNone &&
        match value.get? "payload" with
        | none => false
        | some payload =>
          if text? value "kind" = some "fallback" then text? value "operation" = some "fail" && isFallbackPayload payload
          else text? value "operation" ≠ some "recover_pre_dispatch" && isValidExactPayload value payload

/-! Files. -/

/-- `canonicalJson({ record, checksum })`. -/
def encodeRecord (record : Json) : String :=
  canonicalJson host (.obj [("record", record), ("checksum", .str (digest host (canonicalJson host record)))])

/-- The lengths and all code units agree. -/
def constantTimeTextEqual (left right : String) : Bool := codeUnits left = codeUnits right

def decodeStoredRecord (contents : String) : Except String Json :=
  if MAX_RECORD_BYTES < byteLength contents then .error "LLM settlement outbox record повреждён"
  else
    match (parse host contents).bind fun value =>
        (value.get? "record").bind fun record => (text? value "checksum").map fun checksum => (record, checksum) with
    | none => .error "LLM settlement outbox record повреждён"
    | some (record, checksum) =>
      if !isStoredRecord record then .error "LLM settlement outbox record повреждён"
      else if !constantTimeTextEqual checksum (digest host (canonicalJson host record)) then
        .error "LLM settlement outbox checksum не совпал"
      else .ok record

/-! The canonical text is the text of the canonical value. -/

variable {host : Host}

theorem itemChars_eq (items : List Json) : itemChars host items = join (items.map (chars host)) := by
  induction items with
  | nil => rfl
  | cons v items ih =>
    rcases items with _ | ⟨w, items⟩
    · simp [itemChars, join]
    · rw [itemChars_append (List.cons_ne_nil w items), ih]
      simp [join, List.intercalate]

theorem entryChars_eq (entries : List (String × Json)) :
    entryChars host entries = join (entries.map fun e => quote e.1 ++ ':' :: chars host e.2) := by
  induction entries with
  | nil => rfl
  | cons e entries ih =>
    obtain ⟨key, v⟩ := e
    rcases entries with _ | ⟨e', entries⟩
    · simp [entryChars, join]
    · rw [entryChars_append (List.cons_ne_nil e' entries), ih]
      simp [join, List.intercalate]

/-- Entries are sorted by their keys alone. -/
theorem map_sort_entries (entries : List (String × Json)) :
    (entries.insertionSort keyLE).map (fun e => (e.1, chars host e.2)) =
      (entries.map fun e => (e.1, chars host e.2)).insertionSort keyOrder :=
  List.map_insertionSort keyLE keyOrder (fun e => (e.1, chars host e.2)) entries fun _ _ _ _ => Iff.rfl

mutual

theorem canonicalChars_eq (v : Json) : canonicalChars host v = chars host v.canonical := by
  match v with
  | .null => rfl
  | .bool _ => rfl
  | .num _ => rfl
  | .str _ => rfl
  | .arr items => rw [canonicalChars, canonical, chars, itemChars_eq, canonicalItemTexts_eq items]
  | .obj entries =>
    rw [canonicalChars, canonical, chars, entryChars_eq, canonicalEntryTexts_eq entries,
      ← map_sort_entries, List.map_map]
    rfl

theorem canonicalItemTexts_eq (items : List Json) :
    canonicalItemTexts host items = (canonicalItems items).map (chars host) := by
  match items with
  | [] => rfl
  | v :: items => rw [canonicalItemTexts, canonicalItems, List.map_cons, canonicalChars_eq v, canonicalItemTexts_eq items]

theorem canonicalEntryTexts_eq (entries : List (String × Json)) :
    canonicalEntryTexts host entries = (canonicalEntries entries).map fun e => (e.1, chars host e.2) := by
  match entries with
  | [] => rfl
  | (key, v) :: entries =>
    rw [canonicalEntryTexts, canonicalEntries, List.map_cons, canonicalChars_eq v, canonicalEntryTexts_eq entries]

end

theorem canonicalJson_eq (v : Json) : canonicalJson host v = v.canonical.stringify host := by
  unfold canonicalJson stringify
  rw [canonicalChars_eq]

/-! A record and its canonical form are read alike. -/

variable {v : Json} {key : String}

theorem get?_canonical_of_wellFormed (h : WellFormed host v) (key : String) :
    v.canonical.get? key = (v.get? key).map canonical := by
  match v, h with
  | .obj entries, h => exact get?_canonical h.1 key
  | .null, _ => rfl
  | .bool _, _ => rfl
  | .num _, _ => rfl
  | .str _, _ => rfl
  | .arr _, _ => rfl

theorem text?_canonical (h : WellFormed host v) (key : String) : text? v.canonical key = text? v key := by
  unfold text?
  rw [get?_canonical_of_wellFormed h]
  rcases v.get? key with _ | w
  · rfl
  · cases w <;> rfl

theorem number?_canonical (h : WellFormed host v) (key : String) : number? v.canonical key = number? v key := by
  unfold number?
  rw [get?_canonical_of_wellFormed h]
  rcases v.get? key with _ | w
  · rfl
  · cases w <;> rfl

theorem isJsonObject_canonical (v : Json) : isJsonObject v.canonical = isJsonObject v := by
  cases v <;> rfl

theorem wellFormed_get? (h : WellFormed host v) {w : Json} (hw : v.get? key = some w) : WellFormed host w := by
  match v, h with
  | .obj entries, h =>
    obtain ⟨e, he, rfl⟩ := Option.map_eq_some_iff.mp hw
    exact wellFormed_of_mem h.2 (List.mem_of_find?_eq_some he)

theorem isFallbackPayload_canonical (h : WellFormed host v) : isFallbackPayload v.canonical = isFallbackPayload v := by
  match v, h with
  | .obj entries, h =>
    have hlength : ((canonicalEntries entries).insertionSort keyLE).length = entries.length := by
      rw [List.length_insertionSort, length_canonicalEntries]
    have hcanonical : (obj entries).canonical = obj ((canonicalEntries entries).insertionSort keyLE) := by rw [canonical]
    have houtcome := text?_canonical h "outcome"
    have hreason := text?_canonical h "reason"
    rw [hcanonical] at houtcome hreason ⊢
    simp only [isFallbackPayload, houtcome, hreason, hlength]
  | .null, _ => rfl
  | .bool _, _ => rfl
  | .num _, _ => rfl
  | .str _, _ => rfl
  | .arr _, _ => rfl

theorem isValidExactPayload_canonical {record : Json} (hrecord : WellFormed host record) (h : WellFormed host v) :
    isValidExactPayload record.canonical v.canonical = isValidExactPayload record v := by
  unfold isValidExactPayload
  rw [text?_canonical hrecord, text?_canonical h, isJsonObject_canonical]

theorem isStoredRecord_canonical (h : WellFormed host v) : isStoredRecord v.canonical = isStoredRecord v := by
  unfold isStoredRecord
  simp only [isJsonObject_canonical, text?_canonical h, number?_canonical h, get?_canonical_of_wellFormed h,
    Option.isNone_map]
  rcases hpayload : v.get? "payload" with _ | payload
  · rfl
  · have hp := wellFormed_get? h hpayload
    simp only [Option.map_some, isFallbackPayload_canonical hp, isValidExactPayload_canonical h hp]

/-! The round trip. -/

theorem canonicalJson_canonical (h : WellFormed host v) : canonicalJson host v.canonical = canonicalJson host v := by
  rw [canonicalJson_eq, canonicalJson_eq, canonical_canonical v h]

theorem wellFormed_file {checksum : String} (h : WellFormed host v) :
    WellFormed host (.obj [("record", v), ("checksum", .str checksum)]) :=
  ⟨by simp, h, trivial, trivial⟩

theorem decode_encode (h : WellFormed host v) (hstored : isStoredRecord v = true)
    (hsize : byteLength (encodeRecord host v) ≤ MAX_RECORD_BYTES) :
    decodeStoredRecord host (encodeRecord host v) = .ok v.canonical := by
  have hfile := @wellFormed_file host v (digest host (canonicalJson host v)) h
  have hparse : parse host (encodeRecord host v) =
      some (obj [("record", v), ("checksum", .str (digest host (canonicalJson host v)))]).canonical := by
    unfold encodeRecord
    rw [canonicalJson_eq]
    exact parse_stringify (wellFormed_canonical _ hfile)
  have hrecord := get?_canonical_of_wellFormed hfile "record"
  have hchecksum := text?_canonical hfile "checksum"
  unfold decodeStoredRecord
  rw [if_neg (not_lt.mpr hsize), hparse]
  simp only [Option.bind_some, hrecord, hchecksum]
  have hget : (obj [("record", v), ("checksum", str (digest host (canonicalJson host v)))]).get? "record" = some v := rfl
  have htext : text? (obj [("record", v), ("checksum", str (digest host (canonicalJson host v)))]) "checksum" =
      some (digest host (canonicalJson host v)) := rfl
  rw [hget, htext]
  simp [isStoredRecord_canonical h, hstored, canonicalJson_canonical h, constantTimeTextEqual]

/-- The canonical text identifies a value up to the order of keys, and a stored record is read back
from its file. -/
theorem canonicalJson_laws (host : Host) :
    (∀ a b, WellFormed host a → WellFormed host b → (canonicalJson host a = canonicalJson host b ↔ Same a b)) ∧
    (∀ record, WellFormed host record → isStoredRecord record = true →
      byteLength (encodeRecord host record) ≤ MAX_RECORD_BYTES →
      ∃ r, decodeStoredRecord host (encodeRecord host record) = .ok r ∧ Same record r) := by
  constructor
  · intro a b ha hb
    rw [canonicalJson_eq, canonicalJson_eq]
    exact stringify_canonical_inj ha hb
  · intro record h hstored hsize
    exact ⟨record.canonical, decode_encode h hstored hsize, same_canonical h⟩

end Mydon.Spool
