import Mydon.Spool.Codec

/-! The byte length of canonical texts. It does not depend on the order of keys, so a field
that is set anew changes it by the difference of its values. -/

namespace Mydon.Spool

open Mydon.Js Mydon.Js.Json Mydon.Lib

def bytes (cs : List Char) : ℕ := (cs.map Char.utf8Size).sum

theorem bytes_append (cs ds : List Char) : bytes (cs ++ ds) = bytes cs + bytes ds := by
  unfold bytes
  rw [List.map_append, List.sum_append]

theorem bytes_cons (c : Char) (cs : List Char) : bytes (c :: cs) = c.utf8Size + bytes cs := by
  unfold bytes
  rw [List.map_cons, List.sum_cons]

theorem byteLength_ofList (cs : List Char) : byteLength (String.ofList cs) = bytes cs := by
  unfold byteLength
  induction cs with
  | nil => rfl
  | cons c cs ih =>
    have hcons : String.ofList (c :: cs) = String.singleton c ++ String.ofList cs := by
      apply String.toList_inj.mp
      simp
    rw [hcons, String.utf8ByteSize_append, String.utf8ByteSize_singleton, ih, bytes_cons]

/-- A comma stands between two texts. -/
theorem bytes_join (texts : List (List Char)) : bytes (join texts) = (texts.map bytes).sum + (texts.length - 1) := by
  unfold join
  induction texts with
  | nil => rfl
  | cons text texts ih =>
    rcases texts with _ | ⟨next, texts⟩
    · simp
    · have hjoin : [','].intercalate (text :: next :: texts) = text ++ ',' :: [','].intercalate (next :: texts) := by
        simp [List.intercalate]
      have hcomma : Char.utf8Size ',' = 1 := rfl
      rw [hjoin, bytes_append, bytes_cons, ih, hcomma]
      simp only [List.map_cons, List.sum_cons, List.length_cons]
      omega

variable (host : Host)

def valueBytes (v : Json) : ℕ := bytes (canonicalChars host v)

def entryBytes (e : String × Json) : ℕ := bytes (quote e.1) + 1 + valueBytes host e.2

variable {host}

theorem canonicalEntryTexts_eq_map (entries : List (String × Json)) :
    canonicalEntryTexts host entries = entries.map fun e => (e.1, canonicalChars host e.2) := by
  induction entries with
  | nil => rfl
  | cons e entries ih => rw [canonicalEntryTexts, ih, List.map_cons]

theorem valueBytes_obj (entries : List (String × Json)) :
    valueBytes host (.obj entries) = 2 + (entries.map (entryBytes host)).sum + (entries.length - 1) := by
  have hbrace : Char.utf8Size '{' = 1 ∧ bytes ['}'] = 1 := ⟨rfl, rfl⟩
  have hperm := List.perm_insertionSort keyOrder (canonicalEntryTexts host entries)
  have hsum : (((canonicalEntryTexts host entries).insertionSort keyOrder).map fun e =>
      bytes (quote e.1 ++ ':' :: e.2)).sum = (entries.map (entryBytes host)).sum := by
    rw [(hperm.map _).sum_eq, canonicalEntryTexts_eq_map, List.map_map]
    congr 1
    apply List.map_congr_left
    intro e _
    have hcolon : Char.utf8Size ':' = 1 := rfl
    simp only [Function.comp_apply, entryBytes, valueBytes, bytes_append, bytes_cons, hcolon]
    omega
  unfold valueBytes
  rw [canonicalChars, bytes_append, bytes_cons, bytes_join, List.map_map, List.length_map, hperm.length_eq,
    canonicalEntryTexts_eq_map, List.length_map]
  rw [canonicalEntryTexts_eq_map] at hsum
  have hcomp : (bytes ∘ fun e : String × List Char => quote e.1 ++ ':' :: e.2) =
      fun e => bytes (quote e.1 ++ ':' :: e.2) := rfl
  rw [hcomp, hsum, hbrace.1, hbrace.2]
  omega

theorem byteLength_canonicalJson (v : Json) : byteLength (canonicalJson host v) = valueBytes host v :=
  byteLength_ofList _

/-- Natural numbers are printed and read; every digest is the same. -/
def spoolHost : Host where
  toLowerCase := fun s => s
  number := fun s => if s.toList ≠ [] ∧ s.toList.all isDigit = true then some (digits s.toList) else none
  numberText := fun n => toString n.num.toNat
  toFixed12 := fun _ => ""
  localeCompare := fun _ _ => 0
  sha256 := fun _ => String.ofList (List.replicate 64 'a')

def preReserve : Json :=
  .obj [("version", .num 1), ("recordId", .str (String.ofList (List.replicate 64 'b'))), ("kind", .str "pre_reserve"),
    ("operation", .str "recover_pre_dispatch"), ("createdAt", .str "2026-09-01T22:00:00.123Z"),
    ("updatedAt", .str "2026-09-01T22:00:00.123Z"), ("nextAttemptAt", .str "2026-09-01T22:15:00.123Z"),
    ("attempts", .num 0), ("requestKey", .str "task:1:\"ключ\"")]

theorem canonicalJson_laws_preReserve : ∃ r, decodeStoredRecord spoolHost (encodeRecord spoolHost preReserve) = .ok r ∧
    Same preReserve r := by
  refine (canonicalJson_laws spoolHost).2 preReserve ?_ (by decide +kernel) (by
    rw [encodeRecord, byteLength_canonicalJson]; decide +kernel)
  refine ⟨by decide, ⟨by decide +kernel, by decide +kernel⟩, trivial, trivial, trivial, trivial, trivial, trivial,
    ⟨by decide +kernel, by decide +kernel⟩, trivial, trivial⟩

/-! Setting a field. -/

theorem get?_obj (entries : List (String × Json)) (key : String) :
    (obj entries).get? key = OrderedMap.get entries key := by
  unfold Json.get?
  induction entries with
  | nil => rfl
  | cons e entries ih =>
    obtain ⟨k, v⟩ := e
    by_cases hk : k = key
    · simp [OrderedMap.get, hk]
    · simp only [OrderedMap.get, hk, if_false, ← ih]
      simp [hk]

theorem sum_set {entries : List (String × Json)} {key : String} {v w : Json}
    (hget : OrderedMap.get entries key = some w) :
    ((OrderedMap.set key v entries).map (entryBytes host)).sum + valueBytes host w =
      (entries.map (entryBytes host)).sum + valueBytes host v ∧
    (OrderedMap.set key v entries).length = entries.length := by
  unfold OrderedMap.set
  induction entries with
  | nil => cases hget
  | cons e entries ih =>
    obtain ⟨k, u⟩ := e
    rw [OrderedMap.get] at hget
    rw [OrderedMap.alter]
    by_cases hk : k = key
    · rw [if_pos hk] at hget ⊢
      obtain rfl := Option.some.inj hget
      simp only [List.map_cons, List.sum_cons, List.length_cons, and_true, entryBytes]
      omega
    · rw [if_neg hk] at hget ⊢
      obtain ⟨hsum, hlength⟩ := ih hget
      simp only [List.map_cons, List.sum_cons, List.length_cons, hlength, and_true]
      omega

/-- A field that is there is set anew. -/
theorem valueBytes_set {entries : List (String × Json)} {key : String} {v w : Json}
    (hget : OrderedMap.get entries key = some w) :
    valueBytes host (.obj (OrderedMap.set key v entries)) + valueBytes host w =
      valueBytes host (.obj entries) + valueBytes host v := by
  obtain ⟨hsum, hlength⟩ := @sum_set host entries key v w hget
  rw [valueBytes_obj, valueBytes_obj, hlength]
  omega

/-! Plain texts. -/

/-- A character that is printed as it is, in one byte. -/
def Plain (c : Char) : Prop := quoteChar c = [c] ∧ c.utf8Size = 1

theorem bytes_quote_plain {s : String} (h : ∀ c ∈ s.toList, Plain c) : bytes (quote s) = s.toList.length + 2 := by
  have hbody : ∀ cs : List Char, (∀ c ∈ cs, Plain c) → bytes (cs.flatMap quoteChar) = cs.length := by
    intro cs hcs
    induction cs with
    | nil => rfl
    | cons c cs ih =>
      obtain ⟨hc, hrest⟩ := List.forall_mem_cons.mp hcs
      have hone : bytes [c] = 1 := by simp [bytes, hc.2]
      rw [List.flatMap_cons, hc.1, bytes_append, ih hrest, hone, List.length_cons]
      omega
  have hquote : Char.utf8Size '"' = 1 ∧ bytes ['"'] = 1 := ⟨rfl, rfl⟩
  unfold quote
  rw [bytes_append, bytes_cons, hbody _ h, hquote.1, hquote.2]
  omega

theorem plain_of_range {c : Char} (h : 35 ≤ c.toNat ∧ c.toNat < 92 ∨ 92 < c.toNat ∧ c.toNat < 128) : Plain c := by
  have hne : ∀ d : Char, d.toNat < 35 ∨ d.toNat = 92 → c ≠ d := by
    rintro d hd rfl
    omega
  constructor
  · unfold quoteChar
    rw [if_neg (hne _ (by decide)), if_neg (hne _ (by decide)), if_neg (by omega), if_neg (hne _ (by decide)),
      if_neg (hne _ (by decide)), if_neg (by omega), if_neg (hne _ (by decide)), if_neg (by omega)]
  · have hle : c.val ≤ 0x7F := by
      rw [UInt32.le_iff_toNat_le]
      show c.toNat ≤ 127
      omega
    simp [Char.utf8Size, hle]

/-! Timestamps. -/

theorem padStart_toList (width : ℕ) (n : ℤ) : (Clock.padStart width n).toList =
    List.replicate (width - (Nat.toDigits 10 n.toNat).length) '0' ++ Nat.toDigits 10 n.toNat := by
  unfold Clock.padStart
  simp [String.length]

theorem plain_padStart (width : ℕ) (n : ℤ) : ∀ c ∈ (Clock.padStart width n).toList, Plain c := by
  intro c hc
  rw [padStart_toList] at hc
  apply plain_of_range
  left
  rcases List.mem_append.mp hc with hc | hc
  · rw [List.eq_of_mem_replicate hc]
    decide
  · have hdigit := Nat.isDigit_of_mem_toDigits (by decide) (by decide) hc
    simp only [Char.isDigit, Bool.and_eq_true, decide_eq_true_eq] at hdigit
    have hlo : 48 ≤ c.toNat := hdigit.1
    have hhi : c.toNat ≤ 57 := hdigit.2
    omega

theorem length_padStart_le {width k : ℕ} {n : ℤ} (hk : 0 < k) (h : n < 10 ^ k) :
    (Clock.padStart width n).toList.length ≤ width + k := by
  have hlt : n.toNat < 10 ^ k := by
    rcases le_total 0 n with hn | hn
    · have hcast : ((n.toNat : ℕ) : ℤ) < ((10 ^ k : ℕ) : ℤ) := by
        rw [Int.toNat_of_nonneg hn]
        exact_mod_cast h
      exact_mod_cast hcast
    · rw [Int.toNat_of_nonpos hn]
      exact Nat.pos_of_ne_zero (by simp)
  have hle := (Nat.length_toDigits_le_iff (by decide : 1 < 10) hk).mpr hlt
  rw [padStart_toList, List.length_append, List.length_replicate]
  omega

theorem civil_bounds {day : ℤ} (h : -100000001 ≤ day ∧ day ≤ 100000001) :
    -1000000 < (Clock.civil day).1 ∧ (Clock.civil day).1 < 1000000 ∧ (Clock.civil day).2.1 < 1000 ∧
      (Clock.civil day).2.2 < 1000 := by
  unfold Clock.civil
  dsimp only
  split_ifs <;> omega

theorem plain_yearText (year : ℤ) : ∀ c ∈ (yearText year).toList, Plain c := by
  intro c hc
  unfold yearText at hc
  split_ifs at hc
  · exact plain_padStart 4 year c hc
  all_goals
    rw [String.toList_append] at hc
    rcases List.mem_append.mp hc with hc | hc
    · obtain rfl := List.mem_singleton.mp hc
      exact plain_of_range (by decide)
    · exact plain_padStart 6 _ c hc

theorem length_yearText_le {year : ℤ} (h : -1000000 < year ∧ year < 1000000) : (yearText year).toList.length ≤ 13 := by
  unfold yearText
  split_ifs with hfour
  · have := @length_padStart_le 4 4 year (by decide) (by omega)
    omega
  all_goals
    have hyear := @length_padStart_le 6 6 year.natAbs (by decide) (by omega)
    have hsign : "-".toList.length = 1 ∧ "+".toList.length = 1 := ⟨rfl, rfl⟩
    rw [String.toList_append, List.length_append]
    omega

/-- A text of plain characters, of at most so many. -/
def PlainText (s : String) (n : ℕ) : Prop := (∀ c ∈ s.toList, Plain c) ∧ s.toList.length ≤ n

theorem PlainText.append {s t : String} {m n : ℕ} (hs : PlainText s m) (ht : PlainText t n) : PlainText (s ++ t) (m + n) := by
  unfold PlainText
  rw [String.toList_append, List.length_append]
  refine ⟨?_, Nat.add_le_add hs.2 ht.2⟩
  intro c hc
  rcases List.mem_append.mp hc with hc | hc
  · exact hs.1 c hc
  · exact ht.1 c hc

theorem plainText_padStart {width k : ℕ} {n : ℤ} (hk : 0 < k) (h : n < 10 ^ k) :
    PlainText (Clock.padStart width n) (width + k) := ⟨plain_padStart width n, length_padStart_le hk h⟩

theorem plainText_separator {s : String} (h : s ∈ ["-", "T", ":", ".", "Z"]) : PlainText s 1 := by
  unfold PlainText
  simp only [List.mem_cons, List.not_mem_nil, or_false] at h
  rcases h with rfl | rfl | rfl | rfl | rfl <;>
    exact ⟨by intro c hc; obtain rfl := List.mem_singleton.mp hc; exact plain_of_range (by decide), by decide⟩

theorem toISOString_eq (at_ : ℤ) : toISOString at_ =
    yearText (Clock.civil (at_ / Clock.DAY_MS)).1 ++ "-" ++ Clock.padStart 2 (Clock.civil (at_ / Clock.DAY_MS)).2.1 ++ "-" ++
      Clock.padStart 2 (Clock.civil (at_ / Clock.DAY_MS)).2.2 ++ "T" ++
      Clock.padStart 2 (at_ % Clock.DAY_MS / 3600000) ++ ":" ++ Clock.padStart 2 (at_ % Clock.DAY_MS / 60000 % 60) ++ ":" ++
      Clock.padStart 2 (at_ % Clock.DAY_MS / 1000 % 60) ++ "." ++ Clock.padStart 3 (at_ % Clock.DAY_MS % 1000) ++ "Z" := rfl

theorem plainText_toISOString {at_ : ℤ} (h : -MAX_TIME ≤ at_ ∧ at_ ≤ MAX_TIME) : PlainText (toISOString at_) 48 := by
  unfold MAX_TIME at h
  have hday : Clock.DAY_MS = 86400000 := rfl
  obtain ⟨hyear, hyear', hmonth, hmday⟩ := @civil_bounds (at_ / Clock.DAY_MS) (by rw [hday]; omega)
  have hdash := @plainText_separator "-" (by decide)
  have hcolon := @plainText_separator ":" (by decide)
  rw [toISOString_eq]
  exact ((((((((((((PlainText.append ⟨plain_yearText _, length_yearText_le ⟨hyear, hyear'⟩⟩ hdash).append
    (@plainText_padStart 2 3 _ (by decide) (by omega))).append hdash).append
    (@plainText_padStart 2 3 _ (by decide) (by omega))).append (plainText_separator (by decide))).append
    (@plainText_padStart 2 2 _ (by decide) (by rw [hday]; omega))).append hcolon).append
    (@plainText_padStart 2 2 _ (by decide) (by omega))).append hcolon).append
    (@plainText_padStart 2 2 _ (by decide) (by omega))).append (plainText_separator (by decide))).append
    (@plainText_padStart 3 3 _ (by decide) (by omega))).append (plainText_separator (by decide))

theorem valueBytes_str {s : String} {n : ℕ} (h : PlainText s n) : valueBytes host (.str s) ≤ n + 2 := by
  have hquote := bytes_quote_plain h.1
  have hvalue : valueBytes host (.str s) = bytes (quote s) := rfl
  rw [hvalue, hquote]
  exact Nat.add_le_add_right h.2 2

end Mydon.Spool
