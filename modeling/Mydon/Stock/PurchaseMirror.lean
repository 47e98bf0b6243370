import Mathlib.Algebra.Order.Field.Rat
import Mathlib.Tactic.FinCases
import Mydon.Js.Units

/-! The mirror of the purchases of the stock panel, compared with the panel's rows by their ids; rows that the mirror
has not are to be appended. -/

namespace Mydon.Stock.PurchaseMirror

open Mydon.Js.Units

/-! Names. -/

/-- The named entities of the panel. -/
def NAMED_ENTITIES : List (Text × Text) :=
  [(ofString "quot", ofString "\""), (ofString "apos", ofString "'"), (ofString "lt", ofString "<"),
    (ofString "gt", ofString ">"), (ofString "nbsp", [0xA0]), (ofString "amp", ofString "&")]

/-- `#x[0-9a-fA-F]+|#\d+|quot|apos|lt|gt|nbsp|amp` as a whole, and what it stands for; a number that is no code point
stands for itself. -/
def entity (body : Text) : Option Text :=
  let code (base : ℕ) (digits : Text) : Text :=
    if parseDigits base digits ≤ 0x10FFFF then fromCodePoint (parseDigits base digits)
    else '&'.toNat :: body ++ [';'.toNat]
  if (ofString "#x").isPrefixOf body then
    let digits := body.drop 2
    if digits ≠ [] && digits.all isHexDigit then some (code 16 digits) else none
  else if (ofString "#").isPrefixOf body then
    let digits := body.drop 1
    if digits ≠ [] && digits.all isDigit then some (code 10 digits) else none
  else (NAMED_ENTITIES.find? (·.1 = body)).map (·.2)

/-- The replacement of the entity after an `&`, and the number of units it takes with its `;`. -/
def entityAt (rest : Text) : Option (Text × ℕ) :=
  let body := rest.takeWhile (· ≠ ';'.toNat)
  if (rest.drop body.length).isEmpty then none else (entity body).map (·, body.length + 1)

/-- One pass from left to right; `skip` units belong to the last replacement. -/
def decodeFrom (skip : ℕ) : Text → Text
  | [] => []
  | c :: rest =>
    match skip with
    | skip + 1 => decodeFrom skip rest
    | 0 =>
      match if c = '&'.toNat then entityAt rest else none with
      | some (replacement, len) => replacement ++ decodeFrom len rest
      | none => c :: decodeFrom 0 rest

def decodeHtml (raw : Text) : Text := decodeFrom 0 raw

def withoutControlChars (raw : Text) : Text := raw.filter fun n => !isControl n

/-- What follows `part`, when the text starts with it after blanks. -/
def expect (part : Text) (s : Text) : Option Text :=
  let s := s.dropWhile isSpace
  if part.isPrefixOf s then some (s.drop part.length) else none

/-- `^\s*\[\s*слит\s*→\s*\d+\s*\]\s*$`. -/
def isMarker (s : Text) : Bool :=
  ((expect (ofString "[") s).bind (expect (ofString "слит"))).bind (expect (ofString "→")) |>.any fun rest =>
    let number := rest.dropWhile isSpace
    number.head?.any isDigit && (expect (ofString "]") (number.dropWhile isDigit)).any fun tail => tail.all isSpace

/-- `replace(MERGED_MARKER, "")`: the first place from which the rest is a marker. -/
def cutMarker : Text → Text
  | [] => []
  | c :: cs => if isMarker (c :: cs) then [] else c :: cutMarker cs

def stripMergedMarker (raw : Text) : Text := trim (cutMarker raw)

def cleanName (raw : Option Text) : Text :=
  trim (withoutControlChars (stripMergedMarker (decodeHtml (raw.getD []))))

def normalizeProductName (host : Host) (name : Text) : Text :=
  joinDecimals false false (collapseSpaces
    ((host.toLowerCase (trim name)).map fun n => if n = 'ё'.toNat then 'е'.toNat else n))

/-! Numbers and days. -/

/-- A value of the panel where a number is expected. -/
inductive DonorNumber
  | number (n : ℚ)
  | nan
  | infinity (negative : Bool)
  | text (s : Text)
  deriving DecidableEq

/-- `String(v)`. -/
def DonorNumber.shown (host : Host) : DonorNumber → Text
  | number n => host.numberText n
  | nan => ofString "NaN"
  | infinity negative => ofString (if negative then "-Infinity" else "Infinity")
  | text s => s

def toNumber (host : Host) : DonorNumber → Option ℚ
  | .number n => some n
  | .text s => if trim s = [] then none else host.number (trim s)
  | .nan | .infinity _ => none

/-- No price is lawful, a price that cannot be read is not. -/
def priceMissing : Option DonorNumber → Bool
  | none => true
  | some (.text s) => trim s = []
  | some _ => false

/-- `/^\d{4}-\d{2}-\d{2}/`. -/
def bareDay (s : Text) : Bool :=
  let digits (start len : ℕ) : Bool := ((s.drop start).take len).length = len && ((s.drop start).take len).all isDigit
  digits 0 4 && s[4]? = some '-'.toNat && digits 5 2 && s[7]? = some '-'.toNat && digits 8 2

def toDay (dt : Text) : Option Text := if bareDay (trim dt) then some ((trim dt).take 10) else none

/-! Rows. -/

structure PurchaseFacts where
  extId : Text
  dt : Text
  product : Text
  qty : ℚ
  unitPrice : Option ℚ
  deriving DecidableEq

/-- A row of the panel; `id` is `String(id)`, by which alone it is known. -/
structure DonorPurchaseRow where
  id : Text
  dt : Text
  product : Option Text
  qty : DonorNumber
  unitPrice : Option DonorNumber
  deriving DecidableEq

inductive DiffField
  | dt
  | product
  | qty
  | unitPrice
  deriving DecidableEq

inductive DiffValue
  | text (s : Text)
  | number (n : ℚ)
  | null
  deriving DecidableEq

structure PurchaseDiff where
  extId : Text
  field : DiffField
  mine : DiffValue
  donor : DiffValue
  deriving DecidableEq

inductive RejectReason
  | no_date
  | bad_qty
  | bad_price
  | no_product
  deriving DecidableEq

structure PurchaseReject where
  extId : Text
  reason : RejectReason
  value : Text
  deriving DecidableEq

structure PurchaseReconcile where
  missing : List PurchaseFacts
  differing : List PurchaseDiff
  onlyMine : List Text
  rejected : List PurchaseReject
  deriving DecidableEq

def MONEY_EPS : ℚ := 5 / 1000

def sameNumber : Option ℚ → Option ℚ → Bool
  | some a, some b => |a - b| ≤ MONEY_EPS
  | a, b => a = b

def DiffValue.ofNumber (n : Option ℚ) : DiffValue := n.elim .null .number

/-- A refusal with its value made readable. -/
def refuse (extId : Text) (reason : RejectReason) (value : Text) : PurchaseReject :=
  ⟨extId, reason, (withoutControlChars value).take 120⟩

/-- A row that the mirror has not: appended if it is sound, or refused. -/
def judge (host : Host) (d : DonorPurchaseRow) : Except PurchaseReject PurchaseFacts :=
  let product := cleanName d.product
  let unitPrice := d.unitPrice.bind (toNumber host)
  if product = [] then .error (refuse d.id .no_product (d.product.getD []))
  else
    match toDay d.dt, toNumber host d.qty with
    | none, _ => .error (refuse d.id .no_date d.dt)
    | some _, none => .error (refuse d.id .bad_qty (d.qty.shown host))
    | some day, some qty =>
      if qty ≤ 0 then .error (refuse d.id .bad_qty (d.qty.shown host))
      else if unitPrice = none && !priceMissing d.unitPrice then
        .error (refuse d.id .bad_price ((d.unitPrice.map (·.shown host)).getD []))
      else .ok ⟨d.id, day, product, qty, unitPrice⟩

/-- The fields in which a row of the mirror and one of the panel differ. -/
def compare (host : Host) (ours : PurchaseFacts) (d : DonorPurchaseRow) : List PurchaseDiff :=
  let ourDay := (toDay ours.dt).getD ours.dt
  let donorDay := (toDay d.dt).getD d.dt
  let ourProduct := cleanName (some ours.product)
  let product := cleanName d.product
  let unitPrice := d.unitPrice.bind (toNumber host)
  (if ourDay ≠ donorDay then [⟨d.id, .dt, .text ourDay, .text donorDay⟩] else []) ++
  (if normalizeProductName host ourProduct ≠ normalizeProductName host product then
    [⟨d.id, .product, .text ourProduct, .text product⟩] else []) ++
  (match toNumber host d.qty with
    | none => [⟨d.id, .qty, .number ours.qty, .text (d.qty.shown host)⟩]
    | some qty =>
      if sameNumber (some ours.qty) (some qty) then [] else [⟨d.id, .qty, .number ours.qty, .number qty⟩]) ++
  (if unitPrice = none && !priceMissing d.unitPrice then
    [⟨d.id, .unitPrice, .ofNumber ours.unitPrice, .text ((d.unitPrice.map (·.shown host)).getD [])⟩]
  else if sameNumber ours.unitPrice unitPrice then []
  else [⟨d.id, .unitPrice, .ofNumber ours.unitPrice, .ofNumber unitPrice⟩])

/-- A map made of the rows keeps the last one of an id. -/
def byExtId (mine : List PurchaseFacts) (extId : Text) : Option PurchaseFacts :=
  mine.reverse.find? (·.extId = extId)

def reconcilePurchases (host : Host) (mine : List PurchaseFacts) (donor : List DonorPurchaseRow) :
    PurchaseReconcile where
  missing := donor.filterMap fun d => if (byExtId mine d.id).isSome then none else (judge host d).toOption
  differing := donor.flatMap fun d => (byExtId mine d.id).elim [] (compare host · d)
  onlyMine := (mine.filter fun m => m.extId ∉ donor.map (·.id)).map (·.extId)
  rejected := donor.filterMap fun d =>
    if (byExtId mine d.id).isSome then none
    else
      match judge host d with
      | .error refusal => some refusal
      | .ok _ => none

/-! A second comparison, after the rows that were missing are appended. -/

def again (host : Host) (mine : List PurchaseFacts) (donor : List DonorPurchaseRow) : PurchaseReconcile :=
  reconcilePurchases host (mine ++ (reconcilePurchases host mine donor).missing) donor

/-- A row of the panel is missing, refused or compared with the mirror's row, and only one of these. -/
def Classified (host : Host) (mine : List PurchaseFacts) (donor : List DonorPurchaseRow) (d : DonorPurchaseRow) :
    Prop :=
  let r := reconcilePurchases host mine donor
  let isMissing := ∃ f ∈ r.missing, f.extId = d.id
  let isRejected := ∃ f ∈ r.rejected, f.extId = d.id
  let isCompared := ∃ m ∈ mine, m.extId = d.id ∧ r.differing.filter (·.extId = d.id) = compare host m d
  (isMissing ∧ ¬ isRejected ∧ ¬ isCompared) ∨ (isRejected ∧ ¬ isMissing ∧ ¬ isCompared) ∨
    (isCompared ∧ ¬ isMissing ∧ ¬ isRejected)

structure Converges (host : Host) (mine : List PurchaseFacts) (donor : List DonorPurchaseRow) : Prop where
  classified : ∀ d ∈ donor, Classified host mine donor d
  missing : (again host mine donor).missing = []
  rejected : (again host mine donor).rejected = (reconcilePurchases host mine donor).rejected
  onlyMine : (again host mine donor).onlyMine = (reconcilePurchases host mine donor).onlyMine
  settled : ∀ e ∈ (again host mine donor).differing, ∀ f ∈ (reconcilePurchases host mine donor).missing,
    f.extId ≠ e.extId

/-- A name that is cleaned again is the same name to the comparison, for every sound row that the mirror has not. -/
def NamesSettle (host : Host) (mine : List PurchaseFacts) (donor : List DonorPurchaseRow) : Prop :=
  ∀ d ∈ donor, (∀ m ∈ mine, m.extId ≠ d.id) → (∃ f, judge host d = .ok f) →
    normalizeProductName host (cleanName (some (cleanName d.product))) = normalizeProductName host (cleanName d.product)

section lookup
variable {host : Host} {mine more : List PurchaseFacts} {donor : List DonorPurchaseRow} {d : DonorPurchaseRow}
  {f m : PurchaseFacts} {extId : Text}

theorem byExtId_eq_none_iff : byExtId mine extId = none ↔ ∀ m ∈ mine, m.extId ≠ extId := by
  simp [byExtId]

theorem mem_of_byExtId (h : byExtId mine extId = some m) : m ∈ mine ∧ m.extId = extId :=
  ⟨List.mem_reverse.mp (List.mem_of_find?_eq_some h), by simpa using List.find?_some h⟩

theorem byExtId_append : byExtId (mine ++ more) extId = (byExtId more extId).or (byExtId mine extId) := by
  unfold byExtId
  rw [List.reverse_append, List.find?_append]

end lookup

section days
variable {s : Text} {n i : ℕ}

theorem not_space_of_digit (h : isDigit n = true) : isSpace n = false := by
  simp only [isDigit, Bool.and_eq_true, decide_eq_true_eq] at h
  have hlow : 48 ≤ n := h.1
  have hhigh : n ≤ 57 := h.2
  simp [isSpace]
  omega

/-- The units of a day are digits and hyphens. -/
theorem not_space_of_bareDay (h : bareDay s = true) (hi : i < 10) (hn : s[i]? = some n) : isSpace n = false := by
  simp only [bareDay, Bool.and_eq_true, decide_eq_true_eq, List.all_eq_true] at h
  obtain ⟨⟨⟨⟨⟨-, hyear⟩, hfirst⟩, -, hmonth⟩, hsecond⟩, -, hday⟩ := h
  have hblock : ∀ start len, start ≤ i → i < start + len → n ∈ (s.drop start).take len := by
    intro start len hlow hhigh
    refine List.mem_iff_getElem?.mpr ⟨i - start, ?_⟩
    rw [List.getElem?_take, if_pos (by omega), List.getElem?_drop, ← hn]
    congr 1
    omega
  rcases Nat.lt_or_ge i 4 with h4 | h4
  · exact not_space_of_digit (hyear n (hblock 0 4 (Nat.zero_le _) h4))
  · rcases Nat.lt_or_ge i 5 with h5 | h5
    · obtain rfl : i = 4 := by omega
      rw [hn] at hfirst
      obtain rfl := Option.some.inj hfirst
      decide
    · rcases Nat.lt_or_ge i 7 with h7 | h7
      · exact not_space_of_digit (hmonth n (hblock 5 2 h5 h7))
      · rcases Nat.lt_or_ge i 8 with h8 | h8
        · obtain rfl : i = 7 := by omega
          rw [hn] at hsecond
          obtain rfl := Option.some.inj hsecond
          decide
        · exact not_space_of_digit (hday n (hblock 8 2 h8 hi))

theorem bareDay_take : bareDay (s.take 10) = bareDay s := by
  simp [bareDay, List.drop_take, List.take_take]

/-- A day that was read is read as itself. -/
theorem toDay_of_toDay {dt day : Text} (h : toDay dt = some day) : toDay day = some day := by
  unfold toDay at h
  split_ifs at h with hday
  obtain rfl := Option.some.inj h
  have htrim : trim ((trim dt).take 10) = (trim dt).take 10 := by
    refine trim_of_no_space fun n hn => ?_
    obtain ⟨i, hi⟩ := List.mem_iff_getElem?.mp hn
    rw [List.getElem?_take] at hi
    split_ifs at hi with hlt
    exact not_space_of_bareDay hday hlt hi
  unfold toDay
  rw [htrim, bareDay_take, if_pos hday, List.take_take]
  rfl

end days

section judge
variable {host : Host} {mine : List PurchaseFacts} {donor : List DonorPurchaseRow} {d : DonorPurchaseRow}
  {f m : PurchaseFacts} {refusal : PurchaseReject}

theorem judge_eq_ok (h : judge host d = .ok f) : ∃ day qty, toDay d.dt = some day ∧ toNumber host d.qty = some qty ∧
    f = ⟨d.id, day, cleanName d.product, qty, d.unitPrice.bind (toNumber host)⟩ ∧
      (d.unitPrice.bind (toNumber host) = none → priceMissing d.unitPrice = true) := by
  unfold judge at h
  by_cases hname : cleanName d.product = []
  · rw [if_pos hname] at h
    exact nomatch h
  · rw [if_neg hname] at h
    rcases hday : toDay d.dt with _ | day
    · simp only [hday] at h
      exact nomatch h
    · rcases hqty : toNumber host d.qty with _ | qty
      · simp only [hday, hqty] at h
        exact nomatch h
      · simp only [hday, hqty] at h
        split_ifs at h with hpos hprice
        refine ⟨day, qty, rfl, rfl, (Except.ok.inj h).symm, fun hnone => ?_⟩
        simpa [hnone] using hprice

theorem judge_extId (h : judge host d = .ok f) : f.extId = d.id := by
  obtain ⟨_, _, _, _, rfl, _⟩ := judge_eq_ok h
  rfl

theorem judge_eq_error (h : judge host d = .error refusal) : refusal.extId = d.id := by
  unfold judge at h
  by_cases hname : cleanName d.product = []
  · rw [if_pos hname] at h
    exact (Except.error.inj h) ▸ rfl
  · rw [if_neg hname] at h
    split at h
    · exact (Except.error.inj h) ▸ rfl
    · exact (Except.error.inj h) ▸ rfl
    · split_ifs at h
      · exact (Except.error.inj h) ▸ rfl
      · exact (Except.error.inj h) ▸ rfl

theorem sameNumber_self (n : Option ℚ) : sameNumber n n = true := by
  cases n with
  | none => rfl
  | some q =>
    simp only [sameNumber, MONEY_EPS, sub_self, abs_zero]
    decide +kernel

/-- An appended row differs from the row it was made of in the name alone, when that is cleaned to another one. -/
theorem compare_appended (h : judge host d = .ok f) : compare host f d =
    if normalizeProductName host (cleanName (some (cleanName d.product))) =
      normalizeProductName host (cleanName d.product) then []
    else [⟨d.id, .product, .text (cleanName (some (cleanName d.product))), .text (cleanName d.product)⟩] := by
  obtain ⟨day, qty, hday, hqty, rfl, hprice⟩ := judge_eq_ok h
  have hprice' : (decide (d.unitPrice.bind (toNumber host) = none) && !priceMissing d.unitPrice) = false := by
    by_cases hnone : d.unitPrice.bind (toNumber host) = none
    · simp [hprice hnone]
    · simp [hnone]
  unfold compare
  simp only [hday, toDay_of_toDay hday, hqty, sameNumber_self, hprice', Option.getD_some, ne_eq, not_true_eq_false,
    if_false, if_true, Bool.false_eq_true, List.nil_append, List.append_nil, ite_not]

theorem mem_missing : f ∈ (reconcilePurchases host mine donor).missing ↔
    ∃ d ∈ donor, byExtId mine d.id = none ∧ judge host d = .ok f := by
  unfold reconcilePurchases
  rw [List.mem_filterMap]
  refine exists_congr fun d => and_congr_right fun _ => ?_
  rcases byExtId mine d.id with _ | m
  · rcases judge host d with refusal | g <;> simp [Except.toOption]
  · simp

theorem mem_rejected : refusal ∈ (reconcilePurchases host mine donor).rejected ↔
    ∃ d ∈ donor, byExtId mine d.id = none ∧ judge host d = .error refusal := by
  unfold reconcilePurchases
  rw [List.mem_filterMap]
  refine exists_congr fun d => and_congr_right fun _ => ?_
  rcases byExtId mine d.id with _ | m
  · rcases judge host d with refusal' | g <;> simp
  · simp

variable (hdonor : (donor.map (·.id)).Nodup)

include hdonor

theorem byExtId_missing_of_ok (hd : d ∈ donor) (hnone : byExtId mine d.id = none) (h : judge host d = .ok f) :
    byExtId (reconcilePurchases host mine donor).missing d.id = some f := by
  rcases hget : byExtId (reconcilePurchases host mine donor).missing d.id with _ | g
  · exact absurd (judge_extId h) (byExtId_eq_none_iff.mp hget f (mem_missing.mpr ⟨d, hd, hnone, h⟩))
  · obtain ⟨hg, hid⟩ := mem_of_byExtId hget
    obtain ⟨d', hd', -, h'⟩ := mem_missing.mp hg
    obtain rfl := List.inj_on_of_nodup_map hdonor hd' hd ((judge_extId h').symm.trans hid)
    rw [Except.ok.inj (h'.symm.trans h)]

theorem byExtId_missing_of_error (hd : d ∈ donor) (h : judge host d = .error refusal) :
    byExtId (reconcilePurchases host mine donor).missing d.id = none := by
  rw [byExtId_eq_none_iff]
  intro g hg hid
  obtain ⟨d', hd', -, h'⟩ := mem_missing.mp hg
  obtain rfl := List.inj_on_of_nodup_map hdonor hd' hd ((judge_extId h').symm.trans hid)
  exact nomatch h'.symm.trans h

omit hdonor in
/-- Where the second comparison finds a row of the panel. -/
theorem byExtId_again {extId : Text} : byExtId (mine ++ (reconcilePurchases host mine donor).missing) extId =
    (byExtId (reconcilePurchases host mine donor).missing extId).or (byExtId mine extId) := byExtId_append

theorem again_missing : (again host mine donor).missing = [] := by
  unfold again reconcilePurchases
  rw [List.filterMap_eq_nil_iff]
  intro d hd
  rcases hget : byExtId mine d.id with _ | m
  · rcases h : judge host d with refusal | f
    · split_ifs <;> rfl
    · have hmissing := byExtId_missing_of_ok hdonor hd hget h
      rw [if_pos]
      show (byExtId (mine ++ (reconcilePurchases host mine donor).missing) d.id).isSome
      rw [byExtId_again, hmissing]
      rfl
  · rw [if_pos]
    show (byExtId (mine ++ (reconcilePurchases host mine donor).missing) d.id).isSome
    rw [byExtId_again, hget, Option.isSome_or]
    simp

theorem again_rejected : (again host mine donor).rejected = (reconcilePurchases host mine donor).rejected := by
  have hsame : ∀ d ∈ donor, (if (byExtId (mine ++ (reconcilePurchases host mine donor).missing) d.id).isSome then none
      else match judge host d with
        | .error refusal => some refusal
        | .ok _ => none) = (if (byExtId mine d.id).isSome then none
      else match judge host d with
        | .error refusal => some refusal
        | .ok _ => none) := by
    intro d hd
    rcases h : judge host d with refusal | f
    · rw [byExtId_again, byExtId_missing_of_error hdonor hd h, Option.none_or]
    · dsimp only
      rw [ite_self, ite_self]
  exact List.filterMap_congr hsame

omit hdonor in
theorem again_onlyMine : (again host mine donor).onlyMine = (reconcilePurchases host mine donor).onlyMine := by
  have hnone : (reconcilePurchases host mine donor).missing.filter (fun m => m.extId ∉ donor.map (·.id)) = [] := by
    rw [List.filter_eq_nil_iff]
    intro f hf
    obtain ⟨d, hd, -, h⟩ := mem_missing.mp hf
    simp only [decide_eq_true_eq, not_not]
    exact List.mem_map.mpr ⟨d, hd, (judge_extId h).symm⟩
  show ((mine ++ (reconcilePurchases host mine donor).missing).filter _).map _ = _
  rw [List.filter_append, hnone, List.append_nil]
  rfl

omit hdonor in
theorem mem_differing {e : PurchaseDiff} : e ∈ (reconcilePurchases host mine donor).differing ↔
    ∃ d ∈ donor, ∃ m, byExtId mine d.id = some m ∧ e ∈ compare host m d := by
  unfold reconcilePurchases
  rw [List.mem_flatMap]
  refine exists_congr fun d => and_congr_right fun _ => ?_
  rcases byExtId mine d.id with _ | m <;> simp

omit hdonor in
theorem compare_extId {e : PurchaseDiff} (h : e ∈ compare host m d) : e.extId = d.id := by
  unfold compare at h
  rw [List.mem_append, List.mem_append, List.mem_append] at h
  rcases h with ((h | h) | h) | h
  · split_ifs at h <;> simp_all
  · split_ifs at h <;> simp_all
  · split at h
    · simp_all
    · split_ifs at h <;> simp_all
  · split_ifs at h <;> simp_all

/-- The differences of a row are those with its id. -/
theorem differing_of_row (hd : d ∈ donor) (hm : byExtId mine d.id = some m) :
    (reconcilePurchases host mine donor).differing.filter (·.extId = d.id) = compare host m d := by
  obtain ⟨front, back, rfl⟩ := List.append_of_mem hd
  have hother : ∀ rows : List DonorPurchaseRow, (∀ d' ∈ rows, d'.id ≠ d.id) →
      (rows.flatMap fun d' => (byExtId mine d'.id).elim [] (compare host · d')).filter (·.extId = d.id) = [] := by
    intro rows hrows
    rw [List.filter_eq_nil_iff]
    intro e he heq
    obtain ⟨d', hd', he'⟩ := List.mem_flatMap.mp he
    rcases hm' : byExtId mine d'.id with _ | m'
    · rw [hm'] at he'
      exact absurd he' List.not_mem_nil
    · rw [hm'] at he'
      exact hrows d' hd' ((compare_extId he').symm.trans (of_decide_eq_true heq))
  have hself : (compare host m d).filter (·.extId = d.id) = compare host m d :=
    List.filter_eq_self.mpr fun e he => decide_eq_true (compare_extId he)
  rw [List.map_append, List.map_cons, List.nodup_middle, List.nodup_cons, List.mem_append, not_or] at hdonor
  show ((front ++ d :: back).flatMap _).filter _ = _
  rw [List.flatMap_append, List.flatMap_cons, List.filter_append, List.filter_append,
    hother front fun d' hd' heq => hdonor.1.1 (heq ▸ List.mem_map_of_mem hd'),
    hother back fun d' hd' heq => hdonor.1.2 (heq ▸ List.mem_map_of_mem hd'), hm, Option.elim_some, hself,
    List.append_nil, List.nil_append]

/-- Every row of the panel is classified in one way. -/
theorem classified (hd : d ∈ donor) : Classified host mine donor d := by
  have hmissing : (∃ f ∈ (reconcilePurchases host mine donor).missing, f.extId = d.id) ↔
      byExtId mine d.id = none ∧ ∃ f, judge host d = .ok f := by
    constructor
    · rintro ⟨f, hf, hid⟩
      obtain ⟨d', hd', hnone, h⟩ := mem_missing.mp hf
      obtain rfl := List.inj_on_of_nodup_map hdonor hd' hd ((judge_extId h).symm.trans hid)
      exact ⟨hnone, f, h⟩
    · rintro ⟨hnone, f, h⟩
      exact ⟨f, mem_missing.mpr ⟨d, hd, hnone, h⟩, judge_extId h⟩
  have hrejected : (∃ r ∈ (reconcilePurchases host mine donor).rejected, r.extId = d.id) ↔
      byExtId mine d.id = none ∧ ∃ r, judge host d = .error r := by
    constructor
    · rintro ⟨r, hr, hid⟩
      obtain ⟨d', hd', hnone, h⟩ := mem_rejected.mp hr
      obtain rfl := List.inj_on_of_nodup_map hdonor hd' hd ((judge_eq_error h).symm.trans hid)
      exact ⟨hnone, r, h⟩
    · rintro ⟨hnone, r, h⟩
      exact ⟨r, mem_rejected.mpr ⟨d, hd, hnone, h⟩, judge_eq_error h⟩
  have hcompared : (∃ m ∈ mine, m.extId = d.id ∧
      (reconcilePurchases host mine donor).differing.filter (·.extId = d.id) = compare host m d) ↔
        byExtId mine d.id ≠ none := by
    constructor
    · rintro ⟨m, hm, hid, -⟩ hnone
      exact byExtId_eq_none_iff.mp hnone m hm hid
    · intro h
      obtain ⟨m, hm⟩ := Option.ne_none_iff_exists'.mp h
      obtain ⟨hmem, hid⟩ := mem_of_byExtId hm
      exact ⟨m, hmem, hid, differing_of_row hdonor hd hm⟩
  unfold Classified
  dsimp only
  rw [hmissing, hrejected, hcompared]
  rcases byExtId mine d.id with _ | m
  · rcases judge host d with r | f <;> simp
  · simp

/-- The appended rows are settled exactly when their names are. -/
theorem settled_iff : (∀ e ∈ (again host mine donor).differing, ∀ f ∈ (reconcilePurchases host mine donor).missing,
    f.extId ≠ e.extId) ↔ NamesSettle host mine donor := by
  constructor
  · intro hsettled d hd hnone ⟨f, hf⟩
    by_contra hdiffer
    have hmissing := byExtId_missing_of_ok hdonor hd (byExtId_eq_none_iff.mpr hnone) hf
    have hcompare := compare_appended hf
    rw [if_neg hdiffer] at hcompare
    refine hsettled _ (mem_differing.mpr ⟨d, hd, f, ?_, by rw [hcompare]; exact List.mem_singleton_self _⟩) f
      (mem_of_byExtId hmissing).1 (judge_extId hf)
    rw [byExtId_again, hmissing]
    rfl
  · intro hnames e he f hf heq
    obtain ⟨d, hd, m, hm, he⟩ := mem_differing.mp he
    obtain ⟨d', hd', hnone, h⟩ := mem_missing.mp hf
    have hid : d'.id = d.id := (judge_extId h).symm.trans (heq.trans (compare_extId he))
    obtain rfl := List.inj_on_of_nodup_map hdonor hd' hd hid
    rw [byExtId_again, byExtId_missing_of_ok hdonor hd hnone h] at hm
    obtain rfl := Option.some.inj hm
    rw [compare_appended h, if_pos (hnames d' hd (byExtId_eq_none_iff.mp hnone) ⟨f, h⟩)] at he
    exact absurd he List.not_mem_nil

end judge

/-- A second comparison finds nothing to do exactly when the names of the rows that were appended stay as they were
cleaned. -/
theorem converges_iff {host : Host} {mine : List PurchaseFacts} {donor : List DonorPurchaseRow}
    (hdonor : (donor.map (·.id)).Nodup) : Converges host mine donor ↔ NamesSettle host mine donor := by
  constructor
  · exact fun h => (settled_iff hdonor).mp h.settled
  · exact fun h => ⟨fun d hd => classified hdonor hd, again_missing hdonor, again_rejected hdonor, again_onlyMine,
      (settled_iff hdonor).mpr h⟩

def panelHost : Host where
  toLowerCase s := s.map fun n => if 'A'.toNat ≤ n ∧ n ≤ 'Z'.toNat then n + 32 else n
  number s := if s.all isDigit then some (parseDigits 10 s) else none
  numberText n := ofString (toString n.num)

/-- A row of 24 pieces at 2600. -/
def panelRow (id product : String) : DonorPurchaseRow :=
  ⟨ofString id, ofString "2025-08-18", some (ofString product), .text (ofString "24"), some (.number 2600)⟩

def ourPepsi : PurchaseFacts := ⟨ofString "1", ofString "2025-08-18", ofString "Pepsi 0,5 [слит→23]", 24, some 2600⟩

theorem converges_iff_clean :
    Converges panelHost [ourPepsi] [panelRow "1" "Pepsi 0,5", panelRow "2" "M&amp;Ms [слит→2]", panelRow "3" " "] := by
  refine (converges_iff (by decide +kernel)).mpr fun d hd _ _ => ?_
  fin_cases hd <;> decide +kernel

/-- The name is written `M&amp;amp;Ms`, appended as `M&amp;Ms`, and read from the mirror as `M&Ms`. -/
theorem encodedTwice_not_settled : ([panelRow "1" "M&amp;amp;Ms"].map (·.id)).Nodup ∧
    ¬ Converges panelHost [] [panelRow "1" "M&amp;amp;Ms"] := by
  refine ⟨by decide +kernel, fun h => ?_⟩
  exact h.settled ⟨ofString "1", .product, .text (ofString "M&Ms"), .text (ofString "M&amp;Ms")⟩ (by decide +kernel)
    ⟨ofString "1", ofString "2025-08-18", ofString "M&amp;Ms", 24, some 2600⟩ (by decide +kernel) rfl

end Mydon.Stock.PurchaseMirror
