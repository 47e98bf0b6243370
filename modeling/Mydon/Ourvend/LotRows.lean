import Mydon.Js.Parse
import Mydon.Ourvend.Answers

/-! The stock of a machine in the vendor's listing, read page by page, and the factor by which the server has
repeated the rows. -/

namespace Mydon.Ourvend

open Mydon.Lib Mydon.Js

/-- The vendor behind the connector: `post` answers a path and a body with a text, or fails. -/
structure Vendor where
  host : Host
  encodeURIComponent : String → String
  post : String → String → Except String String

def parseJson (vendor : Vendor) (text where_ : String) : Except String Json :=
  match Json.parse vendor.host text with
  | some answer => .ok answer
  | none => .error s!"Ourvend вернул не-JSON на {where_} (сессия протухла?)"

def lotBody (vendor : Vendor) (machineApiId : String) (page : ℕ) : String :=
  "MiGroup=&MachineID=" ++ vendor.encodeURIComponent machineApiId ++ "&_search=false" ++
    "&rows=500&page=" ++ toString page ++ "&sidx=MId&sord=asc"

def tooDeep : String := "Lot management: листинг больше 6000 строк — углубите пагинацию"

/-- The loop, from a page on. A page of fewer raw rows than 500 is the last one. -/
def lotPages (vendor : Vendor) (machineApiId : String) (page : ℕ) : Except String (List RawLotRow) :=
  match vendor.post "/Stock/ListJsonUser" (lotBody vendor machineApiId page) with
  | .error e => .error e
  | .ok text =>
    if trim text = "" then .error "Lot management вернул пустой ответ — не вызван getSession?"
    else
      match parseJson vendor text "Stock/ListJsonUser" with
      | .error e => .error e
      | .ok answer =>
        let parsed := parseLotPage vendor.host answer machineApiId
        if parsed.all < 500 then .ok parsed.mine
        else if 12 ≤ page then .error tooDeep
        else (lotPages vendor machineApiId (page + 1)).map (parsed.mine ++ ·)
termination_by 12 - page

def getLotRows (vendor : Vendor) (machineApiId : String) : Except String (List RawLotRow) :=
  lotPages vendor machineApiId 1

/-! A vendor that serves one listing. -/

/-- The listing's rows of the machine. -/
def ownRows (host : Host) (machineApiId : String) (listing : List Json) : List RawLotRow :=
  (listing.filter (isLotRow host machineApiId)).map (lotRow host)

/-- Every page is answered with its 500 rows of the listing, the last with the rest. -/
def Vendor.Serves (vendor : Vendor) (machineApiId : String) (listing : List Json) : Prop :=
  ∀ page, 1 ≤ page → ∃ text answer, vendor.post "/Stock/ListJsonUser" (lotBody vendor machineApiId page) = .ok text ∧
    trim text ≠ "" ∧ Json.parse vendor.host text = some answer ∧
    rawRows answer = (listing.drop (500 * (page - 1))).take 500

variable {vendor : Vendor} {machineApiId : String} {listing : List Json}

theorem ownRows_append (host : Host) (front back : List Json) :
    ownRows host machineApiId (front ++ back) = ownRows host machineApiId front ++ ownRows host machineApiId back := by
  simp only [ownRows, List.filter_append, List.map_append]

/-- From each page on: the rows that are left, unless there are 6000 in all. -/
theorem lotPages_eq (h : vendor.Serves machineApiId listing) {page left : ℕ} (hpage : page + left = 12) (hfirst : 1 ≤ page)
    (hbefore : 500 * (page - 1) ≤ listing.length) : lotPages vendor machineApiId page =
      if listing.length < 6000 then .ok (ownRows vendor.host machineApiId (listing.drop (500 * (page - 1))))
      else .error tooDeep := by
  induction left generalizing page with
  | zero =>
    obtain ⟨text, answer, hpost, htext, hparse, hrows⟩ := h page hfirst
    rw [lotPages, hpost]
    simp only [if_neg htext, parseJson, hparse, parseLotPage, hrows, List.length_take, List.length_drop]
    by_cases hend : listing.length < 6000
    · rw [if_pos (by omega), if_pos hend, List.take_of_length_le (by rw [List.length_drop]; omega)]
      rfl
    · rw [if_neg (by omega), if_pos (by omega), if_neg hend]
  | succ left ih =>
    obtain ⟨text, answer, hpost, htext, hparse, hrows⟩ := h page hfirst
    rw [lotPages, hpost]
    simp only [if_neg htext, parseJson, hparse, parseLotPage, hrows, List.length_take, List.length_drop]
    by_cases hend : listing.length < 500 * page
    · rw [if_pos (by omega), if_pos (by omega), List.take_of_length_le (by rw [List.length_drop]; omega)]
      rfl
    · have hslice : (listing.drop (500 * (page - 1))).take 500 ++ listing.drop (500 * (page + 1 - 1)) =
          listing.drop (500 * (page - 1)) := by
        rw [show 500 * (page + 1 - 1) = 500 * (page - 1) + 500 by omega, ← List.drop_drop]
        exact List.take_append_drop _ _
      rw [if_neg (by omega), if_neg (by omega), @ih (page + 1) (by omega) (by omega) (by omega)]
      split_ifs
      · change Except.ok (ownRows _ _ _ ++ ownRows _ _ _) = _
        rw [← ownRows_append, hslice]
      · rfl

theorem getLotRows_eq (h : vendor.Serves machineApiId listing) : getLotRows vendor machineApiId =
    if listing.length < 6000 then .ok (ownRows vendor.host machineApiId listing) else .error tooDeep :=
  @lotPages_eq vendor machineApiId listing h 1 11 rfl le_rfl (Nat.zero_le _)

/-! The factor. -/

section
variable {rows rows' : List RawLotRow} {product : String}

/-- How many rows a product has. -/
def rowsOf (rows : List RawLotRow) (product : String) : ℕ := rows.countP (·.product = product)

def quantityOf (rows : List RawLotRow) (product : String) : ℚ :=
  ((rows.filter (·.product = product)).map (·.quantity)).sum

theorem dvd_foldl_gcd {d g : ℕ} (counts : List ℕ) : d ∣ counts.foldl Nat.gcd g ↔ d ∣ g ∧ ∀ c ∈ counts, d ∣ c := by
  induction counts generalizing g with
  | nil => simp
  | cons c counts ih => rw [List.foldl_cons, ih, Nat.dvd_gcd_iff, List.forall_mem_cons, and_assoc]

theorem foldl_count (rows : List RawLotRow) (n : ℕ) : rows.foldl (fun n _ => n + 1) n = n + rows.length := by
  induction rows generalizing n with
  | nil => rfl
  | cons r rows ih => rw [List.foldl_cons, ih, List.length_cons]; omega

theorem foldl_quantity (rows : List RawLotRow) (s : ℚ) :
    rows.foldl (fun s r => s + r.quantity) s = s + (rows.map (·.quantity)).sum := by
  induction rows generalizing s with
  | nil => simp
  | cons r rows ih => rw [List.foldl_cons, ih, List.map_cons, List.sum_cons, add_assoc]

/-- The divisor of the counts, before it is raised to 1. -/
def rowsGcd (rows : List RawLotRow) : ℕ :=
  ((tally RawLotRow.product (fun _ => 0) (fun n _ => n + 1) rows).map Prod.snd).foldl Nat.gcd 0

/-- It is the greatest common divisor of the numbers of rows of the products. -/
theorem dvd_rowsGcd_iff {d : ℕ} : d ∣ rowsGcd rows ↔ ∀ product, d ∣ rowsOf rows product := by
  rw [rowsGcd, dvd_foldl_gcd, tally_eq, List.map_map]
  simp only [dvd_zero, true_and, List.forall_mem_map, mem_keySet, Function.comp, foldl_count, Nat.zero_add,
    ← List.countP_eq_length_filter]
  refine ⟨fun h product => ?_, fun h product _ => h _⟩
  by_cases hrow : ∃ r ∈ rows, r.product = product
  · obtain ⟨r, hr, rfl⟩ := hrow
    exact h r hr
  · rw [rowsOf, List.countP_eq_zero.mpr fun r hr heq => hrow ⟨r, hr, of_decide_eq_true heq⟩]
    exact dvd_zero d

theorem rowsGcd_eq_one (hgcd : ∀ d, (∀ product, d ∣ rowsOf rows product) → d = 1) : rowsGcd rows = 1 :=
  hgcd _ (dvd_rowsGcd_iff.mp dvd_rfl)

theorem rowsGcd_repeated (n : ℕ) (h : ∀ product, rowsOf rows' product = (n + 1) * rowsOf rows product) :
    rowsGcd rows' = (n + 1) * rowsGcd rows := by
  apply Nat.dvd_antisymm
  · obtain ⟨g, hg⟩ := dvd_rowsGcd_iff.mpr fun product => (h product).symm ▸ Nat.dvd_mul_right (n + 1) _
    rw [hg]
    refine Nat.mul_dvd_mul_left _ (dvd_rowsGcd_iff.mpr fun product => ?_)
    have hdvd := dvd_rowsGcd_iff.mp (dvd_refl (rowsGcd rows')) product
    rw [hg, h] at hdvd
    exact Nat.dvd_of_mul_dvd_mul_left n.succ_pos hdvd
  · exact dvd_rowsGcd_iff.mpr fun product =>
      (h product).symm ▸ Nat.mul_dvd_mul_left _ (dvd_rowsGcd_iff.mp dvd_rfl product)

theorem get_dedupLotAgg (rows : List RawLotRow) (product : String) : OrderedMap.get (dedupLotAgg rows) product =
    if rowsOf rows product = 0 then none else some (quantityOf rows product / copies rows) := by
  have hmem : product ∈ rows.map RawLotRow.product ↔ rowsOf rows product ≠ 0 := by
    rw [← Nat.pos_iff_ne_zero, rowsOf, List.countP_pos_iff, List.mem_map]
    simp only [decide_eq_true_eq]
  change OrderedMap.get (OrderedMap.mapValues (· / (copies rows : ℚ)) (tally RawLotRow.product _ _ rows)) product = _
  rw [OrderedMap.get_mapValues, get_tally, foldl_quantity, zero_add]
  by_cases h : rowsOf rows product = 0
  · rw [if_neg (by rw [hmem]; exact not_not.mpr h), if_pos h]
    rfl
  · rw [if_pos (hmem.mpr h), if_neg h]
    rfl

/-- Rows that are `n + 1` times as many, with as many times the quantities, are taken for the same. -/
theorem dedupLotAgg_repeated (n : ℕ) (hrows : ∀ product, rowsOf rows' product = (n + 1) * rowsOf rows product)
    (hsums : ∀ product, quantityOf rows' product = (n + 1) * quantityOf rows product) (product : String) :
    OrderedMap.get (dedupLotAgg rows') product = OrderedMap.get (dedupLotAgg rows) product := by
  rw [get_dedupLotAgg, get_dedupLotAgg, hrows, hsums]
  by_cases hzero : rowsOf rows product = 0
  · rw [if_pos hzero, if_pos (by rw [hzero, Nat.mul_zero])]
  · have hg : rowsGcd rows ≠ 0 := fun h => hzero (Nat.eq_zero_of_zero_dvd (h ▸ dvd_rowsGcd_iff.mp dvd_rfl product))
    have hcopies : copies rows' = (n + 1) * copies rows := by
      have hrepeated := rowsGcd_repeated n hrows
      have hpos : 1 ≤ (n + 1) * rowsGcd rows := Nat.mul_pos n.succ_pos (Nat.pos_of_ne_zero hg)
      change max (rowsGcd rows') 1 = (n + 1) * max (rowsGcd rows) 1
      rw [hrepeated, max_eq_left hpos, max_eq_left (Nat.pos_of_ne_zero hg)]
    have hne : ((n : ℚ) + 1) ≠ 0 := by positivity
    rw [if_neg hzero, if_neg (Nat.mul_ne_zero n.succ_ne_zero hzero), hcopies, Nat.cast_mul, Nat.cast_succ,
      mul_div_mul_left _ _ hne]

theorem counts_of_perm {k : ℕ} (h : rows'.Perm (List.replicate k rows).flatten) (product : String) :
    rowsOf rows' product = k * rowsOf rows product ∧ quantityOf rows' product = k * quantityOf rows product := by
  constructor
  · rw [rowsOf, h.countP_eq, List.countP_flatten, List.map_replicate, List.sum_replicate, nsmul_eq_mul,
      Nat.cast_id, rowsOf]
  · rw [quantityOf, ((h.filter _).map _).sum_eq, List.filter_flatten, List.map_flatten, List.sum_flatten,
      List.map_replicate, List.map_replicate, List.map_replicate, List.sum_replicate, nsmul_eq_mul, quantityOf]

end

/-- The products of the rows, each with the sum of its quantities. -/
def sumsOf (rows : List RawLotRow) (product : String) : Option ℚ :=
  if rowsOf rows product = 0 then none else some (quantityOf rows product)

/-- The snapshot of a machine whose rows are `L`, in any order and any number of times. -/
theorem lot_snapshot_exact (hserves : vendor.Serves machineApiId listing) {k : ℕ} (hk : 1 ≤ k) {L : List RawLotRow}
    (hgcd : ∀ d, (∀ product, d ∣ rowsOf L product) → d = 1)
    (hown : (ownRows vendor.host machineApiId listing).Perm (List.replicate k L).flatten) :
    ((∃ e, getLotRows vendor machineApiId = .error e) ↔ 6000 ≤ listing.length) ∧
      (listing.length < 6000 → ∃ rows, getLotRows vendor machineApiId = .ok rows ∧
        ∀ product, OrderedMap.get (dedupLotAgg rows) product = sumsOf L product) ∧
      (∀ rows rows' : List RawLotRow, rows'.Perm rows → ∀ product,
        OrderedMap.get (dedupLotAgg rows') product = OrderedMap.get (dedupLotAgg rows) product) ∧
      ∀ n rows product, OrderedMap.get (dedupLotAgg (List.replicate (n + 1) rows).flatten) product =
        OrderedMap.get (dedupLotAgg rows) product := by
  have hagain : ∀ n (rows rows' : List RawLotRow), rows'.Perm (List.replicate (n + 1) rows).flatten → ∀ product,
      OrderedMap.get (dedupLotAgg rows') product = OrderedMap.get (dedupLotAgg rows) product := by
    intro n rows rows' hperm
    have hcounts := fun product => counts_of_perm hperm product
    exact dedupLotAgg_repeated n (fun product => (hcounts product).1) fun product => by
      rw [(hcounts product).2, Nat.cast_succ]
  have hread := getLotRows_eq hserves
  refine ⟨?_, fun hshort => ⟨_, by rw [hread, if_pos hshort], fun product => ?_⟩, fun rows rows' hperm => ?_,
    fun n rows => hagain n rows _ (List.Perm.refl _)⟩
  · rw [hread]
    split_ifs with hshort
    · exact iff_of_false (fun ⟨_, h⟩ => nomatch h) (by omega)
    · exact iff_of_true ⟨_, rfl⟩ (by omega)
  · obtain ⟨n, rfl⟩ := Nat.exists_eq_add_of_le' hk
    have hcopies : copies L = 1 := by
      change max (rowsGcd L) 1 = 1
      rw [rowsGcd_eq_one hgcd, max_self]
    rw [hagain n L _ hown, get_dedupLotAgg, hcopies, Nat.cast_one, div_one, sumsOf]
  · exact hagain 0 rows rows' (by simpa using hperm)

/-! A machine with one product, whose row the server sends twice. -/

def colaRow : Json := .obj [("MId", .str "7"), ("PrName", .str "Cola"), ("SiExtantQuantity", .str "6")]

def vendorHost : Host where
  toLowerCase := fun s => s
  number := fun s => if s = "6" then some 6 else none
  numberText := fun _ => ""
  toFixed12 := fun _ => ""
  localeCompare := fun _ _ => 0
  sha256 := fun s => s

/-- The first page has both rows, and the others none. -/
def colaVendor : Vendor where
  host := vendorHost
  encodeURIComponent := fun s => s
  post := fun _ body => .ok <| Json.stringify vendorHost <|
    if body = "MiGroup=&MachineID=7&_search=false&rows=500&page=1&sidx=MId&sord=asc" then
      .obj [("rows", .arr [colaRow, colaRow])]
    else .arr []

theorem page_inj {front back : String} {p q : ℕ} (h : front ++ toString p ++ back = front ++ toString q ++ back) :
    p = q := by
  have hdigits : ∀ n : ℕ, (toString n).toList = Nat.toDigits 10 n := fun n => Nat.toList_repr
  have htext := congrArg String.toList h
  simp only [String.toList_append, List.append_assoc, List.append_cancel_left_eq, List.append_cancel_right_eq,
    hdigits] at htext
  simpa only [Nat.ofDigitChars_ten_toDigits] using congrArg (Nat.ofDigitChars 10 · 0) htext

theorem colaVendor_serves : colaVendor.Serves "7" [colaRow, colaRow] := by
  have hfirst : lotBody colaVendor "7" 1 = "MiGroup=&MachineID=7&_search=false&rows=500&page=1&sidx=MId&sord=asc" := by
    decide +kernel
  have hanswer : ∀ {a b : Json}, a = b →
      (Except.ok (Json.stringify vendorHost a) : Except String String) = .ok (Json.stringify vendorHost b) :=
    fun h => by rw [h]
  intro page hpage
  by_cases hone : page = 1
  · subst hone
    exact ⟨_, .obj [("rows", .arr [colaRow, colaRow])], hanswer (if_pos hfirst), by decide +kernel,
      Json.parse_stringify (by simp [colaRow, Json.WellFormed, Json.WellFormedItems, Json.WellFormedEntries]), rfl⟩
  · refine ⟨_, .arr [], hanswer (if_neg fun h => hone (page_inj (h.trans hfirst.symm))), by decide +kernel,
      Json.parse_stringify trivial, ?_⟩
    rw [List.drop_of_length_le (by simp; omega)]
    rfl

theorem snapshot_of_cola_twice :
    ((∃ e, getLotRows colaVendor "7" = .error e) ↔ 6000 ≤ [colaRow, colaRow].length) ∧
      ∃ rows, getLotRows colaVendor "7" = .ok rows ∧ OrderedMap.get (dedupLotAgg rows) "Cola" = some 6 := by
  have hgcd : ∀ d, (∀ product, d ∣ rowsOf [⟨"Cola", 6⟩] product) → d = 1 := fun d h => Nat.dvd_one.mp (h "Cola")
  have hsnapshot := @lot_snapshot_exact colaVendor "7" _ colaVendor_serves 2 (by decide) [⟨"Cola", 6⟩] hgcd
    (.of_eq (by decide +kernel))
  obtain ⟨rows, hrows, hsums⟩ := hsnapshot.2.1 (by decide)
  exact ⟨hsnapshot.1, rows, hrows, (hsums "Cola").trans (by decide +kernel)⟩

end Mydon.Ourvend
