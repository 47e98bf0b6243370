import Mydon.Js.Trim
import Mydon.Raw.Delimited

/-! The export of the raw journal is read back as it was written, whatever its cells hold. -/

namespace Mydon.Raw

theorem intercalate_cons_cons {α : Type} (sep x y : List α) (xs : List (List α)) :
    List.intercalate sep (x :: y :: xs) = x ++ (sep ++ List.intercalate sep (y :: xs)) := by
  simp [List.intercalate]

/-- The end of the text, or the delimiter. -/
def Ends (rest : List Char) : Prop := rest = [] ∨ ∃ more, rest = ';' :: more

theorem Ends.head_ne {rest : List Char} (h : Ends rest) : ∀ c more, rest = c :: more → c ≠ '"' := by
  rintro c more rfl
  rcases h with h | ⟨more', h⟩
  · exact nomatch h
  · obtain ⟨rfl, -⟩ := List.cons.inj h
    decide

/-! Cells. -/

variable {cur rest : List Char}

theorem splitRow_close {d : Char} (h : Ends rest) :
    splitRowFrom d true cur ('"' :: rest) = splitRowFrom d false cur rest := by
  rcases rest with _ | ⟨c, more⟩
  · rfl
  · have hc := h.head_ne c more rfl
    rw [splitRowFrom.eq_def]
    split
    · simp_all
    · simp_all
    · simp_all
    · rename_i hother _ heq
      exact absurd (List.cons.inj heq).1.symm hother
    · simp_all

theorem splitRow_inside {d c : Char} (hc : c ≠ '"') :
    splitRowFrom d true cur (c :: rest) = splitRowFrom d true (cur ++ [c]) rest := by
  rw [splitRowFrom.eq_def]
  split <;> simp_all

/-- Between quotes every character is read as it is, and a doubled quote as one. -/
theorem splitRow_quoted {d : Char} (v : List Char) (h : Ends rest) :
    splitRowFrom d true cur (doubleQuotes v ++ '"' :: rest) = splitRowFrom d false (cur ++ v) rest := by
  induction v generalizing cur with
  | nil =>
    rw [List.append_nil]
    exact splitRow_close h
  | cons c v ih =>
    by_cases hc : c = '"'
    · subst hc
      have hstep : splitRowFrom d true cur (doubleQuotes ('"' :: v) ++ '"' :: rest) =
          splitRowFrom d true (cur ++ ['"']) (doubleQuotes v ++ '"' :: rest) := by
        simp [doubleQuotes, splitRowFrom]
      rw [hstep, ih, List.append_assoc, List.singleton_append]
    · have hstep : doubleQuotes (c :: v) ++ '"' :: rest = c :: (doubleQuotes v ++ '"' :: rest) := by
        simp [doubleQuotes, hc]
      rw [hstep, splitRow_inside hc, ih, List.append_assoc, List.singleton_append]

theorem splitRow_plain {v : List Char} (hv : ∀ c ∈ v, isSpecial c = false) :
    splitRowFrom ';' false cur (v ++ rest) = splitRowFrom ';' false (cur ++ v) rest := by
  induction v generalizing cur with
  | nil => rw [List.nil_append, List.append_nil]
  | cons c v ih =>
    have hc := hv c List.mem_cons_self
    simp only [isSpecial, Bool.or_eq_false_iff, decide_eq_false_iff_not] at hc
    rw [List.cons_append, splitRowFrom, if_neg hc.2, if_neg hc.1.1.1,
      ih fun c' hc' => hv c' (List.mem_cons_of_mem _ hc'), List.append_assoc, List.singleton_append]

theorem doubleQuotes_plain {v : List Char} (hv : '"' ∉ v) : doubleQuotes v = v := by
  induction v with
  | nil => rfl
  | cons c v ih =>
    rw [List.mem_cons, not_or] at hv
    rw [doubleQuotes, List.flatMap_cons, if_neg (Ne.symm hv.1)]
    exact congrArg (c :: ·) (ih hv.2)

theorem mem_doubleQuotes {v : List Char} (h : '"' ∈ v) : '"' ∈ doubleQuotes v :=
  List.mem_flatMap.mpr ⟨'"', h, by simp⟩

/-- A cell is written between quotes, or it has no character that needs them. -/
theorem csvCell_cases (value : String) :
    csvCell value = '"' :: (doubleQuotes value.toList ++ ['"']) ∨
      csvCell value = value.toList ∧ ∀ c ∈ value.toList, isSpecial c = false := by
  unfold csvCell
  by_cases h : (doubleQuotes value.toList).any isSpecial = true
  · exact .inl (by simp [h])
  · right
    rw [Bool.not_eq_true, List.any_eq_false] at h
    have hquote : '"' ∉ value.toList := fun hmem => absurd (h '"' (mem_doubleQuotes hmem)) (by decide)
    rw [doubleQuotes_plain hquote] at h ⊢
    have hplain : ∀ c ∈ value.toList, isSpecial c = false := fun c hc => by simpa using h c hc
    refine ⟨?_, hplain⟩
    rw [if_neg]
    simpa using hplain

theorem splitRow_cell (value : String) {rest : List Char} (h : Ends rest) :
    splitRowFrom ';' false [] (csvCell value ++ rest) = splitRowFrom ';' false value.toList rest := by
  rcases csvCell_cases value with hcell | ⟨hcell, hplain⟩
  · rw [hcell, List.cons_append, List.append_assoc, List.singleton_append, splitRowFrom, if_pos rfl, splitRow_quoted _ h,
      List.nil_append]
  · rw [hcell, splitRow_plain hplain, List.nil_append]

theorem splitRow_csvLine {cells : List String} (hne : cells ≠ []) : splitRow (csvLine cells) ';' = cells := by
  unfold splitRow csvLine
  induction cells with
  | nil => exact absurd rfl hne
  | cons value cells ih =>
    rcases cells with _ | ⟨next, cells⟩
    · have h := splitRow_cell value (.inl rfl)
      rw [List.append_nil] at h
      simpa [List.intercalate, splitRowFrom] using h
    · rw [List.map_cons, List.map_cons, intercalate_cons_cons, List.singleton_append, splitRow_cell value (.inr ⟨_, rfl⟩),
        splitRowFrom, if_neg (by decide), if_pos rfl, String.ofList_toList]
      exact congrArg (value :: ·) (ih (List.cons_ne_nil _ _))

/-! Lines. -/

theorem splitLines_step {quoted : Bool} {c : Char} (hc : c ≠ '"')
    (hbreak : quoted = true ∨ (c ≠ '\n' ∧ c ≠ '\r')) :
    splitLinesFrom quoted cur (c :: rest) = splitLinesFrom quoted (cur ++ [c]) rest := by
  rw [splitLinesFrom.eq_def]
  split
  · simp_all
  · simp_all
  · rename_i heq
    obtain ⟨rfl, rfl⟩ := List.cons.inj heq
    rw [if_neg hc, if_neg]
    rintro ⟨hq, hnl⟩
    rcases hbreak with hbreak | ⟨hn, hr⟩
    · exact absurd (hq.symm.trans hbreak) (by decide)
    · exact hnl.elim hn hr

theorem splitLines_quote {quoted : Bool} :
    splitLinesFrom quoted cur ('"' :: rest) = splitLinesFrom (!quoted) (cur ++ ['"']) rest := by
  rw [splitLinesFrom.eq_def]
  split
  · simp_all
  · simp_all
  · rename_i heq
    obtain ⟨rfl, rfl⟩ := List.cons.inj heq
    rw [if_pos rfl]

theorem splitLines_inside (v : List Char) :
    splitLinesFrom true cur (doubleQuotes v ++ rest) = splitLinesFrom true (cur ++ doubleQuotes v) rest := by
  induction v generalizing cur with
  | nil => simp [doubleQuotes]
  | cons c v ih =>
    by_cases hc : c = '"'
    · subst hc
      have hcons : doubleQuotes ('"' :: v) = '"' :: '"' :: doubleQuotes v := by simp [doubleQuotes]
      rw [hcons, List.cons_append, List.cons_append, splitLines_quote, splitLines_quote, Bool.not_not, ih]
      simp
    · have hcons : doubleQuotes (c :: v) = c :: doubleQuotes v := by simp [doubleQuotes, hc]
      rw [hcons, List.cons_append, splitLines_step hc (.inl rfl), ih]
      simp

theorem splitLines_plain {v : List Char} (hv : ∀ c ∈ v, isSpecial c = false) :
    splitLinesFrom false cur (v ++ rest) = splitLinesFrom false (cur ++ v) rest := by
  induction v generalizing cur with
  | nil => rw [List.nil_append, List.append_nil]
  | cons c v ih =>
    have hc := hv c List.mem_cons_self
    simp only [isSpecial, Bool.or_eq_false_iff, decide_eq_false_iff_not] at hc
    rw [List.cons_append, splitLines_step hc.2 (.inr ⟨hc.1.1.2, hc.1.2⟩),
      ih fun c' hc' => hv c' (List.mem_cons_of_mem _ hc'), List.append_assoc, List.singleton_append]

/-- The quotes of a cell are closed where it ends, so no line break in it cuts a line. -/
theorem splitLines_cell (value : String) :
    splitLinesFrom false cur (csvCell value ++ rest) = splitLinesFrom false (cur ++ csvCell value) rest := by
  rcases csvCell_cases value with hcell | ⟨hcell, hplain⟩
  · rw [hcell, List.cons_append, splitLines_quote, Bool.not_false, List.append_assoc, splitLines_inside,
      List.singleton_append, splitLines_quote, Bool.not_true]
    simp
  · rw [hcell, splitLines_plain hplain]

theorem splitLines_csvLine (cells : List String) :
    splitLinesFrom false cur (csvLine cells ++ rest) = splitLinesFrom false (cur ++ csvLine cells) rest := by
  unfold csvLine
  induction cells generalizing cur with
  | nil => simp [List.intercalate]
  | cons value cells ih =>
    rcases cells with _ | ⟨next, cells⟩
    · simpa [List.intercalate] using splitLines_cell value
    · rw [List.map_cons, List.map_cons, intercalate_cons_cons, List.append_assoc, List.append_assoc, splitLines_cell,
        List.singleton_append, splitLines_step (by decide) (.inr (by decide)), ← List.map_cons, ih]
      simp

/-- The lines of the file, none of them empty. -/
theorem splitLines_join {rows : List (List String)} (hrows : ∀ cells ∈ rows, csvLine cells ≠ []) :
    splitLines (List.intercalate ['\r', '\n'] (rows.map csvLine)) = rows.map csvLine := by
  unfold splitLines
  induction rows with
  | nil => rfl
  | cons cells rows ih =>
    have hne := hrows cells List.mem_cons_self
    rcases rows with _ | ⟨next, rows⟩
    · have h := @splitLines_csvLine [] [] cells
      simpa [List.intercalate, splitLinesFrom, hne] using h
    · have htail := ih fun cells' h' => hrows cells' (List.mem_cons_of_mem _ h')
      rw [List.map_cons, List.map_cons, intercalate_cons_cons, splitLines_csvLine, List.nil_append]
      have hbreak : ∀ rest, splitLinesFrom false (csvLine cells) (['\r', '\n'] ++ rest) =
          csvLine cells :: splitLinesFrom false [] rest := fun rest => by simp [splitLinesFrom]
      rw [hbreak, ← List.map_cons, htail]

/-! The whole file. -/

theorem exists_mem_toString (n : ℤ) : ∃ c ∈ (toString n).toList, Js.isSpace c = false := by
  rcases n with n | n
  · obtain ⟨c, rest, hdigits⟩ := List.exists_cons_of_ne_nil (@Nat.toDigits_ne_nil n 10)
    have hmem : c ∈ Nat.toDigits 10 n := hdigits ▸ List.mem_cons_self
    have hdigit := Nat.isDigit_of_mem_toDigits (by decide) (by decide) hmem
    simp only [Char.isDigit, Bool.and_eq_true, decide_eq_true_eq] at hdigit
    have hlow : 48 ≤ c.toNat := hdigit.1
    have hhigh : c.toNat ≤ 57 := hdigit.2
    refine ⟨c, ?_, ?_⟩
    · exact (@Nat.toList_repr n).symm ▸ hmem
    · simp [Js.isSpace]
      omega
  · refine ⟨'-', ?_, by decide⟩
    have htext : (toString (Int.negSucc n)).toList = '-' :: (Nat.repr (n + 1)).toList := by
      show ("-" ++ Nat.repr (n + 1)).toList = _
      rw [String.toList_append]
      rfl
    rw [htext]
    exact List.mem_cons_self

theorem mem_csvCell {value : String} {c : Char} (hc : c ∈ value.toList) : c ∈ csvCell value := by
  rcases csvCell_cases value with hcell | ⟨hcell, -⟩
  · rw [hcell]
    have hdoubled : c ∈ doubleQuotes value.toList := by
      refine List.mem_flatMap.mpr ⟨c, hc, ?_⟩
      split_ifs with h
      · rw [h]
        exact List.mem_cons_self
      · exact List.mem_singleton_self c
    exact List.mem_cons_of_mem _ (List.mem_append_left _ hdoubled)
  · rw [hcell]
    exact hc

/-- A line whose first cell shows something is not blank. -/
theorem isBlank_csvLine {value : String} {c : Char} (hc : c ∈ value.toList) (hspace : Js.isSpace c = false)
    (cells : List String) : isBlank (csvLine (value :: cells)) = false := by
  have hmem : c ∈ csvLine (value :: cells) := by
    unfold csvLine
    rcases cells with _ | ⟨next, cells⟩
    · simpa [List.intercalate] using mem_csvCell hc
    · rw [List.map_cons, List.map_cons, intercalate_cons_cons]
      exact List.mem_append_left _ (mem_csvCell hc)
  simpa [isBlank] using Js.trimChars_ne_nil hmem hspace

theorem dropWhile_reverse_of_last {α : Type} {p : α → Bool} {l : List α} (h : ∀ a ∈ l, p a = false) :
    (l.reverse.dropWhile p).reverse = l := by
  rcases hl : l.reverse with _ | ⟨a, rest⟩
  · rw [List.dropWhile_nil, List.reverse_nil, List.reverse_eq_nil_iff.mp hl]
  · have ha : a ∈ l := List.mem_reverse.mp (hl ▸ List.mem_cons_self)
    rw [List.dropWhile_cons_of_neg (by simp [h a ha]), ← hl, List.reverse_reverse]

theorem isBlank_nil : isBlank [] = true := by decide

theorem parseDelimited_lines {rows : List (List String)} (hblank : ∀ cells ∈ rows, isBlank (csvLine cells) = false)
    {head : List String} (hhead : isBlank (csvLine head) = false) :
    parseDelimited (String.ofList ('\uFEFF' :: List.intercalate ['\r', '\n'] (csvLine head :: rows.map csvLine))) (some ';') =
      { columns := (splitRow (csvLine head) ';').map Js.trim
        rows := rows.map fun cells =>
          fillRow ((splitRow (csvLine head) ';').map Js.trim).length (splitRow (csvLine cells) ';')
        delimiter := ';'
        ragged := rows.countP fun cells =>
          (splitRow (csvLine cells) ';').length ≠ ((splitRow (csvLine head) ';').map Js.trim).length } := by
  have hall : ∀ cells ∈ head :: rows, isBlank (csvLine cells) = false := List.forall_mem_cons.mpr ⟨hhead, hblank⟩
  have hne : ∀ cells ∈ head :: rows, csvLine cells ≠ [] := by
    intro cells hcells hnil
    have h := hall cells hcells
    rw [hnil, isBlank_nil] at h
    exact nomatch h
  have hlines := splitLines_join hne
  rw [List.map_cons] at hlines
  have hkept : ((csvLine head :: rows.map csvLine).reverse.dropWhile isBlank).reverse = csvLine head :: rows.map csvLine := by
    refine dropWhile_reverse_of_last fun line hline => ?_
    rw [← List.map_cons] at hline
    obtain ⟨cells, hcells, rfl⟩ := List.mem_map.mp hline
    exact hall cells hcells
  simp only [parseDelimited, String.toList_ofList, hlines, hkept, Option.getD_some, List.map_map, List.countP_map]
  rfl

/-- The reader returns the titles as it trims them and the very rows of the export, none of them ragged. -/
theorem parse_toCsv {columns : List String} {rows : List RawRowOut} (hcells : ∀ r ∈ rows, r.cells.length = columns.length) :
    parseDelimited (toCsv columns rows) (some ';') =
      { columns := ("#" :: columns).map Js.trim
        rows := rows.map fun r => toString r.idx :: r.cells
        delimiter := ';'
        ragged := 0 } := by
  have hhead : isBlank (csvLine ("#" :: columns)) = false := by
    have hmem : '#' ∈ "#".toList := by decide
    exact isBlank_csvLine hmem (by decide) columns
  have hblank : ∀ cells ∈ rows.map (fun r => toString r.idx :: r.cells), isBlank (csvLine cells) = false := by
    intro cells hmem
    obtain ⟨r, -, rfl⟩ := List.mem_map.mp hmem
    obtain ⟨c, hc, hspace⟩ := exists_mem_toString r.idx
    exact isBlank_csvLine hc hspace r.cells
  have hwidth : ∀ cells ∈ rows.map (fun r => toString r.idx :: r.cells), cells.length = columns.length + 1 := by
    intro cells hmem
    obtain ⟨r, hr, rfl⟩ := List.mem_map.mp hmem
    rw [List.length_cons, hcells r hr]
  have hsplit : ∀ cells ∈ rows.map (fun r => toString r.idx :: r.cells), splitRow (csvLine cells) ';' = cells := by
    intro cells hmem
    refine splitRow_csvLine fun hnil => ?_
    have h := hwidth cells hmem
    rw [hnil] at h
    exact nomatch h
  have hparsed := parseDelimited_lines hblank hhead
  rw [List.map_map] at hparsed
  rw [toCsv, Function.comp_def] at *
  rw [hparsed, splitRow_csvLine (List.cons_ne_nil _ _)]
  congr 1
  · refine (List.map_congr_left fun cells hmem => ?_).trans (List.map_id _)
    rw [hsplit cells hmem, fillRow, List.length_map, List.length_cons, hwidth cells hmem, Nat.sub_self,
      List.replicate_zero, List.append_nil, id_eq]
  · refine List.countP_eq_zero.mpr fun cells hmem => ?_
    rw [hsplit cells hmem, List.length_map, List.length_cons, hwidth cells hmem]
    simp

/-- A cell with a quote, one with a line break, an empty one, and one that is a separator. -/
theorem parse_toCsv_specials :
    parseDelimited (toCsv [" name ", "note"] [⟨1, ["a\"b", "c\r\nd"]⟩, ⟨2, ["", ";"]⟩]) (some ';') =
      { columns := (["#", " name ", "note"]).map Js.trim
        rows := [["1", "a\"b", "c\r\nd"], ["2", "", ";"]]
        delimiter := ';'
        ragged := 0 } :=
  parse_toCsv (by decide)

end Mydon.Raw
