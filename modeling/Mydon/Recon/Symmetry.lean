import Mathlib.Data.List.Induction
import Mydon.Js.Trim
import Mydon.Recon.Agreement

/-! Row-by-row reconciliation splits the keys of the two sources, and does not depend on which of them comes first. -/

namespace Mydon.Recon

open Mydon.Lib

variable (host : Js.Host)

/-! Agreement of two values. -/

/-- Blanks at the ends do not matter to a number. -/
theorem toNumber_trim {a b : String} (h : Js.trim a = Js.trim b) : toNumber host a = toNumber host b := by
  have htrim : Js.trimChars a.toList = Js.trimChars b.toList := String.ofList_injective h
  rw [toNumber, toNumber, ← Js.filter_trimChars, htrim, Js.filter_trimChars]

theorem valuesAgree_number_iff (a b : String) : valuesAgree host a b .number = true ↔
    Js.trim a = Js.trim b ∨ ∃ n, toNumber host a = some n ∧ toNumber host b = some n := by
  unfold valuesAgree
  dsimp only
  constructor
  · intro h
    split at h
    · rename_i na nb ha hb
      obtain rfl : na = nb := by simpa using h
      exact .inr ⟨na, ha, hb⟩
    · exact .inl (by simpa using h)
  · rintro (h | ⟨n, ha, hb⟩)
    · rw [toNumber_trim host h]
      cases toNumber host b <;> simp [h]
    · rw [ha, hb]
      simp

/-- A text that reads as a number never agrees with one that does not, so the two rules do not mix. -/
theorem valuesAgree_equivalence (compare : CompareAs) :
    Equivalence fun a b => valuesAgree host a b compare = true := by
  cases compare with
  | number =>
    simp only [valuesAgree_number_iff]
    refine ⟨fun _ => .inl rfl, ?_, ?_⟩
    · rintro a b (h | ⟨n, ha, hb⟩)
      · exact .inl h.symm
      · exact .inr ⟨n, hb, ha⟩
    · rintro a b c (h | ⟨n, ha, hb⟩) (h' | ⟨n', hb', hc⟩)
      · exact .inl (h.trans h')
      · exact .inr ⟨n', (toNumber_trim host h).trans hb', hc⟩
      · exact .inr ⟨n, ha, (toNumber_trim host h').symm.trans hb⟩
      · obtain rfl := Option.some.inj (hb.symm.trans hb')
        exact .inr ⟨n, ha, hc⟩
  | key =>
    simp only [valuesAgree, beq_iff_eq]
    exact ⟨fun _ => rfl, fun h => h.symm, fun h h' => h.trans h'⟩
  | exact =>
    simp only [valuesAgree, beq_iff_eq]
    exact ⟨fun _ => rfl, fun h => h.symm, fun h h' => h.trans h'⟩

/-! What becomes of a field of a pair. -/

inductive FieldOutcome
  | agree
  | differ
  | absent
  deriving DecidableEq

def outcomeOf (rowA rowB : ReconRow) (f : ReconField) : FieldOutcome :=
  match rowA.value f.role, rowB.value f.role with
  | some va, some vb =>
    if va = "" ∧ vb = "" then .absent
    else if valuesAgree host va vb f.compare then .agree
    else .differ
  | _, _ => .absent

def FieldSummary.count (s : FieldSummary) : FieldOutcome → FieldSummary
  | .agree => { s with agree := s.agree + 1 }
  | .differ => { s with differ := s.differ + 1 }
  | .absent => { s with absent := s.absent + 1 }

theorem outcomeOf_comm (rowA rowB : ReconRow) (f : ReconField) : outcomeOf host rowA rowB f = outcomeOf host rowB rowA f := by
  unfold outcomeOf
  cases rowA.value f.role with
  | none => cases rowB.value f.role <;> rfl
  | some va =>
    cases rowB.value f.role with
    | none => rfl
    | some vb =>
      have hagree : valuesAgree host va vb f.compare = valuesAgree host vb va f.compare :=
        Bool.eq_iff_iff.mpr ⟨(valuesAgree_equivalence host f.compare).symm, (valuesAgree_equivalence host f.compare).symm⟩
      simp only [hagree, and_comm]

theorem outcomeOf_self (row : ReconRow) (f : ReconField) : outcomeOf host row row f ≠ .differ := by
  unfold outcomeOf
  cases row.value f.role with
  | none => simp
  | some v =>
    have hagree := (valuesAgree_equivalence host f.compare).refl v
    simp only [hagree, if_true]
    split_ifs <;> simp

theorem compareField_summary (rowA rowB : ReconRow) (acc : Summary × List FieldDiff) (f : ReconField) :
    (compareField host rowA rowB acc f).1 = acc.1.update f fun s => s.count (outcomeOf host rowA rowB f) := by
  unfold compareField outcomeOf
  cases rowA.value f.role with
  | none => rfl
  | some va =>
    cases rowB.value f.role with
    | none => rfl
    | some vb =>
      dsimp only
      split_ifs <;> rfl

theorem foldl_compareField_summary (rowA rowB : ReconRow) (fields : List ReconField) (acc : Summary × List FieldDiff) :
    (fields.foldl (compareField host rowA rowB) acc).1 =
      fields.foldl (fun summary f => summary.update f fun s => s.count (outcomeOf host rowA rowB f)) acc.1 := by
  induction fields generalizing acc with
  | nil => rfl
  | cons f fields ih => rw [List.foldl_cons, ih, compareField_summary, List.foldl_cons]

/-- The summary of the fields, one entry for each role. -/
def summaryOf (fields : List ReconField) (g : ReconField → FieldSummary) : Summary := fields.map fun f => (f.role, g f)

theorem update_append {done : Summary} {f : ReconField} (hdone : f.role ∉ done.map Prod.fst) (s : FieldSummary) (rest : Summary)
    (g : FieldSummary → FieldSummary) :
    Summary.update (done ++ (f.role, s) :: rest) f g = done ++ (f.role, g s) :: rest := by
  induction done with
  | nil => simp [Summary.update, OrderedMap.alter]
  | cons e done ih =>
    rw [List.map_cons, List.mem_cons, not_or] at hdone
    have htail := ih hdone.2
    unfold Summary.update at htail ⊢
    rw [List.cons_append, OrderedMap.alter, if_neg (Ne.symm hdone.1), htail, List.cons_append]

theorem foldl_update (h : ReconField → FieldSummary → FieldSummary) (g : ReconField → FieldSummary) {fields : List ReconField}
    (hnodup : (fields.map ReconField.role).Nodup) (done : Summary)
    (hdone : ∀ f ∈ fields, f.role ∉ done.map Prod.fst) :
    fields.foldl (fun summary f => Summary.update summary f (h f)) (done ++ summaryOf fields g) =
      done ++ summaryOf fields fun f => h f (g f) := by
  induction fields generalizing done with
  | nil => rfl
  | cons f fields ih =>
    rw [List.map_cons, List.nodup_cons] at hnodup
    have hstep : Summary.update (done ++ summaryOf (f :: fields) g) f (h f) =
        (done ++ [(f.role, h f (g f))]) ++ summaryOf fields g := by
      rw [summaryOf, List.map_cons, update_append (hdone f List.mem_cons_self), List.append_assoc]
      rfl
    rw [List.foldl_cons, hstep, ih hnodup.2]
    · rw [List.append_assoc]
      rfl
    · intro f' hf'
      rw [List.map_append, List.mem_append, not_or]
      refine ⟨hdone f' (List.mem_cons_of_mem _ hf'), fun hmem => hnodup.1 ?_⟩
      have hrole : f'.role = f.role := List.mem_singleton.mp hmem
      exact hrole ▸ List.mem_map.mpr ⟨f', hf', rfl⟩

theorem foldl_compareField_summaryOf {fields : List ReconField} (hnodup : (fields.map ReconField.role).Nodup)
    (rowA rowB : ReconRow) (g : ReconField → FieldSummary) (diffs : List FieldDiff) :
    (fields.foldl (compareField host rowA rowB) (summaryOf fields g, diffs)).1 =
      summaryOf fields fun f => (g f).count (outcomeOf host rowA rowB f) := by
  rw [foldl_compareField_summary]
  exact foldl_update (fun f s => s.count (outcomeOf host rowA rowB f)) g hnodup [] fun _ _ => List.not_mem_nil

theorem initialSummary_eq {fields : List ReconField} (hnodup : (fields.map ReconField.role).Nodup) :
    initialSummary fields = summaryOf fields fun f => ⟨f.role, f.label, 0, 0, 0⟩ := by
  unfold initialSummary summaryOf
  induction fields using List.reverseRecOn with
  | nil => rfl
  | append_singleton fields f ih =>
    rw [List.map_append, List.map_singleton, List.nodup_append] at hnodup
    have hnew : f.role ∉ OrderedMap.keys (fields.map fun f => (f.role, (⟨f.role, f.label, 0, 0, 0⟩ : FieldSummary))) := by
      rw [OrderedMap.keys, List.map_map]
      exact fun hmem => hnodup.2.2 f.role hmem f.role (List.mem_singleton_self _) rfl
    rw [List.foldl_append, List.foldl_cons, List.foldl_nil, ih hnodup.1, OrderedMap.alter_of_notMem _ hnew]
    simp

/-! The walk over the keys. -/

/-- What becomes of a field for a key of both sources. -/
def jointOutcome (mapA mapB : List (String × KeyRows)) (f : ReconField) (k : String) : Option FieldOutcome :=
  match OrderedMap.get mapA k, OrderedMap.get mapB k with
  | some rowsA, some rowsB => some (outcomeOf host rowsA.first rowsB.first f)
  | _, _ => none

theorem jointOutcome_comm (mapA mapB : List (String × KeyRows)) (f : ReconField) (k : String) :
    jointOutcome host mapA mapB f k = jointOutcome host mapB mapA f k := by
  unfold jointOutcome
  cases OrderedMap.get mapA k <;> cases OrderedMap.get mapB k
  · rfl
  · rfl
  · rfl
  · exact congrArg some (outcomeOf_comm host _ _ f)

theorem isSome_jointOutcome (mapA mapB : List (String × KeyRows)) (f : ReconField) (k : String) :
    (jointOutcome host mapA mapB f k).isSome = ((OrderedMap.get mapA k).isSome && (OrderedMap.get mapB k).isSome) := by
  unfold jointOutcome
  cases OrderedMap.get mapA k <;> cases OrderedMap.get mapB k <;> rfl

/-- The counts of a field over some keys. -/
def countsOf (mapA mapB : List (String × KeyRows)) (f : ReconField) (ks : List String) : FieldSummary where
  role := f.role
  label := f.label
  agree := ks.countP fun k => jointOutcome host mapA mapB f k = some .agree
  differ := ks.countP fun k => jointOutcome host mapA mapB f k = some .differ
  absent := ks.countP fun k => jointOutcome host mapA mapB f k = some .absent

theorem countsOf_snoc (mapA mapB : List (String × KeyRows)) (f : ReconField) (ks : List String) (k : String) :
    countsOf host mapA mapB f (ks ++ [k]) =
      match jointOutcome host mapA mapB f k with
      | some o => (countsOf host mapA mapB f ks).count o
      | none => countsOf host mapA mapB f ks := by
  unfold countsOf
  rcases hjoint : jointOutcome host mapA mapB f k with _ | o
  · simp [hjoint]
  · cases o <;> simp [hjoint, FieldSummary.count]

theorem foldl_visitA_summary {fields : List ReconField} (hnodup : (fields.map ReconField.role).Nodup)
    {mapA mapB : List (String × KeyRows)} (hkeys : (OrderedMap.keys mapA).Nodup) {front back : List (String × KeyRows)}
    (hmap : mapA = front ++ back) {w : Walk}
    (hw : w.summary = summaryOf fields fun f => countsOf host mapA mapB f (OrderedMap.keys front)) :
    (back.foldl (visitA host fields mapB) w).summary =
      summaryOf fields fun f => countsOf host mapA mapB f (OrderedMap.keys mapA) := by
  induction back generalizing front w with
  | nil =>
    rw [List.append_nil] at hmap
    rw [hmap]
    exact hmap ▸ hw
  | cons e back ih =>
    have hget : OrderedMap.get mapA e.1 = some e.2 := by
      refine OrderedMap.get_of_mem hkeys ?_
      rw [hmap]
      exact List.mem_append_right _ List.mem_cons_self
    have hfront : OrderedMap.keys (front ++ [e]) = OrderedMap.keys front ++ [e.1] := by
      rw [OrderedMap.keys, List.map_append]
      rfl
    have hmap' : mapA = (front ++ [e]) ++ back := by
      rw [hmap, List.append_assoc]
      rfl
    refine ih hmap' ?_
    rw [hfront]
    simp only [countsOf_snoc, jointOutcome, hget]
    unfold visitA
    rcases OrderedMap.get mapB e.1 with _ | rowsB
    · exact hw
    · dsimp only
      rw [hw, foldl_compareField_summaryOf host hnodup]

/-- The keys of source A that B does not have are found by the loop over A as the loop over B finds its own. -/
theorem foldl_visitA_only (fields : List ReconField) (mapB m : List (String × KeyRows)) (w : Walk) :
    ((m.foldl (visitA host fields mapB) w).onlyACount, (m.foldl (visitA host fields mapB) w).onlyA) =
      m.foldl (visitB mapB) (w.onlyACount, w.onlyA) := by
  induction m generalizing w with
  | nil => rfl
  | cons e m ih =>
    rw [List.foldl_cons, List.foldl_cons, ih]
    congr 1
    unfold visitA visitB
    cases OrderedMap.get mapB e.1 <;> rfl

theorem mem_keys_indexByKey {rows : List ReconRow} {k : String} :
    k ∈ OrderedMap.keys (indexByKey host rows).map ↔ k ≠ "" ∧ k ∈ rows.map (keyOf host) := by
  suffices h : ∀ map, k ∈ OrderedMap.keys (rows.foldl (indexRow host) map) ↔
      k ∈ OrderedMap.keys map ∨ (k ≠ "" ∧ k ∈ rows.map (keyOf host)) by
    refine (h []).trans ⟨fun hk => hk.resolve_left List.not_mem_nil, .inr⟩
  induction rows with
  | nil => simp
  | cons row rows ih =>
    intro map
    have hstep : k ∈ OrderedMap.keys (indexRow host map row) ↔
        k ∈ OrderedMap.keys map ∨ (k ≠ "" ∧ k = keyOf host row) := by
      unfold indexRow
      dsimp only
      split_ifs with hblank
      · exact ⟨.inl, fun h => h.elim id fun h => absurd (h.2.trans hblank) h.1⟩
      · rw [OrderedMap.keys_alter]
        split_ifs with hmem
        · exact ⟨.inl, fun h => h.elim id fun h => h.2 ▸ hmem⟩
        · rw [List.mem_append, List.mem_singleton]
          exact or_congr_right ⟨fun h => ⟨h ▸ hblank, h⟩, fun h => h.2⟩
    rw [List.foldl_cons, ih, hstep, List.map_cons, List.mem_cons, or_assoc, ← and_or_left]

/-- The distinct keys of a source that are not blank. -/
def distinctKeys (rows : List ReconRow) : List String := ((rows.map (keyOf host)).filter (· ≠ "")).dedup

theorem length_keys_indexByKey (rows : List ReconRow) :
    (OrderedMap.keys (indexByKey host rows).map).length = (distinctKeys host rows).length := by
  refine List.Perm.length_eq ((List.perm_ext_iff_of_nodup (nodup_keys_indexByKey host rows) (List.nodup_dedup _)).mpr ?_)
  intro k
  rw [mem_keys_indexByKey, List.mem_dedup, List.mem_filter, decide_eq_true_eq, and_comm]

/-- Keys of both sides are counted the same on either side. -/
theorem countP_comm {ks ls : List String} (hks : ks.Nodup) (hls : ls.Nodup) {p : String → Bool}
    (hp : ∀ k, p k = true → (k ∈ ks ↔ k ∈ ls)) : ks.countP p = ls.countP p := by
  rw [List.countP_eq_length_filter, List.countP_eq_length_filter]
  refine List.Perm.length_eq ((List.perm_ext_iff_of_nodup (hks.filter _) (hls.filter _)).mpr fun k => ?_)
  rw [List.mem_filter, List.mem_filter]
  exact ⟨fun h => ⟨(hp k h.2).mp h.1, h.2⟩, fun h => ⟨(hp k h.2).mpr h.1, h.2⟩⟩

theorem countP_isSome_add (mapB : List (String × KeyRows)) (ks : List String) :
    (ks.countP fun k => (OrderedMap.get mapB k).isSome) + (ks.countP fun k => !(OrderedMap.get mapB k).isSome) = ks.length := by
  rw [List.length_eq_countP_add_countP fun k => (OrderedMap.get mapB k).isSome]
  congr 1
  refine List.countP_congr fun k _ => ?_
  cases OrderedMap.get mapB k <;> simp

/-! The laws of the report. -/

/-- The reconciliation splits the keys of both sides, and its parts change places with the sides. -/
structure ReconcileLaws (a b : List ReconRow) (fields : List ReconField) : Prop where
  splitA : (reconcile host a b fields).matched + (reconcile host a b fields).onlyACount = (distinctKeys host a).length
  splitB : (reconcile host a b fields).matched + (reconcile host a b fields).onlyBCount = (distinctKeys host b).length
  roles : (reconcile host a b fields).fields.map FieldSummary.role = fields.map ReconField.role
  counts : ∀ s ∈ (reconcile host a b fields).fields, s.agree + s.differ + s.absent = (reconcile host a b fields).matched
  swapMatched : (reconcile host b a fields).matched = (reconcile host a b fields).matched
  swapOnlyA : (reconcile host b a fields).onlyA = (reconcile host a b fields).onlyB
  swapOnlyB : (reconcile host b a fields).onlyB = (reconcile host a b fields).onlyA
  swapOnlyACount : (reconcile host b a fields).onlyACount = (reconcile host a b fields).onlyBCount
  swapOnlyBCount : (reconcile host b a fields).onlyBCount = (reconcile host a b fields).onlyACount
  swapDuplicatesA : (reconcile host b a fields).duplicatesA = (reconcile host a b fields).duplicatesB
  swapDuplicatesB : (reconcile host b a fields).duplicatesB = (reconcile host a b fields).duplicatesA
  swapFields : (reconcile host b a fields).fields = (reconcile host a b fields).fields
  selfDiffer : ∀ s ∈ (reconcile host a a fields).fields, s.differ = 0
  selfConflicts : (reconcile host a a fields).conflicts = []
  selfOnlyA : (reconcile host a a fields).onlyA = [] ∧ (reconcile host a a fields).onlyACount = 0
  selfOnlyB : (reconcile host a a fields).onlyB = [] ∧ (reconcile host a a fields).onlyBCount = 0

section laws
variable (a b : List ReconRow) (fields : List ReconField)

theorem reconcile_matched : (reconcile host a b fields).matched =
    (OrderedMap.keys (indexByKey host a).map).countP fun k => (OrderedMap.get (indexByKey host b).map k).isSome := by
  simp only [reconcile, foldl_visitA_matched, Nat.zero_add]

theorem reconcile_onlyA : ((reconcile host a b fields).onlyACount, (reconcile host a b fields).onlyA) =
    (indexByKey host a).map.foldl (visitB (indexByKey host b).map) (0, []) :=
  foldl_visitA_only host fields _ _ _

theorem reconcile_fields {fields : List ReconField} (hnodup : (fields.map ReconField.role).Nodup) :
    (reconcile host a b fields).fields = fields.map fun f =>
      countsOf host (indexByKey host a).map (indexByKey host b).map f (OrderedMap.keys (indexByKey host a).map) := by
  have hwalk : ((indexByKey host a).map.foldl (visitA host fields (indexByKey host b).map)
      ⟨0, 0, [], [], initialSummary fields⟩).summary = summaryOf fields fun f =>
        countsOf host (indexByKey host a).map (indexByKey host b).map f (OrderedMap.keys (indexByKey host a).map) :=
    foldl_visitA_summary host hnodup (nodup_keys_indexByKey host a) (List.nil_append _).symm (initialSummary_eq hnodup)
  simp only [reconcile, hwalk, summaryOf, List.map_map]
  rfl

theorem reconcile_onlyACount : (reconcile host a b fields).onlyACount =
    (OrderedMap.keys (indexByKey host a).map).countP fun k => !(OrderedMap.get (indexByKey host b).map k).isSome := by
  simp only [reconcile, foldl_visitA_onlyACount, Nat.zero_add]

theorem reconcile_onlyBCount : (reconcile host a b fields).onlyBCount =
    (OrderedMap.keys (indexByKey host b).map).countP fun k => !(OrderedMap.get (indexByKey host a).map k).isSome := by
  simp only [reconcile, foldl_visitB_count, Nat.zero_add]

/-- A count over the keys of a map sees only keys that the map has. -/
theorem countP_keys (m : List (String × KeyRows)) (p : String → Bool) :
    (OrderedMap.keys m).countP p = (OrderedMap.keys m).countP fun k => (OrderedMap.get m k).isSome && p k := by
  refine List.countP_congr fun k hk => ?_
  rw [OrderedMap.mem_keys_iff.mp hk, Bool.true_and]

/-- What is counted of keys of both maps is counted the same over either. -/
theorem countP_keys_comm {p : String → Bool}
    (hp : ∀ k, p k = true → (OrderedMap.get (indexByKey host a).map k).isSome ∧ (OrderedMap.get (indexByKey host b).map k).isSome) :
    (OrderedMap.keys (indexByKey host b).map).countP p = (OrderedMap.keys (indexByKey host a).map).countP p :=
  countP_comm (nodup_keys_indexByKey host b) (nodup_keys_indexByKey host a) fun k hk =>
    ⟨fun _ => OrderedMap.mem_keys_iff.mpr (hp k hk).1, fun _ => OrderedMap.mem_keys_iff.mpr (hp k hk).2⟩

theorem reconcile_matched_comm : (reconcile host b a fields).matched = (reconcile host a b fields).matched := by
  rw [reconcile_matched, reconcile_matched, countP_keys, countP_keys (indexByKey host a).map]
  simp only [Bool.and_comm (OrderedMap.get (indexByKey host b).map _).isSome]
  exact countP_keys_comm host a b fun k hk => Bool.and_eq_true_iff.mp hk

theorem countsOf_comm (f : ReconField) :
    countsOf host (indexByKey host b).map (indexByKey host a).map f (OrderedMap.keys (indexByKey host b).map) =
      countsOf host (indexByKey host a).map (indexByKey host b).map f (OrderedMap.keys (indexByKey host a).map) := by
  have hcount : ∀ o : FieldOutcome,
      (OrderedMap.keys (indexByKey host b).map).countP
          (fun k => jointOutcome host (indexByKey host b).map (indexByKey host a).map f k = some o) =
        (OrderedMap.keys (indexByKey host a).map).countP
          (fun k => jointOutcome host (indexByKey host a).map (indexByKey host b).map f k = some o) := by
    intro o
    simp only [jointOutcome_comm host (indexByKey host b).map]
    refine countP_keys_comm host a b fun k hk => ?_
    have hsome := isSome_jointOutcome host (indexByKey host a).map (indexByKey host b).map f k
    rw [of_decide_eq_true hk, Option.isSome_some] at hsome
    exact Bool.and_eq_true_iff.mp hsome.symm
  simp only [countsOf, hcount]

theorem countsOf_total (f : ReconField) :
    (countsOf host (indexByKey host a).map (indexByKey host b).map f (OrderedMap.keys (indexByKey host a).map)).agree +
        (countsOf host (indexByKey host a).map (indexByKey host b).map f (OrderedMap.keys (indexByKey host a).map)).differ +
        (countsOf host (indexByKey host a).map (indexByKey host b).map f (OrderedMap.keys (indexByKey host a).map)).absent =
      (reconcile host a b fields).matched := by
  rw [reconcile_matched]
  simp only [countsOf]
  have hall : ∀ ks : List String, (∀ k ∈ ks, (OrderedMap.get (indexByKey host a).map k).isSome) →
      ks.countP (fun k => jointOutcome host (indexByKey host a).map (indexByKey host b).map f k = some .agree) +
        ks.countP (fun k => jointOutcome host (indexByKey host a).map (indexByKey host b).map f k = some .differ) +
        ks.countP (fun k => jointOutcome host (indexByKey host a).map (indexByKey host b).map f k = some .absent) =
        ks.countP fun k => (OrderedMap.get (indexByKey host b).map k).isSome := by
    intro ks hks
    induction ks with
    | nil => rfl
    | cons k ks ih =>
      have hsome := isSome_jointOutcome host (indexByKey host a).map (indexByKey host b).map f k
      rw [hks k List.mem_cons_self, Bool.true_and] at hsome
      have htail := ih fun k' hk' => hks k' (List.mem_cons_of_mem _ hk')
      simp only [List.countP_cons, ← hsome]
      rcases jointOutcome host (indexByKey host a).map (indexByKey host b).map f k with _ | o
      · simpa using htail
      · cases o <;> simp <;> omega
  exact hall _ fun k hk => OrderedMap.mem_keys_iff.mp hk

end laws

section self
variable (a : List ReconRow)

theorem jointOutcome_self (map : List (String × KeyRows)) (f : ReconField) (k : String) :
    jointOutcome host map map f k ≠ some .differ := by
  unfold jointOutcome
  rcases OrderedMap.get map k with _ | rows
  · simp
  · exact fun h => outcomeOf_self host rows.first f (Option.some.inj h)

theorem foldl_visitB_self {mapA m : List (String × KeyRows)} (h : ∀ e ∈ m, (OrderedMap.get mapA e.1).isSome)
    (acc : ℕ × List String) : m.foldl (visitB mapA) acc = acc := by
  induction m with
  | nil => rfl
  | cons e m ih =>
    rw [List.foldl_cons, visitB, if_pos (h e List.mem_cons_self)]
    exact ih fun e' he' => h e' (List.mem_cons_of_mem _ he')

theorem visitB_self : (indexByKey host a).map.foldl (visitB (indexByKey host a).map) (0, []) = (0, []) :=
  foldl_visitB_self (fun _ he => OrderedMap.mem_keys_iff.mp (List.mem_map.mpr ⟨_, he, rfl⟩)) _

theorem diffOf_self (row : ReconRow) (f : ReconField) : diffOf host row row f = none := by
  unfold diffOf
  cases row.value f.role with
  | none => rfl
  | some v =>
    have hagree := (valuesAgree_equivalence host f.compare).refl v
    simp only [hagree, or_true, if_true]

theorem conflicts_self (fields : List ReconField) : (reconcile host a a fields).conflicts = [] := by
  rw [reconcile_conflicts, List.take_eq_nil_iff]
  right
  rw [List.filter_eq_nil_iff]
  intro pair hpair
  obtain ⟨e, he, hpairOf⟩ := List.mem_filterMap.mp hpair
  have hget := OrderedMap.get_of_mem (nodup_keys_indexByKey host a) he
  unfold pairOf at hpairOf
  rw [hget] at hpairOf
  obtain rfl := Option.some.inj hpairOf
  have hdiffs : pairDiffs host fields e.2.first e.2.first = [] := by
    rw [pairDiffs_eq, List.filterMap_eq_nil_iff]
    exact fun f _ => diffOf_self host e.2.first f
  simp [hdiffs]

end self

/-- The laws hold of any two sources, and the agreement of values is an equivalence in every mode. -/
theorem reconcile_laws {fields : List ReconField} (hroles : (fields.map ReconField.role).Nodup) :
    (∀ a b : List ReconRow, ReconcileLaws host a b fields) ∧
      ∀ compare : CompareAs, Equivalence fun x y => valuesAgree host x y compare = true := by
  refine ⟨fun a b => ?_, valuesAgree_equivalence host⟩
  have hAB := reconcile_onlyA host a b fields
  have hBA := reconcile_onlyA host b a fields
  have hself := (reconcile_onlyA host a a fields).trans (visitB_self host a)
  constructor
  · rw [reconcile_matched, reconcile_onlyACount, countP_isSome_add, length_keys_indexByKey]
  · rw [← reconcile_matched_comm, reconcile_matched, reconcile_onlyBCount, countP_isSome_add, length_keys_indexByKey]
  · rw [reconcile_fields host a b hroles, List.map_map]
    rfl
  · intro s hs
    rw [reconcile_fields host a b hroles] at hs
    obtain ⟨f, -, rfl⟩ := List.mem_map.mp hs
    exact countsOf_total host a b fields f
  · exact reconcile_matched_comm host a b fields
  · exact congrArg Prod.snd hBA
  · exact (congrArg Prod.snd hAB).symm
  · exact congrArg Prod.fst hBA
  · exact (congrArg Prod.fst hAB).symm
  · rfl
  · rfl
  · rw [reconcile_fields host a b hroles, reconcile_fields host b a hroles]
    exact List.map_congr_left fun f _ => countsOf_comm host a b f
  · intro s hs
    rw [reconcile_fields host a a hroles] at hs
    obtain ⟨f, -, rfl⟩ := List.mem_map.mp hs
    refine List.countP_eq_zero.mpr fun k _ => ?_
    simpa using jointOutcome_self host (indexByKey host a).map f k
  · exact conflicts_self host a fields
  · exact ⟨congrArg Prod.snd hself, congrArg Prod.fst hself⟩
  · exact ⟨congrArg Prod.snd (visitB_self host a), congrArg Prod.fst (visitB_self host a)⟩

/-- Two fields, one of them a number that the two sources write differently. -/
def twoFields : List ReconField := [⟨"machine", "Автомат", .key⟩, ⟨"amount", "Сумма", .number⟩]

theorem reconcile_laws_twoFields :
    (∀ a b : List ReconRow, ReconcileLaws plainHost a b twoFields) ∧
      ∀ compare : CompareAs, Equivalence fun x y => valuesAgree plainHost x y compare = true :=
  reconcile_laws plainHost (by decide)

end Mydon.Recon
