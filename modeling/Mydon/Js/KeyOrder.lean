import Mathlib.Data.List.Lex
import Mydon.Js.Parse

/-! Values equal up to the order of the keys of their objects: they have one canonical form,
and the canonical text tells the others apart. -/

namespace Mydon.Js.Json

open Mydon.Lib

mutual

/-- Equal up to the order of the keys, at every depth. -/
def Same : Json → Json → Prop
  | .null, .null => True
  | .bool b, .bool b' => b = b'
  | .num n, .num n' => n = n'
  | .str s, .str s' => s = s'
  | .arr items, .arr items' => SameItems items items'
  | .obj entries, .obj entries' => entries.length = entries'.length ∧ SameEntries entries entries'
  | _, _ => False

def SameItems : List Json → List Json → Prop
  | [], [] => True
  | v :: items, v' :: items' => Same v v' ∧ SameItems items items'
  | _, _ => False

/-- Every entry has one with its key and the same value. -/
def SameEntries : List (String × Json) → List (String × Json) → Prop
  | [], _ => True
  | (key, v) :: entries, entries' => (∃ v', (key, v') ∈ entries' ∧ Same v v') ∧ SameEntries entries entries'

end

/-! The order of the keys. -/

theorem keyLE_iff (a b : String × Json) : keyLE a b ↔ codeUnits a.1 ≤ codeUnits b.1 := by
  unfold keyLE before
  rw [decide_eq_false_iff_not, not_lt]

theorem pairwise_sorted (entries : List (String × Json)) : (entries.insertionSort keyLE).Pairwise keyLE := by
  have htotal : Std.Total keyLE := ⟨fun a b => by simpa only [keyLE_iff] using le_total _ _⟩
  have htrans : IsTrans (String × Json) keyLE := ⟨fun a b c => by simpa only [keyLE_iff] using le_trans⟩
  exact List.pairwise_insertionSort _ _

/-- Entries with distinct keys have one sorted list. -/
theorem sorted_eq_iff {entries entries' : List (String × Json)} (hnodup : (entries.map Prod.fst).Nodup) :
    entries.insertionSort keyLE = entries'.insertionSort keyLE ↔ entries.Perm entries' := by
  have hperm := List.perm_insertionSort keyLE entries
  have hperm' := List.perm_insertionSort keyLE entries'
  constructor
  · intro h
    exact hperm.symm.trans (h ▸ hperm')
  · intro h
    have hboth := hperm.trans (h.trans hperm'.symm)
    refine hboth.eq_of_pairwise ?_ (pairwise_sorted entries) (pairwise_sorted entries')
    intro a b ha hb hab hba
    rw [keyLE_iff] at hab hba
    have hkey : a.1 = b.1 := codeUnits_inj (le_antisymm hab hba)
    exact List.inj_on_of_nodup_map hnodup (hperm.subset ha) (h.symm.subset (hperm'.subset hb)) hkey

/-- Entries with distinct keys are a permutation of others when there are as many and each is there. -/
theorem perm_iff_subset {l l' : List (String × Json)} (hnodup : (l.map Prod.fst).Nodup) :
    l.Perm l' ↔ l.length = l'.length ∧ ∀ e ∈ l, e ∈ l' := by
  constructor
  · intro h
    exact ⟨h.length_eq, fun e he => h.subset he⟩
  · rintro ⟨hlength, hsub⟩
    exact (List.subperm_of_subset hnodup.of_map hsub).perm_of_length_le hlength.ge

variable {host : Host}

theorem wellFormed_of_mem {entries : List (String × Json)} (h : WellFormedEntries host entries) {e : String × Json}
    (he : e ∈ entries) : WellFormed host e.2 := by
  induction entries with
  | nil => exact absurd he List.not_mem_nil
  | cons e' entries ih =>
    rcases List.mem_cons.mp he with rfl | he
    · exact h.1
    · exact ih h.2 he

theorem mem_canonicalEntries {entries : List (String × Json)} {e : String × Json} :
    e ∈ canonicalEntries entries ↔ ∃ v, (e.1, v) ∈ entries ∧ canonical v = e.2 := by
  rw [canonicalEntries_eq_map, List.mem_map]
  constructor
  · rintro ⟨⟨key, v⟩, he, rfl⟩
    exact ⟨v, he, rfl⟩
  · rintro ⟨v, he, hv⟩
    exact ⟨(e.1, v), he, Prod.ext rfl hv⟩

theorem length_canonicalEntries (entries : List (String × Json)) : (canonicalEntries entries).length = entries.length := by
  rw [canonicalEntries_eq_map, List.length_map]

mutual

/-- The values with one canonical form are those equal up to the order of keys. -/
theorem same_iff (a b : Json) (ha : WellFormed host a) (hb : WellFormed host b) :
    Same a b ↔ canonical a = canonical b := by
  match a, b, ha, hb with
  | .obj entries, .obj entries', ha, hb =>
    have hnodup : ((canonicalEntries entries).map Prod.fst).Nodup := by
      rw [keys_canonicalEntries]
      exact ha.1
    have hentries := sameEntries_iff entries entries' ha.2 hb.2
    rw [Same, canonical, canonical, obj.injEq, sorted_eq_iff hnodup, perm_iff_subset hnodup, length_canonicalEntries,
      length_canonicalEntries, hentries]
  | .arr items, .arr items', ha, hb =>
    rw [Same, canonical, canonical, arr.injEq]
    exact sameItems_iff items items' ha hb
  | .null, b, _, _ => cases b <;> simp [Same, canonical]
  | .bool b', b, _, _ => cases b <;> simp [Same, canonical]
  | .num n, b, _, _ => cases b <;> simp [Same, canonical]
  | .str s, b, _, _ => cases b <;> simp [Same, canonical]
  | .arr _, .null, _, _ | .arr _, .bool _, _, _ | .arr _, .num _, _, _ | .arr _, .str _, _, _ | .arr _, .obj _, _, _ =>
    simp [Same, canonical]
  | .obj _, .null, _, _ | .obj _, .bool _, _, _ | .obj _, .num _, _, _ | .obj _, .str _, _, _ | .obj _, .arr _, _, _ =>
    simp [Same, canonical]

theorem sameItems_iff (items items' : List Json) (h : WellFormedItems host items) (h' : WellFormedItems host items') :
    SameItems items items' ↔ canonicalItems items = canonicalItems items' := by
  match items, items', h, h' with
  | [], [], _, _ => simp [SameItems, canonicalItems]
  | [], v' :: items', _, _ => simp [SameItems, canonicalItems]
  | v :: items, [], _, _ => simp [SameItems, canonicalItems]
  | v :: items, v' :: items', h, h' =>
    rw [SameItems, canonicalItems, canonicalItems, List.cons.injEq, same_iff v v' h.1 h'.1,
      sameItems_iff items items' h.2 h'.2]

theorem sameEntries_iff (entries entries' : List (String × Json)) (h : WellFormedEntries host entries)
    (h' : WellFormedEntries host entries') :
    SameEntries entries entries' ↔ ∀ e ∈ canonicalEntries entries, e ∈ canonicalEntries entries' := by
  match entries, h with
  | [], _ => simp [SameEntries, canonicalEntries]
  | (key, v) :: entries, h =>
    have hv : ∀ v', (key, v') ∈ entries' → (Same v v' ↔ canonical v = canonical v') :=
      fun v' hv' => same_iff v v' h.1 (wellFormed_of_mem h' hv')
    rw [SameEntries, canonicalEntries, List.forall_mem_cons, sameEntries_iff entries entries' h.2 h',
      mem_canonicalEntries]
    apply and_congr_left'
    constructor
    · rintro ⟨v', hmem, hsame⟩
      exact ⟨v', hmem, ((hv v' hmem).mp hsame).symm⟩
    · rintro ⟨v', hmem, hcanonical⟩
      exact ⟨v', hmem, (hv v' hmem).mpr hcanonical.symm⟩

end

/-! Canonical values. -/

theorem wellFormedEntries_iff {entries : List (String × Json)} :
    WellFormedEntries host entries ↔ ∀ e ∈ entries, WellFormed host e.2 := by
  refine ⟨fun h e he => wellFormed_of_mem h he, ?_⟩
  intro h
  induction entries with
  | nil => trivial
  | cons e entries ih =>
    obtain ⟨key, v⟩ := e
    obtain ⟨hv, hrest⟩ := List.forall_mem_cons.mp h
    exact ⟨hv, ih hrest⟩

mutual

theorem wellFormed_canonical (v : Json) (h : WellFormed host v) : WellFormed host v.canonical := by
  match v, h with
  | .null, _ => trivial
  | .bool _, _ => trivial
  | .num _, h => exact h
  | .str _, _ => trivial
  | .arr items, h => exact wellFormed_canonicalItems items h
  | .obj entries, h =>
    have hperm := List.perm_insertionSort keyLE (canonicalEntries entries)
    have hentries := wellFormedEntries_iff.mp (wellFormed_canonicalEntries entries h.2)
    rw [canonical]
    refine ⟨?_, wellFormedEntries_iff.mpr fun e he => hentries e (hperm.subset he)⟩
    rw [(hperm.map Prod.fst).nodup_iff, keys_canonicalEntries]
    exact h.1

theorem wellFormed_canonicalItems (items : List Json) (h : WellFormedItems host items) :
    WellFormedItems host (canonicalItems items) := by
  match items, h with
  | [], _ => trivial
  | v :: items, h => exact ⟨wellFormed_canonical v h.1, wellFormed_canonicalItems items h.2⟩

theorem wellFormed_canonicalEntries (entries : List (String × Json)) (h : WellFormedEntries host entries) :
    WellFormedEntries host (canonicalEntries entries) := by
  match entries, h with
  | [], _ => trivial
  | (_, v) :: entries, h => exact ⟨wellFormed_canonical v h.1, wellFormed_canonicalEntries entries h.2⟩

end

/-- A printed canonical value tells what it was printed of, up to the order of keys. -/
theorem stringify_canonical_inj {a b : Json} (ha : WellFormed host a) (hb : WellFormed host b) :
    a.canonical.stringify host = b.canonical.stringify host ↔ Same a b := by
  rw [same_iff a b ha hb]
  constructor
  · intro h
    have hread := parse_stringify (wellFormed_canonical a ha)
    rw [h, parse_stringify (wellFormed_canonical b hb)] at hread
    exact (Option.some.inj hread).symm
  · intro h
    rw [h]

mutual

theorem canonical_canonical (v : Json) (h : WellFormed host v) : v.canonical.canonical = v.canonical := by
  match v, h with
  | .null, _ => rfl
  | .bool _, _ => rfl
  | .num _, _ => rfl
  | .str _, _ => rfl
  | .arr items, h => rw [canonical, canonical, canonicalItems_canonicalItems items h]
  | .obj entries, h =>
    have hperm := (List.perm_insertionSort keyLE (canonicalEntries entries)).map fun e => (e.1, canonical e.2)
    rw [← canonicalEntries_eq_map, ← canonicalEntries_eq_map, canonicalEntries_canonicalEntries entries h.2] at hperm
    have hnodup : ((canonicalEntries entries).map Prod.fst).Nodup := by
      rw [keys_canonicalEntries]
      exact h.1
    have hsorted : (obj entries).canonical = obj ((canonicalEntries entries).insertionSort keyLE) := by rw [canonical]
    rw [hsorted, canonical]
    exact congrArg obj ((sorted_eq_iff hnodup).mpr hperm.symm).symm

theorem canonicalItems_canonicalItems (items : List Json) (h : WellFormedItems host items) :
    canonicalItems (canonicalItems items) = canonicalItems items := by
  match items, h with
  | [], _ => rfl
  | v :: items, h =>
    rw [canonicalItems, canonicalItems, canonical_canonical v h.1, canonicalItems_canonicalItems items h.2]

theorem canonicalEntries_canonicalEntries (entries : List (String × Json)) (h : WellFormedEntries host entries) :
    canonicalEntries (canonicalEntries entries) = canonicalEntries entries := by
  match entries, h with
  | [], _ => rfl
  | (key, v) :: entries, h =>
    rw [canonicalEntries, canonicalEntries, canonical_canonical v h.1, canonicalEntries_canonicalEntries entries h.2]

end

theorem same_canonical {v : Json} (h : WellFormed host v) : Same v v.canonical :=
  (same_iff v v.canonical h (wellFormed_canonical v h)).mpr (canonical_canonical v h).symm

end Mydon.Js.Json
