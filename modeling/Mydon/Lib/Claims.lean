import Mydon.Lib.OrderedMap
import Mathlib.Data.List.Perm.Basic

/-! Places taken by the items that ask for them, first come, first served; an item without a place, or whose place is
taken, is left over. -/

namespace Mydon.Lib

variable {κ β : Type*} [DecidableEq κ]

structure Claims (κ β : Type*) where
  taken : List (κ × β)
  left : List β

namespace Claims

def claim (acc : Claims κ β) (t : β) : Option κ → Claims κ β
  | none => { acc with left := acc.left ++ [t] }
  | some k =>
    if (OrderedMap.get acc.taken k).isSome then { acc with left := acc.left ++ [t] }
    else { acc with taken := OrderedMap.alter (fun _ => t) k acc.taken }

/-- The items in turn, each asking for its `target`. -/
def claimAll (target : β → Option κ) (acc : Claims κ β) (items : List β) : Claims κ β :=
  items.foldl (fun acc t => acc.claim t (target t)) acc

def all (acc : Claims κ β) : List β := acc.taken.map Prod.snd ++ acc.left

variable {target : β → Option κ} {acc : Claims κ β} {items : List β} {t : β} {k : κ}

/-- What a claim can do: leave the item over, or give it a place that was free. -/
theorem claim_cases (acc : Claims κ β) (t : β) (place : Option κ) :
    ((place = none ∨ ∃ k, place = some k ∧ (OrderedMap.get acc.taken k).isSome) ∧
      acc.claim t place = ⟨acc.taken, acc.left ++ [t]⟩) ∨
    ∃ k, place = some k ∧ OrderedMap.get acc.taken k = none ∧
      acc.claim t place = ⟨OrderedMap.alter (fun _ => t) k acc.taken, acc.left⟩ := by
  rcases place with _ | k
  · exact .inl ⟨.inl rfl, rfl⟩
  · rcases h : OrderedMap.get acc.taken k with _ | old
    · refine .inr ⟨k, rfl, h, ?_⟩
      simp only [claim, h, Option.isSome_none, Bool.false_eq_true, if_false]
    · refine .inl ⟨.inr ⟨k, rfl, by rw [h]; rfl⟩, ?_⟩
      simp only [claim, h, Option.isSome_some, if_true]

theorem claim_perm (acc : Claims κ β) (t : β) (place : Option κ) : (acc.claim t place).all.Perm (acc.all ++ [t]) := by
  rcases claim_cases acc t place with ⟨-, heq⟩ | ⟨k, -, hfree, heq⟩
  · rw [heq, all, all, List.append_assoc]
  · rw [heq, all, all, OrderedMap.alter_of_notMem _ (OrderedMap.get_eq_none_iff.mp hfree), List.map_append,
      List.map_singleton, List.append_assoc, List.append_assoc]
    exact (List.perm_append_comm).append_left _

/-- Every item is placed or left over, once. -/
theorem claimAll_perm (acc : Claims κ β) (items : List β) :
    (acc.claimAll target items).all.Perm (acc.all ++ items) := by
  induction items generalizing acc with
  | nil => simp [claimAll]
  | cons t items ih =>
    refine (ih (acc.claim t (target t))).trans ?_
    rw [List.append_cons]
    exact (claim_perm acc t (target t)).append_right items

theorem nodup_claimAll (h : (OrderedMap.keys acc.taken).Nodup) :
    (OrderedMap.keys (acc.claimAll target items).taken).Nodup := by
  induction items generalizing acc with
  | nil => exact h
  | cons t items ih =>
    refine @ih (acc.claim t (target t)) ?_
    rcases claim_cases acc t (target t) with ⟨-, heq⟩ | ⟨k, -, -, heq⟩
    · rw [heq]
      exact h
    · rw [heq]
      exact OrderedMap.nodup_keys_alter _ _ h

/-- A place once taken stays taken. -/
theorem get_claimAll (h : OrderedMap.get acc.taken k = some t) :
    OrderedMap.get (acc.claimAll target items).taken k = some t := by
  induction items generalizing acc with
  | nil => exact h
  | cons s items ih =>
    refine @ih (acc.claim s (target s)) ?_
    rcases claim_cases acc s (target s) with ⟨-, heq⟩ | ⟨k', -, hfree, heq⟩
    · rw [heq]
      exact h
    · have hne : k' ≠ k := by
        rintro rfl
        exact nomatch hfree.symm.trans h
      rw [heq, OrderedMap.get_alter_of_ne _ _ hne]
      exact h

/-- Only an item that asked for a place has it. -/
theorem mem_claimAll (h : (k, t) ∈ (acc.claimAll target items).taken) :
    (k, t) ∈ acc.taken ∨ t ∈ items ∧ target t = some k := by
  induction items generalizing acc with
  | nil => exact .inl h
  | cons s items ih =>
    rcases @ih (acc.claim s (target s)) h with hacc | ⟨hmem, htarget⟩
    · rcases claim_cases acc s (target s) with ⟨-, heq⟩ | ⟨k', hplace, hfree, heq⟩
      · rw [heq] at hacc
        exact .inl hacc
      · rw [heq] at hacc
        rw [OrderedMap.alter_of_notMem _ (OrderedMap.get_eq_none_iff.mp hfree)] at hacc
        rcases List.mem_append.mp hacc with hacc | hnew
        · exact .inl hacc
        · obtain ⟨rfl, rfl⟩ := Prod.mk.inj (List.mem_singleton.mp hnew)
          exact .inr ⟨List.mem_cons_self, hplace⟩
    · exact .inr ⟨List.mem_cons_of_mem _ hmem, htarget⟩

/-- A place that is asked for is taken. -/
theorem isSome_get_claimAll (ht : t ∈ items) (hplace : target t = some k) :
    (OrderedMap.get (acc.claimAll target items).taken k).isSome := by
  induction items generalizing acc with
  | nil => exact absurd ht List.not_mem_nil
  | cons s items ih =>
    rcases List.mem_cons.mp ht with rfl | ht
    · have hstep : (OrderedMap.get (acc.claim t (target t)).taken k).isSome := by
        rcases claim_cases acc t (target t) with ⟨hno, heq⟩ | ⟨k', hplace', -, heq⟩
        · rcases hno with hnone | ⟨k', hplace', htaken⟩
          · exact nomatch hnone.symm.trans hplace
          · obtain rfl := Option.some.inj (hplace'.symm.trans hplace)
            rw [heq]
            exact htaken
        · obtain rfl := Option.some.inj (hplace'.symm.trans hplace)
          rw [heq, OrderedMap.get_alter_self]
          rfl
      obtain ⟨u, hu⟩ := Option.isSome_iff_exists.mp hstep
      exact Option.isSome_iff_exists.mpr ⟨u, @get_claimAll _ _ _ target (acc.claim t (target t)) items u k hu⟩
    · exact ih ht

end Claims

/-- The values of a map read at all its keys, and others, are its values. -/
theorem filterMap_get_perm {m : List (κ × β)} {ks : List κ} (hm : (OrderedMap.keys m).Nodup) (hks : ks.Nodup)
    (hsub : ∀ k ∈ OrderedMap.keys m, k ∈ ks) : (ks.filterMap (OrderedMap.get m)).Perm (m.map Prod.snd) := by
  have hpairs : (ks.filterMap fun k => (OrderedMap.get m k).map fun v => (k, v)).Perm m := by
    refine (List.perm_ext_iff_of_nodup ?_ (List.Nodup.of_map Prod.fst hm)).mpr fun e => ?_
    · refine List.Nodup.filterMap (fun k k' e he he' => ?_) hks
      obtain ⟨v, -, rfl⟩ := Option.map_eq_some_iff.mp he
      obtain ⟨v', -, heq⟩ := Option.map_eq_some_iff.mp he'
      exact (congrArg Prod.fst heq).symm
    · rw [List.mem_filterMap]
      constructor
      · rintro ⟨k, -, hk⟩
        obtain ⟨v, hv, rfl⟩ := Option.map_eq_some_iff.mp hk
        exact OrderedMap.mem_of_get hv
      · intro he
        exact ⟨e.1, hsub e.1 (List.mem_map_of_mem he), by rw [OrderedMap.get_of_mem hm he]; rfl⟩
  have hvalues := hpairs.map Prod.snd
  rw [List.map_filterMap] at hvalues
  refine List.Perm.trans (List.Perm.of_eq ?_) hvalues
  refine List.filterMap_congr fun k _ => ?_
  rw [Option.map_map]
  cases OrderedMap.get m k <;> rfl

end Mydon.Lib
