import Mydon.Js.Json
import Mydon.Lib.Table

/-! Reading a canonical object: sorting the keys loses no entry and adds none. -/

namespace Mydon.Js.Json

open Mydon.Lib

theorem canonicalEntries_eq_map (entries : List (String × Json)) :
    canonicalEntries entries = entries.map fun e => (e.1, canonical e.2) := by
  induction entries with
  | nil => rfl
  | cons e entries ih => rw [canonicalEntries, ih, List.map_cons]

theorem keys_canonicalEntries (entries : List (String × Json)) :
    (canonicalEntries entries).map Prod.fst = entries.map Prod.fst := by
  rw [canonicalEntries_eq_map, List.map_map]
  rfl

/-- The order of the entries does not matter, where no key is there twice. -/
theorem get?_perm {entries entries' : List (String × Json)} (hperm : entries.Perm entries')
    (hnd : (entries.map Prod.fst).Nodup) (key : String) : (obj entries).get? key = (obj entries').get? key := by
  have hnd' : (entries'.map Prod.fst).Nodup := (hperm.map Prod.fst).nodup_iff.mp hnd
  have hfind : Table.lookup Prod.fst entries key = Table.lookup Prod.fst entries' key := by
    refine Option.ext fun e => ?_
    rw [Table.lookup_eq_some_iff hnd, Table.lookup_eq_some_iff hnd', hperm.mem_iff]
  exact congrArg (Option.map Prod.snd) hfind

theorem get?_canonical {entries : List (String × Json)} (hnd : (entries.map Prod.fst).Nodup) (key : String) :
    (obj entries).canonical.get? key = ((obj entries).get? key).map canonical := by
  rw [← keys_canonicalEntries] at hnd
  have hsorted : (obj entries).canonical = obj ((canonicalEntries entries).insertionSort keyLE) := by
    rw [canonical]
  rw [hsorted, ← get?_perm (List.perm_insertionSort keyLE (canonicalEntries entries)).symm hnd,
    canonicalEntries_eq_map]
  unfold get?
  dsimp only
  rw [List.find?_map, Option.map_map, Option.map_map]
  rfl

end Mydon.Js.Json
