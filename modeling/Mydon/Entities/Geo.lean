import Mathlib.Algebra.Order.Ring.Rat
import Mydon.Js.Json
import Mydon.Lib.OrderedMap

/-! Coordinates and the address of a point, as the attributes of a card hold them. -/

namespace Mydon.Entities

open Mydon.Lib Mydon.Js

/-- The `attrs` of a card. -/
abbrev Attrs : Type := List (String × Json)

namespace Geo

structure Coord where
  lat : ℚ
  lng : ℚ
  deriving DecidableEq

def toNum (host : Host) : Option Json → Option ℚ
  | some (.num n) => some n
  | some (.str s) => if trim s = "" then none else host.number (trim s)
  | _ => none

def parseCoord (host : Host) (lat lng : Option Json) : Option Coord :=
  match toNum host lat, toNum host lng with
  | some la, some ln =>
    if la < -90 ∨ 90 < la then none
    else if ln < -180 ∨ 180 < ln then none
    else some ⟨la, ln⟩
  | _, _ => none

def isEmpty : Option Json → Bool
  | none | some .null => true
  | some (.str s) => s = ""
  | _ => false

/-- What the attributes say of a place: nothing, a pair that cannot be read, or a point. -/
inductive Declared
  | absent
  | broken
  | point (coord : Coord)
  deriving DecidableEq

def coordFromAttrs (host : Host) (attrs : Attrs) : Declared :=
  let rawLat := OrderedMap.get attrs "широта"
  let rawLng := OrderedMap.get attrs "долгота"
  if isEmpty rawLat && isEmpty rawLng then .absent
  else
    match parseCoord host rawLat rawLng with
    | some coord => .point coord
    | none => .broken

def addressFromAttrs (attrs : Attrs) : Option String :=
  ["точка", "адрес", "локация"].findSome? fun key =>
    match OrderedMap.get attrs key with
    | some (.str v) => if trim v = "" then none else some (trim v)
    | _ => none

variable {host : Host} {attrs : Attrs} {coord : Coord}

/-- A pair that is read is a pair of the world's range. -/
theorem parseCoord_range {lat lng : Option Json} (h : parseCoord host lat lng = some coord) :
    -90 ≤ coord.lat ∧ coord.lat ≤ 90 ∧ -180 ≤ coord.lng ∧ coord.lng ≤ 180 := by
  unfold parseCoord at h
  split at h
  · split_ifs at h with hlat hlng
    obtain rfl := Option.some.inj h
    obtain ⟨hsouth, hnorth⟩ := not_or.mp hlat
    obtain ⟨hwest, heast⟩ := not_or.mp hlng
    exact ⟨not_lt.mp hsouth, not_lt.mp hnorth, not_lt.mp hwest, not_lt.mp heast⟩
  · cases h

theorem coordFromAttrs_range (h : coordFromAttrs host attrs = .point coord) :
    -90 ≤ coord.lat ∧ coord.lat ≤ 90 ∧ -180 ≤ coord.lng ∧ coord.lng ≤ 180 := by
  unfold coordFromAttrs at h
  dsimp only at h
  split_ifs at h
  split at h
  · next hparse =>
    cases h
    exact parseCoord_range hparse
  · cases h

end Geo

end Mydon.Entities
