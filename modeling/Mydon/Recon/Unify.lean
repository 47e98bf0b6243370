import Mathlib.Data.List.Sort
import Mydon.Recon.Reconcile

/-! The unified sales journal: two sources as one list of orders, each operation
once. Sums of money are rational numbers. -/

namespace Mydon.Recon

open Mydon.Lib

inductive Presence
  | both
  | onlyA
  | onlyB
  deriving DecidableEq

structure UnifiedField where
  role : String
  label : String
  compare : CompareAs
  a : Option String
  b : Option String
  /-- `none`: one side only, nothing to compare. -/
  agree : Option Bool
  deriving DecidableEq

structure UnifiedOrder where
  key : String
  presence : Presence
  conflict : Bool
  duplicated : Bool
  fields : List UnifiedField
  deriving DecidableEq

structure DailyBucket where
  day : String
  serial : String
  product : String
  orders : ℕ
  revenue : ℚ
  hasConflict : Bool
  deriving DecidableEq

structure UnifiedJournal where
  totalA : ℕ
  totalB : ℕ
  union : ℕ
  both : ℕ
  onlyA : ℕ
  onlyB : ℕ
  conflicts : ℕ
  duplicated : ℕ
  page : ℤ
  size : ℤ
  orders : List UnifiedOrder
  daily : List DailyBucket
  deriving DecidableEq

variable (host : Js.Host)

def UnifiedOrder.field (order : UnifiedOrder) (role : String) : Option UnifiedField :=
  order.fields.find? (·.role = role)

def fieldValue (order : UnifiedOrder) (role : String) : Option String :=
  (order.field role).bind fun f => f.a.or f.b

def dayKey (day serial product : String) : String × String × String :=
  (day, normalizeSourceKey host serial, normalizeSourceKey host product)

def DailyBucket.add (bucket : DailyBucket) (amount : ℚ) (amountConflict : Bool) : DailyBucket :=
  { bucket with
    orders := bucket.orders + 1
    revenue := bucket.revenue + amount
    hasConflict := bucket.hasConflict || amountConflict }

def isTestShipment (o : UnifiedOrder) : Bool :=
  match fieldValue o "kind" with
  | some kind => host.toLowerCase (Js.trim kind) == "testshipment"
  | none => false

def bucketOrder (map : List ((String × String × String) × DailyBucket)) (o : UnifiedOrder) :
    List ((String × String × String) × DailyBucket) :=
  if isTestShipment host o then map
  else
    match fieldValue o "ts" with
    | none => map
    | some ts =>
      let day := Js.take 10 ts
      let serial := (fieldValue o "machine").getD ""
      let product := (fieldValue o "product").getD ""
      if Js.length day < 10 ∨ Js.length (Js.trim serial) = 0 ∨ Js.length (Js.trim product) = 0 then map
      else
        let amountField := o.field "amount"
        let amount := (amountField.bind fun f => (f.a.or f.b).bind (toNumber host)).getD 0
        let amountConflict := (amountField.bind UnifiedField.agree) == some false
        OrderedMap.alter
          (fun bucket => (bucket.getD ⟨day, serial, product, 0, 0, false⟩).add amount amountConflict)
          (dayKey host day serial product) map

def dailyBuckets (orders : List UnifiedOrder) : List DailyBucket :=
  (orders.foldl (bucketOrder host) []).map Prod.snd

/-- First row of each key, how often each key was seen, and the repeated keys. -/
structure FirstIndex where
  first : List (String × ReconRow)
  seen : List (String × ℕ)
  dup : List String

def indexFirst (ix : FirstIndex) (row : ReconRow) : FirstIndex :=
  let k := keyOf host row
  if k = "" then ix
  else
    let n := (OrderedMap.get ix.seen k).getD 0 + 1
    let seen := OrderedMap.alter (fun _ => n) k ix.seen
    if n = 1 then { ix with seen, first := OrderedMap.alter (fun _ => row) k ix.first }
    else { ix with seen, dup := OrderedMap.addKey ix.dup k }

def index (rows : List ReconRow) : FirstIndex := rows.foldl (indexFirst host) ⟨[], [], []⟩

def rank (o : UnifiedOrder) : ℤ :=
  if o.conflict then 0 else if o.presence ≠ .both then 1 else 2

def byKeyDesc (a b : String) : ℚ :=
  let na := if Js.trim a ≠ "" then host.number a else none
  let nb := if Js.trim b ≠ "" then host.number b else none
  match na, nb with
  | some na, some nb => nb - na
  | some _, none => -1
  | none, some _ => 1
  | none, none => host.localeCompare b a

/-- The comparator of the final sort, `≤ 0`. -/
def sortsBefore (x y : UnifiedOrder) : Prop :=
  if rank x - rank y = 0 then byKeyDesc host x.key y.key ≤ 0 else rank x - rank y ≤ 0

instance : DecidableRel (sortsBefore host) := fun x y =>
  inferInstanceAs (Decidable (if rank x - rank y = 0 then _ else _))

/-- The value of a cell, when it is not empty. -/
def present (row : Option ReconRow) (role : String) : Option String :=
  (row.bind (·.value role)).filter (· ≠ "")

/-- One turn of the loop over the fields of an order. -/
def fieldOf (rowA rowB : Option ReconRow) (acc : List UnifiedField × Bool) (f : ReconField) :
    List UnifiedField × Bool :=
  match present rowA f.role, present rowB f.role with
  | none, none => acc
  | some a, some b =>
    let agree := valuesAgree host a b f.compare
    (acc.1 ++ [⟨f.role, f.label, f.compare, some a, some b, some agree⟩], acc.2 || !agree)
  | a, b => (acc.1 ++ [⟨f.role, f.label, f.compare, a, b, none⟩], acc.2)

def fieldsOf (fields : List ReconField) (rowA rowB : Option ReconRow) : List UnifiedField × Bool :=
  fields.foldl (fieldOf host rowA rowB) ([], false)

def presenceOf (rowA rowB : Option ReconRow) : Presence :=
  if rowA.isSome && rowB.isSome then .both else if rowA.isSome then .onlyA else .onlyB

/-- The order built for the key `k` of either index. -/
def orderFor (fields : List ReconField) (ia ib : FirstIndex) (k : String) : UnifiedOrder :=
  let rowA := OrderedMap.get ia.first k
  let rowB := OrderedMap.get ib.first k
  let built := fieldsOf host fields rowA rowB
  { key := ((rowA.or rowB).map ReconRow.key).getD ""
    presence := presenceOf rowA rowB
    conflict := built.2
    duplicated := decide (k ∈ ia.dup) || decide (k ∈ ib.dup)
    fields := built.1 }

structure Tally where
  both : ℕ
  onlyA : ℕ
  onlyB : ℕ
  conflicts : ℕ
  duplicated : ℕ
  orders : List UnifiedOrder

/-- One turn of the loop over the keys of both sources. -/
def visitKey (fields : List ReconField) (ia ib : FirstIndex) (tally : Tally) (k : String) : Tally :=
  let order := orderFor host fields ia ib k
  { both := tally.both + (if order.presence = .both then 1 else 0)
    onlyA := tally.onlyA + (if order.presence = .onlyA then 1 else 0)
    onlyB := tally.onlyB + (if order.presence = .onlyB then 1 else 0)
    conflicts := tally.conflicts + (if order.conflict then 1 else 0)
    duplicated := tally.duplicated + (if order.duplicated then 1 else 0)
    orders := tally.orders ++ [order] }

def unifyKeys (ia ib : FirstIndex) : List String :=
  OrderedMap.keySet (OrderedMap.keys ia.first ++ OrderedMap.keys ib.first)

def unify (a b : List ReconRow) (fields : List ReconField) (page size : ℤ) : UnifiedJournal :=
  let ia := index host a
  let ib := index host b
  let keys := unifyKeys ia ib
  let tally := keys.foldl (visitKey host fields ia ib) ⟨0, 0, 0, 0, 0, []⟩
  let orders := tally.orders.insertionSort (sortsBefore host)
  let p := max 1 page
  let s := max 1 size
  { totalA := a.length
    totalB := b.length
    union := keys.length
    both := tally.both
    onlyA := tally.onlyA
    onlyB := tally.onlyB
    conflicts := tally.conflicts
    duplicated := tally.duplicated
    page, size
    orders := (orders.drop ((p - 1) * s).toNat).take s.toNat
    daily := dailyBuckets host orders }

end Mydon.Recon
