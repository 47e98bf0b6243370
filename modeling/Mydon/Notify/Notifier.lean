import Mydon.Notify.Pending

/-! The bot that asks for urgent notifications, sends them, and has their delivery noted in Core. -/

namespace Mydon.Notify

open Mydon.Js Mydon.Lib

def NOTIFIER_STARTUP_LOOKBACK_MS : ℤ := 7 * 24 * 60 * 60000

def NOTIFIER_DELIVERY_BATCH : ℕ := 100

structure CatchupScan where
  upTo : ℤ
  after : Option NotificationCursor

structure PendingNote where
  key : String
  text : String

structure Notifier where
  since : ℤ
  acked : List String
  pending : List (String × String)
  scan : Option CatchupScan
  memoryLimit : ℕ

def Notifier.new (startFrom : ℤ) (memoryLimit : ℕ) : Notifier where
  since := startFrom
  acked := []
  pending := []
  scan := none
  memoryLimit := max NOTIFIER_DELIVERY_BATCH memoryLimit

namespace Notifier

variable (n : Notifier)

def batch : List PendingNote := (n.pending.take NOTIFIER_DELIVERY_BATCH).map fun e => ⟨e.1, e.2⟩

def remember (notes : List PendingNotification) : List (String × String) :=
  notes.foldl (fun pending note =>
    if note.key ∈ n.acked then pending else OrderedMap.set note.key note.notification.text pending) n.pending

/-- `none` from Core: the call has failed. -/
def collect (now : ℤ) (pendingNotifications : ℤ → PendingNotificationsPage → Option PendingNotifications) :
    Notifier × Except String (List PendingNote) :=
  if n.pending.length < n.memoryLimit then
    let scan := n.scan.getD ⟨now, none⟩
    let asked := { n with scan := some scan }
    match pendingNotifications n.since ⟨scan.upTo, scan.after⟩ with
    | none => (asked, .error "Core недоступен")
    | some result =>
      let filled := { asked with pending := asked.remember result.notifications }
      if result.truncated then
        match result.nextCursor with
        | none => (filled, .error "Core вернул truncated без notification cursor")
        | some next =>
          if scan.after = some next then (filled, .error "Core не продвинул notification cursor")
          else
            let moved := { filled with scan := some { scan with after := some next } }
            (moved, .ok moved.batch)
      else
        let finished := { filled with since := scan.upTo - 5000, scan := none }
        (finished, .ok finished.batch)
  else (n, .ok n.batch)

/-- After Core has noted the keys. -/
def noted (keys : List String) : Notifier :=
  let acked := keys.foldl OrderedMap.addKey n.acked
  { n with
    pending := keys.foldl (fun pending k => OrderedMap.delete k pending) n.pending
    acked := if n.memoryLimit < acked.length then [] else acked }

end Notifier

/-! The bot, Core, and what happens meanwhile. -/

structure System where
  /-- Microseconds. -/
  clock : ℤ
  event : List EventRow
  notificationDelivery : List String
  notifier : Notifier
  /-- The keys that `collect` has returned. -/
  returned : List String

/-- Core notes the keys; or notes them and the answer is lost; or the call does not reach it. -/
inductive AckFate
  | stored
  | lost
  | failed
  deriving DecidableEq

inductive Action
  | appear (e : EventRow)
  | tick (d : ℕ)
  | collect (answered : Bool)
  | ack (keys : List String) (fate : AckFate)

section
variable (rules : List Rule) (s : System)

/-- How Core answers. -/
def System.core (answered : Bool) (since : ℤ) (page : PendingNotificationsPage) : Option PendingNotifications :=
  if answered then some (pending rules s.event s.notificationDelivery (toMs s.clock) since true (some page)) else none

def System.collects (answered : Bool) : Notifier × Except String (List PendingNote) :=
  s.notifier.collect (toMs s.clock) (s.core rules answered)

def keysOf : Except String (List PendingNote) → List String
  | .ok notes => notes.map (·.key)
  | .error _ => []

def act : Action → Option System
  | .appear e =>
    if (∀ e' ∈ s.event, e'.id ≠ e.id) ∧ s.clock ≤ e.occurredAt + 5000000 then some { s with event := s.event ++ [e] }
    else none
  | .tick d => some { s with clock := s.clock + d }
  | .collect answered =>
    some { s with
      notifier := (s.collects rules answered).1
      returned := s.returned ++ keysOf (s.collects rules answered).2 }
  | .ack keys fate =>
    if keys.all (s.returned.contains ·) then
      match fate with
      | .stored => some { s with
          notificationDelivery := ack s.notificationDelivery keys
          notifier := if keys.isEmpty then s.notifier else s.notifier.noted keys }
      | .lost => some { s with notificationDelivery := ack s.notificationDelivery keys }
      | .failed => some s
    else none

def Next (s : System) (a : Action) (s' : System) : Prop := act rules s a = some s'

end

end Mydon.Notify
