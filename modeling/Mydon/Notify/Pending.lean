import Mydon.Js.Json
import Mydon.Lib.OrderedMap
import Mydon.Lib.Paging

/-! What the rules make of events, and the pages of it that Core hands out. Moments of events are
microseconds, those of filters and cursors milliseconds. -/

namespace Mydon.Notify

open Mydon.Js Mydon.Lib

structure RuleContext where
  source : String
  type : String
  payload : Json

inductive NotifyUrgency
  | immediate
  | briefing
  | weekly
  deriving DecidableEq

structure Notification where
  ruleId : String
  urgency : NotifyUrgency
  text : String
  deriving DecidableEq

structure Rule where
  id : String
  eventType : String
  urgency : NotifyUrgency
  /-- `none` inside: the condition has thrown. -/
  when : Option (RuleContext → Option Bool)
  /-- `none`: the rule has thrown. -/
  format : RuleContext → Option String

def MAX_NOTIFICATION_TEXT : ℕ := 3500

/-- `обрезать`. -/
def clip (text : String) (most : ℕ) : String := if Js.length text ≤ most then text else Js.take most text ++ "…"

def formatted (rule : Rule) (ctx : RuleContext) : Notification where
  ruleId := rule.id
  urgency := rule.urgency
  text := match rule.format ctx with
    | some text => clip text MAX_NOTIFICATION_TEXT
    | none => "⚠️ Событие " ++ ctx.type ++ " получено, но правило " ++ rule.id ++ " не смогло его оформить"

def broken (rule : Rule) (ctx : RuleContext) : Notification where
  ruleId := rule.id
  urgency := rule.urgency
  text := "⚠️ Событие " ++ ctx.type ++ " получено, но правило " ++ rule.id ++ " не смогло его оформить"

def applyRule (ctx : RuleContext) (rule : Rule) : Option Notification :=
  if rule.eventType ≠ ctx.type then none
  else
    match rule.when with
    | none => some (formatted rule ctx)
    | some holds =>
      match holds ctx with
      | none => some (broken rule ctx)
      | some false => none
      | some true => some (formatted rule ctx)

def applyRules (rules : List Rule) (ctx : RuleContext) : List Notification := rules.filterMap (applyRule ctx)

def immediateOnly (notifications : List Notification) : List Notification :=
  notifications.filter (·.urgency = .immediate)

def RULE_EVENT_TYPES (rules : List Rule) : List String := OrderedMap.keySet (rules.map (·.eventType))

/-! Events. -/

structure EventRow where
  /-- A uuid, as the number it is. -/
  id : ℕ
  source : String
  type : String
  payload : Json
  occurredAt : ℤ

def EventRow.context (e : EventRow) : RuleContext := ⟨e.source, e.type, e.payload⟩

/-- `new Date(…)` of a moment of the database. -/
def toMs (micros : ℤ) : ℤ := micros / 1000

structure NotificationCursor where
  occurredAt : ℤ
  eventId : ℕ
  deriving DecidableEq

inductive Order
  | asc
  | desc

structure EventFilter where
  types : List String
  since : Option ℤ
  upTo : Option ℤ
  after : Option NotificationCursor
  order : Order
  limit : Option ℕ

/-- `gt(occurred_at, …) or (eq(occurred_at, …) and gt(id, …))`. -/
abbrev Behind (c : NotificationCursor) (e : EventRow) : Prop :=
  Paging.Beyond EventRow.occurredAt EventRow.id (c.occurredAt * 1000, c.eventId) e

def EventFilter.selects (f : EventFilter) (e : EventRow) : Bool :=
  (f.types.isEmpty || f.types.contains e.type) && f.since.all (fun since => since * 1000 ≤ e.occurredAt) &&
    f.upTo.all (fun till => e.occurredAt ≤ till * 1000) && f.after.all fun c => Behind c e

/-- `EventsService.list`. -/
def list (event : List EventRow) (f : EventFilter) : List EventRow :=
  let rows := Paging.sorted EventRow.occurredAt EventRow.id (event.filter f.selects)
  let ordered := match f.order with
    | .asc => rows
    | .desc => rows.reverse
  ordered.take (min (f.limit.getD 100) 1000)

/-! `RulesService`. -/

def PENDING_EVENTS_LIMIT : ℕ := 500

structure PendingNotificationsPage where
  upTo : ℤ
  after : Option NotificationCursor

structure PendingNotification where
  notification : Notification
  eventId : ℕ
  occurredAt : ℤ

structure PendingNotifications where
  since : ℤ
  upTo : ℤ
  events : ℕ
  truncated : Bool
  nextCursor : Option NotificationCursor
  notifications : List PendingNotification

/-- The digits of a uuid from the first to before the last of a range. -/
def hexDigits (id first last : ℕ) : List Char :=
  (List.range' first (last - first)).map fun k => Nat.digitChar (id / 16 ^ (31 - k) % 16)

def uuidText (id : ℕ) : String :=
  String.ofList (hexDigits id 0 8 ++ '-' :: hexDigits id 8 12 ++ '-' :: hexDigits id 12 16 ++ '-' :: hexDigits id 16 20 ++
    '-' :: hexDigits id 20 32)

def key (eventId : ℕ) (ruleId : String) : String := uuidText eventId ++ ":" ++ ruleId

def PendingNotification.key (n : PendingNotification) : String := Notify.key n.eventId n.notification.ruleId

section
variable (rules : List Rule)

/-- What the event gives rise to. -/
def notificationsOf (onlyImmediate : Bool) (e : EventRow) : List PendingNotification :=
  let matched := applyRules rules e.context
  let selected := if onlyImmediate then immediateOnly matched else matched
  selected.map fun n => ⟨n, e.id, toMs e.occurredAt⟩

def pageFilter (since : ℤ) (page : PendingNotificationsPage) : EventFilter where
  types := RULE_EVENT_TYPES rules
  since := some since
  upTo := some page.upTo
  after := page.after
  order := .asc
  limit := some (PENDING_EVENTS_LIMIT + 1)

def sinceFilter (since : ℤ) : EventFilter where
  types := RULE_EVENT_TYPES rules
  since := some since
  upTo := none
  after := none
  order := .desc
  limit := some PENDING_EVENTS_LIMIT

def candidates (event : List EventRow) (since : ℤ) : Option PendingNotificationsPage → List EventRow
  | some page => list event (pageFilter rules since page)
  | none => list event (sinceFilter rules since)

def pending (event : List EventRow) (delivered : List String) (now since : ℤ) (onlyImmediate : Bool)
    (page : Option PendingNotificationsPage) : PendingNotifications :=
  let found := candidates rules event since page
  let truncated := match page with
    | some _ => decide (PENDING_EVENTS_LIMIT < found.length)
    | none => decide (PENDING_EVENTS_LIMIT ≤ found.length)
  let events := if page.isSome then found.take PENDING_EVENTS_LIMIT else found
  let nextCursor := if page.isSome && truncated then
      events.getLast?.map fun last => ⟨toMs last.occurredAt, last.id⟩
    else none
  let out := events.flatMap (notificationsOf rules onlyImmediate)
  { since
    upTo := (page.map (·.upTo)).getD now
    events := events.length
    truncated
    nextCursor
    notifications := out.filter fun n => !delivered.contains n.key }

/-- `RulesService.ack`. -/
def ack (delivered keys : List String) : List String :=
  (OrderedMap.keySet (keys.filter (0 < ·.length))).foldl OrderedMap.addKey delivered

end

end Mydon.Notify
