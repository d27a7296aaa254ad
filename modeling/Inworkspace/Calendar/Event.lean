import Inworkspace.Lib.Grouping
import Inworkspace.Lib.KeyedList
import Inworkspace.Write.Bitpack

/-!
# Stored calendar events

The occurrences of an event are stored as local start times: `CalendarEventData.new` groups them by
time zone, component and duration, takes them from an offset and packs them, and records the range
of all times, alarms included. `expand` unpacks them.

The rules by which occurrences are found and the database of time zones are not part of the
program. Occurrences come with their local times and with their times in UTC, and a `Clock` gives
the time in UTC of a local time in a zone, if there is one.
-/

namespace Inworkspace.Calendar

open Lib Write

/-- The zones and their ids. -/
class Zones (Tz : Type) where
  asId : Tz → ℕ
  fromId : ℕ → Option Tz
  isFloating : Tz → Bool
  fromId_asId : ∀ tz, fromId (asId tz) = some tz

open Zones

/-- How local times are resolved in a zone, and the zone of a client. -/
structure Clock (Tz : Type) where
  resolve : Tz → ℤ → Option ℤ
  defaultTz : Tz

variable {Tz : Type} [BlockPacker]

/-- Floating times are in the default zone, if there is one. -/
def Clock.effective [Zones Tz] (clock : Clock Tz) (tz : Tz) : Tz :=
  if isFloating tz && !isFloating clock.defaultTz then clock.defaultTz else tz

/-! ## Components -/

inductive AlarmDelta where
  | atStart (delta : ℤ)
  | atEnd (delta : ℤ)
  | fixedUtc (timestamp : ℤ)
  | fixedFloating (timestamp : ℤ)

def AlarmDelta.toTimestamp (clock : Clock Tz) (start stop : ℤ) : AlarmDelta → Option ℤ
  | .atStart delta => some (start + delta)
  | .atEnd delta => some (stop + delta)
  | .fixedUtc timestamp => some timestamp
  | .fixedFloating timestamp => clock.resolve clock.defaultTz timestamp

structure Alarm where
  id : ℕ
  parentId : ℕ
  delta : AlarmDelta
  isEmailAlert : Bool

/-- A component of a calendar: what it is, its parts, and the trigger of an alarm. -/
structure Component where
  isTodo : Bool
  isAlarm : Bool
  isRecurrentOrOverride : Bool
  componentIds : List ℕ
  trigger : Option (AlarmDelta × Bool)

def Component.expandAlarm (component : Component) (id parentId : ℕ) : Option Alarm :=
  component.trigger.map fun (delta, isEmailAlert) => ⟨id, parentId, delta, isEmailAlert⟩

structure ICalendar where
  components : List Component

namespace ICalendar

variable (ical : ICalendar) (compId : ℕ)

/-- The alarms of a component. -/
def alarmsOf : List Alarm :=
  (ical.components[compId]?.elim [] (·.componentIds)).filterMap fun alarmId => do
    let alarm ← ical.components[alarmId]?
    if alarm.isAlarm then alarm.expandAlarm (alarmId % 2 ^ 16) (compId % 2 ^ 16) else none

/-- The component is to be done. -/
def isTodo : Bool := ical.components[compId]?.any (·.isTodo)

def isRecurrentOrOverride : Bool :=
  ical.components[compId]?.any (·.isRecurrentOrOverride)

end ICalendar

/-! ## Occurrences -/

/-- A date in a zone: the time in UTC, and what a clock of the zone shows. -/
structure DateTime (Tz : Type) where
  timestamp : ℤ
  naive : ℤ
  timezone : Tz

inductive TimeOrDelta (Tz : Type) where
  | time (date : DateTime Tz)
  | delta (seconds : ℤ)

/-- An occurrence of a component. -/
structure Occurrence (Tz : Type) where
  compId : ℕ
  start : DateTime Tz
  stop : TimeOrDelta Tz

/-- The end of an occurrence. -/
def Occurrence.finish (event : Occurrence Tz) : DateTime Tz :=
  match event.stop with
  | .time date => date
  | .delta seconds =>
    ⟨event.start.timestamp + seconds, event.start.naive + seconds, event.start.timezone⟩

inductive CalendarAlarmType where
  | email (eventStart : ℤ) (eventStartTz : ℕ) (eventEnd : ℤ) (eventEndTz : ℕ)
  | display (recurrenceId : Option ℤ)

structure CalendarAlarm where
  alarmId : ℕ
  eventId : ℕ
  alarmTime : ℤ
  typ : CalendarAlarmType

/-- The alarm of an occurrence at a time. -/
def CalendarAlarm.of (ical : ICalendar) (alarm : Alarm) (alarmTime start : ℤ) (startTz : ℕ)
    (stop : ℤ) (stopTz : ℕ) : CalendarAlarm where
  alarmId := alarm.id
  eventId := alarm.parentId
  alarmTime := alarmTime
  typ :=
    if alarm.isEmailAlert then .email start startTz stop stopTz
    else .display (if ical.isRecurrentOrOverride alarm.parentId then some start else none)

/-- An alarm comes before the next one that is known. -/
def isBefore (alarmTime : ℤ) (next : Option CalendarAlarm) : Bool :=
  next.all fun next => alarmTime < next.alarmTime

/-! ## Packing -/

/-- `as u32`. -/
def toU32 (n : ℤ) : ℕ := (n % 2 ^ 32).toNat

/-- `as i32`. -/
def toI32 (n : ℤ) : ℤ := n.bmod (2 ^ 32)

structure TimeRanges where
  maxTimeUtc : ℤ
  minTimeUtc : ℤ
  baseOffset : ℤ

namespace TimeRanges

def default : TimeRanges := ⟨0, 0, 0⟩

def updateBaseOffset (ranges : TimeRanges) (t₁ t₂ : ℤ) : TimeRanges :=
  let offset := min t₁ t₂
  -- zero stands for no offset yet, also if it is one
  if offset < ranges.baseOffset ∨ ranges.baseOffset = 0 then { ranges with baseOffset := offset }
  else ranges

def updateUtcMinMax (ranges : TimeRanges) (low high : ℤ) : TimeRanges where
  minTimeUtc :=
    if low < ranges.minTimeUtc ∨ ranges.minTimeUtc = 0 then low else ranges.minTimeUtc
  maxTimeUtc := if high > ranges.maxTimeUtc then high else ranges.maxTimeUtc
  baseOffset :=
    if low < ranges.baseOffset ∨ ranges.baseOffset = 0 then low else ranges.baseOffset

end TimeRanges

/-- What the occurrences of a group have in common. -/
structure GroupKey where
  startTz : ℕ
  endTz : ℕ
  id : ℕ
  duration : ℤ
  deriving DecidableEq

def Occurrence.key [Zones Tz] (event : Occurrence Tz) : GroupKey where
  startTz := asId event.start.timezone
  endTz := asId event.finish.timezone
  id := event.compId % 2 ^ 16
  duration := toI32 (event.finish.naive - event.start.naive)

/-- The lowest and the highest time of an occurrence, and the next alarm. -/
structure AlarmScan where
  low : ℤ
  high : ℤ
  next : Option CalendarAlarm

/-- What is known after some of the occurrences. -/
structure Building where
  ranges : TimeRanges
  groups : List (GroupKey × List ℤ)
  alarms : List (ℕ × List Alarm)
  nextEmailAlarm : Option CalendarAlarm

structure ComponentTimeRange where
  id : ℕ
  startTz : ℕ
  endTz : ℕ
  duration : ℤ
  instances : List UInt8

/-- The instances of a group, packed. -/
def GroupKey.pack (baseOffset : ℤ) (group : GroupKey × List ℤ) : ComponentTimeRange where
  id := group.1.id
  startTz := group.1.startTz
  endTz := group.1.endTz
  duration := group.1.duration
  instances :=
    if group.2.length > 1 then
      bitpackSorted (group.2.mergeSort.map fun start => toU32 (start - baseOffset))
    else Leb128.toLeb128 (toU32 (group.2.headD 0 - baseOffset))

structure CalendarEventData where
  event : ICalendar
  timeRanges : List ComponentTimeRange
  alarms : List Alarm
  baseOffset : ℤ
  baseTimeUtc : ℕ
  duration : ℕ

section New

variable [Zones Tz] (clock : Clock Tz) (now : ℤ) (ical : ICalendar)
  (nextEmailAlarm : Option CalendarAlarm)
  (events : List (Occurrence Tz))

def AlarmScan.add (event : Occurrence Tz) (scan : AlarmScan) (alarm : Alarm) : AlarmScan :=
  match alarm.delta.toTimestamp clock event.start.timestamp event.finish.timestamp with
  | none => scan
  | some alarmTime =>
    { low := if alarmTime < scan.low then alarmTime else scan.low
      high := if alarmTime > scan.high then alarmTime else scan.high
      next :=
        if alarmTime > now ∧ isBefore alarmTime scan.next then
          some (.of ical alarm alarmTime event.start.naive (asId event.start.timezone)
            event.finish.naive (asId event.finish.timezone))
        else scan.next }

def Occurrence.scan (event : Occurrence Tz) (next : Option CalendarAlarm) : AlarmScan :=
  (ical.alarmsOf event.compId).foldl (AlarmScan.add clock now ical event)
    ⟨min event.start.timestamp event.finish.timestamp,
      max event.start.timestamp event.finish.timestamp, next⟩

def Building.add (building : Building) (event : Occurrence Tz) : Building :=
  let scan := event.scan clock now ical building.nextEmailAlarm
  -- local times and times in UTC share one base
  { ranges := (building.ranges.updateBaseOffset event.start.naive event.finish.naive).updateUtcMinMax
      scan.low scan.high
    groups := Grouping.push building.groups (event.key) event.start.naive
    alarms :=
      KeyedList.insertNew Prod.fst building.alarms (event.compId, ical.alarmsOf event.compId)
    nextEmailAlarm := scan.next }

/-- The occurrences, one after the other. -/
def build : Building :=
  events.foldl (Building.add clock now ical) ⟨TimeRanges.default, [], [], nextEmailAlarm⟩

/-- `CalendarEventData::new`, for the occurrences of the calendar. Groups and alarms are in the
    order in which they come up, not in that of a hash map. -/
def CalendarEventData.new : CalendarEventData × Option CalendarAlarm :=
  let building := build clock now ical nextEmailAlarm events
  let ranges := building.ranges
  ({ event := ical
     timeRanges := building.groups.map (GroupKey.pack ranges.baseOffset)
     alarms := building.alarms.flatMap Prod.snd
     baseOffset := ranges.baseOffset
     baseTimeUtc := toU32 (ranges.minTimeUtc - ranges.baseOffset)
     duration := toU32 (ranges.maxTimeUtc - ranges.minTimeUtc) },
    building.nextEmailAlarm)

end New

/-- `event_range`: the start, and the duration. -/
def CalendarEventData.eventRange (data : CalendarEventData) : Option (ℤ × ℕ) :=
  if data.baseOffset ≠ 0 then some (data.baseOffset + data.baseTimeUtc, data.duration) else none

/-! ## Unpacking -/

structure TimeRange where
  start : ℤ
  stop : ℤ

def TimeRange.isInRange (range : TimeRange) (matchOverlap : Bool) (start stop : ℤ) : Bool :=
  if !matchOverlap then range.start < stop && range.stop > start
  else
    (start < range.stop || start ≤ range.start) && (stop > range.start || stop ≥ range.stop)

structure CalendarEventExpansion where
  compId : ℕ
  expansionId : ℕ
  start : ℤ
  stop : ℤ

/-- The bytes of an instance, or of the instances with their count. -/
inductive Instances where
  | single (offset : ℕ)
  | recurring (count : ℕ) (offsets : List ℕ)

/-- The instances of a range: bytes follow the first number if it is a count. -/
def ComponentTimeRange.read (range : ComponentTimeRange) : Option Instances :=
  (Leb128.next32 range.instances).map fun (offsetOrCount, bytes) =>
    if bytes.isEmpty then .single offsetOrCount
    else .recurring offsetOrCount ((BitpackIterator.fromBytes bytes offsetOrCount).collect)

section Expand

variable (clock : Clock Tz) (limit : TimeRange) (data : CalendarEventData)

/-- The start and the end of an instance, in UTC. -/
def resolveInstance (startTz endTz : Tz) (startNaive duration : ℤ) : Option (ℤ × ℤ) :=
  match clock.resolve startTz startNaive, clock.resolve endTz (startNaive + duration) with
  | some start, some stop => some (start, stop)
  | _, _ => none

/-- The instances of a recurring event, up to the first one after the limit. -/
def expandRecurring (isTodo : Bool) (range : ComponentTimeRange) (startTz endTz : Tz)
    (baseOffset : ℤ) : ℕ → List ℕ → List CalendarEventExpansion
  | _, [] => []
  | expansionId, offset :: offsets =>
    match resolveInstance clock startTz endTz (offset + baseOffset) range.duration with
    | none =>
      expandRecurring isTodo range startTz endTz baseOffset (expansionId + 1) offsets
    | some (start, stop) =>
      if limit.isInRange isTodo start stop then
        ⟨range.id, expansionId, start, stop⟩ ::
          expandRecurring isTodo range startTz endTz baseOffset (expansionId + 1) offsets
      else if start > limit.stop then []
      else expandRecurring isTodo range startTz endTz baseOffset (expansionId + 1) offsets

/-- The instance of an event that does not recur. -/
def expandSingle (isTodo : Bool) (range : ComponentTimeRange) (startTz endTz : Tz)
    (baseOffset : ℤ) (expansionId offset : ℕ) : List CalendarEventExpansion :=
  match resolveInstance clock startTz endTz (offset + baseOffset) range.duration with
  | none => []
  | some (start, stop) =>
    if limit.isInRange isTodo start stop then [⟨range.id, expansionId, start, stop⟩] else []

variable [Zones Tz]

/-- The instances of a range, and the next id. -/
def expandRange (expansionId : ℕ) (range : ComponentTimeRange) :
    Option (List CalendarEventExpansion × ℕ) := do
  let instances ← range.read
  let startTz ← fromId range.startTz
  let endTz ← fromId range.endTz
  let isTodo := data.event.isTodo range.id
  let startTz := clock.effective startTz
  let endTz := clock.effective endTz
  match instances with
  | .recurring count offsets =>
    return (expandRecurring clock limit isTodo range startTz endTz data.baseOffset expansionId
      offsets, expansionId + count)
  | .single offset =>
    return (expandSingle clock limit isTodo range startTz endTz data.baseOffset expansionId
      offset, expansionId + 1)

/-- The instances of the ranges. -/
def expandRanges (data : CalendarEventData) :
    ℕ → List ComponentTimeRange → Option (List CalendarEventExpansion)
  | _, [] => some []
  | expansionId, range :: ranges => do
    let (expansion, expansionId) ← expandRange clock limit data expansionId range
    let more ← expandRanges data expansionId ranges
    return expansion ++ more

def CalendarEventData.expand : Option (List CalendarEventExpansion) :=
  expandRanges clock limit data 0 data.timeRanges

end Expand

end Inworkspace.Calendar
