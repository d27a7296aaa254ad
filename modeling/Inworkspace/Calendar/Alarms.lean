import Inworkspace.Calendar.RoundTrip

/-!
# The next alarm

`CalendarEventData.nextAlarm` looks for the next alarm of a stored event after a time, among the
first alarms of the components. `nextAlarm_iff`: it finds the earliest alarm after a time if and
only if each later alarm has one of the first alarms before it (`Reached`). If that is so at all
times then all alarms are found one after the other; and the next alarm when an event is stored, for
which all alarms are looked at, is the one that is found later.

With two alarms, the second a day before the event, the day before goes by unnoticed
(`nextAlarm_second`).
-/

namespace Inworkspace.Calendar

open Lib Lib.Extremum Write CalendarAlarm CalendarEventData List KeyedList Grouping Prod Option
open Zones

variable {Tz : Type}

/-! ## The search -/

section Search

variable (clock : Clock Tz) (data : CalendarEventData)

/-- The time of an alarm for an instance. -/
def Alarm.timeOf (alarm : Alarm) (range : ComponentTimeRange) (startTz endTz : Tz) (offset : ℕ) :
    Option ℤ :=
  (resolveInstance clock startTz endTz (offset + data.baseOffset) range.duration).bind
    fun (start, stop) => alarm.delta.toTimestamp clock start stop

variable [Zones Tz] [BlockPacker]

/-- An alarm of an instance, after the time and before the next one so far. -/
def candidate (startTime : ℤ) (next : Option CalendarAlarm) (alarm : Alarm)
    (range : ComponentTimeRange) (startTz endTz : Tz) (offset : ℕ) : Option CalendarAlarm :=
  (alarm.timeOf clock data range startTz endTz offset).bind fun alarmTime =>
    if alarmTime > startTime ∧ isBefore alarmTime next then
      some (.of data.event alarm alarmTime (offset + data.baseOffset) (asId startTz)
        (offset + data.baseOffset + range.duration) (asId endTz))
    else none

/-- The next alarm after a range, whose recurring instances are left at the first one before the
    next alarm so far. -/
def nextInRange (startTime : ℤ) (next : Option CalendarAlarm) (alarm : Alarm)
    (range : ComponentTimeRange) : Option (Option CalendarAlarm) := do
  let instances ← range.read
  let startTz ← fromId range.startTz
  let endTz ← fromId range.endTz
  let startTz := clock.effective startTz
  let endTz := clock.effective endTz
  match instances with
  | .recurring _ offsets =>
    return (offsets.findSome?
      (candidate clock data startTime next alarm range startTz endTz)).or next
  | .single offset =>
    return (candidate clock data startTime next alarm range startTz endTz offset).or next

/-- The first alarm of a component. -/
def CalendarEventData.firstAlarm (compId : ℕ) : Option Alarm :=
  -- further alarms of the component are not looked at
  data.alarms.find? (·.parentId = compId)

/-- The next alarm after the ranges. -/
def nextInRanges (startTime : ℤ) :
    Option CalendarAlarm → List ComponentTimeRange → Option CalendarAlarm
  | next, [] => next
  | next, range :: ranges =>
    match data.firstAlarm range.id with
    | none => nextInRanges startTime next ranges
    | some alarm =>
      (nextInRange clock data startTime next alarm range).elim none
        fun next => nextInRanges startTime next ranges

def CalendarEventData.nextAlarm (startTime : ℤ) : Option CalendarAlarm :=
  if data.alarms.isEmpty then none
  else nextInRanges clock data startTime none data.timeRanges

/-! ## What is found -/

/-- The times of an alarm, in the order of the instances. -/
def alarmTimesIn (alarm : Alarm) (range : ComponentTimeRange) : List ℤ :=
  (range.read).elim [] fun instances => instances.offsets.filterMap fun offset => do
    let startTz ← fromId range.startTz
    let endTz ← fromId range.endTz
    alarm.timeOf clock data range (clock.effective startTz) (clock.effective endTz) offset

/-- The times of the first alarms of the components. -/
def firstTimesIn (ranges : List ComponentTimeRange) : List ℤ :=
  ranges.flatMap fun range =>
    (data.firstAlarm range.id).elim [] fun alarm =>
      alarmTimesIn clock data alarm range

/-- In each zone later local times are later. -/
def Steady : Prop :=
  ∀ (tz : Tz) (a b s t : ℤ), clock.resolve tz a = some s → clock.resolve tz b = some t →
    a ≤ b → s ≤ t

variable (Tz) in
/-- The instances of a range can be read, and are in order. -/
structure Ordered (range : ComponentTimeRange) : Prop where
  readable : range.Readable Tz
  ascending : ∀ instances, range.read = some instances → instances.offsets.Pairwise (· ≤ ·)

variable {clock data} {range : ComponentTimeRange} {next : Option CalendarAlarm}

omit [Zones Tz] [BlockPacker] in
/-- The later an occurrence, the later its alarm. -/
theorem AlarmDelta.toTimestamp_mono {delta : AlarmDelta} {start stop start' stop' t t' : ℤ}
    (hstart : start ≤ start') (hstop : stop ≤ stop')
    (h : delta.toTimestamp clock start stop = some t)
    (h' : delta.toTimestamp clock start' stop' = some t') : t ≤ t' := by
  rcases delta with delta | delta | timestamp | timestamp
  · obtain rfl := some.inj h
    obtain rfl := some.inj h'
    exact Int.add_le_add_right hstart delta
  · obtain rfl := some.inj h
    obtain rfl := some.inj h'
    exact Int.add_le_add_right hstop delta
  · exact (some.inj (h.symm.trans h')).le
  · exact (some.inj (h.symm.trans h')).le

omit [Zones Tz] [BlockPacker] in
/-- Later instances have later alarms. -/
theorem Alarm.timeOf_mono (hsteady : Steady clock) {alarm : Alarm} {startTz endTz : Tz}
    {offset offset' : ℕ} (hle : offset ≤ offset') {t t' : ℤ}
    (h : alarm.timeOf clock data range startTz endTz offset = some t)
    (h' : alarm.timeOf clock data range startTz endTz offset' = some t') : t ≤ t' := by
  obtain ⟨⟨start, stop⟩, hinstance, htime⟩ := bind_eq_some_iff.mp h
  obtain ⟨⟨start', stop'⟩, hinstance', htime'⟩ := bind_eq_some_iff.mp h'
  rw [resolveInstance] at hinstance hinstance'
  split at hinstance
  · rename_i hstart hstop
    obtain ⟨rfl, rfl⟩ := Prod.mk.inj (some.inj hinstance)
    split at hinstance'
    · rename_i hstart' hstop'
      obtain ⟨rfl, rfl⟩ := Prod.mk.inj (some.inj hinstance')
      exact AlarmDelta.toTimestamp_mono (hsteady _ _ _ _ _ hstart hstart' (by omega))
        (hsteady _ _ _ _ _ hstop hstop' (by omega)) htime htime'
    · contradiction
  · contradiction

omit [BlockPacker] in
theorem isBefore_iff {t : ℤ} : isBefore t next = true ↔ ∀ a ∈ next.map alarmTime, t < a := by
  rcases next with _ | next <;> simp [isBefore]

variable (clock data next) (startTime : ℤ) (alarm : Alarm)

variable (range) in
omit [BlockPacker] in
/-- The first candidate is the first time after the start and before the next alarm. -/
theorem map_findSome?_candidate (startTz endTz : Tz) (offsets : List ℕ) :
    (offsets.findSome? (candidate clock data startTime next alarm range startTz
        endTz)).map alarmTime =
      (offsets.filterMap (alarm.timeOf clock data range startTz endTz)).find?
        fun t => startTime < t ∧ ∀ a ∈ next.map alarmTime, t < a := by
  induction offsets with
  | nil => rfl
  | cons offset offsets ih =>
    rw [findSome?_cons, filterMap_cons, candidate]
    rcases alarm.timeOf clock data range startTz endTz offset with _ | t
    · exact ih
    rw [bind_some, find?_cons]
    by_cases htake : startTime < t ∧ isBefore t next = true
    · rw [if_pos htake, decide_eq_true ⟨htake.1, isBefore_iff.mp htake.2⟩]
      rfl
    · rw [if_neg htake, decide_eq_false fun h => htake ⟨h.1, isBefore_iff.mpr h.2⟩]
      exact ih

/-- The first alarm of a range that is before the one found so far. -/
theorem exists_nextInRange (h : Ordered Tz range) :
    ∃ next', nextInRange clock data startTime next alarm range = some next' ∧
      next'.map alarmTime =
        ((alarmTimesIn clock data alarm range).find? fun t =>
          startTime < t ∧ ∀ a ∈ next.map alarmTime, t < a).or (next.map alarmTime) := by
  obtain ⟨hread, hstart, hend⟩ := h.readable
  obtain ⟨instances, hread⟩ := isSome_iff_exists.mp hread
  obtain ⟨startTz, hstart⟩ := isSome_iff_exists.mp hstart
  obtain ⟨endTz, hend⟩ := isSome_iff_exists.mp hend
  rw [nextInRange, alarmTimesIn, hread, hstart, hend]
  have hmap := map_findSome?_candidate clock data range next startTime alarm
    (clock.effective startTz) (clock.effective endTz)
  rcases instances with offset | ⟨count, offsets⟩
  · refine ⟨_, rfl, ?_⟩
    rw [map_or]
    have hone := hmap [offset]
    rw [findSome?_singleton] at hone
    rw [hone]
    rfl
  · refine ⟨_, rfl, ?_⟩
    rw [map_or, hmap offsets]
    rfl

variable {clock data next} {startTime}

/-- In steady zones ordered instances have ordered alarms. -/
theorem pairwise_alarmTimesIn (hsteady : Steady clock) (h : Ordered Tz range) :
    (alarmTimesIn clock data alarm range).Pairwise (· ≤ ·) := by
  rw [alarmTimesIn]
  rcases hread : range.read with _ | instances
  · exact Pairwise.nil
  rw [elim_some, pairwise_filterMap]
  refine (h.ascending instances hread).imp fun {a b} hle t ht t' ht' => ?_
  obtain ⟨startTz, hstart, ht⟩ := bind_eq_some_iff.mp ht
  obtain ⟨endTz, hend, ht⟩ := bind_eq_some_iff.mp ht
  rw [hstart, hend] at ht'
  exact Alarm.timeOf_mono hsteady hle ht ht'

/-- The loop over the ranges finds the least time that is still to come. -/
theorem leastAbove_nextInRanges (hsteady : Steady clock) {ranges : List ComponentTimeRange}
    (h : ∀ range ∈ ranges, Ordered Tz range) {seen : List ℤ}
    (hnext : LeastAbove startTime seen (next.map alarmTime)) :
    LeastAbove startTime (seen ++ firstTimesIn clock data ranges)
      ((nextInRanges clock data startTime next ranges).map alarmTime) := by
  induction ranges generalizing next seen with
  | nil =>
    rw [firstTimesIn, flatMap_nil, append_nil]
    exact hnext
  | cons range ranges ih =>
    rw [forall_mem_cons] at h
    rw [nextInRanges, firstTimesIn, flatMap_cons]
    rcases data.firstAlarm range.id with _ | alarm
    · exact ih h.2 hnext
    obtain ⟨next', hrange, hmap⟩ :=
      exists_nextInRange clock data next startTime alarm h.1
    simp only [hrange]
    rw [← append_assoc]
    refine ih h.2 ?_
    rw [hmap]
    exact hnext.append_find (pairwise_alarmTimesIn alarm hsteady h.1)

/-- The earliest of the first alarms is found. -/
theorem leastAbove_nextAlarm (hsteady : Steady clock) (data : CalendarEventData)
    (h : ∀ range ∈ data.timeRanges, Ordered Tz range) (startTime : ℤ) :
    LeastAbove startTime (firstTimesIn clock data data.timeRanges)
      ((data.nextAlarm clock startTime).map alarmTime) := by
  rw [nextAlarm]
  split
  · rename_i hempty
    have hnone : firstTimesIn clock data data.timeRanges = [] := by
      refine flatMap_eq_nil_iff.mpr fun range _ => ?_
      rw [firstAlarm, isEmpty_iff.mp hempty]
      rfl
    rw [hnone]
    exact forall_mem_nil _
  · have hnone : LeastAbove startTime [] (Option.map alarmTime none) := forall_mem_nil _
    exact leastAbove_nextInRanges hsteady h hnone

end Search

/-! ## The alarms of a stored event -/

section Stored

variable (clock : Clock Tz) (now : ℤ) (ical : ICalendar)

/-- The time of the first alarm of an occurrence. -/
def Occurrence.firstTimes (event : Occurrence Tz) : List ℤ :=
  ((ical.alarmsOf event.compId).head?.bind fun alarm =>
    alarm.delta.toTimestamp clock event.start.timestamp event.finish.timestamp).toList

variable [Zones Tz]

/-- The local times of the occurrences are their times in UTC. -/
def Resolved (events : List (Occurrence Tz)) : Prop :=
  ∀ event ∈ events, clock.resolve (clock.effective event.start.timezone) event.start.naive =
        some event.start.timestamp ∧
      clock.resolve (clock.effective event.finish.timezone) event.finish.naive =
        some event.finish.timestamp

variable {clock now ical} {groups : List (ℕ × List Alarm)}

theorem parentId_of_mem_alarmsOf {compId : ℕ} {alarm : Alarm} (h : alarm ∈ ical.alarmsOf compId) :
    alarm.parentId = compId % 2 ^ 16 := by
  obtain ⟨alarmId, -, h⟩ := mem_filterMap.mp h
  obtain ⟨component, -, h⟩ := bind_eq_some_iff.mp h
  split at h
  · obtain ⟨trigger, -, rfl⟩ := map_eq_some_iff.mp h
    rfl
  · contradiction

/-- A component has its alarms once. -/
theorem build_alarms (next : Option CalendarAlarm) (events : List (Occurrence Tz)) :
    ((build clock now ical next events).alarms.map fst).Nodup ∧
      ∀ compId alarms, (compId, alarms) ∈ (build clock now ical next events).alarms ↔
          alarms = ical.alarmsOf compId ∧ ∃ event ∈ events, event.compId = compId := by
  induction events using reverseRecOn with
  | nil => exact ⟨nodup_nil, fun _ _ => by simp [build]⟩
  | append_singleton events event ih =>
    obtain ⟨hnodup, hmem⟩ := ih
    have hbuild : (build clock now ical next (events ++ [event])).alarms =
        insertNew fst (build clock now ical next events).alarms
          (event.compId, ical.alarmsOf event.compId) := by
      rw [build, foldl_append]
      rfl
    rw [hbuild]
    refine ⟨nodup_insertNew hnodup _, fun compId alarms => ⟨fun h => ?_, ?_⟩⟩
    · rcases mem_or_eq_of_mem_insertNew h with hold | hnew
      · obtain ⟨halarms, event', hevent, hid⟩ := (hmem compId alarms).mp hold
        exact ⟨halarms, event', mem_append_left _ hevent, hid⟩
      · obtain ⟨rfl, rfl⟩ := mk.inj hnew
        exact ⟨rfl, event, mem_append_right _ (mem_singleton_self _), rfl⟩
    · rintro ⟨rfl, event', hevent, rfl⟩
      rcases mem_append.mp hevent with hevent | hevent
      · exact mem_insertNew_of_mem ((hmem _ _).mpr ⟨rfl, event', hevent, rfl⟩) _
      obtain rfl := mem_singleton.mp hevent
      obtain ⟨⟨compId, alarms⟩, hentry, hkey, hold⟩ := exists_mem_insertNew fst
        (build clock now ical next events).alarms
        (event'.compId, ical.alarmsOf event'.compId)
      obtain rfl : compId = event'.compId := hkey
      -- the component may have been seen before, with the same alarms
      rcases hold with hnew | hold
      · exact hnew ▸ hentry
      · obtain ⟨rfl, -⟩ := (hmem _ _).mp hold
        exact hentry

/-- The first alarm of a component, in whatever order the components are. -/
theorem find?_flatMap_alarms (hnodup : (groups.map fst).Nodup)
    (halarms : ∀ group ∈ groups, group.2 = ical.alarmsOf group.1 ∧ group.1 < 2 ^ 16) (compId : ℕ) :
    (groups.flatMap snd).find? (·.parentId = compId) =
      if compId ∈ groups.map fst then (ical.alarmsOf compId).head? else none := by
  induction groups with
  | nil => rfl
  | cons group groups ih =>
    obtain ⟨id, alarms⟩ := group
    rw [forall_mem_cons] at halarms
    rw [map_cons, nodup_cons] at hnodup
    obtain ⟨⟨hown, hid⟩, halarms⟩ := halarms
    obtain rfl : alarms = ical.alarmsOf id := hown
    have hparent : ∀ alarm ∈ ical.alarmsOf id, alarm.parentId = id := fun alarm halarm =>
      (parentId_of_mem_alarmsOf halarm).trans (Nat.mod_eq_of_lt hid)
    rw [flatMap_cons, find?_append, ih hnodup.2 halarms]
    -- alarms have their component as parent, so other groups are passed over
    by_cases heq : id = compId
    · subst heq
      have hfind : (ical.alarmsOf id).find? (·.parentId = id) = (ical.alarmsOf id).head? := by
        rcases halarmsOf : ical.alarmsOf id with _ | ⟨alarm, alarms⟩
        · rfl
        · exact find?_cons_of_pos (decide_eq_true (hparent alarm (halarmsOf ▸ mem_cons_self)))
      rw [hfind, if_neg hnodup.1, or_none]
      exact (if_pos mem_cons_self).symm
    · have hfind : (ical.alarmsOf id).find? (·.parentId = compId) = none := by
        refine find?_eq_none.mpr fun alarm halarm hfound => heq ?_
        exact (hparent alarm halarm).symm.trans (of_decide_eq_true hfound)
      rw [hfind]
      by_cases hmem : compId ∈ groups.map fst
      · rw [if_pos hmem]
        exact (if_pos (mem_cons_of_mem _ hmem)).symm
      · rw [if_neg hmem]
        exact (if_neg fun h => (mem_cons.mp h).elim (fun h => heq h.symm) hmem).symm

variable (clock) in
/-- The time of an alarm for an instance of a group. -/
def Alarm.timeAt (alarm : Alarm) (key : GroupKey) (naive : ℤ) : Option ℤ := do
  let startTz ← fromId key.startTz
  let endTz ← fromId key.endTz
  let (start, stop) ← resolveInstance clock (clock.effective startTz)
    (clock.effective endTz) naive key.duration
  alarm.delta.toTimestamp clock start stop

variable {events : List (Occurrence Tz)}

section Packed

variable (hdistinct : Distinct events) (hshort : Short clock ical events)
  (hpackable : Packable clock ical events)
  (hresolved : Resolved clock events) {group : GroupKey × List ℤ}
  {data : CalendarEventData} {t : ℤ} {event : Occurrence Tz}

include hpackable hresolved in
/-- The time of an alarm for an occurrence. -/
theorem Alarm.timeAt_eq (hevent : event ∈ events) (alarm : Alarm) :
    alarm.timeAt clock event.key event.start.naive =
      alarm.delta.toTimestamp clock event.start.timestamp event.finish.timestamp := by
  obtain ⟨hstart, hfinish⟩ := hresolved event hevent
  simp [timeAt, Occurrence.key, fromId_asId, resolveInstance,
    toI32_eq (hpackable.durations event hevent), hstart, hfinish]

variable [BlockPacker]

include hdistinct hshort hpackable hresolved in
/-- The times of an alarm in a range are those for its group. -/
theorem mem_alarmTimesIn_iff (hbase : data.baseOffset = baseTime clock ical events)
    (alarm : Alarm) (hgroup : group ∈ groupBy (·.key) (·.start.naive) events) :
    t ∈ alarmTimesIn clock data alarm (GroupKey.pack (baseTime clock ical events) group) ↔
      ∃ event ∈ events, event.key = group.1 ∧
        alarm.delta.toTimestamp clock event.start.timestamp event.finish.timestamp = some t := by
  have htimes : alarmTimesIn clock data alarm (GroupKey.pack data.baseOffset group) =
        (decoded data.baseOffset group.2).filterMap (alarm.timeAt clock group.1) := by
    obtain ⟨instances, hread, hoffsets⟩ := read_pack data.baseOffset group.1 group.2
    rw [alarmTimesIn, hread, ← hoffsets, filterMap_map]
    rfl
  rw [← hbase, htimes, hbase, decoded_group hdistinct hshort hpackable hgroup, mem_filterMap]
  obtain ⟨key, starts⟩ := group
  have hmem (naive : ℤ) : naive ∈ starts.mergeSort ↔
      ∃ event ∈ events, event.key = key ∧ event.start.naive = naive := by
    rw [mem_mergeSort, (mem_groupBy.mp hgroup).2, List.mem_map]
    simp only [mem_filter, decide_eq_true_eq, and_assoc]
  constructor
  · rintro ⟨naive, hnaive, ht⟩
    obtain ⟨event, hevent, rfl, rfl⟩ := (hmem naive).mp hnaive
    rw [alarm.timeAt_eq hpackable hresolved hevent] at ht
    exact ⟨event, hevent, rfl, ht⟩
  · rintro ⟨event, hevent, rfl, ht⟩
    refine ⟨event.start.naive, (hmem _).mpr ⟨event, hevent, rfl, rfl⟩, ?_⟩
    rw [alarm.timeAt_eq hpackable hresolved hevent]
    exact ht

include hdistinct hshort hpackable in
theorem ordered_pack (hgroup : group ∈ groupBy (·.key) (·.start.naive) events) :
    Ordered Tz (GroupKey.pack (baseTime clock ical events) group) where
  readable := readable_pack events _ hgroup
  ascending := by
    intro instances hread
    obtain ⟨instances', hread', hoffsets⟩ := read_pack (baseTime clock ical events) group.1 group.2
    obtain rfl : instances = instances' := some.inj (hread.symm.trans hread')
    rw [decoded_group hdistinct hshort hpackable hgroup] at hoffsets
    have hsorted := pairwise_mergeSort' (· ≤ ·) group.2
    rw [← hoffsets, pairwise_map] at hsorted
    refine hsorted.imp fun {a b} hle => ?_
    omega

/-! ## The alarm when the event is stored -/

omit [BlockPacker] in
/-- So does the one over the alarms of an occurrence. -/
theorem leastAbove_scan {next : Option CalendarAlarm} {seen : List ℤ}
    (h : LeastAbove now seen (next.map alarmTime)) :
    LeastAbove now (seen ++ event.alarmTimes clock ical)
      ((event.scan clock now ical next).next.map alarmTime) := by
  rw [Occurrence.alarmTimes, Occurrence.scan]
  generalize min event.start.timestamp event.finish.timestamp = low
  generalize max event.start.timestamp event.finish.timestamp = high
  induction ical.alarmsOf event.compId generalizing next seen low high with
  | nil =>
    rw [filterMap_nil, append_nil]
    exact h
  | cons alarm alarms ih =>
    rw [foldl_cons, AlarmScan.add, filterMap_cons]
    rcases alarm.delta.toTimestamp clock event.start.timestamp event.finish.timestamp with _ | t
    · exact ih h low high
    rw [append_cons]
    refine ih ?_ _ _
    have hfind := h.append_find (pairwise_singleton (· ≤ ·) t)
    rw [find?_cons] at hfind
    by_cases htake : now < t ∧ isBefore t next = true
    · rw [decide_eq_true ⟨htake.1, isBefore_iff.mp htake.2⟩] at hfind
      rw [if_pos htake]
      exact hfind
    · rw [decide_eq_false fun h => htake ⟨h.1, isBefore_iff.mpr h.2⟩] at hfind
      rw [if_neg htake]
      exact hfind

omit [BlockPacker] in
variable (clock now ical) in
/-- All alarms are looked at when the event is stored. -/
theorem leastAbove_build (events : List (Occurrence Tz)) :
    LeastAbove now (events.flatMap (·.alarmTimes clock ical))
      ((build clock now ical none events).nextEmailAlarm.map alarmTime) := by
  induction events using reverseRecOn with
  | nil => exact forall_mem_nil _
  | append_singleton events event ih =>
    rw [flatMap_append, flatMap_singleton, build, foldl_append]
    exact leastAbove_scan ih

/-! ## The next alarm of a stored event -/

variable (clock ical) in
/-- Each alarm after a time has one of the first alarms before it. -/
def Reached (events : List (Occurrence Tz)) (startTime : ℤ) : Prop :=
  ∀ t ∈ events.flatMap (·.alarmTimes clock ical), startTime < t →
    ∃ first ∈ events.flatMap (·.firstTimes clock ical), startTime < first ∧ first ≤ t

omit [Zones Tz] [BlockPacker] in
theorem mem_alarmTimes_of_mem_firstTimes (h : t ∈ events.flatMap (·.firstTimes clock ical)) :
    t ∈ events.flatMap (·.alarmTimes clock ical) := by
  obtain ⟨event, hevent, ht⟩ := mem_flatMap.mp h
  obtain ⟨alarm, hhead, ht⟩ := bind_eq_some_iff.mp (mem_toList.mp ht)
  exact mem_flatMap.mpr ⟨event, hevent, mem_filterMap.mpr ⟨alarm, mem_of_head? hhead, ht⟩⟩

include hdistinct hshort hpackable hresolved

/-- The times of the first alarms are those of the occurrences, whatever the order of ranges and
    components. -/
theorem mem_firstTimesIn_iff (hbase : data.baseOffset = baseTime clock ical events)
    (hranges : data.timeRanges.Perm ((groupBy (·.key) (·.start.naive) events).map
      (GroupKey.pack (baseTime clock ical events)))) (hfirst : ∀ event ∈ events,
      data.firstAlarm event.key.id = (ical.alarmsOf event.compId).head?) :
    t ∈ firstTimesIn clock data data.timeRanges ↔ t ∈ events.flatMap (·.firstTimes clock ical) := by
  constructor
  · intro h
    obtain ⟨range, hrange, ht⟩ := mem_flatMap.mp h
    obtain ⟨group, hgroup, rfl⟩ := mem_map.mp (hranges.mem_iff.mp hrange)
    rcases halarm : data.firstAlarm (GroupKey.pack (baseTime clock ical events)
      group).id with _ | alarm
    · rw [halarm] at ht
      contradiction
    rw [halarm] at ht
    obtain ⟨event, hevent, hkey, ht⟩ := (mem_alarmTimesIn_iff
      hdistinct hshort hpackable hresolved hbase alarm hgroup).mp ht
    have hhead : data.firstAlarm group.1.id = some alarm := halarm
    rw [← hkey, hfirst event hevent] at hhead
    refine mem_flatMap.mpr ⟨event, hevent, mem_toList.mpr ?_⟩
    exact bind_eq_some_iff.mpr ⟨alarm, hhead, ht⟩
  · intro h
    obtain ⟨event, hevent, ht⟩ := mem_flatMap.mp h
    obtain ⟨alarm, hhead, ht⟩ := bind_eq_some_iff.mp (mem_toList.mp ht)
    obtain ⟨starts, hgroup⟩ := exists_mem_groupBy (·.key) (·.start.naive) hevent
    refine mem_flatMap.mpr ⟨_, hranges.mem_iff.mpr (mem_map_of_mem hgroup), ?_⟩
    have hfound : data.firstAlarm (GroupKey.pack (baseTime clock ical events)
        (event.key, starts)).id = some alarm := (hfirst event hevent).trans hhead
    rw [hfound]
    exact (mem_alarmTimesIn_iff hdistinct hshort hpackable
      hresolved hbase alarm hgroup).mpr ⟨event, hevent, rfl, ht⟩

/-- The earliest of the first alarms is found, whatever the order of the hash maps. -/
theorem leastAbove_firstTimes (hsteady : Steady clock) {ranges : List ComponentTimeRange}
    (hranges : ranges.Perm (new clock now ical none events).1.timeRanges)
    (hgroups : groups.Perm (build clock now ical none events).alarms) (t : ℤ) :
    LeastAbove t (events.flatMap (·.firstTimes clock ical)) ((nextAlarm clock
        { (new clock now ical none events).1 with
          timeRanges := ranges, alarms := groups.flatMap snd } t).map
        alarmTime) := by
  rw [timeRanges_new] at hranges
  have hordered : ∀ range ∈ ranges, Ordered Tz range := by
    intro range hrange
    obtain ⟨group, hgroup, rfl⟩ := mem_map.mp (hranges.mem_iff.mp hrange)
    exact ordered_pack hdistinct hshort hpackable hgroup
  refine (leastAbove_nextAlarm hsteady _ hordered t).of_mem_iff fun u => ?_
  refine mem_firstTimesIn_iff hdistinct hshort hpackable
    hresolved (baseOffset_eq clock now ical none events) hranges
    fun event hevent => ?_
  obtain ⟨hnodup, hmem⟩ := build_alarms none events
  have hid : event.key.id = event.compId :=
    Nat.mod_eq_of_lt (hpackable.components event hevent)
  rw [hid]
  refine (find?_flatMap_alarms ((hgroups.map fst).nodup_iff.mpr hnodup)
    (fun group hgroup => ?_) event.compId).trans (if_pos ?_)
  · obtain ⟨halarms, event', hevent', hid⟩ := (hmem _ _).mp (hgroups.mem_iff.mp hgroup)
    exact ⟨halarms, hid ▸ hpackable.components event' hevent'⟩
  · exact mem_map.mpr
      ⟨_, hgroups.mem_iff.mpr ((hmem event.compId _).mpr ⟨rfl, event, hevent, rfl⟩), rfl⟩

end Packed

variable [BlockPacker]

/-- Without alarms none is found, however the occurrences are packed. -/
theorem leastAbove_of_no_alarms (h : ∀ event ∈ events, ical.alarmsOf event.compId = [])
    (hgroups : groups.Perm (build clock now ical none events).alarms)
    (data : CalendarEventData) (t : ℤ) :
    LeastAbove t (events.flatMap (·.firstTimes clock ical))
      ((nextAlarm clock { data with alarms := groups.flatMap snd } t).map alarmTime) := by
  have halarms : groups.flatMap snd = [] := by
    refine flatMap_eq_nil_iff.mpr fun group hgroup => ?_
    obtain ⟨hown, event, hevent, hid⟩ :=
      ((build_alarms none events).2 _ _).mp (hgroups.mem_iff.mp hgroup)
    rw [hown, ← hid]
    exact h event hevent
  have htimes : events.flatMap (·.firstTimes clock ical) = [] := by
    refine flatMap_eq_nil_iff.mpr fun event hevent => ?_
    rw [Occurrence.firstTimes, h event hevent]
    rfl
  rw [halarms, htimes]
  exact forall_mem_nil _

variable (clock now ical) in
/-- The next alarm of a stored event, whatever the order of the hash maps. The occurrences are read
    back if one of them has an alarm; without alarms it does not matter how they are packed. -/
theorem nextAlarm_iff (events : List (Occurrence Tz)) (hsteady : Steady clock)
    (hpacked : (∃ event ∈ events, ical.alarmsOf event.compId ≠ []) →
      Distinct events ∧ Short clock ical events ∧
        Packable clock ical events ∧ Resolved clock events)
    {ranges : List ComponentTimeRange}
    (hranges : ranges.Perm (CalendarEventData.new clock now ical none events).1.timeRanges)
    {groups : List (ℕ × List Alarm)}
    (hgroups : groups.Perm (build clock now ical none events).alarms) :
    let stored := new clock now ical none events
    let data := { stored.1 with timeRanges := ranges, alarms := groups.flatMap snd }
    let next := fun t => (data.nextAlarm clock t).map alarmTime
    (∀ t, LeastAbove t (events.flatMap (·.alarmTimes clock ical)) (next t) ↔
      Reached clock ical events t) ∧
    ((∀ t, Reached clock ical events t) →
      ∀ t, ∀ u ∈ events.flatMap (·.alarmTimes clock ical), t < u → ∃ n, nth next t n = some u) ∧
    (next now = stored.2.map alarmTime ↔ Reached clock ical events now) := by
  intro stored data next
  have hnext (t : ℤ) : LeastAbove t (events.flatMap (·.firstTimes clock ical)) (next t) := by
    by_cases halarms : ∃ event ∈ events, ical.alarmsOf event.compId ≠ []
    · obtain ⟨hdistinct, hshort, hpackable, hresolved⟩ := hpacked halarms
      exact leastAbove_firstTimes hdistinct hshort hpackable hresolved hsteady hranges hgroups t
    · push Not at halarms
      exact leastAbove_of_no_alarms halarms hgroups data t
  have hiff (t : ℤ) : LeastAbove t (events.flatMap (·.alarmTimes clock ical)) (next t) ↔
      Reached clock ical events t :=
    LeastAbove.iff_of_subset (fun _ => mem_alarmTimes_of_mem_firstTimes) (hnext t)
  have hstored := leastAbove_build clock now ical events
  refine ⟨hiff, fun hreached t u hu hlt => ?_, ⟨fun heq => ?_, fun hreached => ?_⟩⟩
  · exact exists_nth_eq (fun t => (hiff t).mpr (hreached t)) hu hlt
  · exact (hiff now).mp (heq ▸ hstored)
  · exact ((hiff now).mpr hreached).unique hstored

end Stored

/-! ## Two reminders -/

/-- An event with two alarms, ten minutes before it and a day before it. -/
def reminded : ICalendar :=
  ⟨[⟨false, false, false, [1, 2], none⟩,
    ⟨false, true, false, [], some (.atStart (-600), false)⟩,
    ⟨false, true, false, [], some (.atStart (-86400), false)⟩]⟩

theorem steady_utcClock : Steady utcClock := by
  intro tz a b s t hs ht hle
  dsimp only [utcClock] at hs ht
  split at hs
  · split at ht
    · rwa [← some.inj hs, ← some.inj ht]
    · contradiction
  · contradiction

theorem short_reminded : Short utcClock reminded [day 864000] := by
  rw [Short]
  decide

theorem packable_reminded : Packable utcClock reminded [day 864000] := by
  refine ⟨by decide, by decide, fun key => ?_, ?_, ?_, ?_⟩
  · exact lt_of_le_of_lt (length_filter_le _ _) (by decide)
  · rw [LeastIsZero]
    decide
  · exact fun h => absurd h.1 (by decide)
  · intro k hk t ht u hu hearly
    have hpos : 0 ≤ t := (by decide : ∀ t ∈ [864000, 950400, 863400, 777600], (0 : ℤ) ≤ t) t ht
    omega

theorem resolved_reminded : Resolved utcClock [day 864000] :=
  forall_mem_singleton.mpr ⟨rfl, rfl⟩

local instance : BlockPacker := plainPacker

/-- The event when it is stored, and its first alarm. -/
def storedReminded : CalendarEventData × Option CalendarAlarm :=
  CalendarEventData.new utcClock 0 reminded none [day 864000]

/-- After the alarm of the day before, the one ten minutes before is found. -/
theorem nextAlarm_tenMinutes :
    LeastAbove 800000 [863400, 777600]
      ((storedReminded.1.nextAlarm utcClock 800000).map CalendarAlarm.alarmTime) :=
  ((nextAlarm_iff utcClock 0 reminded [day 864000] steady_utcClock
    (fun _ => ⟨pairwise_singleton _ _, short_reminded, packable_reminded, resolved_reminded⟩)
    (Perm.refl _) (Perm.refl _)).1 800000).mpr
    fun t ht hlt => ⟨863400, mem_singleton_self _, by decide,
      (by decide : ∀ t ∈ [863400, 777600], (800000 : ℤ) < t → 863400 ≤ t) t ht hlt⟩

/-- The alarm of the day before is the first one when the event is stored, and is not found
    later. -/
theorem nextAlarm_second :
    storedReminded.2.map CalendarAlarm.alarmTime = some 777600 ∧
      (storedReminded.1.nextAlarm utcClock 0).map CalendarAlarm.alarmTime = some 863400 := by
  refine ⟨rfl, ?_⟩
  have hfirst : LeastAbove 0 _ ((storedReminded.1.nextAlarm utcClock 0).map alarmTime) :=
    leastAbove_firstTimes (pairwise_singleton _ _) short_reminded packable_reminded
      resolved_reminded steady_utcClock (Perm.refl _) (Perm.refl _) 0
  refine LeastAbove.unique hfirst ⟨mem_singleton_self _, by decide, ?_⟩
  exact forall_mem_singleton.mpr fun _ => le_refl _

end Inworkspace.Calendar
