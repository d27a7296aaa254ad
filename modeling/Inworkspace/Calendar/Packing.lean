import Mathlib
import Inworkspace.Lib.Extremum
import Inworkspace.Calendar.Event

/-!
# Packed occurrences

What is built of the occurrences of an event: the groups (`build_groups`), and the lowest and
highest times, found with zero for "no time yet" (`baseOffset_eq`, `minTimeUtc_eq`,
`maxTimeUtc_eq`). Expanded without a limit, stored data gives the instants of what the groups are
decoded to (`exists_expand_new`), and a group of starts that fit is decoded in order
(`decoded_eq`).
-/

namespace Inworkspace.Calendar

open Lib List Lib.Extremum Write CalendarEventExpansion ComponentTimeRange CalendarEventData Option
open Grouping Zones

variable {Tz : Type}

/-! ## The times of an occurrence -/

section Times

variable (clock : Clock Tz) (now : ℤ) (ical : ICalendar) (event : Occurrence Tz)

def Occurrence.alarmTimes : List ℤ :=
  (ical.alarmsOf event.compId).filterMap fun alarm =>
    alarm.delta.toTimestamp clock event.start.timestamp event.finish.timestamp

/-- The start, the end and the alarms, in UTC. -/
def Occurrence.utcTimes : List ℤ :=
  event.start.timestamp :: event.finish.timestamp :: event.alarmTimes clock ical

/-- All times, local and in UTC. -/
def Occurrence.times : List ℤ :=
  event.start.naive :: event.finish.naive :: event.utcTimes clock ical

/-- The lowest time in UTC. -/
def Occurrence.low : ℤ :=
  (event.alarmTimes clock ical).foldl min (min event.start.timestamp event.finish.timestamp)

/-- The highest time in UTC. -/
def Occurrence.high : ℤ :=
  (event.alarmTimes clock ical).foldl max (max event.start.timestamp event.finish.timestamp)

theorem Occurrence.low_spec :
    event.low clock ical ∈ event.utcTimes clock ical ∧
      ∀ t ∈ event.utcTimes clock ical, event.low clock ical ≤ t :=
  foldl_min_spec (event.finish.timestamp :: event.alarmTimes clock ical) event.start.timestamp

theorem Occurrence.high_spec :
    event.high clock ical ∈ event.utcTimes clock ical ∧
      ∀ t ∈ event.utcTimes clock ical, t ≤ event.high clock ical :=
  foldl_max_spec (event.finish.timestamp :: event.alarmTimes clock ical) event.start.timestamp

/-! ## What is built -/

variable (next : Option CalendarAlarm) (events : List (Occurrence Tz))

/-- The lowest local time and the lowest time in UTC of each occurrence. -/
def lows : List ℤ :=
  events.flatMap fun event =>
    [min event.start.naive event.finish.naive, event.low clock ical]

/-- The offset from which local times are counted. -/
def baseTime : ℤ := (lows clock ical events).foldl lower 0

/-- The start of the range. -/
def minTime : ℤ := (events.map (·.low clock ical)).foldl lower 0

/-- The end of the range. -/
def maxTime : ℤ := (events.map (·.high clock ical)).foldl max 0

variable [Zones Tz]

/-- The bounds do not depend on the alarm that is next. -/
theorem Occurrence.scan_eq (next : Option CalendarAlarm) :
    (event.scan clock now ical next).low = event.low clock ical ∧
      (event.scan clock now ical next).high = event.high clock ical := by
  rw [scan, low, high, alarmTimes]
  generalize ical.alarmsOf event.compId = alarms
  generalize min event.start.timestamp event.finish.timestamp = low
  generalize max event.start.timestamp event.finish.timestamp = high
  induction alarms generalizing low high next with
  | nil => exact ⟨rfl, rfl⟩
  | cons alarm alarms ih =>
    rw [foldl_cons, AlarmScan.add, filterMap_cons]
    rcases alarm.delta.toTimestamp clock event.start.timestamp event.finish.timestamp with _ | t
    · exact ih next low high
    · simp only [foldl_cons]
      rw [min_comm, min_def_lt, max_def_lt]
      exact ih _ _ _

theorem build_groups :
    (build clock now ical next events).groups = groupBy (·.key) (·.start.naive) events :=
  (foldl_hom Building.groups fun _ _ => rfl).symm

/-- An occurrence changes the ranges by its lowest and its highest times. -/
theorem Building.add_ranges (building : Building) (event : Occurrence Tz) :
    (building.add clock now ical event).ranges =
      ⟨max building.ranges.maxTimeUtc (event.high clock ical),
        lower building.ranges.minTimeUtc (event.low clock ical),
        lower (lower building.ranges.baseOffset (min event.start.naive event.finish.naive))
          (event.low clock ical)⟩ := by
  simp only [add, TimeRanges.updateUtcMinMax, TimeRanges.updateBaseOffset, max_def_lt,
    (event.scan_eq _ _ _ _).1, (event.scan_eq _ _ _ _).2, lower]
  split <;> rfl

theorem baseOffset_eq :
    (build clock now ical next events).ranges.baseOffset = baseTime clock ical events := by
  rw [baseTime, lows, foldl_flatMap]
  refine (foldl_hom (fun building : Building => building.ranges.baseOffset)
    fun building event => ?_).symm
  rw [Building.add_ranges]
  rfl

theorem minTimeUtc_eq :
    (build clock now ical next events).ranges.minTimeUtc = minTime clock ical events := by
  rw [minTime, foldl_map]
  refine (foldl_hom (fun building : Building => building.ranges.minTimeUtc)
    fun building event => ?_).symm
  rw [Building.add_ranges]

theorem maxTimeUtc_eq :
    (build clock now ical next events).ranges.maxTimeUtc = maxTime clock ical events := by
  rw [maxTime, foldl_map]
  refine (foldl_hom (fun building : Building => building.ranges.maxTimeUtc)
    fun building event => ?_).symm
  rw [Building.add_ranges]

end Times

/-! ## What is expanded -/

def Instances.offsets : Instances → List ℕ
  | .single offset => [offset]
  | .recurring _ offsets => offsets

/-- The component, the start and the end. -/
def CalendarEventExpansion.instant (expansion : CalendarEventExpansion) : ℕ × ℤ × ℤ :=
  (expansion.compId, expansion.start, expansion.stop)

/-- All times that there are in any zone are inside the limit. -/
def TimeRange.Unlimited (limit : TimeRange) (clock : Clock Tz) : Prop :=
  ∀ tz naive t, clock.resolve tz naive = some t → limit.start < t ∧ t < limit.stop

section Expansion

variable {clock : Clock Tz} {limit : TimeRange} {starts : List ℤ} {baseOffset : ℤ}

section

variable (hlimit : limit.Unlimited clock)

include hlimit

theorem isInRange_of_unlimited {startTz endTz : Tz} {naive duration start stop : ℤ}
    (h : resolveInstance clock startTz endTz naive duration = some (start, stop))
    (isTodo : Bool) : limit.isInRange isTodo start stop = true := by
  rw [resolveInstance] at h
  split at h
  · rename_i start' stop' hstart hstop
    obtain ⟨rfl, rfl⟩ := Prod.mk.inj (some.inj h)
    have hstart := hlimit _ _ _ hstart
    have hstop := hlimit _ _ _ hstop
    rw [TimeRange.isInRange]
    split <;> simp [hstart.2, hstop.1]
  · contradiction

/-- Offsets that cannot be resolved are left out. -/
theorem map_expandRecurring (isTodo : Bool) (range : ComponentTimeRange) (startTz endTz : Tz)
    (baseOffset : ℤ) (expansionId : ℕ) (offsets : List ℕ) :
    (expandRecurring clock limit isTodo range startTz endTz baseOffset expansionId
        offsets).map instant =
      offsets.filterMap fun offset : ℕ =>
        (resolveInstance clock startTz endTz (offset + baseOffset) range.duration).map
          (range.id, ·) := by
  induction offsets generalizing expansionId with
  | nil => rfl
  | cons offset offsets ih =>
    rw [expandRecurring, filterMap_cons]
    rcases h : resolveInstance clock startTz endTz (offset + baseOffset) range.duration with
      _ | ⟨start, stop⟩
    · exact ih _
    · simp only [isInRange_of_unlimited hlimit h, if_true, map_cons, ih]
      rfl

end

/-- The offsets of the starts of a group, in the order of these. -/
abbrev offsetsOf (baseOffset : ℤ) (starts : List ℤ) : List ℕ :=
  starts.mergeSort.map fun start => toU32 (start - baseOffset)

theorem toU32_lt (n : ℤ) : toU32 n < 2 ^ 32 := by
  rw [toU32]
  omega

theorem length_offsetsOf (baseOffset : ℤ) (starts : List ℤ) :
    (offsetsOf baseOffset starts).length = starts.length := by
  rw [length_map, length_mergeSort]

theorem lt_of_mem_offsetsOf {baseOffset : ℤ} {starts : List ℤ} :
    ∀ offset ∈ offsetsOf baseOffset starts, offset < 2 ^ 32 :=
  forall_mem_map.mpr fun _ _ => toU32_lt _

theorem toU32_add {n base : ℤ} (hle : base ≤ n) (hlt : n - base < 2 ^ 32) :
    (toU32 (n - base) : ℤ) + base = n := by
  rw [toU32]
  omega

variable [Zones Tz] [BlockPacker]

/-- The instant of an instance of a group. -/
def GroupKey.instant (clock : Clock Tz) (key : GroupKey) (startNaive : ℤ) : Option (ℕ × ℤ × ℤ) := do
  let startTz ← fromId key.startTz
  let endTz ← fromId key.endTz
  let instant ← resolveInstance clock (clock.effective startTz)
    (clock.effective endTz) startNaive key.duration
  return (key.id, instant)

/-- What a packed group expands to. -/
def decoded (baseOffset : ℤ) (starts : List ℤ) : List ℤ :=
  if starts.length > 1 then
    ((BitpackIterator.fromBytes (blocks none (offsetsOf baseOffset starts))
      (starts.length % 2 ^ 32)).collect).map fun offset : ℕ => (offset : ℤ) + baseOffset
  else [toU32 (starts.headD 0 - baseOffset) + baseOffset]

/-- A packed group is read as what it expands to. -/
theorem read_pack (baseOffset : ℤ) (key : GroupKey) (starts : List ℤ) :
    ∃ instances, (GroupKey.pack baseOffset (key, starts)).read = some instances ∧
      (instances.offsets.map fun offset : ℕ => (offset : ℤ) + baseOffset) =
        decoded baseOffset starts := by
  rw [ComponentTimeRange.read, GroupKey.pack, decoded]
  simp only
  split
  · have hne : offsetsOf baseOffset starts ≠ [] :=
      ne_nil_of_length_pos (by rw [length_offsetsOf]; omega)
    rw [bitpackSorted, Leb128.next32_toLeb128 (Nat.mod_lt _ (Nat.two_pow_pos _)), map_some]
    simp only [isEmpty_eq_false_iff.mpr (blocks_ne_nil none hne)]
    simp [Instances.offsets]
  · have hread := Leb128.next32_toLeb128 (toU32_lt (starts.headD 0 - baseOffset)) []
    rw [append_nil] at hread
    rw [hread]
    exact ⟨_, rfl, rfl⟩

def ComponentTimeRange.key (range : ComponentTimeRange) : GroupKey :=
  ⟨range.startTz, range.endTz, range.id, range.duration⟩

/-- The instants of the instances of a range. -/
def ComponentTimeRange.instants (clock : Clock Tz) (baseOffset : ℤ) (range : ComponentTimeRange) :
    List (ℕ × ℤ × ℤ) :=
  range.read.elim [] fun instances =>
    (instances.offsets.map fun offset : ℕ => (offset : ℤ) + baseOffset).filterMap
      (range.key.instant clock)

variable (Tz) in
/-- A range can be read, and its zones are known. -/
def ComponentTimeRange.Readable (range : ComponentTimeRange) : Prop :=
  (range.read).isSome ∧ (fromId range.startTz : Option Tz).isSome ∧
    (fromId range.endTz : Option Tz).isSome

/-- A range that can be read is expanded to its instants. -/
theorem exists_expandRange (hlimit : limit.Unlimited clock)
    (data : CalendarEventData) {range : ComponentTimeRange} (h : range.Readable Tz)
    (expansionId : ℕ) :
    ∃ expansion expansionId',
      expandRange clock limit data expansionId range = some (expansion, expansionId') ∧
      expansion.map instant = range.instants clock data.baseOffset := by
  obtain ⟨hread, hstart, hend⟩ := h
  obtain ⟨instances, hread⟩ := isSome_iff_exists.mp hread
  obtain ⟨startTz, hstart⟩ := isSome_iff_exists.mp hstart
  obtain ⟨endTz, hend⟩ := isSome_iff_exists.mp hend
  have hinstant (naive : ℤ) : range.key.instant clock naive =
      (resolveInstance clock (clock.effective startTz)
        (clock.effective endTz) naive range.duration).map (range.id, ·) := by
    simp only [GroupKey.instant, key, hstart, hend, map_eq_bind]
    rfl
  rw [expandRange, instants, hread, hstart, hend, elim_some, filterMap_map]
  -- one start is resolved as it is, several by the loop
  rcases instances with offset | ⟨count, offsets⟩
  · refine ⟨_, _, rfl, ?_⟩
    rw [expandSingle, Instances.offsets, filterMap_cons, Function.comp_apply, hinstant]
    rcases h : resolveInstance clock _ _ _ range.duration with _ | ⟨start, stop⟩
    · rfl
    · simp only [isInRange_of_unlimited hlimit h]
      rfl
  · refine ⟨_, _, rfl, ?_⟩
    rw [map_expandRecurring hlimit]
    exact filterMap_congr fun offset _ => (hinstant _).symm

/-- Without a limit no instance of a readable range is dropped. -/
theorem exists_expandRanges (hlimit : limit.Unlimited clock)
    (data : CalendarEventData) {ranges : List ComponentTimeRange}
    (h : ∀ range ∈ ranges, range.Readable Tz) (expansionId : ℕ) :
    ∃ expansions, expandRanges clock limit data expansionId ranges = some expansions ∧
      expansions.map instant = ranges.flatMap (·.instants clock data.baseOffset) := by
  induction ranges generalizing expansionId with
  | nil => exact ⟨[], rfl, rfl⟩
  | cons range ranges ih =>
    rw [forall_mem_cons] at h
    obtain ⟨expansion, expansionId', hrange, hmap⟩ :=
      exists_expandRange hlimit data h.1 expansionId
    obtain ⟨expansions, hranges, hmaps⟩ := ih h.2 expansionId'
    refine ⟨expansion ++ expansions, ?_, ?_⟩
    · rw [expandRanges, hrange]
      simp only [bind_eq_bind, bind_some, hranges]
      rfl
    · rw [map_append, hmap, hmaps, flatMap_cons]

/-! ## Groups that are decoded -/

/-- Starts that fit are decoded in order. -/
theorem decoded_eq (hne : starts ≠ []) (hnodup : starts.Nodup) (hlen : starts.length < 2 ^ 32)
    (hfits : ∀ start ∈ starts, baseOffset ≤ start ∧ start - baseOffset < 2 ^ 32) :
    decoded baseOffset starts = starts.mergeSort := by
  have hback : (offsetsOf baseOffset starts).map
      (fun offset : ℕ => (offset : ℤ) + baseOffset) = starts.mergeSort := by
    rw [List.map_map]
    refine (map_congr_left fun start hstart => ?_).trans (map_id _)
    obtain ⟨hle, hlt⟩ := hfits start (mem_mergeSort.mp hstart)
    exact toU32_add hle hlt
  rw [decoded]
  -- two starts or more are packed, a single one is stored as it is
  split
  · have hascends : Ascends none (offsetsOf baseOffset starts) := by
      refine ⟨fun _ h => by contradiction, ?_, lt_of_mem_offsetsOf⟩
      have hsorted := pairwise_mergeSort' (· ≤ ·) starts
      have hdistinct : starts.mergeSort.Pairwise (· ≠ ·) :=
        (mergeSort_perm starts _).nodup_iff.mpr hnodup
      rw [pairwise_map]
      refine (hsorted.and hdistinct).imp_of_mem fun {a b} ha hb h => ?_
      obtain ⟨halow, hahigh⟩ := hfits a (mem_mergeSort.mp ha)
      obtain ⟨hblow, hbhigh⟩ := hfits b (mem_mergeSort.mp hb)
      have ha := toU32_add halow hahigh
      have hb := toU32_add hblow hbhigh
      omega
    have hcount : starts.length % 2 ^ 32 = (offsetsOf baseOffset starts).length := by
      rw [length_offsetsOf, Nat.mod_eq_of_lt hlen]
    rw [hcount, BitpackIterator.collect_bitpackSorted hascends, hback]
  · rcases starts with _ | ⟨start, _ | ⟨second, starts⟩⟩
    · contradiction
    · rw [mergeSort_singleton]
      obtain ⟨hle, hlt⟩ := hfits start mem_cons_self
      exact congrArg (fun n => [n]) (toU32_add hle hlt)
    · rename_i hlen
      exact absurd (Nat.succ_lt_succ (Nat.succ_pos _)) hlen

/-- Few starts are decoded from their offsets, in whatever order those are. -/
theorem decoded_of_lt (baseOffset : ℤ) (hone : 1 < starts.length) (hlen : starts.length < 32) :
    decoded baseOffset starts =
      starts.mergeSort.map fun start => (toU32 (start - baseOffset) : ℤ) + baseOffset := by
  have hlength := length_offsetsOf baseOffset starts
  have hcollect := BitpackIterator.collect_flatMap [] (by omega)
    (@lt_of_mem_offsetsOf baseOffset starts)
  rw [hlength] at hcollect
  rw [decoded, if_pos hone, Nat.mod_eq_of_lt (by omega), blocks_eq_flatMap none (by omega)]
  exact (congrArg _ hcollect).trans (map_map ..)

/-- Whatever is decoded is in a range of 32 bits. -/
theorem mem_decoded {start : ℤ} (h : start ∈ decoded baseOffset starts) :
    baseOffset ≤ start ∧ start - baseOffset < 2 ^ 32 := by
  have hbounds {offset : ℕ} (hoffset : offset < 2 ^ 32) :
      baseOffset ≤ (offset : ℤ) + baseOffset ∧ (offset : ℤ) + baseOffset - baseOffset < 2 ^ 32 := by
    omega
  rw [decoded] at h
  split at h
  · obtain ⟨offset, hoffset, rfl⟩ := mem_map.mp h
    exact hbounds (BitpackIterator.collect_lt _ _ offset hoffset)
  · obtain rfl := mem_singleton.mp h
    exact hbounds (toU32_lt _)

/-- No more is decoded than there was, and less if that cannot be counted. -/
theorem length_decoded_le (hne : starts ≠ []) :
    (decoded baseOffset starts).length ≤ starts.length ∧
      (2 ^ 32 ≤ starts.length → (decoded baseOffset starts).length < starts.length) := by
  rw [decoded]
  split
  · have hle := BitpackIterator.length_collect_le (.fromBytes
      (blocks none (offsetsOf baseOffset starts)) (starts.length % 2 ^ 32))
    rw [length_map]
    have hleft : (BitpackIterator.fromBytes (blocks none (offsetsOf baseOffset starts))
      (starts.length % 2 ^ 32)).left = starts.length % 2 ^ 32 := rfl
    omega
  · have := length_pos_of_ne_nil hne
    rw [length_singleton]
    omega

end Expansion

/-! ## Occurrences that survive -/

variable [Zones Tz] [BlockPacker]

/-- The component, the start and the end in UTC of an occurrence, as its local times are
    resolved. -/
def Occurrence.instant (clock : Clock Tz) (event : Occurrence Tz) : Option (ℕ × ℤ × ℤ) :=
  (resolveInstance clock (clock.effective event.start.timezone)
    (clock.effective event.finish.timezone) event.start.naive
    (event.finish.naive - event.start.naive)).map (event.compId, ·)

/-- Without a limit, the data expands to exactly the occurrences, whatever the zones then and the
    order of its ranges. -/
def Survives (data : CalendarEventData) (events : List (Occurrence Tz)) : Prop :=
  ∀ (clock : Clock Tz) (limit : TimeRange)
    (ranges : List ComponentTimeRange), limit.Unlimited clock → ranges.Perm data.timeRanges →
    ∃ expansions,
      CalendarEventData.expand clock limit { data with timeRanges := ranges } = some expansions ∧
      (expansions.map CalendarEventExpansion.instant).Perm (events.filterMap (·.instant clock))

section Survives

variable (clock : Clock Tz) (now : ℤ) (ical : ICalendar)
  (next : Option CalendarAlarm) (events : List (Occurrence Tz))

/-- The instants of the groups, as they are decoded. -/
def groupInstants (clock : Clock Tz) (baseOffset : ℤ) : List (ℕ × ℤ × ℤ) :=
  (groupBy (·.key) (·.start.naive) events).flatMap fun group =>
    (decoded baseOffset group.2).filterMap (group.1.instant clock)

/-- The ranges are the packed groups. -/
theorem timeRanges_new :
    (new clock now ical next events).1.timeRanges =
      (groupBy (·.key) (·.start.naive) events).map
        (GroupKey.pack (baseTime clock ical events)) := by
  rw [← baseOffset_eq clock now ical next, ← build_groups clock now ical next]
  rfl

/-- The ranges can be read. -/
theorem readable_pack (baseOffset : ℤ) {group : GroupKey × List ℤ}
    (h : group ∈ groupBy (·.key) (·.start.naive) events) :
    (GroupKey.pack baseOffset group).Readable Tz := by
  obtain ⟨instances, hread, -⟩ := read_pack baseOffset group.1 group.2
  obtain ⟨event, -, hkey⟩ := mem_map.mp (mem_groupBy.mp h).1
  refine ⟨isSome_iff_exists.mpr ⟨_, hread⟩, ?_, ?_⟩
  · refine isSome_iff_exists.mpr ⟨event.start.timezone, ?_⟩
    show Zones.fromId group.1.startTz = _
    rw [← hkey]
    exact fromId_asId _
  · refine isSome_iff_exists.mpr ⟨event.finish.timezone, ?_⟩
    show Zones.fromId group.1.endTz = _
    rw [← hkey]
    exact fromId_asId _

/-- Stored data expands to the instants of the groups. -/
theorem exists_expand_new {clock' : Clock Tz} {limit : TimeRange}
    (hlimit : limit.Unlimited clock') {ranges : List ComponentTimeRange}
    (hranges : ranges.Perm (new clock now ical next events).1.timeRanges) :
    ∃ expansions, expand clock' limit
        { (new clock now ical next events).1 with
          timeRanges := ranges } = some expansions ∧
      (expansions.map instant).Perm (groupInstants events clock' (baseTime clock ical events)) := by
  rw [timeRanges_new] at hranges
  have hreadable : ∀ range ∈ ranges, range.Readable Tz := by
    intro range hrange
    obtain ⟨group, hgroup, rfl⟩ := mem_map.mp (hranges.mem_iff.mp hrange)
    exact readable_pack events _ hgroup
  obtain ⟨expansions, hexpand, hmap⟩ := exists_expandRanges hlimit
    { (new clock now ical next events).1 with
      timeRanges := ranges } hreadable 0
  refine ⟨expansions, hexpand, ?_⟩
  rw [hmap]
  refine (hranges.flatMap_right _).trans ?_
  rw [flatMap_map]
  refine Perm.of_eq (flatMap_congr fun group _ => ?_)
  show instants clock' (build clock now ical next events).ranges.baseOffset _ = _
  obtain ⟨instances, hread, hoffsets⟩ :=
    read_pack (baseTime clock ical events) group.1 group.2
  rw [baseOffset_eq, instants, hread, elim_some, hoffsets]
  rfl

omit [BlockPacker] in
/-- The instants of the groups, as they are, are those of the occurrences. -/
theorem flatMap_groups_perm (f : GroupKey → ℤ → Option (ℕ × ℤ × ℤ)) :
    ((groupBy (·.key) (·.start.naive) events).flatMap fun group =>
      group.2.filterMap (f group.1)).Perm
      (events.filterMap fun event => f (event.key) event.start.naive) := by
  have hperm := (flat_groupBy_perm (fun event : Occurrence Tz => event.key)
    (fun event => event.start.naive) events).filterMap fun entry => f entry.1 entry.2
  rw [flat, filterMap_flatMap] at hperm
  simp only [filterMap_map] at hperm
  exact hperm

end Survives

end Inworkspace.Calendar
