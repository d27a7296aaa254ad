import Inworkspace.Calendar.Packing

/-!
# Occurrences that are packed and expanded

`expand_new_iff`: occurrences that are packed and expanded come out as they were, with all times
inside the recorded range, if and only if they are `Packable`.

The offset from which local times are counted, and the start of the range, are lowest times, found
with zero for "no time yet". If zero is itself the lowest time, a later one takes its place: a
birthday of the first of January 1970 comes out in the year 2106 (`expand_new_birthday`).
-/

namespace Inworkspace.Calendar

open Lib Lib.Extremum Write CalendarEventData Grouping List Option Zones

variable {Tz : Type}

/-- Where a range from before the epoch ends whose length is taken from the epoch. -/
theorem add_toU32_neg (n : ℤ) : n + toU32 (0 - n) = -2 ^ 32 * ((-n) / 2 ^ 32) := by
  rw [toU32]
  omega

theorem toI32_eq {n : ℤ} (h : -2 ^ 31 ≤ n ∧ n < 2 ^ 31) : toI32 n = n :=
  Int.bmod_eq_of_le (by omega) (by omega)

/-- No two occurrences of a component start at the same local time. -/
def Distinct (events : List (Occurrence Tz)) : Prop :=
  events.Pairwise fun a b => a.compId = b.compId → a.start.naive ≠ b.start.naive

section RoundTrip

variable (clock : Clock Tz) (now : ℤ) (ical : ICalendar)
  (next : Option CalendarAlarm) (events : List (Occurrence Tz))

/-- All times, local and in UTC, of all occurrences. -/
def timesOf : List ℤ := events.flatMap (·.times clock ical)

/-- All times in UTC of all occurrences. -/
def utcTimesOf : List ℤ := events.flatMap (·.utcTimes clock ical)

/-- All times are within 32 bits of seconds. -/
def Short : Prop :=
  ∀ t ∈ timesOf clock ical events, ∀ u ∈ timesOf clock ical events, u - t < 2 ^ 32

/-- The starts, the ends and the alarms are inside the recorded range. -/
def InsideRange (data : CalendarEventData) : Prop :=
  ∀ t ∈ utcTimesOf clock ical events,
    ∃ start duration, data.eventRange = some (start, duration) ∧ start ≤ t ∧ t ≤ start + duration

/-- What occurrences must be like. -/
structure Packable [Zones Tz] : Prop where
  components : ∀ event ∈ events, event.compId < 2 ^ 16
  durations : ∀ event ∈ events, -2 ^ 31 ≤ event.finish.naive - event.start.naive ∧
    event.finish.naive - event.start.naive < 2 ^ 31
  counts : ∀ key, (events.filter (·.key = key)).length < 2 ^ 32
  /-- The lowest of all times is not zero. -/
  epoch : ¬LeastIsZero (timesOf clock ical events)
  /-- If the lowest time in UTC is zero, it is one of the last occurrence. -/
  epochUtc : LeastIsZero (utcTimesOf clock ical events) →
    ∀ event ∈ events.getLast?, 0 ∈ event.utcTimes clock ical
  /-- No multiple of `2 ^ 32` before the epoch is between the times in UTC. -/
  early : ∀ k : ℤ, 0 < k → ∀ t ∈ utcTimesOf clock ical events,
    ∀ u ∈ utcTimesOf clock ical events, t ≤ -2 ^ 32 * k → u ≤ -2 ^ 32 * k

/-! ## The lowest and highest times -/

variable {clock now ical next events} {t : ℤ}

theorem mem_times_of_mem_lows {low : ℤ} (h : low ∈ lows clock ical events) :
    low ∈ timesOf clock ical events := by
  obtain ⟨event, hevent, hlow⟩ := mem_flatMap.mp h
  refine mem_flatMap.mpr ⟨event, hevent, ?_⟩
  rw [Occurrence.times]
  rcases mem_cons.mp hlow with rfl | hlow
  · rcases min_choice event.start.naive event.finish.naive with h | h <;> rw [h] <;> simp
  · rw [mem_singleton.mp hlow]
    exact mem_cons_of_mem _ (mem_cons_of_mem _ (event.low_spec _ _).1)

theorem exists_mem_lows_le (h : t ∈ timesOf clock ical events) :
    ∃ low ∈ lows clock ical events, low ≤ t := by
  obtain ⟨event, hevent, ht⟩ := mem_flatMap.mp h
  rw [Occurrence.times, mem_cons, mem_cons] at ht
  rcases ht with rfl | rfl | ht
  · exact ⟨_, mem_flatMap.mpr ⟨event, hevent, mem_cons_self⟩, min_le_left _ _⟩
  · exact ⟨_, mem_flatMap.mpr ⟨event, hevent, mem_cons_self⟩, min_le_right _ _⟩
  · exact ⟨_, mem_flatMap.mpr ⟨event, hevent, mem_cons_of_mem _ mem_cons_self⟩,
      (event.low_spec _ _).2 t ht⟩

theorem mem_utcTimes_of_mem_map_low {low : ℤ} (h : low ∈ events.map (·.low clock ical)) :
    low ∈ utcTimesOf clock ical events := by
  obtain ⟨event, hevent, rfl⟩ := mem_map.mp h
  exact mem_flatMap.mpr ⟨event, hevent, (event.low_spec _ _).1⟩

theorem exists_mem_map_low_le (h : t ∈ utcTimesOf clock ical events) :
    ∃ low ∈ events.map (·.low clock ical), low ≤ t := by
  obtain ⟨event, hevent, ht⟩ := mem_flatMap.mp h
  exact ⟨_, mem_map_of_mem hevent, (event.low_spec _ _).2 t ht⟩

theorem mem_times_of_mem_utcTimes (h : t ∈ utcTimesOf clock ical events) :
    t ∈ timesOf clock ical events := by
  obtain ⟨event, hevent, ht⟩ := mem_flatMap.mp h
  exact mem_flatMap.mpr ⟨event, hevent, mem_cons_of_mem _ (mem_cons_of_mem _ ht)⟩

/-- The offset is the lowest of all times, if that is not zero. -/
theorem base_spec (hne : events ≠ []) (hepoch : ¬LeastIsZero (timesOf clock ical events)) :
    baseTime clock ical events ∈ timesOf clock ical events ∧
      (∀ t ∈ timesOf clock ical events, baseTime clock ical events ≤ t) ∧
      baseTime clock ical events ≠ 0 := by
  have hlows : lows clock ical events ≠ [] := by
    obtain ⟨event, hevent⟩ := exists_mem_of_ne_nil _ hne
    exact ne_nil_of_mem (mem_flatMap.mpr ⟨event, hevent, mem_cons_self⟩)
  have hmem := mem_times_of_mem_lows (foldl_lower_spec hlows).1
  have hle : ∀ t ∈ timesOf clock ical events, baseTime clock ical events ≤ t := by
    intro t ht
    obtain ⟨low, hlow, hle⟩ := exists_mem_lows_le ht
    refine le_trans (foldl_lower_le (fun hzero => absurd ?_ hepoch) low hlow) hle
    exact (leastIsZero_iff (fun _ => mem_times_of_mem_lows) (fun _ => exists_mem_lows_le)).mp hzero
  exact ⟨hmem, hle, fun hzero => hepoch ⟨hzero ▸ hmem, hzero ▸ hle⟩⟩

variable (clock ical) in
theorem minTime_mem (hne : events ≠ []) :
    minTime clock ical events ∈ utcTimesOf clock ical events :=
  mem_utcTimes_of_mem_map_low (foldl_lower_spec fun hnil => hne (map_eq_nil_iff.mp hnil)).1

/-- The start of the range is the lowest time in UTC, if that is not zero or comes last. -/
theorem minTime_le (hne : events ≠ [])
    (hepoch : LeastIsZero (utcTimesOf clock ical events) →
      ∀ event ∈ events.getLast?, 0 ∈ event.utcTimes clock ical) :
    ∀ t ∈ utcTimesOf clock ical events, minTime clock ical events ≤ t := by
  intro t ht
  obtain ⟨low, hlow, hle⟩ := exists_mem_map_low_le ht
  refine le_trans (foldl_lower_le (fun hzero => ?_) low hlow) hle
  -- the last occurrence has no time below zero, and has zero
  have hleast := (leastIsZero_iff (fun _ => mem_utcTimes_of_mem_map_low)
    (fun _ => exists_mem_map_low_le)).mp hzero
  rw [getLast?_map, getLast?_eq_some_getLast hne]
  have hlast := hepoch hleast _ (getLast?_eq_some_getLast hne)
  have hlow := hzero.2 _ (mem_map_of_mem (getLast_mem hne))
  exact congrArg some (le_antisymm (((events.getLast hne).low_spec _ _).2 0 hlast) hlow)

variable (clock ical) in
/-- The end of the range is the highest time in UTC, or zero if they are before that. -/
theorem maxTime_spec (events : List (Occurrence Tz)) :
    (maxTime clock ical events = 0 ∨ maxTime clock ical events ∈ utcTimesOf clock ical events) ∧
      0 ≤ maxTime clock ical events ∧
      ∀ t ∈ utcTimesOf clock ical events, t ≤ maxTime clock ical events := by
  obtain ⟨hmem, hle⟩ := foldl_max_spec (events.map (·.high clock ical)) 0
  refine ⟨(mem_cons.mp hmem).imp_right fun hmem => ?_, hle 0 mem_cons_self, fun t ht => ?_⟩
  · obtain ⟨event, hevent, heq⟩ := mem_map.mp hmem
    rw [maxTime, ← heq]
    exact mem_flatMap.mpr ⟨event, hevent, (event.high_spec _ _).1⟩
  · obtain ⟨event, hevent, ht⟩ := mem_flatMap.mp ht
    exact le_trans ((event.high_spec _ _).2 t ht)
      (hle _ (mem_cons_of_mem _ (mem_map_of_mem hevent)))

variable [Zones Tz] [BlockPacker]

theorem eventRange_new :
    (new clock now ical next events).1.eventRange =
      if baseTime clock ical events ≠ 0 then
        some (baseTime clock ical events +
          toU32 (minTime clock ical events - baseTime clock ical events),
          toU32 (maxTime clock ical events - minTime clock ical events))
      else none := by
  rw [← baseOffset_eq clock now ical next, ← minTimeUtc_eq clock now ical next,
    ← maxTimeUtc_eq clock now ical next]
  rfl

/-! ## The recorded range -/

section Range

variable (hshort : Short clock ical events)
include hshort

/-- The range starts at the lowest time that was found. -/
theorem eventRange_of_epoch (hne : events ≠ [])
    (hepoch : ¬LeastIsZero (timesOf clock ical events)) :
    (new clock now ical next events).1.eventRange =
      some (minTime clock ical events,
        toU32 (maxTime clock ical events - minTime clock ical events)) := by
  obtain ⟨hbase, hbaseLe, hzero⟩ := base_spec hne hepoch
  have hmin := mem_times_of_mem_utcTimes (minTime_mem clock ical hne)
  rw [eventRange_new, if_pos hzero, add_comm, toU32_add (hbaseLe _ hmin) (hshort _ hbase _ hmin)]

/-- The times of occurrences that can be packed are inside the range. -/
theorem insideRange_of_packable (h : Packable clock ical events) : InsideRange clock ical events
      (new clock now ical next events).1 := by
  intro t ht
  have hne : events ≠ [] := by
    rintro rfl
    contradiction
  have hmin := minTime_mem clock ical hne
  have hlow := minTime_le hne h.epochUtc t ht
  obtain ⟨hmax, -, hmaxLe⟩ := maxTime_spec clock ical events
  have hhigh := hmaxLe t ht
  refine ⟨_, _, eventRange_of_epoch hshort hne h.epoch, hlow, ?_⟩
  rcases lt_or_ge (maxTime clock ical events - minTime clock ical events) (2 ^ 32) with hlt | hge
  · have hend := toU32_add (hlow.trans hhigh) hlt
    omega
  -- the highest time is not one of the occurrences, so that all are before the epoch
  rcases hmax with hmax | hmax
  · rw [hmax] at hge ⊢
    rw [add_toU32_neg]
    refine h.early _ (by omega) _ hmin t ht ?_
    omega
  · have := hshort _ (mem_times_of_mem_utcTimes hmin) _ (mem_times_of_mem_utcTimes hmax)
    omega

omit hshort in
/-- If all times are inside the range and the offset is not after a start, zero is not the lowest
    time. -/
theorem epoch_of_insideRange (hforward : ∀ event ∈ events, event.start.naive ≤ event.finish.naive)
    (hstarts : ∀ event ∈ events, baseTime clock ical events ≤ event.start.naive)
    (h : InsideRange clock ical events (new clock now ical next events).1) :
    ¬LeastIsZero (timesOf clock ical events) := by
  intro hleast
  have hlows := (leastIsZero_iff (fun _ => mem_times_of_mem_lows)
    (fun _ => exists_mem_lows_le)).mpr hleast
  obtain ⟨event, hevent, hzero⟩ := mem_flatMap.mp hlows.1
  -- there is a range, so that the offset is not zero
  have hrange {t : ℤ} (ht : t ∈ utcTimesOf clock ical events) :
      baseTime clock ical events ≠ 0 ∧ baseTime clock ical events ≤ t := by
    obtain ⟨start, duration, hrange, hle, -⟩ := h t ht
    rw [eventRange_new] at hrange
    split at hrange
    · rename_i hbase
      obtain ⟨rfl, -⟩ := Prod.mk.inj (some.inj hrange)
      exact ⟨hbase, by omega⟩
    · contradiction
  have hstart := hrange (mem_flatMap.mpr ⟨event, hevent, mem_cons_self⟩)
  obtain ⟨hmem, hbase⟩ := foldl_lower_spec (ne_nil_of_mem hlows.1)
  rcases hbase with hbase | ⟨-, hpos⟩
  · exact hstart.1 (le_antisymm (hbase 0 hlows.1) (hlows.2 _ hmem))
  have hpos : 0 < baseTime clock ical events := hpos
  rcases mem_cons.mp hzero with hnaive | hlow
  · rw [min_eq_left (hforward event hevent)] at hnaive
    have := hstarts event hevent
    omega
  · have hlow := mem_singleton.mp hlow
    have := (hrange (mem_flatMap.mpr ⟨event, hevent, hlow ▸ (event.low_spec _ _).1⟩)).2
    omega

section

variable (hepoch : ¬LeastIsZero (timesOf clock ical events))
  (h : InsideRange clock ical events (new clock now ical next events).1)

include hepoch h

theorem epochUtc_of_insideRange (hleast : LeastIsZero (utcTimesOf clock ical events)) :
    ∀ event ∈ events.getLast?, 0 ∈ event.utcTimes clock ical := by
  intro event hevent
  have hlows := (leastIsZero_iff (fun _ => mem_utcTimes_of_mem_map_low)
    (fun _ => exists_mem_map_low_le)).mpr hleast
  have hne : events ≠ [] := ne_nil_of_mem (mem_of_getLast? hevent)
  obtain ⟨start, duration, hrange, hle, -⟩ := h 0 hleast.1
  rw [eventRange_of_epoch hshort hne hepoch] at hrange
  obtain ⟨rfl, -⟩ := Prod.mk.inj (some.inj hrange)
  -- zero is found, so that it comes last
  have hzero : minTime clock ical events = 0 :=
    le_antisymm hle (hleast.2 _ (minTime_mem clock ical hne))
  have hlast := getLast?_of_foldl_lower (ne_nil_of_mem hlows.1) hzero
  rw [getLast?_map, mem_def.mp hevent] at hlast
  exact some.inj hlast ▸ (event.low_spec _ _).1

/-- If one time is `k` times `2 ^ 32` seconds before the epoch, all are. -/
theorem early_of_insideRange (hepochUtc : LeastIsZero (utcTimesOf clock ical events) →
      ∀ event ∈ events.getLast?, 0 ∈ event.utcTimes clock ical) {k : ℤ}
    (hk : 0 < k) {t u : ℤ} (ht : t ∈ utcTimesOf clock ical events)
    (hu : u ∈ utcTimesOf clock ical events) (hearly : t ≤ -2 ^ 32 * k) :
    u ≤ -2 ^ 32 * k := by
  have hne : events ≠ [] := by
    rintro rfl
    contradiction
  obtain ⟨start, duration, hrange, -, hle⟩ := h u hu
  rw [eventRange_of_epoch hshort hne hepoch] at hrange
  obtain ⟨rfl, rfl⟩ := Prod.mk.inj (some.inj hrange)
  have hmin := minTime_le hne hepochUtc t ht
  obtain ⟨hmax, hmaxZero, -⟩ := maxTime_spec clock ical events
  rcases hmax with hmax | hmax
  · rw [hmax, add_toU32_neg] at hle
    omega
  · have := hshort t (mem_times_of_mem_utcTimes ht) _ (mem_times_of_mem_utcTimes hmax)
    omega

end

end Range

/-! ## The instances -/

/-- The groups of occurrences that can be packed are decoded in order. -/
theorem decoded_group (hdistinct : Distinct events) (hshort : Short clock ical events)
    (h : Packable clock ical events) {group : GroupKey × List ℤ}
    (hgroup : group ∈ groupBy (·.key) (·.start.naive) events) :
    decoded (baseTime clock ical events) group.2 = group.2.mergeSort := by
  obtain ⟨key, starts⟩ := group
  have hstarts := (mem_groupBy.mp hgroup).2
  have hfits : ∀ start ∈ starts, baseTime clock ical events ≤ start ∧
      start - baseTime clock ical events < 2 ^ 32 := by
    intro start hstart
    rw [hstarts] at hstart
    obtain ⟨event, hevent, rfl⟩ := mem_map.mp hstart
    have hmem : event.start.naive ∈ timesOf clock ical events :=
      mem_flatMap.mpr ⟨event, (mem_filter.mp hevent).1, mem_cons_self⟩
    obtain ⟨hbase, hbaseLe, -⟩ := base_spec (ne_nil_of_mem (mem_filter.mp hevent).1) h.epoch
    exact ⟨hbaseLe _ hmem, hshort _ hbase _ hmem⟩
  have hnodup : starts.Nodup := by
    rw [hstarts, Nodup, pairwise_map]
    refine (hdistinct.filter _).imp_of_mem fun {a b} ha hb hne => hne ?_
    -- the components of a group are the same, as their ids are short
    obtain ⟨ha, hkey⟩ := mem_filter.mp ha
    obtain ⟨hb, hkey'⟩ := mem_filter.mp hb
    have hid := congrArg GroupKey.id ((of_decide_eq_true hkey).trans (of_decide_eq_true hkey').symm)
    simp only [Occurrence.key, Nat.mod_eq_of_lt (h.components a ha),
      Nat.mod_eq_of_lt (h.components b hb)] at hid
    exact hid
  have hlen : starts.length < 2 ^ 32 := by
    rw [hstarts, length_map]
    exact h.counts key
  exact decoded_eq (ne_nil_of_mem_groupBy hgroup) hnodup hlen hfits

/-- Occurrences that can be packed are expanded as they were. -/
theorem survives_of_packable (hdistinct : Distinct events) (hshort : Short clock ical events)
    (h : Packable clock ical events) :
    Survives (new clock now ical next events).1 events := by
  intro clock' limit ranges hlimit hranges
  obtain ⟨expansions, hexpand, hperm⟩ := exists_expand_new clock now ical next events hlimit hranges
  refine ⟨expansions, hexpand, hperm.trans ?_⟩
  have hdecoded : ∀ group ∈ groupBy (·.key) (·.start.naive) events,
      (decoded (baseTime clock ical events) group.2).Perm group.2 := by
    intro group hgroup
    rw [decoded_group hdistinct hshort h hgroup]
    exact mergeSort_perm _ _
  refine (Perm.flatMap_left _ fun group hgroup => (hdecoded group hgroup).filterMap _).trans ?_
  refine (flatMap_groups_perm events _).trans (Perm.of_eq ?_)
  refine filterMap_congr fun event hevent => ?_
  -- a group has the zones, component and duration of its occurrences
  simp only [GroupKey.instant, Occurrence.key, fromId_asId, toI32_eq (h.durations event hevent),
    Nat.mod_eq_of_lt (h.components event hevent), Occurrence.instant, map_eq_bind]
  rfl

/-! ## Zones in which the local time is the time -/

/-- The local times of the occurrences. -/
def naiveTimes (events : List (Occurrence Tz)) : List ℤ :=
  events.flatMap fun event => [event.start.naive, event.finish.naive]

/-- Each local time of the occurrences is the same in UTC. -/
def Clock.same (clock : Clock Tz) (events : List (Occurrence Tz)) : Clock Tz :=
  { clock with resolve := fun _ naive => if naive ∈ naiveTimes events then some naive else none }

omit [Zones Tz] [BlockPacker] in
theorem exists_unlimited : ∃ limit : TimeRange, limit.Unlimited (clock.same events) := by
  refine ⟨⟨(naiveTimes events).foldl min 0 - 1, (naiveTimes events).foldl max 0 + 1⟩,
    fun tz naive t h => ?_⟩
  dsimp only [Clock.same] at h
  split at h
  · rename_i hmem
    obtain rfl := some.inj h
    have hlow := (foldl_min_spec (naiveTimes events) 0).2 naive (mem_cons_of_mem _ hmem)
    have hhigh := (foldl_max_spec (naiveTimes events) 0).2 naive (mem_cons_of_mem _ hmem)
    exact ⟨by dsimp only; omega, by dsimp only; omega⟩
  · contradiction

omit [BlockPacker] in
theorem instant_same {event : Occurrence Tz} (hevent : event ∈ events) :
    event.instant (clock.same events) =
      some (event.compId, event.start.naive, event.finish.naive) := by
  have hstart : event.start.naive ∈ naiveTimes events :=
    mem_flatMap.mpr ⟨event, hevent, mem_cons_self⟩
  have hfinish : event.finish.naive ∈ naiveTimes events :=
    mem_flatMap.mpr ⟨event, hevent, mem_cons_of_mem _ mem_cons_self⟩
  simp only [Occurrence.instant, resolveInstance, Clock.same, if_pos hstart,
    add_sub_cancel, if_pos hfinish, map_some]

omit [BlockPacker] in
/-- In those zones an instance starts at its local time. -/
theorem eq_of_instant_same {key : GroupKey} {naive : ℤ} {id : ℕ} {start stop : ℤ}
    (h : key.instant (clock.same events) naive = some (id, start, stop)) :
    id = key.id ∧ start = naive ∧ stop = naive + key.duration := by
  have hsame {tz : Tz} {naive t : ℤ} (ht : (clock.same events).resolve tz naive = some t) :
      t = naive := by
    dsimp only [Clock.same] at ht
    split at ht
    · exact (some.inj ht).symm
    · contradiction
  simp only [GroupKey.instant, bind_eq_bind, bind_eq_some_iff] at h
  obtain ⟨startTz, -, endTz, -, ⟨start', stop'⟩, hresolve, h⟩ := h
  obtain ⟨rfl, rfl, rfl⟩ : key.id = id ∧ start' = start ∧ stop' = stop := by simpa using some.inj h
  rw [resolveInstance] at hresolve
  split at hresolve
  · rename_i hstart hstop
    obtain ⟨rfl, rfl⟩ := Prod.mk.inj (some.inj hresolve)
    exact ⟨rfl, hsame hstart, hsame hstop⟩
  · contradiction

section Necessary

variable (h : Survives (CalendarEventData.new clock now ical next events).1 events)
include h

/-- In those zones the instants of the groups are the local times. -/
theorem groupInstants_perm :
    (groupInstants events (clock.same events) (baseTime clock ical events)).Perm
      (events.map fun event => (event.compId, event.start.naive, event.finish.naive)) := by
  obtain ⟨limit, hlimit⟩ := exists_unlimited
  obtain ⟨expansions, hexpand, hperm⟩ := exists_expand_new clock now ical
    next events hlimit (Perm.refl _)
  obtain ⟨expansions', hexpand', hperm'⟩ := h _ limit _ hlimit (Perm.refl _)
  obtain rfl : expansions = expansions' := some.inj (hexpand.symm.trans hexpand')
  refine hperm.symm.trans (hperm'.trans (Perm.of_eq ?_))
  rw [← filterMap_eq_map]
  exact filterMap_congr fun event hevent => instant_same hevent

/-- What comes out as it went in fits into the fields. -/
theorem fits_of_survives {event : Occurrence Tz} (hevent : event ∈ events) :
    event.compId < 2 ^ 16 ∧
      (-2 ^ 31 ≤ event.finish.naive - event.start.naive ∧
        event.finish.naive - event.start.naive < 2 ^ 31) ∧
      baseTime clock ical events ≤ event.start.naive := by
  have hmem := (groupInstants_perm h).mem_iff.mpr (mem_map_of_mem hevent)
  obtain ⟨⟨key, starts⟩, hgroup, hmem⟩ := mem_flatMap.mp hmem
  obtain ⟨naive, hnaive, hinstant⟩ := mem_filterMap.mp hmem
  obtain ⟨hid, hstart, hstop⟩ := eq_of_instant_same hinstant
  obtain ⟨event', -, hkey⟩ := mem_map.mp (mem_groupBy.mp hgroup).1
  refine ⟨?_, ?_, hstart ▸ (mem_decoded hnaive).1⟩
  · rw [hid, ← hkey]
    exact Nat.mod_lt _ (Nat.two_pow_pos _)
  · have hduration : event.finish.naive - event.start.naive = key.duration := by
      rw [hstop, hstart, add_sub_cancel_left]
    rw [hduration, ← hkey]
    exact ⟨Int.le_bmod (by decide), Int.bmod_lt (by decide)⟩

/-- As do the numbers of occurrences. -/
theorem counts_of_survives (key : GroupKey) : (events.filter (·.key = key)).length < 2 ^ 32 := by
  by_contra hmany
  have hlength := (groupInstants_perm h).length_eq
  have hflat := (flat_groupBy_perm (fun event : Occurrence Tz => event.key)
    (fun event => event.start.naive) events).length_eq
  rw [groupInstants, length_flatMap, length_map] at hlength
  rw [flat, length_flatMap] at hflat
  simp only [length_map] at hflat
  obtain ⟨event, hfiltered⟩ := exists_mem_of_length_pos
    (show 0 < (events.filter (·.key = key)).length by omega)
  obtain ⟨hevent, hkey⟩ := mem_filter.mp hfiltered
  obtain rfl : event.key = key := of_decide_eq_true hkey
  obtain ⟨starts, hgroup⟩ := exists_mem_groupBy (·.key) (·.start.naive) hevent
  -- what cannot be counted is lost, and nothing else makes up for it
  have hlt : ((groupBy (·.key) (·.start.naive) events).map fun group =>
      ((decoded (baseTime clock ical events) group.2).filterMap
        (group.1.instant (clock.same events))).length).sum <
      ((groupBy (·.key) (·.start.naive) events).map fun group => group.2.length).sum := by
    refine sum_lt_sum _ _ (fun group hgroup => ?_) ⟨_, hgroup, ?_⟩
    · exact (length_filterMap_le _ _).trans (length_decoded_le (ne_nil_of_mem_groupBy hgroup)).1
    · refine lt_of_le_of_lt (length_filterMap_le _ _)
        ((length_decoded_le (ne_nil_of_mem_groupBy hgroup)).2 ?_)
      rw [(mem_groupBy.mp hgroup).2, length_map]
      omega
  omega

end Necessary

variable (clock now ical next events)

/-- Occurrences with distinct starts for each component and times within 32 bits of seconds come out
    as they were, with their times inside the recorded range, if they are packable, and only then if
    none ends before it starts. -/
theorem expand_new_iff (hdistinct : Distinct events) (hshort : Short clock ical events) :
    let data := (new clock now ical next events).1
    (Packable clock ical events → Survives data events ∧ InsideRange clock ical events data) ∧
    ((∀ event ∈ events, event.start.naive ≤ event.finish.naive) →
      Survives data events ∧ InsideRange clock ical events data →
      Packable clock ical events) := by
  intro data
  refine ⟨fun h => ⟨?_, ?_⟩, fun hforward ⟨hsurvives, hinside⟩ => ?_⟩
  · exact survives_of_packable hdistinct hshort h
  · exact insideRange_of_packable hshort h
  · have hfits := fun event (hevent : event ∈ events) => fits_of_survives hsurvives hevent
    have hepoch := epoch_of_insideRange hforward
      (fun event hevent => (hfits event hevent).2.2) hinside
    have hepochUtc := epochUtc_of_insideRange hshort hepoch hinside
    exact {
      components := fun event hevent => (hfits event hevent).1
      durations := fun event hevent => (hfits event hevent).2.1
      counts := counts_of_survives hsurvives
      epoch := hepoch
      epochUtc := hepochUtc
      early := fun k hk t ht u hu => early_of_insideRange hshort hepoch hinside hepochUtc hk ht hu }

end RoundTrip

/-! ## Birthdays -/

local instance : BlockPacker := plainPacker

/-- There is one zone. -/
instance : Zones Unit := ⟨fun _ => 0, fun _ => some (), fun _ => false, fun _ => rfl⟩

/-- Local times are the times, for some thousand years. -/
def utcClock : Clock Unit where
  resolve _ naive := if -2 ^ 40 < naive ∧ naive < 2 ^ 40 then some naive else none
  defaultTz := ()

/-- An event of one component, without alarms. -/
def yearly : ICalendar := ⟨[⟨false, false, true, [], none⟩]⟩

/-- A day that starts at a time. -/
def day (start : ℤ) : Occurrence Unit := ⟨0, ⟨start, start, ()⟩, .delta 86400⟩

/-- A birthday on the second of January 1970. -/
theorem expand_new_secondOfJanuary :
    let data := (new utcClock 0 yearly none [day 86400, day 31622400]).1
    Survives data [day 86400, day 31622400] ∧
      InsideRange utcClock yearly [day 86400, day 31622400] data := by
  refine (expand_new_iff utcClock 0 yearly none _ ?_ ?_).1
    ⟨by decide, by decide, fun key => ?_, ?_, ?_, ?_⟩
  · exact pairwise_pair.mpr fun _ => by decide
  · rw [Short]
    decide
  · exact lt_of_le_of_lt (length_filter_le _ _) (by decide)
  · rw [LeastIsZero]
    decide
  · exact fun h => absurd h.1 (by decide)
  · intro k hk t ht u hu hearly
    have hpos : 0 ≤ t := (by decide : ∀ t ∈ [86400, 172800, 31622400, 31708800], (0 : ℤ) ≤ t) t ht
    omega

/-- A birthday on the first of January 1970: it first comes out in 2106. -/
theorem expand_new_birthday :
    Distinct [day 0, day 31536000] ∧ Short utcClock yearly [day 0, day 31536000] ∧
      ∃ expansions, CalendarEventData.expand utcClock ⟨-2 ^ 63, 2 ^ 63 - 1⟩
          (CalendarEventData.new utcClock 0 yearly none [day 0, day 31536000]).1 = some expansions ∧
        (expansions.map CalendarEventExpansion.instant).Perm
          [(0, 2 ^ 32, 2 ^ 32 + 86400), (0, 31536000, 31622400)] ∧
        [day 0, day 31536000].filterMap (·.instant utcClock) =
          [(0, 0, 86400), (0, 31536000, 31622400)] := by
  have hlimit : (⟨-2 ^ 63, 2 ^ 63 - 1⟩ : TimeRange).Unlimited utcClock := by
    intro tz naive t h
    dsimp only [utcClock] at h
    split at h
    · obtain rfl := some.inj h
      exact ⟨by dsimp only; omega, by dsimp only; omega⟩
    · contradiction
  obtain ⟨expansions, hexpand, hperm⟩ := exists_expand_new utcClock 0 yearly
    none [day 0, day 31536000] hlimit (Perm.refl _)
  refine ⟨pairwise_pair.mpr fun _ => by decide, ?_, expansions, hexpand, ?_, rfl⟩
  · rw [Short]
    decide
  · have hbase : baseTime utcClock yearly [day 0, day 31536000] = 31536000 := rfl
    have hgroups : groupBy (·.key) (·.start.naive) [day 0, day 31536000] =
        [(⟨0, 0, 0, 86400⟩, [0, 31536000])] := rfl
    have hsorted : [0, 31536000].mergeSort = [(0 : ℤ), 31536000] :=
      mergeSort_of_pairwise (pairwise_pair.mpr rfl)
    rw [groupInstants, hbase, hgroups, flatMap_singleton,
      decoded_of_lt 31536000 (by decide) (by decide), hsorted] at hperm
    exact hperm

end Inworkspace.Calendar
