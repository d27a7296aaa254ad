import Inworkspace.InMemory.Store

/-!
# Rate limits

`is_rate_allowed` counts requests in windows of the length of the rate's period: the number of the
window is part of the counter's key. It looks at the clock, and again when it has worked out when
the window ends, and then increments the counter in one write that also notes when it expires.

What is counted is at least what has been allowed, until a purge deletes the counter, and this is not
before the window has ended (`Inv.marked`), when no request can begin in it any more. A request
that has begun in the window and is late can still be under way, though. If there is none
(`InTime`), no more requests are allowed in a window than the rate says (`count_allowed_le`).
-/

namespace Inworkspace.InMemory

open Lib.BigEndian Lib.Interleaving Function Option List Nat

/-- `Rate`, with the period in seconds. -/
structure Rate where
  count : ℕ
  period : ℕ

namespace Rate

variable (self : Rate)

/-- The length of a window. -/
def window : ℕ := max self.period 1

def rangeStart (now : ℕ) : ℕ := now / self.window

/-- `expires_in`, with `range_end` as a `u64`. -/
def expiresIn (now : ℕ) : ℕ :=
  ((self.rangeStart now * self.window + self.window) % 2 ^ 64 + 2 ^ 64 - now) % 2 ^ 64

/-- `self.count as i64`. -/
def limit : ℤ := (self.count : ℤ).bmod (2 ^ 64)

end Rate

/-- The key of a counter. -/
def bucket (keyPrefix : ℕ) (key : Bytes) (rangeStart : ℕ) : Bytes :=
  keyPrefix :: (key ++ bigEndian 8 rangeStart)

/-- A request has looked at the clock, or has made up when the counter expires. -/
inductive Request where
  | idle
  | started (now : ℕ)
  | stamped (now expiry : ℕ)

/-- The requests under way and what they share, with the windows of those allowed so far. -/
structure RateState extends Shared where
  requests : ℕ → Request
  allowed : List ℕ

/-- The steps of requests, of the clock and of purges. -/
inductive RateStep where
  | background (step : Background)
  | start (request : ℕ)
  | softCheck (request : ℕ)
  | stamp (request : ℕ)
  | increment (request : ℕ)
  | fail (request : ℕ)

/-- The write of `counter_incr`: the request is done, and allowed if the counter is not above the
    limit. -/
def RateState.counterIncr (self : RateState) (request rangeStart expiry : ℕ) (counter : Bytes)
    (limit : ℤ) : RateState :=
  let requests := ((self.counters counter).getD 0 + 1).bmod (2 ^ 64)
  { toShared := (self.setValue counter (bigEndian 8 0 ++ bigEndian 8 expiry)).setCounter counter
      (some requests)
    requests := update self.requests request .idle
    allowed := if requests ≤ limit then self.allowed ++ [rangeStart] else self.allowed }

section Step

variable (rate : Rate) (keyPrefix : ℕ) (key : Bytes)

/-- `is_rate_allowed` for a rate and a key, cut into its accesses to the store and the clock. A
    request can fail at any time; one that only asks (`soft_check`) does not count. -/
def RateState.step (self : RateState) : RateStep → Option RateState
  | .background step => do
    let shared ← self.background step
    return { self with toShared := shared }
  | .start request =>
    match self.requests request with
    | .idle =>
      some { self with requests := update self.requests request (.started self.clock) }
    | _ => none
  | .softCheck request =>
    match self.requests request with
    | .started _ => some { self with requests := update self.requests request .idle }
    | _ => none
  | .stamp request =>
    match self.requests request with
    | .started now =>
      let expiry := (self.clock + rate.expiresIn now) % 2 ^ 64
      some { self with requests := update self.requests request (.stamped now expiry) }
    | _ => none
  | .increment request =>
    match self.requests request with
    | .stamped now expiry =>
      some (self.counterIncr request (rate.rangeStart now) expiry
        (bucket keyPrefix key (rate.rangeStart now)) rate.limit)
    | _ => none
  | .fail request => some { self with requests := update self.requests request .idle }

/-- Requests for a key: at first none and no purge is under way, and none has been counted. -/
def rateSystem : System RateState RateStep where
  Initial s := (∀ request, s.requests request = .idle) ∧ s.allowed = [] ∧
    (∀ rangeStart, s.values (bucket keyPrefix key rangeStart) = none ∧
      s.counters (bucket keyPrefix key rangeStart) = none) ∧ ∀ purge, s.purges purge = none
  step := RateState.step rate keyPrefix key

/-- The request has begun at this time and has not been counted yet. -/
def Request.Pending (now : ℕ) : Request → Prop
  | idle => False
  | started now' | stamped now' _ => now' = now

/-- When a counter is purged, no request of its window is under way. Times and counters are in
    range. -/
def InTime (s : RateState) : RateStep → Prop
  | .background (.purgeDelete _ counter) => ∀ request now, (s.requests request).Pending now →
    bucket keyPrefix key (rate.rangeStart now) ≠ counter
  | .start _ | .stamp _ => s.clock + rate.window < 2 ^ 64
  | .increment _ => ∀ rangeStart,
    (s.counters (bucket keyPrefix key rangeStart)).getD 0 + 1 < 2 ^ 63
  | _ => True

end Step

/-! ## Windows and their counters -/

/-- A number that wraps around does not get larger. -/
theorem bmod_le_self {n : ℤ} (hn : 0 ≤ n) (m : ℕ) : n.bmod m ≤ n := by
  have hdiv : 0 ≤ (m : ℤ) * (n / m) :=
    Int.mul_nonneg (Int.natCast_nonneg m) (Int.ediv_nonneg hn (Int.natCast_nonneg m))
  have hmod := Int.emod_add_mul_ediv n m
  rw [Int.bmod_def]
  split_ifs <;> omega

namespace Rate

variable {rate : Rate} {now clock rangeStart : ℕ}

theorem window_pos : 0 < rate.window := lt_of_lt_of_le one_pos (le_max_right _ _)

/-- The end of a window. -/
def rangeEnd (rate : Rate) (rangeStart : ℕ) : ℕ := (rangeStart + 1) * rate.window

theorem lt_rangeEnd (now : ℕ) : now < rate.rangeEnd (rate.rangeStart now) := by
  rw [rangeEnd, mul_comm]
  exact lt_mul_div_succ now window_pos

theorem rangeEnd_le (now : ℕ) : rate.rangeEnd (rate.rangeStart now) ≤ now + rate.window := by
  rw [rangeEnd, add_mul, one_mul]
  exact Nat.add_le_add_right (Nat.div_mul_le_self now _) _

theorem expiresIn_eq (h : now + rate.window < 2 ^ 64) :
    rate.expiresIn now = rate.rangeEnd (rate.rangeStart now) - now := by
  have hlt := rate.lt_rangeEnd now
  have hle := rate.rangeEnd_le now
  have heq : rate.rangeStart now * rate.window + rate.window =
      rate.rangeEnd (rate.rangeStart now) := by
    rw [rangeEnd, add_mul, one_mul]
  rw [expiresIn, heq]
  omega

end Rate

theorem bucket_inj {keyPrefix : ℕ} {key : Bytes} {rangeStart rangeStart' : ℕ}
    (h : rangeStart < 2 ^ 64) (h' : rangeStart' < 2 ^ 64)
    (heq : bucket keyPrefix key rangeStart = bucket keyPrefix key rangeStart') :
    rangeStart = rangeStart' := by
  have hbytes := append_cancel_left (cons.inj heq).2
  rw [← ofBigEndian_u64 h, hbytes, ofBigEndian_u64 h']

/-- When a counter has expired. -/
theorem expired_marker {expiry : ℕ} (h : expiry < 2 ^ 64) (currentTime : ℕ) :
    expired currentTime (bigEndian 8 0 ++ bigEndian 8 expiry) =
      some (if expiry ≤ currentTime then some .counter else none) := by
  have hzero : deserializeBeU64 (bigEndian 8 0 ++ bigEndian 8 expiry) 0 = some 0 := by
    rw [deserializeBeU64, if_pos (by simp), drop_zero, take_left' (length_bigEndian 8 0),
      ofBigEndian_u64 (by decide)]
  have hexpiry : deserializeBeU64 (bigEndian 8 0 ++ bigEndian 8 expiry) 8 = some expiry := by
    rw [deserializeBeU64, if_pos (by simp), drop_left' (length_bigEndian 8 0),
      take_of_length_le (by simp), ofBigEndian_u64 h]
  rw [expired, hzero]
  simp only [hexpiry]
  rfl

/-! ## The invariant -/

section Inv

variable {rate : Rate} {keyPrefix : ℕ} {key : Bytes} {s s' : RateState}

/-- The window is over, and so are the requests that have begun in it. -/
def Closed (rate : Rate) (s : RateState) (rangeStart : ℕ) : Prop :=
  rate.rangeEnd rangeStart ≤ s.clock ∧
    ∀ request now, (s.requests request).Pending now → rate.rangeStart now ≠ rangeStart

/-- A counter has counted all requests allowed, unless its window is closed. -/
structure RateInv (rate : Rate) (keyPrefix : ℕ) (key : Bytes) (s : RateState) : Prop where
  timed : s.Timed
  pending : ∀ request now, (s.requests request).Pending now →
    now ≤ s.clock ∧ now + rate.window < 2 ^ 64
  stamped : ∀ request now expiry, s.requests request = .stamped now expiry →
    rate.rangeEnd (rate.rangeStart now) ≤ expiry ∧ expiry < 2 ^ 64
  marked : ∀ rangeStart < 2 ^ 64, ∀ value,
    s.values (bucket keyPrefix key rangeStart) = some value →
    ∃ expiry, value = bigEndian 8 0 ++ bigEndian 8 expiry ∧ rate.rangeEnd rangeStart ≤ expiry ∧
      expiry < 2 ^ 64
  found : ∀ rangeStart < 2 ^ 64, s.Found (bucket keyPrefix key rangeStart) →
    rate.rangeEnd rangeStart ≤ s.clock
  counter : ∀ rangeStart < 2 ^ 64, 0 ≤ (s.counters (bucket keyPrefix key rangeStart)).getD 0
  counted : ∀ rangeStart < 2 ^ 64,
    (s.allowed.count rangeStart : ℤ) ≤ (s.counters (bucket keyPrefix key rangeStart)).getD 0 ∨
      Closed rate s rangeStart
  bound : ∀ rangeStart, s.allowed.count rangeStart ≤ rate.count

section

variable (h : RateInv rate keyPrefix key s)

include h

/-- A request goes on without being counted, or another one begins. -/
theorem RateInv.setRequest {request : ℕ} {next : Request} (hpending : ∀ now, next.Pending now →
      now + rate.window < 2 ^ 64 ∧ ((s.requests request).Pending now ∨ now = s.clock))
    (hstamped : ∀ now expiry, next = .stamped now expiry →
      rate.rangeEnd (rate.rangeStart now) ≤ expiry ∧ expiry < 2 ^ 64) :
    RateInv rate keyPrefix key { s with requests := update s.requests request next } := by
  have hrequest {request' now : ℕ} (h' : (update s.requests request next request').Pending now) :
      (s.requests request').Pending now ∨ now + rate.window < 2 ^ 64 ∧ now = s.clock := by
    by_cases heq : request' = request
    · subst heq
      rw [update_self] at h'
      obtain ⟨hlt, hold | hnow⟩ := hpending now h'
      · exact .inl hold
      · exact .inr ⟨hlt, hnow⟩
    · rw [update_of_ne heq] at h'
      exact .inl h'
  refine ⟨h.timed, fun request' now h' => ?_, fun request' now expiry h' => ?_, h.marked, h.found,
    h.counter, fun rangeStart hlt => ?_, h.bound⟩
  · rcases hrequest h' with hold | ⟨hlt, hnow⟩
    · exact h.pending request' now hold
    · exact ⟨hnow.le, hlt⟩
  · dsimp only at h'
    by_cases heq : request' = request
    · subst heq
      rw [update_self] at h'
      exact hstamped now expiry h'
    · rw [update_of_ne heq] at h'
      exact h.stamped request' now expiry h'
  · refine (h.counted rangeStart hlt).imp_right fun hclosed => ⟨hclosed.1, fun request' now h' => ?_⟩
    rcases hrequest h' with hold | ⟨-, rfl⟩
    · exact hclosed.2 request' now hold
    · -- after the end of a window other windows begin
      exact (Nat.lt_of_succ_le ((le_div_iff_mul_le Rate.window_pos).mpr hclosed.1)).ne'

/-- The clock, and purges that spare the counter of a request under way. -/
theorem RateInv.background {step : Background} {shared : Shared}
    (hstep : s.background step = some shared)
    (hintime : InTime rate keyPrefix key s (.background step)) :
    RateInv rate keyPrefix key { s with toShared := shared } := by
  have hclock := Shared.clock_le_background hstep
  refine ⟨h.timed.background hstep, fun request now h' => ?_, h.stamped,
    fun rangeStart hlt value hvalue => ?_, fun rangeStart hlt hfound => ?_,
    fun rangeStart hlt => ?_, fun rangeStart hlt => ?_, h.bound⟩
  · obtain ⟨hle, hlt⟩ := h.pending request now h'
    exact ⟨hle.trans hclock, hlt⟩
  · rcases Shared.values_background hstep (bucket keyPrefix key rangeStart) with heq | ⟨hnone, -⟩
    · exact h.marked rangeStart hlt value (heq ▸ hvalue)
    · cases hnone.symm.trans hvalue
  · -- it was found before, or its time has come
    rcases Shared.Found.of_background h.timed hstep hfound with
      hold | ⟨currentTime, hle, value, kind, hvalue, hexpired⟩
    · exact (h.found rangeStart hlt hold).trans hclock
    obtain ⟨expiry, rfl, hend, hexpiry⟩ := h.marked rangeStart hlt value hvalue
    rw [expired_marker hexpiry, some.injEq] at hexpired
    split_ifs at hexpired with htime
    exact hend.trans (htime.trans (hle.trans hclock))
  · rcases Shared.counters_background hstep (bucket keyPrefix key rangeStart) with
      heq | ⟨hnone, -, -⟩
    · rw [heq]
      exact h.counter rangeStart hlt
    · rw [hnone, getD_none]
  · rcases Shared.counters_background hstep (bucket keyPrefix key rangeStart) with
      heq | ⟨-, hfound, purge, rfl⟩
    · refine (h.counted rangeStart hlt).imp (fun hle => ?_) fun hclosed =>
        ⟨hclosed.1.trans hclock, hclosed.2⟩
      rwa [heq]
    · -- the counter is lost, and the window is closed
      refine .inr ⟨(h.found rangeStart hlt hfound).trans hclock, fun request now h' => ?_⟩
      rintro rfl
      exact hintime request now h' rfl

end

section CounterIncr

variable {request rangeStart expiry : ℕ} {counter : Bytes} {limit : ℤ}

theorem counterIncr_counters (key' : Bytes) :
    (s.counterIncr request rangeStart expiry counter limit).counters key' =
      if key' = counter then some (((s.counters counter).getD 0 + 1).bmod (2 ^ 64))
      else s.counters key' :=
  update_apply _ _ _ _

/-- A request counts in its own range, if it is within the limit. -/
theorem counterIncr_count (rangeStart' : ℕ) :
    (s.counterIncr request rangeStart expiry counter limit).allowed.count rangeStart' =
      s.allowed.count rangeStart' +
        if rangeStart' = rangeStart ∧ ((s.counters counter).getD 0 + 1).bmod (2 ^ 64) ≤ limit then 1
        else 0 := by
  simp only [RateState.counterIncr]
  split_ifs with hle heq heq
  · rw [heq.1, count_append, count_singleton_self]
  · have hne : rangeStart ≠ rangeStart' := fun h => heq ⟨h.symm, hle⟩
    rw [count_append, count_singleton, if_neg (by simpa using hne)]
  · exact absurd heq.2 hle
  · rfl

end CounterIncr

/-- A request is counted. -/
theorem RateInv.counterIncr (h : RateInv rate keyPrefix key s) {request now expiry : ℕ}
    (hstamped : s.requests request = .stamped now expiry)
    (hintime : InTime rate keyPrefix key s (.increment request)) :
    RateInv rate keyPrefix key (s.counterIncr request (rate.rangeStart now) expiry
      (bucket keyPrefix key (rate.rangeStart now)) rate.limit) := by
  have hpending : (s.requests request).Pending now := by
    rw [hstamped]
    rfl
  have hlt : rate.rangeStart now < 2 ^ 64 :=
    (div_le_self now _).trans_lt (by have := h.pending request now hpending; omega)
  have hidle : RateInv rate keyPrefix key
      { s with requests := update s.requests request .idle } := h.setRequest nofun nofun
  -- the counter is in range, and as the window is not closed, all requests in it are counted
  have hnonneg := h.counter _ hlt
  have hrequests := Int.bmod_eq_of_le
    (n := (s.counters (bucket keyPrefix key (rate.rangeStart now))).getD 0 + 1) (m := 2 ^ 64)
    (by omega) (by have := hintime (rate.rangeStart now); omega)
  have hcounted := (h.counted _ hlt).resolve_right fun hclosed => hclosed.2 request now hpending rfl
  have hother {rangeStart : ℕ} (hlt' : rangeStart < 2 ^ 64) (hne : rangeStart ≠ rate.rangeStart now) :
      bucket keyPrefix key rangeStart ≠ bucket keyPrefix key (rate.rangeStart now) :=
    fun heq => hne (bucket_inj hlt' hlt heq)
  refine ⟨h.timed, hidle.pending, hidle.stamped, fun rangeStart hlt' value hvalue => ?_, h.found,
    fun rangeStart hlt' => ?_, fun rangeStart hlt' => ?_, fun rangeStart => ?_⟩
  · simp only [RateState.counterIncr, Shared.setCounter, Shared.setValue, update_apply] at hvalue
    split_ifs at hvalue with heq
    · obtain rfl := some.inj hvalue
      obtain rfl := bucket_inj hlt' hlt heq
      exact ⟨expiry, rfl, h.stamped request now expiry hstamped⟩
    · exact h.marked rangeStart hlt' value hvalue
  · rw [counterIncr_counters]
    split_ifs
    · rw [getD_some]
      omega
    · exact h.counter rangeStart hlt'
  · rw [counterIncr_counters, counterIncr_count]
    by_cases heq : rangeStart = rate.rangeStart now
    · subst heq
      rw [if_pos rfl, getD_some]
      split_ifs <;> omega
    · rw [if_neg (hother hlt' heq), if_neg fun h => heq h.1]
      exact hidle.counted rangeStart hlt'
  · rw [counterIncr_count]
    split_ifs with hle
    · obtain ⟨rfl, hle⟩ := hle
      have hlimit : rate.limit ≤ rate.count := bmod_le_self (Int.natCast_nonneg _) _
      omega
    · exact h.bound rangeStart

/-- Requests, and purges in time, keep the invariant. -/
theorem RateInv.step (h : RateInv rate keyPrefix key s) {step : RateStep}
    (hintime : InTime rate keyPrefix key s step) (hstep : s.step rate keyPrefix key step = some s') :
    RateInv rate keyPrefix key s' := by
  cases step with
  | background step =>
    obtain ⟨shared, hshared, hs'⟩ := bind_eq_some_iff.mp hstep
    obtain rfl := some.inj hs'
    exact h.background hshared hintime
  | start request =>
    rw [RateState.step] at hstep
    split at hstep
    · obtain rfl := some.inj hstep
      refine h.setRequest ?_ nofun
      rintro now rfl
      exact ⟨hintime, .inr rfl⟩
    · cases hstep
  | softCheck request =>
    rw [RateState.step] at hstep
    split at hstep
    · obtain rfl := some.inj hstep
      exact h.setRequest nofun nofun
    · cases hstep
  | stamp request =>
    rw [RateState.step] at hstep
    split at hstep
    · rename_i now hstarted
      obtain rfl := some.inj hstep
      have hpending : (s.requests request).Pending now := by
        rw [hstarted]
        rfl
      obtain ⟨hle, hlt⟩ := h.pending request now hpending
      refine h.setRequest ?_ ?_
      · rintro _ rfl
        exact ⟨hlt, .inl hpending⟩
      · rintro now' expiry ⟨⟩
        -- the clock is not behind where it was when the window's end was worked out
        have hend := rate.rangeEnd_le now
        have hclock : s.clock + rate.window < 2 ^ 64 := hintime
        rw [Rate.expiresIn_eq hlt]
        omega
    · cases hstep
  | increment request =>
    rw [RateState.step] at hstep
    split at hstep
    · rename_i now expiry hstamped
      obtain rfl := some.inj hstep
      exact h.counterIncr hstamped hintime
    · cases hstep
  | fail request =>
    obtain rfl := some.inj hstep
    exact h.setRequest nofun nofun

end Inv

/-- In each window no more requests are allowed than the rate says, if a counter is purged only when
    no request of its window is under way. -/
theorem count_allowed_le {rate : Rate} {keyPrefix : ℕ} {key : Bytes} {s : RateState}
    (h : Run (rateSystem rate keyPrefix key) (InTime rate keyPrefix key) s) (rangeStart : ℕ) :
    s.allowed.count rangeStart ≤ rate.count := by
  have hinitial (s : RateState) (hs : (rateSystem rate keyPrefix key).Initial s) :
      RateInv rate keyPrefix key s := by
    obtain ⟨hrequests, hallowed, hstore, hpurges⟩ := hs
    have hpending (request now : ℕ) : ¬ (s.requests request).Pending now := by
      rw [hrequests]
      exact not_false
    refine ⟨fun purge currentTime found h => ?_, fun request now h => (hpending request now h).elim,
      fun request now expiry h => ?_, fun rangeStart _ value h => ?_, fun rangeStart _ h => ?_,
      fun rangeStart _ => ?_, fun rangeStart _ => .inl ?_, fun rangeStart => ?_⟩
    · cases (hpurges purge).symm.trans h
    · cases (hrequests request).symm.trans h
    · cases (hstore rangeStart).1.symm.trans h
    · obtain ⟨purge, job, kind, h, -⟩ := h
      cases (hpurges purge).symm.trans h
    · rw [(hstore rangeStart).2, getD_none]
    · rw [(hstore rangeStart).2, hallowed]
      exact le_rfl
    · rw [hallowed]
      exact zero_le _
  have hinv : RateInv rate keyPrefix key s :=
    h.induction hinitial fun s step s' hs hintime hstep => hs.step hintime hstep
  exact hinv.bound rangeStart

/-- One request per minute. -/
def oncePerMinute : Rate := ⟨1, 60⟩

/-- Shortly before a minute ends, with nothing stored. -/
def minuteEnds : RateState :=
  ⟨⟨59, fun _ => none, fun _ => none, fun _ => none⟩, fun _ => .idle, []⟩

theorem initial_minuteEnds : (rateSystem oncePerMinute 7 [1, 2]).Initial minuteEnds :=
  ⟨fun _ => rfl, rfl, fun _ => ⟨rfl, rfl⟩, fun _ => rfl⟩

/-- A request is counted, a second one in that minute is refused, and the counter is purged. -/
theorem count_allowed_oncePerMinute :
    ∃ s, Run (rateSystem oncePerMinute 7 [1, 2]) (InTime oncePerMinute 7 [1, 2]) s ∧
      s.allowed = [0] ∧ s.counters (bucket 7 [1, 2] 0) = none ∧
      ∀ rangeStart, s.allowed.count rangeStart ≤ 1 := by
  have hclock : 59 + oncePerMinute.window < 2 ^ 64 := by decide
  have hempty : (none : Option ℤ).getD 0 + 1 < 2 ^ 63 := by decide
  have hinitial : Run (rateSystem oncePerMinute 7 [1, 2]) (InTime oncePerMinute 7 [1, 2])
      minuteEnds := .initial initial_minuteEnds
  have hstarted := Run.step (a := RateStep.start 0) hinitial hclock rfl
  have hstamped := Run.step (a := RateStep.stamp 0) hstarted hclock rfl
  have hcounted := Run.step (a := RateStep.increment 0) hstamped (fun _ => hempty) rfl
  have hstarted := Run.step (a := RateStep.start 1) hcounted hclock rfl
  have hstamped := Run.step (a := RateStep.stamp 1) hstarted hclock rfl
  have hrefused := Run.step (a := RateStep.increment 1) hstamped (fun rangeStart => by
    show ((update (fun _ => none) (bucket 7 [1, 2] 0) _ : Bytes → Option ℤ) _).getD 0 + 1 < 2 ^ 63
    rw [update_apply]
    split
    · decide +kernel
    · exact hempty) rfl
  have hlater := Run.step (a := RateStep.background (.tick 1)) hrefused trivial rfl
  have hpurge := Run.step (a := RateStep.background (.purgeStart 0)) hlater trivial rfl
  have hread := Run.step (a := RateStep.background (.purgeRead 0 (bucket 7 [1, 2] 0))) hpurge trivial rfl
  have hpurged := Run.step (a := RateStep.background (.purgeDelete 0 (bucket 7 [1, 2] 0))) hread
    (fun request _ hpending => by rcases request with _ | _ | _ <;> exact hpending.elim) rfl
  exact ⟨_, hpurged, by decide +kernel, by decide +kernel, count_allowed_le hpurged⟩

/-! ## A late request -/

/-- Two requests begin, and one is counted before the minute is over. -/
def twoRequests : List RateStep :=
  [.start 0, .start 1, .stamp 0, .increment 0, .background (.tick 1)]

/-- The counter has expired, and is purged. -/
def counterPurged : List RateStep :=
  [.background (.purgeStart 0), .background (.purgeRead 0 (bucket 7 [1, 2] 0)),
    .background (.purgeDelete 0 (bucket 7 [1, 2] 0))]

/-- The other request is counted. -/
def lateRequest : List RateStep := [.stamp 1, .increment 1]

/-- If the counter is purged in between, both requests are allowed. -/
theorem count_allowed_lateRequest :
    ∃ s, Run (rateSystem oncePerMinute 7 [1, 2]) (fun _ _ => True) s ∧
      s.allowed.count 0 = 2 := by
  have hsteps : (((twoRequests ++ counterPurged ++ lateRequest).foldlM
      (RateState.step oncePerMinute 7 [1, 2]) minuteEnds).any fun s =>
        s.allowed.count 0 = 2) = true := by
    decide +kernel
  obtain ⟨s, hs, hcount⟩ := (any_eq_true _ _).mp hsteps
  exact ⟨s, (Run.initial initial_minuteEnds).foldlM (fun _ _ _ => trivial) hs, of_decide_eq_true hcount⟩

end Inworkspace.InMemory
