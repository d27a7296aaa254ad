import Inworkspace.Lib.Interleaving
import Mathlib.Data.Finset.Basic

/-!
# Concurrency limiter

`ConcurrencyLimiter` of `network/limiter.rs`, used by threads in any order. `is_allowed` reads the
counter and then, in a second atomic step, adds one to it, so other threads act in between. The
counter is the number of guards modulo `2 ^ 64` in every run, but only one thread at a time keeps it
within the limit (`guards_le_iff`).
-/

namespace Inworkspace.Network

open Lib.Interleaving UInt64

variable {Thread : Type} [DecidableEq Thread] {maxConcurrent : UInt64}

/-- The counter of a limiter, the threads that were allowed and have not added yet, and the number
    of `InFlight` guards that are alive. -/
structure Limiter (Thread : Type) where
  concurrent : UInt64
  allowed : Finset Thread
  guards : ℕ
  deriving DecidableEq

/-- The atomic operations: the load and the addition of `is_allowed`, and the subtraction of a
    dropped guard (which may have moved to any thread). -/
inductive LimiterStep (Thread : Type)
  | load (thread : Thread)
  | add (thread : Thread)
  | drop

/-- `check_is_allowed`, also the test of `is_allowed`. -/
def Limiter.checkIsAllowed (maxConcurrent : UInt64) (s : Limiter Thread) : Bool :=
  s.concurrent < maxConcurrent

/-- One atomic operation. -/
def Limiter.step (maxConcurrent : UInt64) (s : Limiter Thread) :
    LimiterStep Thread → Option (Limiter Thread)
  | .load thread =>
    if thread ∈ s.allowed then none
    -- `LimiterResult::Forbidden` leaves the limiter alone
    else some (if s.checkIsAllowed maxConcurrent
      then { s with allowed := insert thread s.allowed } else s)
  | .add thread =>
    if thread ∈ s.allowed then some ⟨s.concurrent + 1, s.allowed.erase thread, s.guards + 1⟩
    else none
  | .drop => if s.guards = 0 then none else some ⟨s.concurrent - 1, s.allowed, s.guards - 1⟩

/-- `ConcurrencyLimiter::new` and the threads that share it. -/
def limiter (Thread : Type) [DecidableEq Thread] (maxConcurrent : UInt64) :
    System (Limiter Thread) (LimiterStep Thread) where
  Initial s := s = ⟨0, ∅, 0⟩
  step := Limiter.step maxConcurrent

/-- The states of a limiter under any interleaving. -/
abbrev LimiterRun (maxConcurrent : UInt64) : Limiter Thread → Prop :=
  Run (limiter Thread maxConcurrent) fun _ _ => True

/-- The counter counts the guards, modulo its width. With one thread the guards stay within the
    limit, and below it while the thread has still to add. -/
theorem limiterRun_invariant {s : Limiter Thread} (h : LimiterRun maxConcurrent s) :
    s.concurrent = ofNat s.guards ∧ (Subsingleton Thread ∨ maxConcurrent = 0 →
      s.guards ≤ maxConcurrent.toNat ∧ ∀ thread ∈ s.allowed, s.guards < maxConcurrent.toNat) := by
  induction h with
  | initial h => simp [show _ = _ from h]
  | @step s s' a _ _ hs ih =>
    obtain ⟨hconcurrent, ih⟩ := ih
    cases a with simp only [limiter, Limiter.step, Option.ite_none_left_eq_some,
      Option.ite_none_right_eq_some, Option.some.injEq] at hs
    | load =>
      obtain ⟨-, rfl⟩ := hs
      split_ifs with hallowed
      · refine ⟨hconcurrent, fun hone => ⟨(ih hone).1, fun _ _ => ?_⟩⟩
        -- with one thread the counter does not wrap, so it is the number of guards
        have hguards := (ih hone).1
        have hwidth := maxConcurrent.toNat_lt
        simp only [Limiter.checkIsAllowed, hconcurrent, lt_iff_toNat_lt, toNat_ofNat',
          decide_eq_true_eq] at hallowed
        grind
      · exact ⟨hconcurrent, ih⟩
    | add thread =>
      obtain ⟨hthread, rfl⟩ := hs
      refine ⟨by simp [hconcurrent], fun hone => ?_⟩
      have hlt := (ih hone).2 thread hthread
      obtain hone | rfl := hone
      · exact ⟨hlt, fun _ h => absurd (hone.elim _ _) (Finset.ne_of_mem_erase h)⟩
      · simp at hlt
    | drop =>
      obtain ⟨hguards, rfl⟩ := hs
      obtain ⟨guards, hsucc⟩ := Nat.exists_eq_succ_of_ne_zero hguards
      simp [hconcurrent, hsucc]
      grind

/-- A counter below the limit. -/
theorem ofNat_lt_of_lt_toNat {k : ℕ} (hk : k < maxConcurrent.toNat) : ofNat k < maxConcurrent := by
  rw [lt_iff_toNat_lt, toNat_ofNat']
  exact (Nat.mod_le k _).trans_lt hk

/-- `k` guards that one thread took one after the other. -/
theorem limiterRun_guards (thread : Thread) {k : ℕ} (hk : k ≤ maxConcurrent.toNat) :
    LimiterRun maxConcurrent (⟨ofNat k, ∅, k⟩ : Limiter Thread) := by
  induction k with
  | zero => exact .initial rfl
  | succ k ih =>
    refine @Run.foldlM _ _ _ _ [.load thread, .add thread] _ _ (ih (by omega))
      (fun _ _ _ => trivial) ?_
    simp [limiter, Limiter.step, Limiter.checkIsAllowed, ofNat_lt_of_lt_toNat hk]

/-- At most `max_concurrent` guards are alive under every interleaving, and the counter is zero when
    all are dropped, exactly when one thread at most uses the limiter or nothing is allowed. -/
theorem guards_le_iff (Thread : Type) [DecidableEq Thread] (maxConcurrent : UInt64) :
    (∀ s : Limiter Thread, LimiterRun maxConcurrent s →
      s.guards ≤ maxConcurrent.toNat ∧ (s.guards = 0 → s.concurrent = 0)) ↔
      Subsingleton Thread ∨ maxConcurrent = 0 := by
  refine ⟨fun h => ?_, fun hone s hs => ?_⟩
  · by_contra! hnot
    obtain ⟨⟨a, b, hab⟩, hpos⟩ := hnot
    obtain ⟨k, hk⟩ := Nat.exists_eq_succ_of_ne_zero fun h => hpos (UInt64.toNat_inj.mp h)
    have hlt : k < maxConcurrent.toNat := by omega
    -- both threads read `k` before either of them adds
    have hrun : LimiterRun maxConcurrent (⟨ofNat k + 1 + 1, ∅, k + 1 + 1⟩ : Limiter Thread) :=
      @Run.foldlM _ _ _ _ [.load a, .load b, .add b, .add a] _ _ (limiterRun_guards a hlt.le)
        (fun _ _ _ => trivial) (by simp [limiter, Limiter.step, Limiter.checkIsAllowed,
          ofNat_lt_of_lt_toNat hlt, hab.symm])
    have hle : k + 1 + 1 ≤ _ := (h _ hrun).1
    omega
  · have hinv := limiterRun_invariant hs
    exact ⟨(hinv.2 hone).1, fun hzero => by simp [hinv.1, hzero]⟩

/-- Two threads read a counter of zero before either adds to it. -/
theorem limiter_two_threads : LimiterRun 1 (⟨2, ∅, 2⟩ : Limiter Bool) ∧ ¬2 ≤ (1 : UInt64).toNat :=
  ⟨@Run.foldlM _ _ _ _ [.load true, .load false, .add true, .add false] _ _ (.initial rfl)
    (fun _ _ _ => trivial) rfl, by decide⟩

end Inworkspace.Network
