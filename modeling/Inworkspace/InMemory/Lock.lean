import Inworkspace.InMemory.Store

/-!
# Locks

A lock is a value that says when it expires. `try_lock` reads it, and if it has expired or is
missing, writes the new time, provided that the value is still the same. `remove_lock` deletes it.

While a client holds a lock, the time it has written is what is stored (`Inv.held`), and that time is
yet to come, so whoever has read it will not write (`Inv.written`). Hence no two clients hold
a lock at a time (`mutualExclusion`), as long as the value is not deleted under a client
that holds the lock. This can happen in three ways: a purge deletes a key it has found, although
the lock has been taken again since, a client releases a lock that it has lost to
another one in the meantime, or a value that could not be read has become a lock
(`Undisturbed`).
-/

namespace Inworkspace.InMemory

open Lib.BigEndian Lib.Interleaving Option Function

/-- Where a client is with `try_lock`: it has read a value that is none of a lock, or when the lock
    expires, has decided to write a new time, or has the lock until then. -/
inductive Phase where
  | idle
  | corrupted
  | read (lockExpiry : Option ℕ)
  | ready (lockExpiry : Option ℕ) (expiry : ℕ)
  | locked (expiry : ℕ)
  deriving DecidableEq

/-- The clients and what they share. -/
structure LockState extends Shared where
  phase : ℕ → Bytes → Phase

/-- The steps of clients, of the clock and of purges. -/
inductive LockStep where
  | background (step : Background)
  | read (client : ℕ) (key : Bytes)
  | clearCorrupted (client : ℕ) (key : Bytes)
  | check (client : ℕ) (key : Bytes) (duration : ℕ)
  | write (client : ℕ) (key : Bytes)
  | removeLock (client : ℕ) (key : Bytes)
  | fail (client : ℕ) (key : Bytes)

/-- `AssertValue::matches` for the times of locks, and for values that are missing. -/
def assertMatches : Option ℕ → Option Bytes → Bool
  | none, none => true
  | some expiry, some bytes => bytes.drop (bytes.length - 8) = bigEndian 8 expiry
  | _, _ => false

/-- `u64::deserialize`. -/
def deserializeU64 (bytes : Bytes) : Option ℕ :=
  if bytes.length = 8 then some (ofBigEndian bytes) else none

namespace LockState

variable (self : LockState)

/-- A client has got somewhere. -/
def setPhase (client : ℕ) (key : Bytes) (phase : Phase) : LockState :=
  { self with
    phase := update self.phase client
      (update (self.phase client) key phase) }

/-- `try_lock`, cut into its accesses to the store and the clock, and `remove_lock`. A client can
    fail at any time, and then does not have the lock, whatever is stored. -/
def step : LockStep → Option LockState
  | .background step => do
    let shared ← self.background step
    return { self with toShared := shared }
  | .read client key =>
    match self.phase client key with
    | .idle =>
      match self.values key with
      | none => some (self.setPhase client key (.read none))
      | some value =>
        match deserializeU64 value with
        | some lockExpiry => some (self.setPhase client key (.read (some lockExpiry)))
        | none => some (self.setPhase client key .corrupted)
    | _ => none
  | .clearCorrupted client key =>
    match self.phase client key with
    | .corrupted =>
      some { self.setPhase client key (.read none) with toShared := self.clearValue key }
    | _ => none
  | .check client key duration =>
    match self.phase client key with
    | .read lockExpiry =>
      if lockExpiry.any (self.clock < ·) then some (self.setPhase client key .idle)
      else
        some (self.setPhase client key (.ready lockExpiry ((self.clock + duration) % 2 ^ 64)))
    | _ => none
  | .write client key =>
    match self.phase client key with
    | .ready lockExpiry expiry =>
      if assertMatches lockExpiry (self.values key) then
        some { self.setPhase client key (.locked expiry) with
          toShared := self.setValue key (bigEndian 8 expiry) }
      else some (self.setPhase client key .idle)
    | _ => none
  | .removeLock client key =>
    match self.phase client key with
    | .locked _ => some { self.setPhase client key .idle with toShared := self.clearValue key }
    | _ => none
  | .fail client key => some (self.setPhase client key .idle)

/-- The client has the lock, and it has not expired. -/
def Holds (client : ℕ) (key : Bytes) : Prop :=
  ∃ expiry, self.phase client key = .locked expiry ∧ self.clock < expiry

end LockState

/-- Clients of the locks of a store: at first none does anything, whatever is stored. -/
def lockSystem : System LockState LockStep where
  Initial s := (∀ client key, s.phase client key = .idle) ∧ ∀ purge, s.purges purge = none
  step := LockState.step

variable (s : LockState)

/-- What is stored under the key is no lock that is still valid. -/
def LockState.Stale (key : Bytes) : Prop :=
  ∀ value expiry, s.values key = some value → deserializeU64 value = some expiry →
    expiry ≤ s.clock

/-- The step deletes no lock that somebody has: what a purge deletes is no valid lock by then, nor
    is a value that could not be read, and a client releases its own lock. -/
def Undisturbed : LockStep → Prop
  | .background (.purgeDelete _ key) => s.Stale key
  | .clearCorrupted _ key => s.Stale key
  | .removeLock client key =>
    s.Stale key ∨ ∃ expiry, s.phase client key = .locked expiry ∧
      s.values key = some (bigEndian 8 expiry)
  | _ => True

open LockState

/-! ## The invariant -/

/-- While a client has a lock, what it has written is stored, nobody who has decided to write has
    seen it, and no other client has it. -/
structure Inv : Prop where
  bounded : ∀ client key expiry,
    s.phase client key = .locked expiry ∨ (∃ lockExpiry, s.phase client key =
      .ready lockExpiry expiry) → expiry < 2 ^ 64
  written : ∀ client key lockExpiry expiry,
    s.phase client key = .ready (some lockExpiry) expiry → lockExpiry ≤ s.clock
  held : ∀ client key expiry, s.phase client key = .locked expiry → s.clock < expiry →
    s.values key = some (bigEndian 8 expiry)
  unique : ∀ client client' key, s.Holds client key → s.Holds client' key → client = client'

section Inv

variable {s} {s' : LockState} {client : ℕ} {key : Bytes} {phase : Phase} {lockExpiry : Option ℕ}

theorem setPhase_phase {client' : ℕ} (key' : Bytes) :
    (s.setPhase client key phase).phase client' key' =
      if client' = client ∧ key' = key then phase else s.phase client' key' := by
  simp only [setPhase, update_apply, ite_and]
  split_ifs with hclient hkey
  · rw [hkey, update_self]
  · rw [update_of_ne hkey, hclient]
  · rfl

/-- A client does not have the lock, and has not seen a valid one if it is about to write. -/
def Phase.Harmless (clock : ℕ) : Phase → Prop
  | locked _ => False
  | ready lockExpiry expiry => (∀ lockExpiry' ∈ lockExpiry, lockExpiry' ≤ clock) ∧ expiry < 2 ^ 64
  | _ => True

/-- Time passes, clients move without taking a lock, and the values of held locks stay. -/
theorem Inv.mono (h : Inv s) (hclock : s.clock ≤ s'.clock)
    (hphase : ∀ client key, s'.phase client key = s.phase client key ∨
      (s'.phase client key).Harmless s'.clock)
    (hvalues : ∀ client key, s.Holds client key → s'.Holds client key →
      s'.values key = s.values key) : Inv s' := by
  -- no harmless phase is a lock, so whoever has one had it before
  have hlocked {client key expiry} (h' : s'.phase client key = .locked expiry) :
      s.phase client key = .locked expiry := by
    rcases hphase client key with heq | hharmless
    · rw [← heq, h']
    · rw [h'] at hharmless
      exact hharmless.elim
  have hholds {client key} : s'.Holds client key → s.Holds client key := by
    rintro ⟨expiry, h', hlt⟩
    exact ⟨expiry, hlocked h', hclock.trans_lt hlt⟩
  refine ⟨?_, ?_, ?_, ?_⟩
  · rintro client key expiry (h' | ⟨lockExpiry, h'⟩)
    · exact h.bounded client key expiry (.inl (hlocked h'))
    · rcases hphase client key with heq | hharmless
      · exact h.bounded client key expiry (.inr ⟨lockExpiry, heq ▸ h'⟩)
      · rw [h'] at hharmless
        exact hharmless.2
  · intro client key lockExpiry expiry h'
    rcases hphase client key with heq | hharmless
    · exact (h.written client key lockExpiry expiry (heq ▸ h')).trans hclock
    · rw [h'] at hharmless
      exact hharmless.1 lockExpiry rfl
  · intro client key expiry h' hlt
    have hholds' : s'.Holds client key := ⟨expiry, h', hlt⟩
    rw [hvalues client key (hholds hholds') hholds']
    exact h.held client key expiry (hlocked h') (hclock.trans_lt hlt)
  · exact fun client client' key h₁ h₂ => h.unique client client' key (hholds h₁) (hholds h₂)

theorem setPhase_harmless (hharmless : phase.Harmless s.clock) (client' : ℕ) (key' : Bytes) :
    (s.setPhase client key phase).phase client' key' = s.phase client' key' ∨
      ((s.setPhase client key phase).phase client' key').Harmless s.clock := by
  rw [setPhase_phase]
  split_ifs
  · exact .inr hharmless
  · exact .inl rfl

section

variable (h : Inv s)

include h

/-- A client gets somewhere else without taking a lock. -/
theorem Inv.setPhase (hharmless : phase.Harmless s.clock) : Inv (s.setPhase client key phase) :=
  h.mono le_rfl (setPhase_harmless hharmless) fun _ _ _ _ => rfl

/-- Nobody has a lock that has expired or is missing. -/
theorem Inv.not_holds (hstale : s.Stale key) : ¬ s.Holds client key := by
  rintro ⟨expiry, hphase, hlt⟩
  have hbound := h.bounded client key expiry (.inl hphase)
  refine absurd hlt (not_lt.mpr (hstale _ expiry (h.held client key expiry hphase hlt) ?_))
  rw [deserializeU64, if_pos (length_bigEndian 8 expiry), ofBigEndian_u64 hbound]

/-- A value is deleted while no other client has the lock. -/
theorem Inv.clearValue (hharmless : phase.Harmless s.clock)
    (hnot : ∀ client', s.Holds client' key → client' = client) :
    Inv { s.setPhase client key phase with toShared := s.clearValue key } := by
  refine h.mono le_rfl (setPhase_harmless hharmless) fun client' key' hholds hholds' => ?_
  by_cases hkey : key' = key
  · -- the client itself does not have the lock any more
    subst hkey
    obtain rfl := hnot client' hholds
    obtain ⟨expiry, hphase, -⟩ := hholds'
    rw [setPhase_phase, if_pos ⟨rfl, rfl⟩] at hphase
    rw [hphase] at hharmless
    exact hharmless.elim
  · exact update_of_ne hkey _ _

/-- Whoever has read an expired lock, or none, does not find it where it is held. -/
theorem Inv.not_holds_of_matches {expiry : ℕ}
    (hready : s.phase client key = .ready lockExpiry expiry)
    (hmatches : assertMatches lockExpiry (s.values key) = true) (client' : ℕ) :
    ¬ s.Holds client' key := by
  rintro ⟨expiry', hphase, hlt⟩
  have hbound := h.bounded client' key expiry' (.inl hphase)
  rw [h.held client' key expiry' hphase hlt] at hmatches
  cases lockExpiry with
  | none => cases hmatches
  | some lockExpiry =>
    have hle := h.written client key lockExpiry expiry hready
    rw [assertMatches, length_bigEndian, List.drop_zero, decide_eq_true_iff] at hmatches
    have heq := congrArg ofBigEndian hmatches
    rw [ofBigEndian_u64 hbound, ofBigEndian_u64 (by omega)] at heq
    omega

/-- A client takes the lock. -/
theorem Inv.write {expiry : ℕ} (hready : s.phase client key = .ready lockExpiry expiry)
    (hmatches : assertMatches lockExpiry (s.values key) = true) :
    Inv { s.setPhase client key (.locked expiry) with
      toShared := s.setValue key (bigEndian 8 expiry) } := by
  -- the assertion has passed, so nobody holds the lock
  have hnot := h.not_holds_of_matches hready hmatches
  set s' : LockState := { s.setPhase client key (.locked expiry) with
    toShared := s.setValue key (bigEndian 8 expiry) } with hs'
  have hphase (client' : ℕ) (key' : Bytes) : s'.phase client' key' =
      if client' = client ∧ key' = key then .locked expiry else s.phase client' key' :=
    setPhase_phase key'
  have hother {client' key'} (hholds : s'.Holds client' key') (hne : ¬ (client' = client ∧ key' = key)) :
      s.Holds client' key' := by
    obtain ⟨expiry', hlocked, hlt⟩ := hholds
    rw [hphase, if_neg hne] at hlocked
    exact ⟨expiry', hlocked, hlt⟩
  have hself {client'} (hholds : s'.Holds client' key) : client' = client := by
    by_contra hne
    exact hnot client' (hother hholds fun h => hne h.1)
  refine ⟨?_, ?_, ?_, ?_⟩
  · intro client' key' expiry' h'
    rw [hphase] at h'
    split_ifs at h'
    · rcases h' with h' | ⟨lockExpiry', h'⟩
      · obtain rfl := Phase.locked.inj h'
        exact h.bounded client key expiry (.inr ⟨lockExpiry, hready⟩)
      · cases h'
    · exact h.bounded client' key' expiry' h'
  · intro client' key' lockExpiry' expiry' h'
    rw [hphase] at h'
    split_ifs at h'
    exact h.written client' key' lockExpiry' expiry' h'
  · intro client' key' expiry' h' hlt
    by_cases hkey : key' = key
    · subst hkey
      obtain rfl := hself ⟨expiry', h', hlt⟩
      rw [hphase, if_pos ⟨rfl, rfl⟩] at h'
      obtain rfl := Phase.locked.inj h'
      exact update_self _ _ _
    · rw [hphase, if_neg fun h => hkey h.2] at h'
      rw [← h.held client' key' expiry' h' hlt]
      exact update_of_ne hkey _ _
  · intro client₁ client₂ key' h₁ h₂
    by_cases hkey : key' = key
    · subst hkey
      rw [hself h₁, hself h₂]
    · exact h.unique client₁ client₂ key' (hother h₁ fun h => hkey h.2)
        (hother h₂ fun h => hkey h.2)

/-- The clock, and purges of what is not valid any more, leave locks alone. -/
theorem Inv.background {step : Background} {shared : Shared}
    (hstep : s.background step = some shared) (hundisturbed : Undisturbed s (.background step)) :
    Inv { s with toShared := shared } := by
  refine h.mono (Shared.clock_le_background hstep) (fun _ _ => .inl rfl)
    fun client key hholds _ => ?_
  rcases Shared.values_background hstep key with heq | ⟨-, purge, rfl⟩
  · exact heq
  · exact absurd hholds (h.not_holds hundisturbed)

/-- Clients, and purges of locks that have expired, keep the invariant. -/
theorem Inv.step {step : LockStep} (hundisturbed : Undisturbed s step)
    (hstep : s.step step = some s') : Inv s' := by
  cases step with
  | background step =>
    obtain ⟨shared, hshared, hs'⟩ := bind_eq_some_iff.mp hstep
    obtain rfl := some.inj hs'
    exact h.background hshared hundisturbed
  | read client key =>
    rw [LockState.step] at hstep
    split at hstep
    · split at hstep
      · obtain rfl := some.inj hstep
        exact h.setPhase trivial
      · split at hstep <;> obtain rfl := some.inj hstep <;> exact h.setPhase trivial
    · cases hstep
  | clearCorrupted client key =>
    rw [LockState.step] at hstep
    split at hstep
    · obtain rfl := some.inj hstep
      exact h.clearValue trivial fun client' hholds => absurd hholds (h.not_holds hundisturbed)
    · cases hstep
  | check client key duration =>
    rw [LockState.step] at hstep
    split at hstep
    · split_ifs at hstep with hvalid <;> obtain rfl := some.inj hstep
      · exact h.setPhase trivial
      · refine h.setPhase ⟨fun lockExpiry' hmem => ?_, Nat.mod_lt _ (by positivity)⟩
        rw [mem_def.mp hmem, any_some, decide_eq_true_iff] at hvalid
        exact not_lt.mp hvalid
    · cases hstep
  | write client key =>
    rw [LockState.step] at hstep
    split at hstep
    · rename_i lockExpiry expiry hphase
      split_ifs at hstep with hmatches <;> obtain rfl := some.inj hstep
      · exact h.write hphase hmatches
      · exact h.setPhase trivial
    · cases hstep
  | removeLock client key =>
    rw [LockState.step] at hstep
    split at hstep
    · obtain rfl := some.inj hstep
      refine h.clearValue trivial fun client' hholds => ?_
      rcases hundisturbed with hstale | ⟨expiry', hphase', hvalue⟩
      · exact absurd hholds (h.not_holds hstale)
      -- if another client had the lock, it would have written the same time
      obtain ⟨expiry'', hphase'', hlt⟩ := id hholds
      have hvalue' := h.held client' key expiry'' hphase'' hlt
      rw [hvalue, some.injEq] at hvalue'
      have heq := congrArg ofBigEndian hvalue'
      rw [ofBigEndian_u64 (h.bounded client key expiry' (.inl hphase')),
        ofBigEndian_u64 (h.bounded client' key expiry'' (.inl hphase''))] at heq
      exact h.unique client' client key hholds ⟨expiry', hphase', heq ▸ hlt⟩
    · cases hstep
  | fail client key =>
    obtain rfl := some.inj hstep
    exact h.setPhase trivial

end

end Inv

/-- No two clients have a lock at the same time, unless a valid lock of another client is
    deleted. -/
theorem mutualExclusion {s : LockState} (h : Run lockSystem Undisturbed s) {client client' : ℕ}
    {key : Bytes} (hholds : s.Holds client key) (hholds' : s.Holds client' key) :
    client = client' := by
  have hinitial (s : LockState) (hs : lockSystem.Initial s) : Inv s := by
    refine ⟨fun client key expiry h => ?_, fun client key lockExpiry expiry h => ?_,
      fun client key expiry h => ?_, fun client _ key h => ?_⟩
    · rcases h with h | ⟨_, h⟩ <;> cases (hs.1 client key).symm.trans h
    · cases (hs.1 client key).symm.trans h
    · cases (hs.1 client key).symm.trans h
    · obtain ⟨expiry, h, -⟩ := h
      cases (hs.1 client key).symm.trans h
  have hinv : Inv s := h.induction hinitial fun s step s' hs hundisturbed hstep =>
    hs.step hundisturbed hstep
  exact hinv.unique client client' key hholds hholds'

/-! ## A lock is taken twice -/

/-- The key of a lock. -/
def taskLock : Bytes := [23, 0, 0, 0, 0, 0, 0, 0, 9]

/-- A store in which there is nothing yet. -/
def noLocks : LockState := ⟨⟨1000, fun _ => none, fun _ => none, fun _ => none⟩, fun _ _ => .idle⟩

/-- A client takes the lock for some seconds. -/
def tryLock (client duration : ℕ) : List LockStep :=
  [.read client taskLock, .check client taskLock duration, .write client taskLock]

/-- A client fails to release its lock, and a purge finds it expired. -/
def lockExpired : List LockStep :=
  tryLock 2 60 ++ [.fail 2 taskLock, .background (.tick 100), .background (.purgeStart 0),
    .background (.purgeRead 0 taskLock)]

/-- The purge deletes it. -/
def lockPurged : LockStep := .background (.purgeDelete 0 taskLock)

instance (s : LockState) (client : ℕ) (key : Bytes) : Decidable (s.Holds client key) :=
  match h : s.phase client key with
  | .locked expiry =>
    if hlt : s.clock < expiry then .isTrue ⟨expiry, h, hlt⟩
    else .isFalse fun ⟨expiry', h', hlt'⟩ => by
      rw [h, Phase.locked.injEq] at h'
      exact hlt (h' ▸ hlt')
  | .idle | .corrupted | .read _ | .ready _ _ =>
    .isFalse fun ⟨_, h', _⟩ => by
      rw [h] at h'
      cases h'

/-- Another client takes the lock before the purge deletes it; then a third one can take it. -/
theorem holds_lockPurged :
    ∃ s, Run lockSystem (fun _ _ => True) s ∧ s.Holds 0 taskLock ∧ s.Holds 1 taskLock := by
  have hsteps : (((lockExpired ++ tryLock 0 60 ++ lockPurged :: tryLock 1 60).foldlM
      step noLocks).any fun s => s.Holds 0 taskLock ∧ s.Holds 1 taskLock) = true := by
    decide +kernel
  obtain ⟨s, hs, hholds⟩ := (any_eq_true _ _).mp hsteps
  have hinitial : lockSystem.Initial noLocks := ⟨fun _ _ => rfl, fun _ => rfl⟩
  exact ⟨s, (Run.initial hinitial).foldlM (fun _ _ _ => trivial) hs, of_decide_eq_true hholds⟩

/-- If it does so afterwards, it is the only one. -/
theorem mutualExclusion_lockPurged :
    ∃ s, Run lockSystem Undisturbed s ∧ s.Holds 0 taskLock ∧
      ∀ client, s.Holds client taskLock → client = 0 := by
  have hexpired : ((lockExpired.foldlM step noLocks).any fun s =>
      s.values taskLock = some (bigEndian 8 1060) ∧ s.clock = 1100 ∧
      ((lockPurged :: tryLock 0 60).foldlM step s).any fun s => s.Holds 0 taskLock) = true := by
    decide +kernel
  obtain ⟨s, hs, hpurged⟩ := (any_eq_true _ _).mp hexpired
  obtain ⟨hvalue, hclock, hpurged⟩ := of_decide_eq_true hpurged
  obtain ⟨s', hs', hholds⟩ := (any_eq_true _ _).mp hpurged
  have hinitial : lockSystem.Initial noLocks := ⟨fun _ _ => rfl, fun _ => rfl⟩
  have hrun : Run lockSystem Undisturbed s :=
    (Run.initial hinitial).foldlM (by simp [lockExpired, tryLock, Undisturbed]) hs
  -- the lock has expired when it is purged
  have hstale : Undisturbed s lockPurged := by
    intro value expiry hvalue' hexpiry
    obtain rfl := some.inj (hvalue.symm.trans hvalue')
    have heq : deserializeU64 (bigEndian 8 1060) = some 1060 := by decide
    rw [hclock, ← some.inj (heq.symm.trans hexpiry)]
    decide
  obtain ⟨s₁, hstep, hs'⟩ := bind_eq_some_iff.mp hs'
  have hrun' : Run lockSystem Undisturbed s' :=
    (Run.step hrun hstale hstep).foldlM (by simp [tryLock, Undisturbed]) hs'
  have hholds := of_decide_eq_true hholds
  exact ⟨s', hrun', hholds, fun client h => mutualExclusion hrun' h hholds⟩

end Inworkspace.InMemory
