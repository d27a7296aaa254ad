import Inworkspace.Lib.BigEndian
import Inworkspace.Lib.Interleaving
import Inworkspace.Lib.KeyedList

/-!
# The in-memory store and its purge

Values that expire and counters, kept in a key-value store for all nodes. A value starts with the
time it expires. A counter has a value next to it, which starts with zero and has the time the
counter expires behind it.

From time to time `purge_in_memory_store` goes through all values, and then deletes those that had
expired, and their counters. Reading and deleting are separate steps (`Background`), between which
others can write.
-/

namespace Inworkspace.InMemory

open Lib.BigEndian Option Function

/-- Bytes of a key or a value. -/
abbrev Bytes := List ℕ

def deserializeBeU64 (bytes : Bytes) (index : ℕ) : Option ℕ :=
  if index + 8 ≤ bytes.length then some (ofBigEndian ((bytes.drop index).take 8)) else none

/-- A `u64` is read back from its bytes. -/
theorem ofBigEndian_u64 {n : ℕ} (h : n < 2 ^ 64) : ofBigEndian (bigEndian 8 n) = n := by
  rw [ofBigEndian_bigEndian]
  exact Nat.mod_eq_of_lt h

/-- What has expired, a value or a counter. -/
inductive Expired where
  | value
  | counter
  deriving DecidableEq

/-- What `purge_in_memory_store` makes of a value, unless it cannot be read. -/
def expired (currentTime : ℕ) (value : Bytes) : Option (Option Expired) := do
  let expiry ← deserializeBeU64 value 0
  if expiry = 0 then
    let expiry ← deserializeBeU64 value 8
    return if expiry ≤ currentTime then some .counter else none
  else
    return if expiry ≤ currentTime then some .value else none

/-- A purge: the keys found since it has looked at the clock, or those still to be deleted. -/
inductive Purge where
  | reading (currentTime : ℕ) (found : List (Bytes × Expired))
  | deleting (found : List (Bytes × Expired))

/-- The keys a purge has found. -/
def Purge.found : Purge → List (Bytes × Expired)
  | reading _ found | deleting found => found

/-- The clock, the values and counters by key, and the purges under way. -/
structure Shared where
  clock : ℕ
  values : Bytes → Option Bytes
  counters : Bytes → Option ℤ
  purges : ℕ → Option Purge

/-- The steps of the clock and of purges. -/
inductive Background where
  | tick (seconds : ℕ)
  | purgeStart (purge : ℕ)
  | purgeRead (purge : ℕ) (key : Bytes)
  | purgeDelete (purge : ℕ) (key : Bytes)
  | purgeEnd (purge : ℕ)

namespace Shared

variable (self : Shared)

def setValue (key value : Bytes) : Shared :=
  { self with values := update self.values key (some value) }

/-- A value is deleted. -/
def clearValue (key : Bytes) : Shared :=
  { self with values := update self.values key none }

def setCounter (key : Bytes) (counter : Option ℤ) : Shared :=
  { self with counters := update self.counters key counter }

/-- A purge goes on, or is over. -/
def setPurge (purge : ℕ) (job : Option Purge) : Shared :=
  { self with purges := update self.purges purge job }

/-- What a purge does with a key. A value that cannot be read ends it. -/
def purgeRead (purge currentTime : ℕ) (found : List (Bytes × Expired)) (key : Bytes) : Shared :=
  match self.values key with
  | none => self
  | some value =>
    match expired currentTime value with
    | none => self.setPurge purge none
    | some none => self
    | some (some kind) =>
      self.setPurge purge (some (.reading currentTime (found ++ [(key, kind)])))

/-- What has expired is deleted. -/
def delete (key : Bytes) : Expired → Shared
  | .value => self.clearValue key
  | .counter => (self.setCounter key none).clearValue key

/-- A step of the clock or of a purge. -/
def background : Background → Option Shared
  | .tick seconds => some { self with clock := self.clock + seconds }
  | .purgeStart purge =>
    match self.purges purge with
    | none => some (self.setPurge purge (some (.reading self.clock [])))
    | some _ => none
  | .purgeRead purge key =>
    match self.purges purge with
    | some (.reading currentTime found) => some (self.purgeRead purge currentTime found key)
    | _ => none
  | .purgeDelete purge key =>
    match self.purges purge with
    | some job =>
      match job.found.lookup key with
      | some kind =>
        some ((self.delete key kind).setPurge purge
          (some (.deleting (job.found.filter (·.1 ≠ key)))))
      | none => none
    | none => none
  | .purgeEnd purge => some (self.setPurge purge none)

end Shared

/-! ## What the steps do -/

namespace Shared

/-- Some purge has found that the key has expired. -/
def Found (self : Shared) (key : Bytes) : Prop :=
  ∃ purge job kind, self.purges purge = some job ∧ (key, kind) ∈ job.found

/-- Purges have looked at the clock before. -/
def Timed (self : Shared) : Prop :=
  ∀ purge currentTime found, self.purges purge = some (.reading currentTime found) →
    currentTime ≤ self.clock

/-- A step leaves the values and counters, or a purge deletes one that it has found. -/
inductive Effect (self : Shared) (step : Background) (self' : Shared) : Prop
  | quiet : self'.values = self.values → self'.counters = self.counters →
    self.clock ≤ self'.clock → Effect self step self'
  | deleted (purge : ℕ) (key : Bytes) (kind : Expired) : step = .purgeDelete purge key →
    self.Found key → self'.values = (self.delete key kind).values →
    self'.counters = (self.delete key kind).counters → self'.clock = self.clock →
    Effect self step self'

variable {self self' : Shared} {step : Background} {key : Bytes}

section

variable (h : self.background step = some self')

include h

/-- A purge is all that changes values in the background. -/
theorem effect_background : Effect self step self' := by
  cases step with
  | tick seconds =>
    obtain rfl := some.inj h
    exact .quiet rfl rfl (Nat.le_add_right _ _)
  | purgeStart purge =>
    rw [background] at h
    split at h
    · obtain rfl := some.inj h
      exact .quiet rfl rfl le_rfl
    · cases h
  | purgeRead purge key =>
    rw [background] at h
    split at h
    · obtain rfl := some.inj h
      rw [purgeRead]
      split
      · exact .quiet rfl rfl le_rfl
      · split <;> exact .quiet rfl rfl le_rfl
    · cases h
  | purgeDelete purge key =>
    -- a purge deletes only what it has found before
    rw [background] at h
    split at h
    · rename_i job hjob
      split at h
      · rename_i kind hkind
        obtain rfl := some.inj h
        refine .deleted purge key kind rfl
          ⟨purge, job, kind, hjob, Lib.KeyedList.mem_of_lookup hkind⟩ rfl rfl ?_
        cases kind <;> rfl
      · cases h
    · cases h
  | purgeEnd purge =>
    obtain rfl := some.inj h
    exact .quiet rfl rfl le_rfl

theorem clock_le_background : self.clock ≤ self'.clock := by
  rcases effect_background h with ⟨-, -, hclock⟩ | ⟨_, _, _, -, -, -, -, hclock⟩
  · exact hclock
  · exact hclock.ge

/-- A value stays, or is deleted by a purge. -/
theorem values_background (key : Bytes) :
    self'.values key = self.values key ∨
      self'.values key = none ∧ ∃ purge, step = .purgeDelete purge key := by
  rcases effect_background h with ⟨hvalues, -, -⟩ | ⟨purge, key', kind, hstep, -, hvalues, -, -⟩
  · exact .inl (congrFun hvalues key)
  rw [hvalues]
  by_cases heq : key = key'
  · subst heq
    refine .inr ⟨?_, purge, hstep⟩
    cases kind <;> exact update_self _ _ _
  · refine .inl ?_
    cases kind <;> exact update_of_ne heq _ _

/-- A counter stays, or is deleted by a purge that has found its key. -/
theorem counters_background (key : Bytes) :
    self'.counters key = self.counters key ∨
      self'.counters key = none ∧ self.Found key ∧ ∃ purge, step = .purgeDelete purge key := by
  rcases effect_background h with
    ⟨-, hcounters, -⟩ | ⟨purge, key', kind, hstep, hfound, -, hcounters, -⟩
  · exact .inl (congrFun hcounters key)
  rw [hcounters]
  cases kind with
  | value => exact .inl rfl
  | counter =>
    by_cases heq : key = key'
    · subst heq
      exact .inr ⟨update_self _ _ _, hfound, purge, hstep⟩
    · exact .inl (update_of_ne heq _ _)

end

/-- A purge has gone on as it was, has started, found a key or deleted one. -/
inductive Next (self : Shared) (purge : ℕ) : Purge → Prop
  | same {job : Purge} : self.purges purge = some job → Next self purge job
  | started : Next self purge (.reading self.clock [])
  | found {currentTime : ℕ} {found : List (Bytes × Expired)} {key value : Bytes} {kind : Expired} :
    self.purges purge = some (.reading currentTime found) → self.values key = some value →
    expired currentTime value = some (some kind) →
    Next self purge (.reading currentTime (found ++ [(key, kind)]))
  | deleted {job : Purge} (key : Bytes) : self.purges purge = some job →
    Next self purge (.deleting (job.found.filter (·.1 ≠ key)))

theorem next_of_setPurge {self₀ : Shared} {purge purge' : ℕ} {job : Option Purge} {job' : Purge}
    (h : (self₀.setPurge purge job).purges purge' = some job') (hpurges : self₀.purges = self.purges)
    (hjob : ∀ job' ∈ job, Next self purge job') : Next self purge' job' := by
  simp only [setPurge] at h
  by_cases heq : purge' = purge
  · subst heq
    rw [update_self] at h
    exact hjob job' h
  · rw [update_of_ne heq, hpurges] at h
    exact .same h

/-- Each step of the background takes a purge on in one of these ways. -/
theorem next_background (h : self.background step = some self') {purge : ℕ} {job' : Purge}
    (hjob : self'.purges purge = some job') : Next self purge job' := by
  cases step with
  | tick seconds =>
    obtain rfl := some.inj h
    exact .same hjob
  | purgeStart purge' =>
    rw [background] at h
    split at h
    · obtain rfl := some.inj h
      refine next_of_setPurge hjob rfl ?_
      rintro _ ⟨⟩
      exact .started
    · cases h
  | purgeRead purge' key =>
    rw [background] at h
    split at h
    · rename_i currentTime found hpurge
      obtain rfl := some.inj h
      rw [purgeRead] at hjob
      split at hjob
      · exact .same hjob
      rename_i value hvalue
      split at hjob
      -- a value that cannot be read ends the purge
      · exact next_of_setPurge hjob rfl nofun
      · exact .same hjob
      rename_i kind hkind
      refine next_of_setPurge hjob rfl ?_
      rintro _ ⟨⟩
      exact .found hpurge hvalue hkind
    · cases h
  | purgeDelete purge' key =>
    rw [background] at h
    split at h
    · rename_i job hpurge
      split at h
      · rename_i kind hkind
        obtain rfl := some.inj h
        refine next_of_setPurge hjob (by cases kind <;> rfl) ?_
        rintro _ ⟨⟩
        exact .deleted key hpurge
      · cases h
    · cases h
  | purgeEnd purge' =>
    obtain rfl := some.inj h
    exact next_of_setPurge hjob rfl nofun

theorem Timed.background (htimed : self.Timed) (h : self.background step = some self') :
    self'.Timed := by
  intro purge currentTime found hjob
  have hclock := clock_le_background h
  generalize hjob' : Purge.reading currentTime found = job' at hjob
  rcases next_background h hjob with hsame | _ | ⟨hreading, -, -⟩ | ⟨key, -⟩
  · subst hjob'
    exact (htimed purge currentTime found hsame).trans hclock
  · cases hjob'
    exact hclock
  · cases hjob'
    exact (htimed purge _ _ hreading).trans hclock
  · cases hjob'

/-- What a purge has found it had found before, or its value has expired. -/
theorem Found.of_background (htimed : self.Timed) (h : self.background step = some self')
    (hfound : self'.Found key) :
    self.Found key ∨ ∃ currentTime ≤ self.clock, ∃ value kind, self.values key = some value ∧
      expired currentTime value = some (some kind) := by
  obtain ⟨purge, job', kind, hjob, hmem⟩ := hfound
  rcases next_background h hjob with hsame | _ | ⟨hreading, hvalue, hexpired⟩ | ⟨key', hdeleting⟩
  · exact .inl ⟨purge, job', kind, hsame, hmem⟩
  · cases hmem
  · rcases List.mem_append.mp hmem with hmem | hmem
    · exact .inl ⟨purge, _, kind, hreading, hmem⟩
    · obtain ⟨rfl, rfl⟩ := Prod.mk.inj (List.mem_singleton.mp hmem)
      exact .inr ⟨_, htimed purge _ _ hreading, _, _, hvalue, hexpired⟩
  · exact .inl ⟨purge, _, kind, hdeleting, List.mem_of_mem_filter hmem⟩

end Shared

end Inworkspace.InMemory
