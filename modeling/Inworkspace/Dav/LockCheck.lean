import Inworkspace.Dav.Lock

/-!
# Locks of resources that are written

A resource is covered by a lock of its own, of something above it that goes all the way down, or of
something below it (`Covers`), and `findLocks` finds these locks (`mem_findLocks_iff`). Before
several resources are written, the token of a lock that covers it should be submitted for each that
is covered (`Protected`).

The check goes through the resources, but ends with the first one for which a token is submitted. So
a request that moves a resource onto another one needs only the token of the first
(`validateHeaders_move`). It is right if and only if, where a token ends it, tokens are submitted
for the resources that it does not get to (`validateHeaders_protected_iff`).
-/

namespace Inworkspace.Dav

open List

variable {D : Type} {lock : Text × LockItem D} (env : Env D) (headers : RequestHeaders)
  (resources : List ResourceState)

/-! ## The locks of a resource -/

/-- The parents are the parts that end before a slash. -/
theorem mem_parentsOfReverse {p rest : Text} :
    p ∈ parentsOfReverse rest ↔ p ++ ['/'] <+: rest.reverse := by
  induction rest with
  | nil => simp [parentsOfReverse]
  | cons c rest ih =>
    rw [reverse_cons, prefix_concat_iff, ← ih]
    by_cases hc : c = '/'
    · subst hc
      rw [parentsOfReverse]
      simp
    · have hskip : parentsOfReverse (c :: rest) = parentsOfReverse rest := by
        rw [parentsOfReverse]
        exact hc
      rw [hskip]
      simp [Ne.symm hc]

def Covers (resource : Text) (lock : Text × LockItem D) : Prop :=
  lock.1 = resource ∨ (lock.1 ++ ['/'] <+: resource ∧ lock.2.depthInfinity = true) ∨
    resource ++ ['/'] <+: lock.1

/-- The locks that cover the resource and have not expired are found. -/
theorem LockData.mem_findLocks_iff {data : LockData D} {now : ℕ} {resource : Text} :
    lock ∈ data.findLocks now resource true ↔
      lock ∈ data.locks ∧ now < lock.2.expires ∧ Covers resource lock := by
  rw [findLocks, if_pos rfl, mem_append, mem_flatMap]
  simp only [mem_filter, mem_cons, parents, mem_parentsOfReverse, reverse_reverse,
    decide_eq_true_eq, isPrefixOf_iff_prefix]
  constructor
  · rintro (⟨part, hpart, hlock, rfl, hexpires, hdepth⟩ | ⟨hlock, hbelow, hexpires⟩)
    · refine ⟨hlock, hexpires, ?_⟩
      rcases hpart with heq | habove
      · exact Or.inl heq
      · rcases hdepth with heq | hdepth
        · exact Or.inl heq.symm
        · exact Or.inr (Or.inl ⟨habove, hdepth⟩)
    · exact ⟨hlock, hexpires, Or.inr (Or.inr hbelow)⟩
  · rintro ⟨hlock, hexpires, rfl | ⟨habove, hdepth⟩ | hbelow⟩
    · exact Or.inl ⟨lock.1, Or.inl rfl, hlock, rfl, hexpires, Or.inl rfl⟩
    · exact Or.inl ⟨lock.1, Or.inr habove, hlock, rfl, hexpires, Or.inr hdepth⟩
    · exact Or.inr ⟨hlock, hbelow, hexpires⟩

namespace Env

variable (self : Env D)

/-- The table in which the locks of a resource are. -/
def locksOf (resource : ResourceState) : List (Text × LockItem D) :=
  (self.lockData resource.accountId resource.collection.mainCollection).elim [] LockData.locks

/-- A lock that has not expired covers the resource. -/
def IsLocked (resource : ResourceState) (lock : Text × LockItem D) : Prop :=
  lock ∈ self.locksOf resource ∧ self.now < lock.2.expires ∧ Covers resource.path lock

variable {self}

theorem mem_findLocks_iff {resource : ResourceState} {lock : Text × LockItem D} :
    lock ∈ self.findLocks resource true ↔ self.IsLocked resource lock := by
  rw [findLocks, IsLocked, locksOf]
  rcases self.lockData resource.accountId resource.collection.mainCollection with _ | data
  · simp
  · exact LockData.mem_findLocks_iff

end Env

/-! ## Tokens -/

/-- The request submits the token of a lock. -/
def RequestHeaders.Submits (self : RequestHeaders) (lockId : ℕ) : Prop :=
  ∃ cond ∈ self.ifs, ∃ isNot, .stateToken isNot (lockUrn lockId) ∈ cond.list

/-- If locks cover the resource, the request submits the token of one. -/
def Protected (resource : ResourceState) : Prop :=
  (∃ lock, env.IsLocked resource lock) →
    ∃ lock, env.IsLocked resource lock ∧ headers.Submits lock.2.lockId

/-- Where the check ends because a token is submitted, tokens are submitted for the resources
    behind. -/
def TokensComplete (env : Env D) (headers : RequestHeaders) : List ResourceState → Prop
  | [] => True
  | resource :: resources =>
    ((∃ lock, env.IsLocked resource lock ∧ isSubmitted headers lock = true) →
      ∀ other ∈ resources, Protected env headers other) ∧
    ((¬∃ lock, env.IsLocked resource lock) → TokensComplete env headers resources)

theorem submits_of_isSubmitted {headers : RequestHeaders} (h : isSubmitted headers lock = true) :
    headers.Submits lock.2.lockId := by
  obtain ⟨cond, hcond, hboth⟩ := any_eq_true.mp h
  rw [Bool.and_eq_true] at hboth
  obtain ⟨condition, hcondition, htoken⟩ := any_eq_true.mp hboth.2
  refine ⟨cond, hcond, ?_⟩
  rcases condition with ⟨isNot, token⟩ | _ | _
  · obtain rfl := of_decide_eq_true htoken
    exact ⟨isNot, hcondition⟩
  · contradiction
  · contradiction

/-- The loop stops at the first token that is found, so it has to speak for those behind. -/
theorem checkLocks_protected_iff :
    (checkLocks env headers resources = .ok () →
        ∀ resource ∈ resources, Protected env headers resource) ↔
      TokensComplete env headers resources := by
  induction resources with
  | nil => exact iff_of_true (fun _ => forall_mem_nil _) trivial
  | cons resource resources ih =>
    rw [checkLocks, TokensComplete, forall_mem_cons]
    by_cases hsubmitted : (env.findLocks resource true).any (isSubmitted headers) = true
    · -- the loop ends here
      obtain ⟨lock, hlock, htoken⟩ := any_eq_true.mp hsubmitted
      rw [Env.mem_findLocks_iff] at hlock
      have hself : Protected env headers resource := fun _ =>
        ⟨lock, hlock, submits_of_isSubmitted htoken⟩
      simp only [hsubmitted, if_true, true_imp_iff, hself, true_and]
      constructor
      · intro h
        exact ⟨fun _ => h, fun hnone => absurd ⟨lock, hlock⟩ hnone⟩
      · intro h
        exact h.1 ⟨lock, hlock, htoken⟩
    · have hnot : ¬∃ lock, env.IsLocked resource lock ∧ isSubmitted headers lock = true := by
        rintro ⟨lock, hlock, htoken⟩
        exact hsubmitted (any_eq_true.mpr ⟨lock, Env.mem_findLocks_iff.mpr hlock, htoken⟩)
      by_cases hempty : (env.findLocks resource true).isEmpty = true
      · have hnone : ¬∃ lock, env.IsLocked resource lock := by
          rintro ⟨lock, hlock⟩
          rw [← Env.mem_findLocks_iff, isEmpty_iff.mp hempty] at hlock
          contradiction
        have hself : Protected env headers resource := fun hlock => absurd hlock hnone
        simp only [hsubmitted, hempty, hself, true_and, hnot, hnone, false_imp_iff,
          not_false_eq_true, true_imp_iff]
        exact ih
      · obtain ⟨lock, hlock⟩ := exists_mem_of_ne_nil _ (mt isEmpty_iff.mpr hempty)
        have hsome : ∃ lock, env.IsLocked resource lock := ⟨lock, Env.mem_findLocks_iff.mp hlock⟩
        simp [hsubmitted, hempty, hnot, hsome]

/-- The request is not turned down for what is there, or for its `If` header. -/
def ConditionsHold (method : DavMethod) : Prop :=
  overwriteFails headers resources method = false ∧
    (headers.ifs = [] ∨ evaluateIfs env headers.ifs resources = true)

/-- A request that writes resources and is let through submits tokens of locks that cover them if
    and only if its tokens are complete, or its conditions do not hold. -/
theorem validateHeaders_protected_iff (env : Env D) (headers : RequestHeaders)
    (resources : List ResourceState) {method : DavMethod} (hmethod : method.isChecked = true) :
    (validateHeaders env headers resources method = .ok () →
        ∀ resource ∈ written method resources, Protected env headers resource) ↔
      (ConditionsHold env headers resources method →
        TokensComplete env headers (written method resources)) := by
  have hread : ¬(method ∈ [DavMethod.get, .head] ∧ headers.ifs.isEmpty = true) := by
    rintro ⟨hmem, -⟩
    rcases method <;> simp [DavMethod.isChecked] at hmethod hmem
  have hresponse : lockResponse env headers resources method =
      checkLocks env headers (written method resources) := if_pos hmethod
  rw [validateHeaders, if_neg hread, hresponse, ConditionsHold, ← checkLocks_protected_iff]
  rcases overwriteFails headers resources method with _ | _
  · rcases headers.ifs with _ | ⟨cond, ifs⟩
    · simp
    · rcases evaluateIfs env (cond :: ifs) resources with _ | _ <;> simp
  · simp

/-! ## Two locked files -/

/-- A file of an account. -/
def file (path : String) : ResourceState := .new 1 .fileNode path.toList

/-- An exclusive lock on a file, until the time 100. -/
def fileLock (path : String) (lockId owner : ℕ) : Text × LockItem Unit :=
  (path.toList, ⟨lockId, owner, 100, false, true, none⟩)

/-- The files `a` and `b` are locked by two users. -/
def lockedFiles : Env Unit where
  now := 50
  validateUri _ := none
  hasAccess _ _ := true
  documentAt _ _ _ := none
  etagOf _ _ _ := none
  syncTokenOf _ _ := []
  lockData _ _ := some ⟨[fileLock "a" 7 1, fileLock "b" 8 2]⟩

/-- The tokens are submitted. -/
def submitting (lockIds : List ℕ) : RequestHeaders where
  baseUri := "/dav/file/user".toList
  overwriteFail := false
  ifs := lockIds.map fun lockId => ⟨none, [.stateToken false (lockUrn lockId)]⟩

/-- One of the files is moved onto the other, with both tokens. -/
theorem validateHeaders_moveBoth :
    validateHeaders lockedFiles (submitting [7, 8]) [file "a", file "b"] .move = .ok () ∧
      ∀ resource ∈ written .move [file "a", file "b"],
        Protected lockedFiles (submitting [7, 8]) resource := by
  have hlocked (path lockId owner) (h : fileLock path lockId owner ∈
      lockedFiles.findLocks (file path) true) : lockedFiles.IsLocked (file path) _ :=
    Env.mem_findLocks_iff.mp h
  have hmove : validateHeaders lockedFiles (submitting [7, 8]) [file "a", file "b"] .move =
      .ok () := by
    decide
  refine ⟨hmove, (validateHeaders_protected_iff lockedFiles (submitting [7, 8])
    [file "a", file "b"] (show DavMethod.isChecked .move = true from rfl)).mpr
      (fun _ => ⟨fun _ => ?_, ?_⟩) hmove⟩
  · rw [forall_mem_singleton]
    exact fun _ => ⟨_, hlocked "b" 8 2 (by decide), _, mem_cons_of_mem _ mem_cons_self, false,
      mem_cons_self⟩
  · exact fun hnone => absurd ⟨_, hlocked "a" 7 1 (by decide)⟩ hnone

/-- The user who has locked `a` moves it onto `b`, which another user has locked, with the token of
    `a` alone. -/
theorem validateHeaders_move :
    validateHeaders lockedFiles (submitting [7]) [file "a", file "b"] .move = .ok () ∧
      file "b" ∈ written .move [file "a", file "b"] ∧
      ¬Protected lockedFiles (submitting [7]) (file "b") := by
  refine ⟨by decide, mem_cons_of_mem _ mem_cons_self, fun h => ?_⟩
  have hfind : lockedFiles.findLocks (file "b") true = [fileLock "b" 8 2] := rfl
  obtain ⟨lock, hlock, cond, hcond, isNot, htoken⟩ :=
    h ⟨fileLock "b" 8 2, Env.mem_findLocks_iff.mp (hfind ▸ mem_cons_self)⟩
  rw [← Env.mem_findLocks_iff, hfind, mem_singleton] at hlock
  rw [hlock] at htoken
  obtain rfl := mem_singleton.mp hcond
  have hurn : lockUrn 8 = lockUrn 7 := (Condition.stateToken.inj (mem_singleton.mp htoken)).2
  exact absurd hurn (by decide)

end Inworkspace.Dav
