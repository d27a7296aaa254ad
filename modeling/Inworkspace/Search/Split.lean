import Inworkspace.Search.Local

/-!
# Splitting a search for an external index

A search may ask for conditions that an external index knows and for sets of documents that
only the store has. `split_filters` makes parts of it that the index can answer. It has two
loops. The first one moves the conditions of each group behind the groups in it and merges its sets
into one; on the tree of the filters that is `regroup` (`splitFilters_eq`). The second one
takes the longest runs without a set, and leaves the other filters as they are; with
the answers of the index put in, the tree that is evaluated in the end is `plan`
(`map_resolve_splitRuns`).
-/

namespace Inworkspace.Search

open Lib.FilterTree Forest Function Bool

variable {O D : Type}

inductive SplitFilter (O D : Type) where
  | internal (filter : SearchFilter O D)
  | external (filters : Filters O D)

variable [DecidableEq D] (subQuery : Filters O D → Finset D)

/-! ## The split -/

/-- `u64::MAX`, for an account that is not known. -/
def noAccountId : ℕ := 2 ^ 64 - 1

/-- What the first loop of `split_filters` collects: the filters, with the conditions of each group
    after the groups in it, and the conditions of the open groups by their depth. -/
structure Regroup (O D : Type) where
  accountId : ℕ
  filters : Filters O D
  opStack : List Op
  documentSets : ℕ → Option (Finset D)
  operators : ℕ → Filters O D

variable (self : Regroup O D) (op : Op) (filters : Filters O D)

namespace Regroup

/-- The conditions of a depth follow the groups. -/
def flush (depth : ℕ) : Regroup O D :=
  { self with
    filters := self.filters ++ self.operators depth ++
      (self.documentSets depth).toList.map fun docs => .leaf (.documentSet docs)
    operators := update self.operators depth []
    documentSets := update self.documentSets depth none }

/-- The set of a depth with one more, joined in an `Or` and intersected otherwise. -/
def addDocs (op : Option Op) (docs : Finset D) : Option (Finset D) → Option (Finset D)
  | some entry => if op = some .or then some (entry ∪ docs) else some (entry ∩ docs)
  | none => some docs

/-- The first loop of `split_filters`. -/
def step : SearchFilter O D → Option (Regroup O D)
  | .group op =>
    some { self with opStack := op :: self.opStack, filters := self.filters ++ [.group op] }
  | .close =>
    let self := self.flush self.opStack.length
    match self.opStack with
    | _ :: opStack => some { self with opStack, filters := self.filters ++ [.close] }
    | [] => none
  | .leaf (.accountId id) => some { self with accountId := id }
  | .leaf (.operator o) =>
    let depth := self.opStack.length
    let operators := self.operators depth ++ [.leaf (.operator o)]
    some { self with operators := update self.operators depth operators }
  | .leaf (.documentSet docs) =>
    let depth := self.opStack.length
    let docs := addDocs self.opStack.head? docs (self.documentSets depth)
    some { self with documentSets := update self.documentSets depth docs }

end Regroup

/-- The inner loop of `split_filters`: how many filters the external index answers together, if it
    answers the first. `length` filters have been looked at, and `depth` groups opened among
    them. -/
def scan : Filters O D → (depth length : ℕ) → Option ℕ
  | [], _, length => some length
  | .group _ :: filters, depth, length => scan filters (depth + 1) (length + 1)
  | .close :: filters, depth + 1, length => scan filters depth (length + 1)
  | .close :: _, 0, length => if 0 < length then some length else none
  | .leaf (.documentSet _) :: _, depth, length =>
    if depth = 0 ∧ 0 < length then some length else none
  | .leaf _ :: filters, depth, length => scan filters depth (length + 1)

/-- A filter that opens an `Or`. -/
def isOr : Option (SplitFilter O D) → Bool
  | some (.internal (.group .or)) => true
  | _ => false

/-- The filters asked of the external index, after one that opens an `Or` or not. -/
def externalFilters (accountId : ℕ) (afterOr : Bool) (filters : Filters O D) : Filters O D :=
  .leaf (.accountId accountId) ::
    if afterOr && 1 < filters.length then .group .or :: (filters ++ [.close]) else filters

/-- The second loop of `split_filters`; `skip` filters belong to the last external one, and `last`
    came last. -/
def splitRuns (accountId : ℕ) :
    Filters O D → (skip : ℕ) → Option (SplitFilter O D) → List (SplitFilter O D)
  | [], _, _ => []
  | _ :: filters, skip + 1, last => splitRuns accountId filters skip last
  | filter :: filters, 0, last =>
    match scan (filter :: filters) 0 0 with
    | none =>
      .internal filter :: splitRuns accountId filters 0 (some (.internal filter))
    | some length =>
      let external := SplitFilter.external
        (externalFilters accountId (isOr last) ((filter :: filters).take length))
      external :: splitRuns accountId filters (length - 1) (some external)

def splitFilters : Option (List (SplitFilter O D)) := do
  let regroup ← filters.foldlM Regroup.step ⟨noAccountId, [], [], fun _ => none, fun _ => []⟩
  let regroup := regroup.flush 0
  if regroup.accountId = noAccountId then none
  else some (splitRuns regroup.accountId regroup.filters 0 none)

/-- What is evaluated for each part: the documents the external index has found, or the filter
    itself. -/
def SplitFilter.resolve : SplitFilter O D → SearchFilter O D
  | .internal filter => filter
  | .external filters => .leaf (.documentSet (subQuery filters))

/-- `SearchStore::query_account` for filters of both kinds. -/
def querySplit (mask : Finset D) : Option (Finset D) :=
  (splitFilters filters).map fun split => filter (split.map (·.resolve subQuery)) mask

/-! ## The tree that is split -/

/-- A condition that the external index knows, or a set. -/
abbrev Leaf (O D : Type) := O ⊕ Finset D

def Leaf.condition : Leaf O D → Condition O D
  | .inl o => .operator o
  | .inr docs => .documentSet docs

variable (f : Forest (Leaf O D))

/-- The filters of a forest. -/
def filtersOf : Filters O D :=
  (f.map Leaf.condition).tokens

/-- The conditions outside of groups that the external index knows. -/
def operatorsOf : Forest (Leaf O D) → List O
  | .nil => []
  | .leaf (.inl o) rest => o :: operatorsOf rest
  | .leaf (.inr _) rest | .group _ _ rest => operatorsOf rest

/-- The sets of a forest outside of its groups, in one. -/
def documentsOf (op : Op) : Option (Finset D) → Forest (Leaf O D) → Option (Finset D)
  | docs, .nil => docs
  | docs, .leaf (.inr set) rest => documentsOf op (Regroup.addDocs (some op) set docs) rest
  | docs, .leaf (.inl _) rest | docs, .group _ _ rest => documentsOf op docs rest

/-- Conditions as trees. -/
def leaves {L : Type} : List L → Forest L
  | [] => .nil
  | l :: ls => .leaf l (leaves ls)

/-- The conditions outside of groups, those of the external index first. -/
def conditionsOf : Forest (Leaf O D) :=
  leaves ((operatorsOf f).map .inl ++ (documentsOf op none f).toList.map .inr)

/-- The groups of a forest, and in each of them its groups first. -/
def groupsOf : Forest (Leaf O D) → Forest (Leaf O D)
  | .nil => .nil
  | .leaf _ rest => groupsOf rest
  | .group op children rest =>
    .group op (groupsOf children ++ conditionsOf op children) (groupsOf rest)

/-- The forest with the groups first. -/
def regroup : Forest (Leaf O D) := groupsOf f ++ conditionsOf op f

section FirstLoop

omit [DecidableEq D] in
@[simp]
theorem filtersOf_append (f g : Forest (Leaf O D)) :
    filtersOf (f ++ g) = filtersOf f ++ filtersOf g := by
  rw [filtersOf, map_append, tokens_append, ← filtersOf, ← filtersOf]

omit [DecidableEq D] in
theorem filtersOf_group (children rest : Forest (Leaf O D)) :
    filtersOf (.group op children rest) =
      .group op :: (filtersOf children ++ .close :: filtersOf rest) := rfl

omit [DecidableEq D] in
theorem filtersOf_leaves (ls : List (Leaf O D)) :
    filtersOf (leaves ls) = ls.map fun l => .leaf l.condition := by
  induction ls with
  | nil => rfl
  | cons l ls ih =>
    rw [List.map_cons, ← ih]
    rfl

theorem filtersOf_conditionsOf :
    filtersOf (conditionsOf op f) = (operatorsOf f).map (fun o => .leaf (.operator o)) ++
      (documentsOf op none f).toList.map fun docs => .leaf (.documentSet docs) := by
  rw [conditionsOf, filtersOf_leaves, List.map_append, List.map_map, List.map_map]
  rfl

namespace Regroup

/-- The state after a forest in a group with the operator. -/
def after : Regroup O D :=
  let depth := self.opStack.length
  { self with
    filters := self.filters ++ filtersOf (groupsOf f)
    operators := update self.operators depth
      (self.operators depth ++ (operatorsOf f).map fun o => .leaf (.operator o))
    documentSets := update self.documentSets depth
      (documentsOf op (self.documentSets depth) f) }

/-- Nothing has been collected for groups that are not open. -/
def Settled : Prop :=
  ∀ depth, self.opStack.length < depth →
    self.operators depth = [] ∧ self.documentSets depth = none

/-- Closing a group after the trees in it. -/
theorem step_close (hsettled : self.Settled) (op : Op) (children : Forest (Leaf O D)) :
    step (after { self with opStack := op :: self.opStack, filters := self.filters ++ [.group op] }
        op children) .close =
      some { self with
        filters := self.filters ++ filtersOf (.group op (regroup op children) .nil) } := by
  obtain ⟨hoperators, hdocuments⟩ := hsettled (self.opStack.length + 1) (Nat.lt_succ_self _)
  -- what has been collected for the group is all that there was at its depth
  have hclear {α : Type} (g : ℕ → α) (x y : α) (h : g (self.opStack.length + 1) = y) :
      update (update g (self.opStack.length + 1) x) (self.opStack.length + 1) y = g := by
    rw [update_idem, ← h, update_eq_self]
  simp only [step, after, flush, List.length_cons, hoperators, hdocuments]
  rw [hclear _ _ _ hoperators, hclear _ _ _ hdocuments, filtersOf_group, regroup, filtersOf_append,
    filtersOf_conditionsOf]
  simp [filtersOf, map, tokens]

/-- The groups of a forest follow, each with its conditions after its groups; the conditions of the
    forest itself are collected. -/
theorem foldlM_step {op : Op} {self : Regroup O D}
    (rest : Filters O D) (hop : self.opStack.head? = some .or ↔ op = .or)
    (hsettled : self.Settled) :
    (filtersOf f ++ rest).foldlM step self = rest.foldlM step (self.after op f) := by
  induction f generalizing op self rest with
  | nil =>
    rw [after]
    simp [filtersOf, groupsOf, operatorsOf, documentsOf, map, tokens]
  | leaf l f ih =>
    -- the condition is collected at the depth of the group, and so are those that follow
    have hother {α : Type} {g : ℕ → α} {x y : α} {depth : ℕ} (hlt : self.opStack.length < depth)
        (h : g depth = y) : update g self.opStack.length x depth = y := by
      rwa [update_of_ne (Nat.ne_of_gt hlt)]
    rcases l with o | docs
    · let next : Regroup O D := { self with
        operators := update self.operators self.opStack.length
          (self.operators self.opStack.length ++ [.leaf (.operator o)]) }
      refine (@ih op next rest hop fun depth hlt => ?_).trans ?_
      · exact ⟨hother hlt (hsettled depth hlt).1, (hsettled depth hlt).2⟩
      · rw [after, after]
        simp [next, groupsOf, operatorsOf, documentsOf]
    · have hdocs (entry : Option (Finset D)) : addDocs self.opStack.head? docs entry =
          addDocs (some op) docs entry := by
        cases entry <;> simp [addDocs, hop]
      let next : Regroup O D := { self with
        documentSets := update self.documentSets self.opStack.length
          (addDocs self.opStack.head? docs (self.documentSets self.opStack.length)) }
      refine (@ih op next rest hop fun depth hlt => ?_).trans ?_
      · exact ⟨(hsettled depth hlt).1, hother hlt (hsettled depth hlt).2⟩
      · rw [after, after]
        simp [next, groupsOf, operatorsOf, documentsOf, hdocs]
  | group op' children f ihc ih =>
    rw [filtersOf_group, List.cons_append, List.append_assoc, List.foldlM_cons, step]
    simp only [Option.bind_eq_bind, Option.bind_some]
    have hsettled' : Settled { self with
        opStack := op' :: self.opStack, filters := self.filters ++ [.group op'] } :=
      fun depth hlt => hsettled depth (Nat.lt_of_succ_lt hlt)
    have hop' : (op' :: self.opStack).head? = some .or ↔ op' = .or := by simp
    rw [ihc (.close :: filtersOf f ++ rest) hop' hsettled', List.cons_append, List.foldlM_cons,
      step_close self hsettled]
    let next : Regroup O D := { self with
      filters := self.filters ++ filtersOf (.group op' (regroup op' children) .nil) }
    refine (@ih op next rest hop hsettled).trans ?_
    rw [after, after]
    simp [next, groupsOf, operatorsOf, documentsOf, regroup, filtersOf, map, tokens]

end Regroup

/-- After the first loop the filters are those of the forest, groups first. -/
theorem splitFilters_eq {id : ℕ} (hid : id ≠ noAccountId) (first : Bool) :
    splitFilters (withAccountId first id (filtersOf f)) =
      some (splitRuns id (filtersOf (regroup .and f)) 0 none) := by
  have hfold : (withAccountId first id (filtersOf f)).foldlM Regroup.step
      ⟨noAccountId, [], [], fun _ => none, fun _ => []⟩ =
      some (Regroup.after ⟨id, [], [], fun _ => none, fun _ => []⟩ .and f) := by
    have hop : ([] : List Op).head? = some .or ↔ Op.and = .or := by simp
    cases first with
    | true =>
      have hfold := @Regroup.foldlM_step O D _ f .and ⟨id, [], [], fun _ => none, fun _ => []⟩ []
        hop fun _ _ => ⟨rfl, rfl⟩
      rwa [List.append_nil] at hfold
    | false =>
      exact @Regroup.foldlM_step O D _ f .and ⟨noAccountId, [], [], fun _ => none, fun _ => []⟩
        [.leaf (.accountId id)] hop fun _ _ => ⟨rfl, rfl⟩
  rw [splitFilters, hfold]
  simp [Regroup.flush, Regroup.after, hid, regroup, filtersOf_conditionsOf]

end FirstLoop

/-! ## The parts -/

/-- No set is asked for. -/
def isExternal : Forest (Leaf O D) → Bool
  | .nil => true
  | .leaf (.inl _) rest => isExternal rest
  | .leaf (.inr _) _ => false
  | .group _ children rest => isExternal children && isExternal rest

/-- A set is asked for in a group. -/
def isMixed : Forest (Leaf O D) → Bool
  | .nil => false
  | .leaf _ rest => isMixed rest
  | .group _ children rest => !isExternal children || isMixed rest

/-- The trees that the external index answers, if no group is mixed. -/
def externalsOf : Forest (Leaf O D) → Forest O
  | .nil => .nil
  | .leaf (.inl o) rest => .leaf o (externalsOf rest)
  | .leaf (.inr _) rest => externalsOf rest
  | .group op children rest => .group op (externalsOf children) (externalsOf rest)

/-- The sets outside of groups. -/
def setsOf : Forest (Leaf O D) → Forest (Finset D)
  | .nil => .nil
  | .leaf (.inr set) rest => .leaf set (setsOf rest)
  | .leaf (.inl _) rest | .group _ _ rest => setsOf rest

/-- In each group come groups first, then conditions, and then one set at most. -/
def isOrdered : Forest (Leaf O D) → Bool
  | .nil => true
  | .leaf (.inl _) rest => !isMixed rest && isOrdered rest
  | .leaf (.inr _) rest => match rest with
    | .nil => true
    | _ => false
  | .group _ children rest => isOrdered children && isOrdered rest

/-- The filters of conditions of the external index. -/
def operatorFilters (f : Forest O) : Filters O D := (f.map Condition.operator).tokens

/-- What is evaluated: the sets, and one set for the trees of a group that the external index
    answers together. `subQuery` has the documents for those, where the trees may be the first of an
    `Or`. -/
def plan (subQuery : Bool → Forest O → Finset D) : Bool → Forest (Leaf O D) → Forest (Finset D)
  | _, .nil => .nil
  | _, .leaf (.inr set) rest => .leaf set (plan subQuery false rest)
  | afterOr, .leaf (.inl o) rest =>
    .leaf (subQuery afterOr (externalsOf (.leaf (.inl o) rest))) (setsOf rest)
  | afterOr, .group op children rest =>
    if isMixed (.group op children rest) then
      .group op (plan subQuery (op = .or) children) (plan subQuery false rest)
    else .leaf (subQuery afterOr (externalsOf (.group op children rest))) (setsOf rest)

section SecondLoop

omit [DecidableEq D]

variable {f : Forest (Leaf O D)} {rest : Filters O D} (accountId : ℕ)
  (subQuery : Filters O D → Finset D)

theorem filtersOf_external (h : isExternal f = true) :
    filtersOf f = operatorFilters (externalsOf f) := by
  induction f with
  | nil => rfl
  | leaf l f ih =>
    rcases l with o | set
    · exact congrArg _ (ih h)
    · cases h
  | group op children f ihc ih =>
    obtain ⟨hchildren, hrest⟩ := and_eq_true_iff.mp h
    rw [filtersOf_group, ihc hchildren, ih hrest]
    rfl

/-- Without mixed groups the trees of the external index come first, then one set at most. -/
theorem filtersOf_ordered (hordered : isOrdered f = true) (hmixed : isMixed f = false) :
    filtersOf f = operatorFilters (externalsOf f) ++ setFilters (setsOf f) ∧
      (setsOf f = .nil ∨ ∃ set, setsOf f = .leaf set .nil) := by
  induction f with
  | nil => exact ⟨rfl, .inl rfl⟩
  | leaf l f ih =>
    rcases l with o | set
    · obtain ⟨-, hf⟩ := and_eq_true_iff.mp hordered
      obtain ⟨heq, hsets⟩ := ih hf hmixed
      exact ⟨congrArg _ heq, hsets⟩
    · cases f with
      | nil => exact ⟨rfl, .inr ⟨set, rfl⟩⟩
      | leaf l f | group op children f => cases hordered
  | group op children f ihc ih =>
    obtain ⟨-, hf⟩ := and_eq_true_iff.mp hordered
    obtain ⟨hchildren, hrest⟩ := or_eq_false_iff.mp hmixed
    obtain ⟨heq, hsets⟩ := ih hf hrest
    refine ⟨?_, hsets⟩
    rw [filtersOf_group, heq, filtersOf_external (by simpa using hchildren)]
    simp [operatorFilters, externalsOf, setsOf, map, tokens]

theorem operatorFilters_group (children f : Forest O) :
    (operatorFilters (.group op children f) : Filters O D) =
      .group op :: (operatorFilters children ++ .close :: operatorFilters f) := rfl

/-- Conditions of the external index are passed. -/
theorem scan_operatorFilters (f : Forest O) (rest : Filters O D) (depth length : ℕ) :
    scan (operatorFilters f ++ rest) depth length =
      scan rest depth (length + (operatorFilters f : Filters O D).length) := by
  induction f generalizing rest depth length with
  | nil => rfl
  | leaf o f ih =>
    refine (ih rest depth (length + 1)).trans (congrArg (scan rest depth) ?_)
    rw [operatorFilters, operatorFilters, map, tokens, List.length_cons]
    omega
  | group op children f ihc ih =>
    rw [operatorFilters_group, List.cons_append, List.append_assoc, scan, ihc, List.cons_append,
      scan, ih]
    refine congrArg (scan rest depth) ?_
    rw [List.length_cons, List.length_append, List.length_cons]
    omega

/-- A set in a group makes the first filter an internal one. -/
theorem scan_eq_none_of_depth (h : isExternal f = false) (rest : Filters O D)
    (depth length : ℕ) : scan (filtersOf f ++ rest) (depth + 1) length = none := by
  induction f generalizing rest depth length with
  | nil => cases h
  | leaf l f ih =>
    rcases l with o | set
    · exact ih h rest depth (length + 1)
    · rfl
  | group op children f ihc ih =>
    rw [filtersOf_group, List.cons_append, List.append_assoc, scan]
    cases hchildren : isExternal children with
    | false => exact ihc hchildren _ _ _
    | true =>
      rw [filtersOf_external hchildren, scan_operatorFilters, List.cons_append, scan]
      refine ih ?_ rest depth _
      simpa [isExternal, hchildren] using h

/-- So does one in a group that follows. -/
theorem scan_eq_none (hordered : isOrdered f = true) (h : isMixed f = true)
    (rest : Filters O D) (length : ℕ) : scan (filtersOf f ++ rest) 0 length = none := by
  induction f generalizing length with
  | nil => cases h
  | leaf l f ih =>
    rcases l with o | set
    · obtain ⟨hnot, -⟩ := and_eq_true_iff.mp hordered
      rw [isMixed] at h
      rw [h] at hnot
      cases hnot
    · cases f with
      | nil => cases h
      | leaf l f | group op children f => cases hordered
  | group op children f ihc ih =>
    obtain ⟨-, hf⟩ := and_eq_true_iff.mp hordered
    rw [filtersOf_group, List.cons_append, List.append_assoc, scan]
    -- the scan stops at a set in the group, and else goes on behind it
    cases hchildren : isExternal children with
    | false => exact scan_eq_none_of_depth hchildren _ _ _
    | true =>
      rw [filtersOf_external hchildren, scan_operatorFilters, List.cons_append, scan]
      refine ih hf ?_ _
      simpa [isMixed, hchildren] using h

/-- The filters that follow a group, or the end of them. -/
def AtEnd (rest : Filters O D) : Prop := rest = [] ∨ ∃ rest', rest = .close :: rest'

variable (last : Option (SplitFilter O D))

theorem splitRuns_skip (filters rest : Filters O D) :
    splitRuns accountId (filters ++ rest) filters.length last =
      splitRuns accountId rest 0 last := by
  induction filters with
  | nil => rfl
  | cons filter filters ih => exact ih

theorem splitRuns_atEnd (h : AtEnd rest) :
    splitRuns accountId rest 0 last = splitRuns accountId rest 0 none := by
  rcases h with rfl | ⟨rest', rfl⟩ <;> rfl

/-- The trees of a group that the external index answers are one external filter. -/
theorem splitRuns_run (hordered : isOrdered f = true) (hmixed : isMixed f = false)
    (hne : externalsOf f ≠ .nil) (h : AtEnd rest) :
    splitRuns accountId (filtersOf f ++ rest) 0 last =
      .external (externalFilters accountId (isOr last) (operatorFilters (externalsOf f))) ::
        ((setFilters (setsOf f)).map .internal ++ splitRuns accountId rest 0 none) := by
  obtain ⟨heq, hsets⟩ := filtersOf_ordered hordered hmixed
  obtain ⟨filter, filters, hfilters⟩ :
      ∃ filter filters, (operatorFilters (externalsOf f) : Filters O D) =
        filter :: filters := by
    cases hexternals : externalsOf f with
    | nil => exact absurd hexternals hne
    | leaf o f | group op children f => exact ⟨_, _, rfl⟩
  -- the run ends at the set of the group, or at its end
  have hscan : scan (filter :: (filters ++ (setFilters (setsOf f) ++ rest))) 0 0 =
      some (filter :: filters).length := by
    rw [← List.cons_append, ← hfilters, scan_operatorFilters, Nat.zero_add, hfilters]
    rcases hsets with hnil | ⟨set, hset⟩
    · rw [hnil]
      rcases h with rfl | ⟨rest', rfl⟩ <;> rfl
    · rw [hset]
      rfl
  rw [heq, hfilters, List.append_assoc, List.cons_append, splitRuns, hscan]
  dsimp only
  rw [← List.cons_append, List.take_left, List.length_cons, Nat.add_sub_cancel, splitRuns_skip]
  -- the sets at the end of a group are internal filters
  rcases hsets with hnil | ⟨set, hset⟩
  · rw [hnil]
    exact congrArg _ (splitRuns_atEnd accountId _ h)
  · rw [hset]
    exact congrArg (_ :: _ :: ·) (splitRuns_atEnd accountId _ h)

/-- The documents that are found for trees of the external index. -/
def externalDocs (accountId : ℕ) (afterOr : Bool) (f : Forest O) : Finset D :=
  subQuery (externalFilters accountId afterOr (operatorFilters f))

theorem map_resolve_run (hordered : isOrdered f = true) (hmixed : isMixed f = false)
    (hne : externalsOf f ≠ .nil) (h : AtEnd rest) :
    (splitRuns accountId (filtersOf f ++ rest) 0 last).map (·.resolve subQuery) =
      setFilters (.leaf (externalDocs subQuery accountId (isOr last) (externalsOf f)) (setsOf f)) ++
        (splitRuns accountId rest 0 none).map (·.resolve subQuery) := by
  have hinternal (filters : Filters O D) :
      (filters.map SplitFilter.internal).map (·.resolve subQuery) = filters := by
    rw [List.map_map]
    exact List.map_id' filters
  rw [splitRuns_run accountId last hordered hmixed hne h, List.map_cons, List.map_append, hinternal]
  rfl

/-- The second loop evaluates to the plan. -/
theorem map_resolve_splitRuns (hordered : isOrdered f = true) (h : AtEnd rest) :
    (splitRuns accountId (filtersOf f ++ rest) 0 last).map (·.resolve subQuery) =
      setFilters (plan (externalDocs subQuery accountId) (isOr last) f) ++
        (splitRuns accountId rest 0 none).map (·.resolve subQuery) := by
  induction f generalizing rest last with
  | nil => exact congrArg _ (splitRuns_atEnd accountId last h)
  | leaf l f ih =>
    rcases l with o | set
    · obtain ⟨hmixed, -⟩ := and_eq_true_iff.mp hordered
      exact map_resolve_run accountId subQuery last hordered (by simpa [isMixed] using hmixed)
        (by rintro ⟨⟩) h
    · cases f with
      | nil => exact congrArg _ (congrArg _ (splitRuns_atEnd accountId _ h))
      | leaf l f | group op children f => cases hordered
  | group op children f ihc ih =>
    rw [plan]
    split_ifs with hmixed
    · -- the group is opened, and its trees are split like those around it
      obtain ⟨hchildren, hf⟩ := and_eq_true_iff.mp hordered
      have hscan := scan_eq_none hordered hmixed rest 0
      rw [filtersOf_group, List.cons_append, List.append_assoc, List.cons_append] at hscan ⊢
      rw [splitRuns, hscan, List.map_cons, ihc _ hchildren (.inr ⟨_, rfl⟩)]
      have hclose : splitRuns accountId (.close :: (filtersOf f ++ rest)) 0 none =
          .internal .close ::
            splitRuns accountId (filtersOf f ++ rest) 0 (some (.internal .close)) := rfl
      have hor : isOr (some (.internal (.group op) : SplitFilter O D)) = decide (op = .or) := by
        cases op <;> rfl
      rw [hclose, List.map_cons, ih _ hf h, hor]
      simp [setFilters, map, tokens, SplitFilter.resolve, isOr]
    · exact map_resolve_run accountId subQuery last hordered (by simpa using hmixed) (by rintro ⟨⟩) h

end SecondLoop

end Inworkspace.Search
