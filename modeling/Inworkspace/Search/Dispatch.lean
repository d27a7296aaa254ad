import Inworkspace.Search.Split

/-!
# What a split search means

`SearchStore::query_account` asks the external index for each part of a split search, and has the
machine of `SearchQuery::filter` combine what comes back with the sets of the search. Two things
can go wrong on the way, apart from the machine itself. The sets in a group are merged into one, by
intersection unless the group is an `Or`: in a `Not` that is not what two sets mean (`oneSet`). And
the trees of a group that the index answers are asked for in one query, as a conjunction, or as a
disjunction where they come first in an `Or` (`splitsWell`).

Each stage keeps the meaning otherwise: regrouping (`holds_regroup`), asking for trees
together (`holds_plan`), and the machine on what is left (`querySplit_filtersOf`).
-/

namespace Inworkspace.Search

open Lib.FilterTree Forest Bool

variable {O D : Type} [DecidableEq D]

/-- A document meets the condition of a leaf. -/
def Leaf.value (meets : O → Bool) (d : D) : Leaf O D → Bool
  | .inl o => meets o
  | .inr set => has d set

/-- At most one set is asked for in each negation. -/
def oneSet : Forest (Leaf O D) → Bool
  | .nil => true
  | .leaf _ rest => oneSet rest
  | .group op children rest =>
    (op ≠ .not || (setsOf children).length ≤ 1) && oneSet children && oneSet rest

/-- The external index answers the trees together as they are meant under the operator: by their
    conjunction, or their disjunction if they are the first of an `Or`. -/
def answersTogether (op : Op) (afterOr : Bool) (f : Forest O) : Bool :=
  op = .and || op = .or && afterOr || f.length ≤ 1

/-- The trees of all groups that are answered together may be so. -/
def splitsWell (op : Op) : Bool → Forest (Leaf O D) → Bool
  | _, .nil => true
  | _, .leaf (.inr _) rest => splitsWell op false rest
  | afterOr, .leaf (.inl o) rest => answersTogether op afterOr (externalsOf (.leaf (.inl o) rest))
  | afterOr, .group op' children rest =>
    if isMixed (.group op' children rest) then
      splitsWell op' (op' = .or) children && splitsWell op false rest
    else answersTogether op afterOr (externalsOf (.group op' children rest))

section Regrouped

variable {d : D} {meets : O → Bool}

omit [DecidableEq D] in
theorem leaves_append {L : Type} (ls ls' : List L) : leaves (ls ++ ls') = leaves ls ++ leaves ls' := by
  induction ls with
  | nil => rfl
  | cons l ls ih => rw [List.cons_append, leaves, ih, leaves, leaf_append]

omit [DecidableEq D] in
theorem holds_leaves_map {L : Type} (v : Leaf O D → Bool) (op : Op) (g : L → Leaf O D)
    (ls : List L) : (leaves (ls.map g)).holds v op = (leaves ls).holds (v ∘ g) op := by
  induction ls with
  | nil => rfl
  | cons l ls ih =>
    rw [List.map_cons, leaves, leaves, holds_leaf, holds_leaf, ih]
    rfl

variable {op : Op} {f : Forest (Leaf O D)}

/-- A set that is added to another is joined with it as the operator says. -/
theorem holds_addDocs (hop : op ≠ .not) (set : Finset D) (docs : Option (Finset D)) :
    (leaves (Regroup.addDocs (some op) set docs).toList).holds (has d) op =
      op.join ((leaves docs.toList).holds (has d) op) (op.single (has d set)) := by
  rcases docs with _ | entry
  · rw [op.join_comm]
    exact holds_leaf _ op set .nil
  rcases op with _ | _ | _
  · simp [Regroup.addDocs, leaves, holds, values, Op.apply, Op.join, Op.single, has]
  · simp [Regroup.addDocs, leaves, holds, values, Op.apply, Op.join, Op.single, has]
  · exact absurd rfl hop

theorem holds_documentsOf_ne_not (hop : op ≠ .not) (f : Forest (Leaf O D))
    (docs : Option (Finset D)) :
    (leaves (documentsOf op docs f).toList).holds (has d) op =
      op.join ((leaves docs.toList).holds (has d) op) ((setsOf f).holds (has d) op) := by
  induction f generalizing docs with
  | nil => exact (join_holds_nil _ op _).symm
  | leaf l f ih =>
    rcases l with o | set
    · exact ih docs
    · rw [documentsOf, ih, holds_addDocs hop, setsOf, holds_leaf, op.join_assoc]
  | group op' children f _ ih => exact ih docs

theorem documentsOf_of_setsOf_nil (h : setsOf f = .nil) (docs : Option (Finset D)) :
    documentsOf op docs f = docs := by
  induction f with
  | nil => rfl
  | leaf l f ih =>
    rcases l with o | set
    · exact ih h
    · cases h
  | group op' children f _ ih => exact ih h

theorem leaves_documentsOf (h : (setsOf f).length ≤ 1) :
    leaves (documentsOf op none f).toList = setsOf f := by
  induction f with
  | nil => rfl
  | leaf l f ih =>
    rcases l with o | set
    · exact ih h
    have hnil : setsOf f = .nil := by
      cases hsets : setsOf f with
      | nil => rfl
      | leaf set' rest | group op' children rest =>
        rw [setsOf, hsets, length, length] at h
        omega
    rw [documentsOf, documentsOf_of_setsOf_nil hnil, setsOf, hnil]
    rfl
  | group op' children f _ ih => exact ih h

/-- A forest is its groups, its conditions and its sets. -/
def Decomposed (meets : O → Bool) (d : D) (op : Op) (f : Forest (Leaf O D)) : Prop :=
  f.holds (Leaf.value meets d) op =
    op.join ((groupsOf f).holds (Leaf.value meets d) op)
      (op.join ((leaves (operatorsOf f)).holds meets op) ((setsOf f).holds (has d) op))

/-- Regrouping keeps the meaning, below a NOT with one set at most. -/
theorem holds_regroup_of_decomposed (hf : Decomposed meets d op f)
    (h : op ≠ .not ∨ (setsOf f).length ≤ 1) :
    (regroup op f).holds (Leaf.value meets d) op = f.holds (Leaf.value meets d) op := by
  rw [regroup, conditionsOf, leaves_append, holds_append, holds_append,
    holds_leaves_map, holds_leaves_map, hf]
  refine congrArg _ (congrArg _ ?_)
  change holds (has d) op _ = _
  -- the sets of a group in one are no more and no less than each of them
  rcases h with hop | hlength
  · rw [holds_documentsOf_ne_not hop, op.join_comm]
    exact join_holds_nil _ op _
  · rw [leaves_documentsOf hlength]

/-- A forest is its sets, its groups and its conditions, in whatever order. -/
theorem decomposed (op : Op) (hf : oneSet f = true) : Decomposed meets d op f := by
  induction f generalizing op with
  | nil => cases op <;> rfl
  | leaf l f ih =>
    have ih := ih op hf
    rw [Decomposed] at ih ⊢
    rcases l with o | set
    · rw [holds_leaf, ih, operatorsOf, leaves, holds_leaf, op.join_assoc, op.join_left_comm]
      rfl
    · rw [holds_leaf, ih, setsOf, holds_leaf, op.join_left_comm,
        op.join_left_comm _ _ ((setsOf f).holds (has d) op)]
      rfl
  | group op' children f ihc ih =>
    rw [oneSet, and_eq_true, and_eq_true] at hf
    obtain ⟨⟨hsets, hchildren⟩, hrest⟩ := hf
    have ih := ih op hrest
    rw [Decomposed] at ih ⊢
    rw [holds_group, ih, groupsOf, holds_group, ← regroup,
      holds_regroup_of_decomposed (ihc op' hchildren) (by simpa using hsets), operatorsOf, setsOf,
      op.join_assoc]

end Regrouped

section Planned

variable {d : D} {meets : O → Bool}

omit [DecidableEq D] in
theorem isMixed_leaves (ls : List (Leaf O D)) : isMixed (leaves ls) = false := by
  induction ls with
  | nil => rfl
  | cons l ls ih => exact ih

theorem isOrdered_conditionsOf {op : Op} (f : Forest (Leaf O D)) :
    isOrdered (conditionsOf op f) = true := by
  rw [conditionsOf]
  generalize operatorsOf f = operators
  induction operators with
  | nil => cases documentsOf op none f <;> rfl
  | cons o operators ih =>
    rw [List.map_cons, List.cons_append, leaves, isOrdered, ih, isMixed_leaves]
    rfl

theorem isOrdered_regroup (op : Op) (f : Forest (Leaf O D)) : isOrdered (regroup op f) = true := by
  -- the groups come first, whatever conditions follow
  have hgroups (g : Forest (Leaf O D)) (hg : isOrdered g = true) :
      isOrdered (groupsOf f ++ g) = true := by
    induction f generalizing g with
    | nil => exact hg
    | leaf l f ih => exact ih g hg
    | group op' children f ihc ih =>
      rw [groupsOf, group_append, isOrdered, ihc _ (isOrdered_conditionsOf children), ih g hg]
      rfl
  exact hgroups _ (isOrdered_conditionsOf f)

variable {f : Forest (Leaf O D)}

theorem values_external (h : isExternal f = true) :
    f.values (Leaf.value meets d) = (externalsOf f).values meets := by
  induction f with
  | nil => rfl
  | leaf l f ih =>
    rcases l with o | set
    · exact congrArg _ (ih h)
    · cases h
  | group op children f ihc ih =>
    obtain ⟨hchildren, hrest⟩ := and_eq_true_iff.mp h
    rw [values, ihc hchildren, ih hrest, externalsOf, values]

/-- The values of a run are those of its conditions, then those of its sets. -/
theorem values_ordered (hordered : isOrdered f = true) (hmixed : isMixed f = false) :
    f.values (Leaf.value meets d) = (externalsOf f).values meets ++ (setsOf f).values (has d) := by
  induction f with
  | nil => rfl
  | leaf l f ih =>
    rcases l with o | set
    · obtain ⟨-, hf⟩ := and_eq_true_iff.mp hordered
      exact congrArg _ (ih hf hmixed)
    · cases f with
      | nil => rfl
      | leaf l f | group op children f => cases hordered
  | group op children f ihc ih =>
    obtain ⟨-, hf⟩ := and_eq_true_iff.mp hordered
    obtain ⟨hchildren, hrest⟩ := or_eq_false_iff.mp hmixed
    rw [values, ih hf hrest, values_external (by simpa using hchildren), externalsOf, setsOf,
      values, List.cons_append]

/-- How the external index combines trees that it answers together. -/
def together (afterOr : Bool) (f : Forest O) : Op :=
  if afterOr && 1 < f.tokens.length then .or else .and

omit [DecidableEq D] in
/-- Trees that may be answered together mean what they mean one by one. -/
theorem single_together {op : Op} {afterOr : Bool} {f : Forest O} (hf : f ≠ .nil)
    (hafter : afterOr = true → op = .or) (h : answersTogether op afterOr f = true) :
    op.single (f.holds meets (together afterOr f)) = f.holds meets op := by
  -- a single tree means the same in a conjunction and in a disjunction
  have hone (hlength : f.length ≤ 1) :
      op.single (f.holds meets (together afterOr f)) = f.holds meets op := by
    obtain ⟨value, hvalue⟩ : ∃ value, f.values meets = [value] := by
      refine List.length_eq_one_iff.mp ?_
      rw [length_values]
      cases f with
      | nil => exact absurd rfl hf
      | leaf o rest | group op' children rest =>
        rw [length] at hlength ⊢
        omega
    rw [holds, holds, hvalue, op.apply_singleton, together]
    split_ifs <;> rw [Op.apply_singleton] <;> rfl
  rw [answersTogether, or_eq_true, or_eq_true, and_eq_true, decide_eq_true_iff,
    decide_eq_true_iff, decide_eq_true_iff] at h
  rcases h with (rfl | ⟨rfl, rfl⟩) | hlength
  · cases afterOr with
    | true => cases hafter rfl
    | false => rfl
  · by_cases hlength : 1 < f.tokens.length
    · rw [together, if_pos (by simpa using hlength)]
      rfl
    · exact hone (f.length_le_length_tokens.trans (Nat.le_of_not_lt hlength))
  · exact hone hlength

/-- The plan means what the forest means. -/
theorem holds_plan {subQuery : Bool → Forest O → Finset D}
    (hsub : ∀ afterOr f, has d (subQuery afterOr f) = f.holds meets (together afterOr f))
    {op : Op} {afterOr : Bool} (hordered : isOrdered f = true)
    (hafter : afterOr = true → op = .or) (h : splitsWell op afterOr f = true) :
    (plan subQuery afterOr f).holds (has d) op = f.holds (Leaf.value meets d) op := by
  -- a run of trees is asked for at once, and only sets can follow it
  have hrun {f : Forest (Leaf O D)} (hordered : isOrdered f = true) (hmixed : isMixed f = false)
      (hne : externalsOf f ≠ .nil) {op : Op} {afterOr : Bool} (hafter : afterOr = true → op = .or)
      (h : answersTogether op afterOr (externalsOf f) = true) :
      (leaf (subQuery afterOr (externalsOf f)) (setsOf f)).holds (has d) op =
        f.holds (Leaf.value meets d) op := by
    rw [holds_leaf, hsub, single_together hne hafter h, holds, holds,
      ← op.apply_append, ← values_ordered hordered hmixed, holds]
  induction f generalizing op afterOr with
  | nil => rfl
  | leaf l f ih =>
    rcases l with o | set
    · obtain ⟨hmixed, -⟩ := and_eq_true_iff.mp hordered
      exact hrun hordered (by simpa [isMixed] using hmixed) (by rintro ⟨⟩) hafter h
    · cases f with
      | nil => rfl
      | leaf l f | group op children f => cases hordered
  | group op' children f ihc ih =>
    rw [splitsWell] at h
    rw [plan]
    split_ifs at h ⊢ with hmixed
    · obtain ⟨hchildren, hf⟩ := and_eq_true_iff.mp hordered
      obtain ⟨hwell, hrest⟩ := and_eq_true_iff.mp h
      have hrest := ih hf (fun h => absurd h false_ne_true) hrest
      rw [holds_group, holds_group, ihc hchildren of_decide_eq_true hwell, hrest]
    · exact hrun hordered (by simpa using hmixed) (by rintro ⟨⟩) hafter h

end Planned

/-! ## The search as a whole -/

/-- The documents of the mask that meet the conditions of a forest. -/
def directMeaning (meets : D → O → Bool) (mask : Finset D) (f : Forest (Leaf O D)) : Finset D :=
  {d ∈ mask | f.holds (Leaf.value (meets d) d) .and = true}

/-- The external index finds the documents of the mask that meet all trees. -/
def Answers (subQuery : Filters O D → Finset D) (accountId : ℕ)
    (meets : D → O → Bool) (mask : Finset D) : Prop :=
  ∀ g : Forest O, ∀ d ∈ mask,
    d ∈ subQuery (.leaf (.accountId accountId) :: operatorFilters g) ↔
      g.holds (meets d) .and = true

section Whole

variable {subQuery : Filters O D → Finset D} {accountId : ℕ} {meets : D → O → Bool}
  {mask : Finset D}

/-- Trees that are asked for together are combined in one way or the other. -/
theorem Answers.has_externalDocs (h : Answers subQuery accountId meets mask) {d : D}
    (hd : d ∈ mask) (afterOr : Bool) (f : Forest O) :
    has d (externalDocs subQuery accountId afterOr f) = f.holds (meets d) (together afterOr f) := by
  have hlength : (operatorFilters f : Filters O D).length = f.tokens.length := by
    rw [operatorFilters, length_tokens_map]
  rw [Bool.eq_iff_iff, has, decide_eq_true_iff, externalDocs, externalFilters, hlength, together]
  split_ifs with hor
  · -- the `Or` around them is the only tree that is asked for
    refine (h (.group .or f .nil) d hd).trans ?_
    rw [holds_group, join_holds_nil]
    rfl
  · exact h f d hd

/-- A search over both kinds of conditions has the documents of the tree. -/
theorem querySplit_filtersOf (hsub : Answers subQuery accountId meets mask)
    (hid : accountId ≠ noAccountId) (first : Bool) {f : Forest (Leaf O D)} (hsets : oneSet f = true)
    (hwell : splitsWell .and false (regroup .and f) = true) (hstep : inStep mask .and true none
      (plan (externalDocs subQuery accountId) false (regroup .and f)) = true) :
    querySplit subQuery (withAccountId first accountId (filtersOf f)) mask =
      some (directMeaning meets mask f) := by
  have hsplit := map_resolve_splitRuns accountId subQuery none (isOrdered_regroup .and f) (.inl rfl)
  rw [List.append_nil] at hsplit
  rw [querySplit, splitFilters_eq f hid, Option.map_some, hsplit]
  refine congrArg some ?_
  refine (congrArg (filter · mask) (List.append_nil _)).trans ((filter_setFilters hstep).trans ?_)
  refine Finset.filter_congr fun d hd => ?_
  have hand : Op.and ≠ .not := nofun
  rw [holds_plan (hsub.has_externalDocs hd) (isOrdered_regroup .and f)
    (fun h => absurd h false_ne_true) hwell,
      holds_regroup_of_decomposed (decomposed _ hsets) (.inl hand)]

end Whole

/-- A search that is split for an external index has the documents for which the tree of the filters
    holds, as long as no negation asks for two sets, trees are answered together only where that is
    what they mean, and the machine keeps in step with the tree that is left. -/
theorem querySplit_eq_directMeaning {filters : Filters O D} (hnested : WellNested filters)
    (hleaves : ∀ condition, .leaf condition ∈ filters → ∃ l, Leaf.condition l = condition)
    {subQuery : Filters O D → Finset D} {accountId : ℕ} {meets : D → O → Bool}
    {mask : Finset D} (hsub : Answers subQuery accountId meets mask)
    (hid : accountId ≠ noAccountId) (first : Bool) :
    (∃ f : Forest (Leaf O D), filtersOf f = filters) ∧
      ∀ f : Forest (Leaf O D), filtersOf f = filters → oneSet f = true →
        splitsWell .and false (regroup .and f) = true →
        inStep mask .and true none
          (plan (externalDocs subQuery accountId) false (regroup .and f)) = true →
        querySplit subQuery (withAccountId first accountId filters) mask =
          some (directMeaning meets mask f) := by
  constructor
  · obtain ⟨g, rfl⟩ := wellNested_iff.mp hnested
    obtain ⟨f, rfl⟩ := exists_map _ g hleaves
    exact ⟨f, rfl⟩
  · rintro f rfl hsets hwell hstep
    exact querySplit_filtersOf hsub hid first hsets hwell hstep

/-- An index of what is in the mask and meets the filters. -/
def index (meets : D → O → Bool) (mask : Finset D) (filters : Filters O D) : Finset D :=
  {d ∈ mask | Op.and.apply (evalTokens (fun
    | .accountId _ => true
    | .operator o => meets d o
    | .documentSet set => has d set) filters [] []) = true}

theorem answers_index (accountId : ℕ) (meets : D → O → Bool) (mask : Finset D) :
    Answers (index meets mask) accountId meets mask := by
  intro g d hd
  rw [index, Finset.mem_filter]
  refine (and_iff_right hd).trans ?_
  rw [evalTokens, operatorFilters, ← List.append_nil (tokens _), evalTokens_tokens, values_map]
  rfl

/-- Messages in the mailbox that are from someone, or neither with a text nor flagged; the
    conditions of the index are given by the messages that meet them. -/
def unflaggedOrFrom : Forest (Leaf (Finset ℕ) ℕ) :=
  .leaf (.inr {1, 2, 3}) (.group .or (.leaf (.inl {1})
    (.group .not (.leaf (.inl {1, 2}) (.leaf (.inr {2, 4}) .nil)) .nil)) .nil)

theorem querySplit_unflaggedOrFrom :
    querySplit (index (fun d o => decide (d ∈ o)) {1, 2, 3, 4})
        (withAccountId true 7 (filtersOf unflaggedOrFrom)) {1, 2, 3, 4} =
      some (directMeaning (fun d o => decide (d ∈ o)) {1, 2, 3, 4} unflaggedOrFrom) := by
  refine (querySplit_eq_directMeaning ?_ ?_ (answers_index 7 _ _) (by decide) true).2 _ rfl
    (by decide) (by decide) (by decide +kernel)
  · exact wellNested_iff.mpr ⟨_, rfl⟩
  · intro condition hmem
    simp [filtersOf, unflaggedOrFrom, map, tokens] at hmem
    rcases hmem with rfl | rfl | rfl | rfl
    exacts [⟨.inr _, rfl⟩, ⟨.inl _, rfl⟩, ⟨.inl _, rfl⟩, ⟨.inr _, rfl⟩]

/-- Messages that are from neither of two and not flagged. -/
def fromNeither : Forest (Leaf (Finset ℕ) ℕ) :=
  .group .not (.leaf (.inl {1}) (.leaf (.inl {2}) (.leaf (.inr {3}) .nil))) .nil

/-- The two conditions are asked for together: what is not from both at once is found. -/
theorem querySplit_fromNeither :
    querySplit (index (fun d o => decide (d ∈ o)) {1, 2, 3, 4})
        (withAccountId true 7 (filtersOf fromNeither)) {1, 2, 3, 4} = some {1, 2, 4} ∧
      directMeaning (fun d o => decide (d ∈ o)) {1, 2, 3, 4} fromNeither = {4} := by
  decide +kernel

end Inworkspace.Search
