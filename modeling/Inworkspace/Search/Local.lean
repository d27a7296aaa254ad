import Inworkspace.Lib.FilterTree
import Mathlib.Data.Finset.Sort
import Mathlib.Data.Finset.SymmDiff

/-!
# Evaluating search filters

`store::search::local` and the same machine in `Store::query_account`: the filters of a query
are a list of conditions, of operators that open a group and of the ends of groups, and
they are evaluated with a stack, one set of documents for each open group. When a
conjunction has become empty the rest of it is passed over.

What is passed over ends at the next `End`, which is that of the conjunction only if no group
is opened before. As long as that is so the machine evaluates the tree of the filters
(`filter_eq_meaning`); otherwise the filters that follow are taken for parts of other
groups (`filter_loses_flagged`).
-/

namespace Inworkspace.Search

open Lib.FilterTree Forest
open scoped symmDiff

variable {O D : Type}

/-- A document is in an account, meets a condition on an indexed field, or is in a set. -/
inductive Condition (O D : Type) where
  | accountId (id : ℕ)
  | operator (o : O)
  | documentSet (docs : Finset D)
  deriving DecidableEq

abbrev SearchFilter (O D : Type) := Token (Condition O D)

/-- A list of filters, in which the operators and their ends are among the conditions. -/
abbrev Filters (O D : Type) := List (SearchFilter O D)

variable [DecidableEq D] (mask : Finset D) (filters : Filters O D)
  (f : Forest (Finset D))

/-! ## The stack machine -/

structure State (D : Type) where
  op : Op
  bm : Option (Finset D)

namespace State

/-- The result of the conditions so far and of the next one. -/
def apply (op : Op) (bm result : Option (Finset D)) : Finset D :=
  match bm with
  | some dest =>
    match op, result with
    | .and, some result => dest ∩ result
    | .and, none => ∅
    | .or, some result => dest ∪ result
    | .or, none => dest
    | .not, some result => dest ∩ (result ∆ mask)
    | .not, none => dest
  | none =>
    match result with
    | some result => if op = .not then result ∆ mask else result
    | none => if op = .not then mask else ∅

/-- The state after a condition. -/
def add (self : State D) (result : Option (Finset D)) : State D :=
  { self with bm := some (apply mask self.op self.bm result) }

/-- No document is left that more conditions could exclude. -/
def isExhausted (self : State D) : Bool := self.op = .and ∧ self.bm = some ∅

end State

open State

section Machine

variable {ε : Type} (resolve : Condition O D → Except ε (Option (Option (Finset D))))
  (mask : Finset D)

/-- The loop over the filters. `resolve` has the documents that meet a condition, if any do, unless
    it is passed over; after a conjunction has become empty (`skipping`), filters are passed over up
    to the next `End`. -/
def loop : Filters O D → Bool → State D → List (State D) → Except ε (State D)
  | [], _, state, _ => .ok state
  | filter :: filters, skipping, state, stack =>
    if skipping && !filter.isClose then loop filters true state stack
    else
      match filter with
      | .leaf condition =>
        match resolve condition with
        | .error error => .error error
        | .ok none => loop filters false state stack
        | .ok (some result) =>
          let state := state.add mask result
          loop filters state.isExhausted state stack
      | .group op => loop filters false ⟨op, none⟩ (state :: stack)
      | .close =>
        match stack with
        | prevState :: stack =>
          let state := prevState.add mask state.bm
          loop filters state.isExhausted state stack
        | [] => .ok state

section Steps

variable {resolve mask} {filters : Filters O D} {skipping : Bool} {state : State D}
  {stack : List (State D)} {condition : Condition O D}

theorem loop_skip {filter : SearchFilter O D} (h : filter.isClose = false) :
    loop resolve mask (filter :: filters) true state stack =
      loop resolve mask filters true state stack := by
  rw [loop.eq_def]
  simp [h]

theorem loop_leaf_none (h : resolve condition = .ok none) :
    loop resolve mask (.leaf condition :: filters) false state stack =
      loop resolve mask filters false state stack := by
  rw [loop.eq_def]
  simp [h]

theorem loop_close (prev : State D) :
    loop resolve mask (.close :: filters) skipping state (prev :: stack) =
      loop resolve mask filters (prev.add mask state.bm).isExhausted (prev.add mask state.bm)
        stack := by
  rw [loop.eq_def]
  simp [Token.isClose]

theorem loop_close_nil : loop resolve mask (.close :: filters) skipping state [] = .ok state := by
  rw [loop.eq_def]
  simp [Token.isClose]

end Steps

end Machine

/-- The documents of a set; other conditions are passed over. -/
def documentSets : Condition O D → Except Empty (Option (Option (Finset D)))
  | .documentSet set => .ok (some (some set))
  | .operator _ | .accountId _ => .ok none

/-- `SearchQuery::filter`. -/
def filter (mask : Finset D) : Finset D :=
  if filters.isEmpty then mask
  else
    match loop documentSets mask filters false ⟨.and, none⟩ [] with
    | .ok state => state.bm.getD ∅ ∩ mask

/-- The first account that is asked for, as a `u32`, or `u32::MAX`. -/
def findAccountId : ℕ :=
  (filters.findSome? fun
    | .leaf (.accountId id) => some (id % 2 ^ 32)
    | _ => none).getD (2 ^ 32 - 1)

/-- The documents of a set, or those of an account that meet a condition. -/
def accountDocuments {ε : Type} (lookup : O → Except ε (Option (Finset D))) :
    Condition O D → Except ε (Option (Option (Finset D)))
  | .documentSet set => .ok (some (some set))
  | .operator o => (lookup o).map some
  | .accountId _ => .ok none

/-- `Store::query_account`, up to the order of the documents; `lookup` has the documents of an
    account for a condition. -/
def queryAccount {ε : Type} (lookup : ℕ → O → Except ε (Option (Finset D))) (missing : ε)
    (filters : Filters O D) (mask : Finset D) : Except ε (Finset D) :=
  let accountId := findAccountId filters
  if accountId = 2 ^ 32 - 1 then .error missing
  else if filters.length > 1 then
    match loop (accountDocuments (lookup accountId)) mask filters false ⟨.and, none⟩ [] with
    | .ok state => .ok (state.bm.getD ∅ ∩ mask)
    | .error error => .error error
  else .ok mask

/-! ## The machine and the tree -/

/-- The sets of the conditions so far and of the trees of a forest. -/
def evaluate (mask : Finset D) (op : Op) :
    Option (Finset D) → Forest (Finset D) → Option (Finset D)
  | bm, .nil => bm
  | bm, .leaf set rest => evaluate mask op (some (apply mask op bm (some set))) rest
  | bm, .group op' children rest =>
    evaluate mask op (some (apply mask op bm (evaluate mask op' none children))) rest

/-- The machine keeps in step with the trees of a forest. Conjunctions and negations are of
    something, and no group follows in a conjunction that has become empty; unless all groups around
    it are conjunctions (`chain`), for then everything is empty. -/
def inStep (mask : Finset D) (op : Op) : Bool → Option (Finset D) → Forest (Finset D) → Bool
  | _, _, .nil => true
  | chain, bm, .leaf set rest =>
    inStep mask op chain (some (apply mask op bm (some set))) rest
  | chain, bm, .group op' children rest =>
    if (mk op bm).isExhausted then chain
    else
      (op' = .or || children ≠ .nil) && inStep mask op' (chain && op' = .and) none children &&
        inStep mask op chain
          (some (apply mask op bm (evaluate mask op' none children))) rest

/-- The filters that ask for the sets of a forest. -/
def setFilters : Filters O D :=
  (f.map Condition.documentSet).tokens

section Simulation

variable {ε : Type} {resolve : Condition O D → Except ε (Option (Option (Finset D)))}
  {mask : Finset D}

theorem State.isExhausted_iff {state : State D} :
    state.isExhausted = true ↔ state.op = .and ∧ state.bm = some ∅ := by
  rw [isExhausted, decide_eq_true_iff]

theorem State.isExhausted_none (op : Op) : (mk op (none : Option (Finset D))).isExhausted =
    false := by
  simp [isExhausted]

/-- What is empty stays so. -/
theorem evaluate_exhausted (f : Forest (Finset D)) : evaluate mask .and (some ∅) f = some ∅ := by
  induction f with
  | nil => rfl
  | leaf set rest ih => rwa [evaluate]
  | group op children rest _ ih =>
    rw [evaluate]
    have hempty : apply mask .and (some ∅) (evaluate mask op none children) = ∅ := by
      cases evaluate mask op none children with
      | none => rfl
      | some result => exact Finset.empty_inter result
    rwa [hempty]

/-- The documents that a run of the loop ends with. -/
def documents (x : Except ε (State D)) : Except ε (Finset D) := x.map fun state => state.bm.getD ∅

/-- An empty conjunction, in conjunctions only, leaves nothing whatever follows. -/
theorem documents_loop_exhausted (filters : Filters O D) {state : State D}
    {stack : List (State D)} (hstate : state.isExhausted = true)
    (hstack : ∀ prev ∈ stack, prev.op = .and) :
    documents (loop resolve mask filters true state stack) = .ok ∅ := by
  induction filters generalizing state stack with
  | nil =>
    obtain ⟨-, hbm⟩ := isExhausted_iff.mp hstate
    rw [loop, documents, Except.map, hbm]
    rfl
  | cons filter filters ih =>
    cases hclose : filter.isClose with
    | false =>
      rw [loop_skip hclose]
      exact ih hstate hstack
    | true =>
      obtain rfl : filter = .close := by cases filter <;> simp_all [Token.isClose]
      rcases stack with _ | ⟨prev, stack⟩
      · obtain ⟨-, hbm⟩ := isExhausted_iff.mp hstate
        rw [loop_close_nil, documents, Except.map, hbm]
        rfl
      · -- the group around it becomes empty too
        have hprev : (prev.add mask state.bm).isExhausted = true := by
          refine isExhausted_iff.mpr ⟨hstack prev List.mem_cons_self, ?_⟩
          obtain ⟨-, hbm⟩ := isExhausted_iff.mp hstate
          rw [add, hbm, hstack prev List.mem_cons_self]
          cases prev.bm with
          | none => rfl
          | some dest => exact congrArg some (Finset.inter_empty dest)
        rw [loop_close, hprev]
        exact ih hprev fun prev' hprev' => hstack prev' (List.mem_cons_of_mem _ hprev')

/-- The machine evaluates the trees of a forest one after the other, whatever follows. -/
theorem documents_loop_setFilters
    (hresolve : ∀ set, resolve (.documentSet set) = .ok (some (some set)))
    (f : Forest (Finset D)) {op : Op} {bm : Option (Finset D)} {chain : Bool}
    (rest : Filters O D) (stack : List (State D))
    (hchain : chain = true → op = .and ∧ ∀ prev ∈ stack, prev.op = .and)
    (h : inStep mask op chain bm f = true) :
    documents (loop resolve mask (setFilters f ++ rest) (mk op bm).isExhausted ⟨op, bm⟩ stack) =
      documents (loop resolve mask rest (mk op (evaluate mask op bm f)).isExhausted
        ⟨op, evaluate mask op bm f⟩ stack) := by
  induction f generalizing op bm chain stack rest with
  | nil => rfl
  | leaf set f ih =>
    rw [inStep] at h
    rw [setFilters, map, tokens, List.cons_append, ← setFilters, evaluate]
    cases hex : (mk op bm).isExhausted with
    | true =>
      obtain ⟨hop, hbm⟩ := isExhausted_iff.mp hex
      obtain rfl : op = .and := hop
      obtain rfl : bm = some ∅ := hbm
      rw [apply, Finset.empty_inter] at h ⊢
      rw [loop_skip rfl, ← ih rest stack hchain h, hex]
    | false =>
      rw [loop.eq_def]
      simpa [hresolve set, State.add] using ih rest stack hchain h
  | group op' children f ihc ih =>
    rw [inStep] at h
    cases hex : (mk op bm).isExhausted with
    | true =>
      rw [hex] at h
      obtain ⟨hop, hstack⟩ := hchain h
      obtain ⟨-, hbm⟩ := isExhausted_iff.mp hex
      obtain rfl : bm = some ∅ := hbm
      subst hop
      rw [evaluate_exhausted, hex, documents_loop_exhausted _ hex hstack,
        documents_loop_exhausted _ hex hstack]
    | false =>
      rw [hex, if_neg Bool.false_ne_true, Bool.and_eq_true, Bool.and_eq_true] at h
      obtain ⟨⟨-, hchildren⟩, hrest⟩ := h
      -- the group is evaluated on top of the stack, and its result is added where it was opened
      have hchain' : (chain && decide (op' = .and)) = true →
          op' = .and ∧ ∀ prev ∈ mk op bm :: stack, prev.op = .and := by
        intro hboth
        obtain ⟨hchain₁, hop'⟩ := Bool.and_eq_true_iff.mp hboth
        obtain ⟨hop, hstack⟩ := hchain hchain₁
        refine ⟨of_decide_eq_true hop', fun prev hprev => ?_⟩
        rcases List.mem_cons.mp hprev with rfl | hprev
        · exact hop
        · exact hstack prev hprev
      have hgroup := ihc (.close :: (setFilters f ++ rest)) (⟨op, bm⟩ :: stack) hchain' hchildren
      rw [setFilters, map, tokens, List.cons_append, List.append_assoc]
      rw [isExhausted_none, loop_close] at hgroup
      exact hgroup.trans (ih rest stack hchain hrest)

end Simulation

/-! ## What the filters mean -/

/-- A document is in a set. -/
def has (d : D) (set : Finset D) : Bool := d ∈ set

section Meaning

variable {mask : Finset D} {d : D}

/-- For a document of the mask the sets are combined as the operators say. -/
theorem has_apply_some (hd : d ∈ mask) (op : Op) (dest : Finset D) (result : Option (Finset D)) :
    has d (apply mask op (some dest) result) =
      op.join (has d dest) (op.single (has d (result.getD ∅))) := by
  rw [Bool.eq_iff_iff]
  rcases op with _ | _ | _ <;> rcases result with _ | result <;>
    simp [apply, Op.join, Op.single, has, Finset.mem_symmDiff, hd]
  · exact decide_eq_true_iff
  · exact decide_eq_true_iff

theorem has_apply_none (hd : d ∈ mask) (op : Op) (result : Option (Finset D)) :
    has d (apply mask op none result) = op.single (has d (result.getD ∅)) := by
  rcases op with _ | _ | _ <;> rcases result with _ | result <;>
    simp [apply, Op.single, has, Finset.mem_symmDiff, hd]

/-- The trees of a forest are evaluated as they mean, within the mask. -/
theorem has_evaluate (hd : d ∈ mask) (f : Forest (Finset D)) {op : Op} {chain : Bool} :
    (∀ dest : Finset D, inStep mask op chain (some dest) f = true →
      has d ((evaluate mask op (some dest) f).getD ∅) = op.join (has d dest) (f.holds (has d) op)) ∧
    (op = .or ∨ f ≠ .nil → inStep mask op chain none f = true →
      has d ((evaluate mask op none f).getD ∅) = f.holds (has d) op) := by
  induction f generalizing op chain with
  | nil =>
    refine ⟨fun dest _ => (join_holds_nil _ op _).symm, fun hfilled _ => ?_⟩
    rcases hfilled with rfl | hne
    · rfl
    · exact absurd rfl hne
  | leaf set f ih =>
    refine ⟨fun dest h => ?_, fun _ h => ?_⟩
    · rw [evaluate, ih.1 _ h, has_apply_some hd, holds_leaf, Op.join_assoc]
      rfl
    · rw [evaluate, ih.1 _ h, has_apply_none hd, holds_leaf]
      rfl
  | group op' children f ihc ih =>
    -- what the group is evaluated to, unless it is passed over
    have hgroup {bm : Option (Finset D)} (h : inStep mask op chain bm (.group op' children f) = true)
        (hex : (mk op bm).isExhausted = false) :
        has d ((evaluate mask op' none children).getD ∅) = children.holds (has d) op' ∧
          inStep mask op chain
            (some (apply mask op bm (evaluate mask op' none children))) f = true := by
      rw [inStep, hex, if_neg Bool.false_ne_true, Bool.and_eq_true, Bool.and_eq_true] at h
      obtain ⟨⟨hfilled, hchildren⟩, hrest⟩ := h
      exact ⟨ihc.2 (by simpa using hfilled) hchildren, hrest⟩
    refine ⟨fun dest h => ?_, fun _ h => ?_⟩
    · cases hex : (mk op (some dest)).isExhausted with
      | true =>
        obtain ⟨hop, hdest⟩ := isExhausted_iff.mp hex
        obtain rfl : op = .and := hop
        obtain rfl : dest = ∅ := Option.some.inj hdest
        rw [evaluate_exhausted]
        rfl
      | false =>
        obtain ⟨hvalue, hrest⟩ := hgroup h hex
        rw [evaluate, ih.1 _ hrest, has_apply_some hd, hvalue, holds_group, Op.join_assoc]
    · obtain ⟨hvalue, hrest⟩ := hgroup h (isExhausted_none op)
      rw [evaluate, ih.1 _ hrest, has_apply_none hd, hvalue, holds_group]

end Meaning

/-- The documents of the mask for which all trees of a forest hold. -/
def meaning : Finset D :=
  {d ∈ mask | f.holds (has d) .and = true}

section Results

variable {ε : Type} {resolve : Condition O D → Except ε (Option (Option (Finset D)))}
  {mask : Finset D} {f : Forest (Finset D)}

omit [DecidableEq D] in
theorem setFilters_ne_nil (hf : f ≠ .nil) : (setFilters f : Filters O D) ≠ [] := by
  cases f with
  | nil => exact absurd rfl hf
  | leaf set rest | group op children rest => exact List.cons_ne_nil _ _

theorem evaluate_inter_mask (hf : f ≠ .nil) (h : inStep mask .and true none f = true) :
    (evaluate mask .and none f).getD ∅ ∩ mask = meaning mask f := by
  ext d
  rw [meaning, Finset.mem_filter, Finset.mem_inter, and_comm]
  refine and_congr_right fun hd => ?_
  rw [← (has_evaluate hd f).2 (.inr hf) h, has, decide_eq_true_iff]

/-- The machine ends with what the forest is evaluated to; the account may come after it. -/
theorem loop_eq_ok (hresolve : ∀ set, resolve (.documentSet set) = .ok (some (some set)))
    (h : inStep mask .and true none f = true) (rest : Filters O D)
    (hrest : ∀ state : State D, documents (loop resolve mask rest state.isExhausted state []) =
      .ok (state.bm.getD ∅)) :
    ∃ state, loop resolve mask (setFilters f ++ rest) false ⟨.and, none⟩ [] = .ok state ∧
      state.bm.getD ∅ = (evaluate mask .and none f).getD ∅ := by
  have hloop := documents_loop_setFilters hresolve f rest [] (fun _ => ⟨rfl, nofun⟩) h
  rw [hrest, isExhausted_none] at hloop
  cases hx : loop resolve mask (setFilters f ++ rest) false ⟨.and, none⟩ [] with
  | error error =>
    rw [hx] at hloop
    cases hloop
  | ok state =>
    rw [hx] at hloop
    exact ⟨state, rfl, Except.ok.inj hloop⟩

theorem meaning_nil : meaning mask .nil = mask := Finset.filter_true_of_mem fun _ _ => rfl

/-- `SearchQuery::filter` of sets, if the machine is in step. -/
theorem filter_setFilters (h : inStep mask .and true none f = true) :
    filter (setFilters f : Filters O D) mask = meaning mask f := by
  by_cases hf : f = .nil
  · rw [hf, meaning_nil]
    rfl
  have hresolve (set : Finset D) : documentSets (.documentSet set : Condition O D) =
      .ok (some (some set)) := rfl
  obtain ⟨state, hloop, hstate⟩ := loop_eq_ok hresolve h [] fun _ => rfl
  rw [List.append_nil] at hloop
  rw [filter, if_neg (mt List.isEmpty_iff.mp (setFilters_ne_nil hf)), hloop,
    ← evaluate_inter_mask hf h, ← hstate]

/-- The filters with the account, before the others or after them. -/
def withAccountId (first : Bool) (id : ℕ) (filters : Filters O D) : Filters O D :=
  if first then .leaf (.accountId id) :: filters else filters ++ [.leaf (.accountId id)]

omit [DecidableEq D] in
/-- The account is found, before the sets or after them. -/
theorem findAccountId_withAccountId (first : Bool) (id : ℕ) :
    findAccountId (withAccountId first id (setFilters f : Filters O D)) =
      id % 2 ^ 32 := by
  have hsets (rest : Filters O D) :
      findAccountId (setFilters f ++ rest) = findAccountId rest := by
    rw [setFilters]
    induction f generalizing rest with
    | nil => rfl
    | leaf set f ih => exact ih rest
    | group op children f ihc ih =>
      rw [map, tokens, List.cons_append, List.append_assoc]
      exact (ihc _).trans (ih rest)
  cases first with
  | true => rfl
  | false => exact hsets _

/-- The same for the documents of an account. -/
theorem queryAccount_setFilters (h : inStep mask .and true none f = true) {id : ℕ}
    (hid : id % 2 ^ 32 ≠ 2 ^ 32 - 1) (first : Bool)
    (lookup : ℕ → O → Except ε (Option (Finset D))) (missing : ε) :
    queryAccount lookup missing (withAccountId first id (setFilters f)) mask =
      .ok (meaning mask f) := by
  rw [queryAccount, findAccountId_withAccountId]
  simp only [hid, if_false]
  by_cases hf : f = .nil
  · rw [hf, meaning_nil]
    cases first <;> simp [withAccountId, setFilters, map, tokens]
  have hlength : (withAccountId first id (setFilters f : Filters O D)).length > 1 := by
    have hpos := List.length_pos_iff.mpr (setFilters_ne_nil (O := O) hf)
    cases first <;> simpa [withAccountId] using hpos
  have hresolve (set : Finset D) : accountDocuments (lookup (id % 2 ^ 32)) (.documentSet set) =
      .ok (some (some set)) := rfl
  -- the filter of the account is passed over, be it first or last
  have hloop : ∃ state, loop (accountDocuments (lookup (id % 2 ^ 32))) mask
      (withAccountId first id (setFilters f)) false ⟨.and, none⟩ [] = .ok state ∧
        state.bm.getD ∅ = (evaluate mask .and none f).getD ∅ := by
    cases first with
    | true =>
      obtain ⟨state, hloop⟩ := loop_eq_ok hresolve h [] fun _ => rfl
      refine ⟨state, ?_, hloop.2⟩
      rw [withAccountId, if_pos rfl, loop_leaf_none rfl, ← hloop.1, List.append_nil]
    | false =>
      refine loop_eq_ok hresolve h _ fun state => ?_
      cases hex : state.isExhausted with
      | true => rw [loop_skip rfl]; rfl
      | false => rw [loop_leaf_none rfl]; rfl
  obtain ⟨state, hloop, hstate⟩ := hloop
  rw [if_pos hlength, hloop, ← evaluate_inter_mask hf h, ← hstate]

end Results

/-- `SearchQuery::filter` and `Store::query_account` have the documents of the mask for which the
    tree of the filters holds, if the machine keeps in step with it. -/
theorem filter_eq_meaning {filters : Filters O D} (hnested : WellNested filters)
    (hsets : ∀ condition, .leaf condition ∈ filters → ∃ set, Condition.documentSet set = condition)
    (mask : Finset D) :
    (∃ f : Forest (Finset D), setFilters f = filters) ∧
      ∀ f : Forest (Finset D), setFilters f = filters → inStep mask .and true none f = true →
        filter filters mask = meaning mask f ∧
        ∀ (ε : Type) (lookup : ℕ → O → Except ε (Option (Finset D))) (missing : ε) (first : Bool)
          (id : ℕ), id % 2 ^ 32 ≠ 2 ^ 32 - 1 →
            queryAccount lookup missing (withAccountId first id filters) mask =
              .ok (meaning mask f) := by
  constructor
  · obtain ⟨g, rfl⟩ := wellNested_iff.mp hnested
    obtain ⟨f, rfl⟩ := exists_map _ g hsets
    exact ⟨f, rfl⟩
  · rintro f rfl h
    refine ⟨filter_setFilters h, ?_⟩
    intro ε lookup missing first id hid
    exact queryAccount_setFilters h hid first lookup missing

/-- What is flagged, or in a mailbox, given by its messages, and not seen. -/
def flaggedOrUnseen (mailbox : Finset ℕ) : Forest (Finset ℕ) :=
  .group .or
    (.group .and (.leaf mailbox (.group .not (.leaf {1, 2} .nil) (.leaf {1, 3} .nil)))
      (.leaf {2} .nil)) .nil

theorem filter_flaggedOrUnseen :
    filter (setFilters (flaggedOrUnseen {1, 3}) : List (SearchFilter Unit ℕ)) {1, 2, 3} =
      meaning {1, 2, 3} (flaggedOrUnseen {1, 3}) := by
  refine ((filter_eq_meaning ?_ ?_ _).2 _ rfl ?_).1
  · exact wellNested_iff.mpr ⟨_, rfl⟩
  · intro condition hmem
    simp [setFilters, flaggedOrUnseen, map, tokens] at hmem
    rcases hmem with rfl | rfl | rfl | rfl <;> exact ⟨_, rfl⟩
  · decide

/-- In an empty mailbox the end of the negation is taken for that of the conjunction, and what is
    flagged gets lost. -/
theorem filter_loses_flagged :
    filter (setFilters (flaggedOrUnseen ∅) : List (SearchFilter Unit ℕ)) {1, 2, 3} = ∅ ∧
      queryAccount (fun _ _ => .error ()) () (withAccountId true 7
        (setFilters (flaggedOrUnseen ∅) : List (SearchFilter Unit ℕ))) {1, 2, 3} = .ok ∅ ∧
      meaning {1, 2, 3} (flaggedOrUnseen ∅) = {2} := by
  decide +kernel

end Inworkspace.Search
