import Mathlib.Algebra.Order.BigOperators.Group.List
import Mathlib.Algebra.Order.Ring.Nat

/-!
# Worklist traversal of a graph

A loop that pops a node off a stack, skips it if it was seen before, and
otherwise fetches it, adds what it carries to an accumulator and pushes its
successors. The graph is given by a partial function `node`, with the
successors `succ b` of a fetched node `b`; it may have cycles, and fetching a
node may fail.

* `visit_ne_none`: the loop ends after at most as many rounds as the stack has
  nodes and the graph has edges (`bound`);
* `visited_iff_reachable`: if it succeeds, it has accumulated the nodes
  reachable from the stack, each once, and nothing else;
* `reachable_of_visit_error`: if it fails, a reachable node cannot be fetched;
* `reachable_iff_erase`: what is reachable with and without passing through a
  given node.
-/

namespace Inworkspace.Lib.Worklist

open List Option

variable {α β σ : Type} (node : α → Option β) (succ : β → List α)

/-- An edge from a node that can be fetched to each of its successors. -/
def Edge (a a' : α) : Prop :=
  ∃ b, node a = some b ∧ a' ∈ succ b

/-- The nodes reachable from some of the `roots`. -/
def Reachable (roots : List α) (a : α) : Prop :=
  ∃ r ∈ roots, Relation.ReflTransGen (Edge node succ) r a

variable {node succ}

variable {roots : List α} {a a' : α}

theorem Reachable.root (h : a ∈ roots) : Reachable node succ roots a := ⟨a, h, .refl⟩

theorem Reachable.step {b : β} (h : Reachable node succ roots a) (hb : node a = some b)
    (ha' : a' ∈ succ b) : Reachable node succ roots a' :=
  let ⟨r, hr, hra⟩ := h
  ⟨r, hr, hra.tail ⟨b, hb, ha'⟩⟩

/-- What holds of the roots and is kept by edges holds of all reachable nodes. -/
theorem Reachable.induction {P : α → Prop} (hroot : ∀ r ∈ roots, P r)
    (hstep : ∀ a b, P a → node a = some b → ∀ a' ∈ succ b, P a') (h : Reachable node succ roots a) :
    P a := by
  obtain ⟨r, hr, hra⟩ := h
  induction hra with
  | refl => exact hroot r hr
  | tail _ hedge ih =>
    obtain ⟨b, hb, ha'⟩ := hedge
    exact hstep _ b ih hb _ ha'

/-- Fewer roots reach fewer nodes. -/
theorem Reachable.mono {roots' : List α} (hsub : ∀ r ∈ roots, Reachable node succ roots' r)
    (h : Reachable node succ roots a) : Reachable node succ roots' a :=
  h.induction hsub fun _ _ ha hb _ ha' => ha.step hb ha'

theorem Reachable.skip (h : Reachable node succ roots a) : Reachable node succ (a' :: roots) a :=
  h.mono fun _ hr => .root (mem_cons_of_mem _ hr)

/-- The successors of a node are pushed in its place. -/
theorem Reachable.push {b : β} (hb : node a' = some b)
    (h : Reachable node succ ((succ b).reverse ++ roots) a) :
    Reachable node succ (a' :: roots) a := by
  refine h.mono fun r hr => ?_
  rcases mem_append.mp hr with hr | hr
  · exact (Reachable.root mem_cons_self).step hb (mem_reverse.mp hr)
  · exact .root (mem_cons_of_mem _ hr)

/-- The graph in which `a₀` cannot be fetched. -/
def erase [DecidableEq α] (node : α → Option β) (a₀ : α) (a : α) : Option β :=
  if a = a₀ then none else node a

/-- What is reachable is reachable without passing through `a₀`, or from `a₀`. -/
theorem reachable_iff_erase [DecidableEq α] (a₀ : α) :
    Reachable node succ roots a ↔ Reachable (erase node a₀) succ roots a ∨
      (Reachable (erase node a₀) succ roots a₀ ∧ Reachable node succ [a₀] a) := by
  constructor
  · intro h
    refine h.induction (P := fun a => Reachable (erase node a₀) succ roots a ∨
      (Reachable (erase node a₀) succ roots a₀ ∧ Reachable node succ [a₀] a))
      (fun r hr => .inl (.root hr)) fun a b ha hb a' ha' => ?_
    rcases ha with ha | ⟨h₀, ha⟩
    -- where the path comes to `a₀`, the rest is reached from there
    · by_cases heq : a = a₀
      · subst heq
        exact .inr ⟨ha, (Reachable.root (mem_singleton_self a)).step hb ha'⟩
      · exact .inl (ha.step (by rw [erase, if_neg heq, hb]) ha')
    · exact .inr ⟨h₀, ha.step hb ha'⟩
  · have hsub : ∀ a, Reachable (erase node a₀) succ roots a → Reachable node succ roots a := by
      refine fun a h => h.induction (fun r hr => .root hr) fun a b ha hb a' ha' => ?_
      rw [erase] at hb
      split at hb
      · cases hb
      · exact ha.step hb ha'
    rintro (h | ⟨h₀, h⟩)
    · exact hsub a h
    · refine Reachable.mono (fun r hr => ?_) h
      obtain rfl := mem_singleton.mp hr
      exact hsub _ h₀

/-- Graphs whose fetched nodes correspond and have the same successors have the same reachable
    nodes. -/
theorem reachable_congr {β' : Type} {node' : α → Option β'} {succ' : β' → List α}
    (h : ∀ a, (node a).map succ = (node' a).map succ') (a : α) :
    Reachable node succ roots a ↔ Reachable node' succ' roots a := by
  have hedge : Edge node succ = Edge node' succ' := by
    funext a a'
    have ha := h a
    simp only [Edge]
    cases hn : node a <;> cases hn' : node' a <;> simp_all
  rw [Reachable, Reachable, hedge]

section Visit

variable [DecidableEq α]

variable (node succ) in
/-- The loop: `none` out of fuel, or the node that cannot be fetched. The stack has its top at the
    head. -/
def visit (f : σ → β → σ) : ℕ → List α → List α → σ → Option (Except α σ)
  | 0, _, _, _ => none
  | _ + 1, [], _, acc => some (.ok acc)
  | fuel + 1, a :: stack, seen, acc =>
    if a ∈ seen then visit f fuel stack seen acc
    else match node a with
      | none => some (.error a)
      | some b => visit f fuel ((succ b).reverse ++ stack) (a :: seen) (f acc b)

variable {f : σ → β → σ}

variable {fuel : ℕ} {seen : List α} {acc : σ} {nodes : List α} {stack : List α}

/-- The nodes `new` that a successful loop fetches, in order. They are reachable, and with those
    `seen` before contain the stack and their successors. -/
theorem visit_ok {acc' : σ} (h : visit node succ f fuel stack seen acc = some (.ok acc')) :
    ∃ new : List (α × β), acc' = new.foldl (fun s ab => f s ab.2) acc ∧
      (∀ ab ∈ new, node ab.1 = some ab.2 ∧ Reachable node succ stack ab.1) ∧
      (∀ a ∈ stack, a ∈ seen ∨ a ∈ new.map Prod.fst) ∧
      ∀ ab ∈ new, ∀ a' ∈ succ ab.2, a' ∈ seen ∨ a' ∈ new.map Prod.fst := by
  induction fuel generalizing stack seen acc with
  | zero => cases h
  | succ fuel ih =>
    obtain _ | ⟨a, stack⟩ := stack
    · exact ⟨[], (Except.ok.inj (some.inj h)).symm, by simp, by simp, by simp⟩
    rw [visit] at h
    split at h
    · -- seen before: the node adds nothing
      rename_i hseen
      obtain ⟨new, hacc, hreach, hstack, hsucc⟩ := ih h
      refine ⟨new, hacc, fun ab hab => ⟨(hreach ab hab).1, (hreach ab hab).2.skip⟩, ?_, hsucc⟩
      rintro c hc
      rcases mem_cons.mp hc with rfl | hc
      exacts [.inl hseen, hstack c hc]
    · split at h
      · cases h
      rename_i b hb
      obtain ⟨new, hacc, hreach, hstack, hsucc⟩ := ih h
      have hcases : ∀ {c}, c ∈ a :: seen ∨ c ∈ new.map Prod.fst →
          c ∈ seen ∨ c ∈ ((a, b) :: new).map Prod.fst := by
        rintro c (hc | hc)
        · rcases mem_cons.mp hc with rfl | hc
          exacts [.inr mem_cons_self, .inl hc]
        · exact .inr (mem_cons_of_mem _ hc)
      refine ⟨(a, b) :: new, hacc, ?_, ?_, ?_⟩
      · rintro ab hab
        rcases mem_cons.mp hab with rfl | hab
        · exact ⟨hb, .root mem_cons_self⟩
        · exact ⟨(hreach ab hab).1, (hreach ab hab).2.push hb⟩
      · rintro c hc
        rcases mem_cons.mp hc with rfl | hc
        exacts [.inr mem_cons_self, hcases (hstack c (mem_append_right _ hc))]
      · rintro ab hab a' ha'
        rcases mem_cons.mp hab with rfl | hab
        · exact hcases (hstack a' (mem_append_left _ (mem_reverse.mpr ha')))
        · exact hcases (hsucc ab hab a' ha')

/-- A successful loop accumulates exactly the nodes reachable from the stack. -/
theorem visited_iff_reachable {acc' : σ}
    (h : visit node succ f fuel roots [] acc = some (.ok acc')) :
    ∃ new : List (α × β), acc' = new.foldl (fun s ab => f s ab.2) acc ∧
      (∀ ab ∈ new, node ab.1 = some ab.2) ∧
      ∀ a, Reachable node succ roots a ↔ ∃ b, (a, b) ∈ new := by
  obtain ⟨new, hacc, hreach, hstack, hsucc⟩ := visit_ok h
  refine ⟨new, hacc, fun ab hab => (hreach ab hab).1, fun a => ⟨fun hra => ?_, ?_⟩⟩
  · have hmem : a ∈ new.map Prod.fst := by
      refine Reachable.induction (P := (· ∈ new.map Prod.fst)) (fun r hr => ?_)
        (fun c d hc hd c' hc' => ?_) hra
      · exact (hstack r hr).resolve_left not_mem_nil
      · obtain ⟨⟨c, d'⟩, hcd, rfl⟩ := mem_map.mp hc
        rw [(hreach _ hcd).1, some.injEq] at hd
        exact (hsucc _ hcd c' (hd ▸ hc')).resolve_left not_mem_nil
    obtain ⟨⟨a, b⟩, hab, rfl⟩ := mem_map.mp hmem
    exact ⟨b, hab⟩
  · rintro ⟨b, hab⟩
    exact (hreach _ hab).2

/-- A loop that fails has reached a node that cannot be fetched. -/
theorem reachable_of_visit_error {a : α}
    (h : visit node succ f fuel stack seen acc = some (.error a)) :
    Reachable node succ stack a ∧ node a = none := by
  induction fuel generalizing stack seen acc with
  | zero => cases h
  | succ fuel ih =>
    obtain _ | ⟨c, stack⟩ := stack
    · cases h
    rw [visit] at h
    split at h
    · exact (ih h).imp_left .skip
    split at h
    · rename_i hc
      cases h
      exact ⟨.root mem_cons_self, hc⟩
    · rename_i b hb
      exact (ih h).imp_left (.push hb)

/-! ## Termination -/

variable (node succ) in
/-- The number of edges leaving a node. -/
def outdegree (a : α) : ℕ :=
  ((node a).map fun b => (succ b).length).getD 0

variable (node succ) in
/-- The number of edges leaving the `nodes` that were not seen yet. -/
def pending (nodes seen : List α) : ℕ :=
  (nodes.map fun a => if a ∈ seen then 0 else outdegree node succ a).sum

variable (node succ) in
/-- Seeing a node takes its edges out of the pending ones. -/
theorem pending_cons_add_le {a : α} (ha : a ∈ nodes) (hseen : a ∉ seen) :
    pending node succ nodes (a :: seen) + outdegree node succ a ≤ pending node succ nodes seen := by
  have hle : ∀ c, (if c ∈ a :: seen then 0 else outdegree node succ c) ≤
      if c ∈ seen then 0 else outdegree node succ c := by
    intro c
    by_cases hc : c ∈ seen
    · simp [hc]
    · split <;> simp
  induction nodes with
  | nil => exact absurd ha not_mem_nil
  | cons c nodes ih =>
    have hc := hle c
    simp only [pending, map_cons, sum_cons] at ih ⊢
    rcases mem_cons.mp ha with rfl | ha
    · have hsum := sum_le_sum (l := nodes) fun c _ => hle c
      rw [if_pos mem_cons_self, if_neg hseen]
      omega
    · have := ih ha
      omega

/-- If all nodes are among `nodes`, every round takes a node off the stack or an edge out of the
    pending ones. -/
theorem visit_ne_none (hnodes : ∀ a b, node a = some b → a ∈ nodes)
    (hfuel : stack.length + pending node succ nodes seen < fuel) :
    visit node succ f fuel stack seen acc ≠ none := by
  induction fuel generalizing stack seen acc with
  | zero => exact absurd hfuel (Nat.not_lt_zero _)
  | succ fuel ih =>
    obtain _ | ⟨a, stack⟩ := stack
    · exact some_ne_none _
    rw [visit]
    split
    · refine ih ?_
      rw [length_cons] at hfuel
      omega
    · rename_i hseen
      split
      · exact some_ne_none _
      rename_i b hb
      refine ih ?_
      -- the node is new: its edges are on the stack now, and not pending
      have hle := pending_cons_add_le node succ (hnodes a b hb) hseen
      have hdeg : outdegree node succ a = (succ b).length := by simp [outdegree, hb]
      rw [length_cons] at hfuel
      rw [length_append, length_reverse]
      omega

variable (node succ) in
/-- The number of rounds that is always enough. -/
def bound (nodes roots : List α) : ℕ :=
  roots.length + (nodes.map (outdegree node succ)).sum + 1

theorem visit_bound_ne_none (hnodes : ∀ a b, node a = some b → a ∈ nodes) :
    visit node succ f (bound node succ nodes roots) roots [] acc ≠ none := by
  refine visit_ne_none hnodes (Nat.lt_succ_of_le ?_)
  simp [pending]

variable (node succ f) in
/-- The loop run to its end, on a graph whose nodes are among `nodes`. -/
def visitAll (nodes : List α) (hnodes : ∀ a b, node a = some b → a ∈ nodes) (roots : List α)
    (acc : σ) : Except α σ :=
  (visit node succ f (bound node succ nodes roots) roots [] acc).get
    (isSome_iff_ne_none.mpr (visit_bound_ne_none hnodes))

theorem visit_eq_visitAll (hnodes : ∀ a b, node a = some b → a ∈ nodes) :
    visit node succ f (bound node succ nodes roots) roots [] acc =
      some (visitAll node succ f nodes hnodes roots acc) := by
  simp [visitAll]

section VisitAll

variable {hnodes : ∀ a b, node a = some b → a ∈ nodes} {acc' : σ}

/-- A run to the end accumulates exactly the nodes reachable from the roots. -/
theorem visitAll_ok (h : visitAll node succ f nodes hnodes roots acc = .ok acc') :
    ∃ new : List (α × β), acc' = new.foldl (fun s ab => f s ab.2) acc ∧
      (∀ ab ∈ new, node ab.1 = some ab.2) ∧
      ∀ a, Reachable node succ roots a ↔ ∃ b, (a, b) ∈ new :=
  visited_iff_reachable ((visit_eq_visitAll hnodes).trans (congrArg some h))

/-- The loop succeeds exactly when every reachable node can be fetched. -/
theorem exists_visitAll_ok_iff :
    (∃ acc', visitAll node succ f nodes hnodes roots acc = .ok acc') ↔
      ∀ a, Reachable node succ roots a → ∃ b, node a = some b := by
  constructor
  · rintro ⟨acc', h⟩ a hreach
    obtain ⟨new, -, hnode, hnew⟩ := visitAll_ok h
    obtain ⟨b, hab⟩ := (hnew a).mp hreach
    exact ⟨b, hnode _ hab⟩
  · intro h
    cases hall : visitAll node succ f nodes hnodes roots acc with
    | ok acc' => exact ⟨acc', rfl⟩
    | error a =>
      obtain ⟨hreach, ha⟩ :=
        reachable_of_visit_error ((visit_eq_visitAll hnodes).trans (congrArg some hall))
      obtain ⟨b, hb⟩ := h a hreach
      rw [ha] at hb
      cases hb

end VisitAll

end Visit

end Inworkspace.Lib.Worklist
