import Inworkspace.Lib.Loop
import Mathlib.Data.List.Chain

/-!
# The order of creation

The objects that a request creates may refer to each other by their creation ids.
`topological_sort` brings them into an order in which each one comes after those it refers to: a
depth-first search with a stack of iterators, which takes an object over when all it refers to has
been taken over. It knows no visited objects; a cycle is what makes the stack too large.

`topologicalSort_spec`: if no chain of references is longer than the stack, there is an error exactly
when a reference leads out of the request or the references have a cycle, and otherwise the result
has every object once, after all it refers to.
-/

namespace Inworkspace.Jmap

open List

/-- The references of each object that has some, with the order of the `HashMap`. -/
structure Graph where
  keys : List String
  get : String → Option (List String)
  mem_keys : ∀ id, id ∈ keys ↔ (get id).isSome

/-- The object refers to the other one. -/
def Graph.Refers (graph : Graph) (fromId toId : String) : Prop :=
  ∃ toIds, graph.get fromId = some toIds ∧ toId ∈ toIds

/-- "Invalid reference to non-existing object .. from ..", and "Cyclical references are not
    allowed.". -/
inductive SortError where
  | nonExisting (toId fromId : String)
  | cyclical
  deriving DecidableEq

variable {T : Type} (create : List (String × T))

/-- The creation ids of a `VecMap`. -/
def ids : List String := create.map Prod.fst

/-- The objects that are left, and those that have been sorted. -/
structure Sorting (T : Type) where
  create : List (String × T)
  sorted : List (String × T)

/-- How the search is left early: too large a stack, or no object left. -/
inductive Stop (T : Type) where
  | cyclical
  | complete (sorted : List (String × T))

/-- The object is taken over, unless it has been before. -/
def takeOver (id : String) (st : Sorting T) : Except (Stop T) (Sorting T) :=
  match st.create.findIdx? (·.1 = id) with
  | none => .ok st
  | some pos =>
    let create := st.create.eraseIdx pos
    let sorted := st.sorted ++ st.create[pos]?.toList
    if create.isEmpty then .error (.complete sorted) else .ok ⟨create, sorted⟩

/-- The search from an object; the stack may grow by so many iterators. -/
def visit (graph : Graph) : ℕ → Sorting T → String → Except (Stop T) (Sorting T)
  | 0, st, id =>
    match graph.get id with
    | none => takeOver id st
    | some _ => .error .cyclical
  | depth + 1, st, id =>
    match graph.get id with
    | none => takeOver id st
    | some toIds => toIds.foldlM (visit graph depth) st >>= takeOver id

/-- The first reference that leads out of the request. -/
def danglingReference (graph : Graph) : Option (String × String) :=
  graph.keys.findSome? fun fromId =>
    (((graph.get fromId).getD []).find? (· ∉ ids create)).map (·, fromId)

def topologicalSort (graph : Graph) : Except SortError (List (String × T)) :=
  match danglingReference create graph with
  | some (toId, fromId) => .error (.nonExisting toId fromId)
  | none =>
    match graph.keys.foldlM (visit graph 1000) ⟨create, []⟩ with
    | .error .cyclical => .error .cyclical
    | .error (.complete sorted) => .ok sorted
    | .ok st => .ok (st.sorted ++ st.create)

/-- Every object comes after all it refers to. -/
def InOrder (graph : Graph) (sorted : List (String × T)) : Prop :=
  ∀ before entry after, sorted = before ++ entry :: after →
    ∀ toId, graph.Refers entry.1 toId → toId ∈ ids before

/-! ## The search -/

variable {graph : Graph} {create} {sorted : List (String × T)} {entry : String × T} {id : String}

theorem InOrder.append_singleton (h : InOrder graph sorted)
    (hentry : ∀ toId, graph.Refers entry.1 toId → toId ∈ ids sorted) :
    InOrder graph (sorted ++ [entry]) := by
  intro before entry' after heq
  rcases eq_nil_or_concat after with rfl | ⟨after, last, rfl⟩
  · obtain ⟨rfl, hlast⟩ := append_inj' heq rfl
    exact singleton_inj.mp hlast ▸ hentry
  · rw [concat_eq_append, ← cons_append, ← append_assoc] at heq
    exact h before entry' after (append_inj' heq rfl).1

/-- A request with no reference that leads out of it. -/
structure Request (T : Type) where
  graph : Graph
  create : List (String × T)
  nodup : (ids create).Nodup
  closed : ∀ a b, graph.Refers a b → b ∈ ids create

namespace Request

variable {r : Request T} {gone gone' : List String} {st : Sorting T} {C C' : Prop}
  {x : Except (Stop T) (Sorting T)}

/-- Nothing is lost or out of order, no object of a cycle is taken over, and what has been searched
    is gone. -/
structure Kept (r : Request T) (gone : List String) (st : Sorting T) : Prop where
  perm : (st.sorted ++ st.create).Perm r.create
  order : InOrder r.graph st.sorted
  cycles : ∀ id, Relation.TransGen r.graph.Refers id id → id ∈ ids st.create
  gone : ∀ id ∈ gone, id ∉ ids st.create

/-- The search ends normally, with all objects sorted, or with too large a stack. -/
def Ends (r : Request T) (gone : List String) (C : Prop) : Except (Stop T) (Sorting T) → Prop
  | .ok st => r.Kept gone st
  | .error (.complete sorted) => r.Kept [] ⟨[], sorted⟩
  | .error .cyclical => C

/-- A chain of references from the object fills the stack. -/
def Fills (r : Request T) (depth : ℕ) (id : String) : Prop :=
  ∃ chain, (id :: chain).IsChain r.graph.Refers ∧ chain.length = depth ∧
    ∀ id' ∈ id :: chain, (r.graph.get id').isSome

theorem Ends.imp (h : r.Ends gone C x) (hgone : gone' ⊆ gone) (hC : C → C') :
    r.Ends gone' C' x := by
  rcases x with (_ | sorted) | st
  · exact hC h
  · exact h
  · exact { h with gone := fun id hid => h.gone id (hgone hid) }

theorem Ends.bind {f : Sorting T → Except (Stop T) (Sorting T)} (h : r.Ends gone C x)
    (hf : ∀ st, r.Kept gone st → r.Ends gone' C (f st)) : r.Ends gone' C (x >>= f) := by
  rcases x with (_ | sorted) | st
  · exact h
  · exact h
  · exact hf st h

theorem ends_foldlM {f : Sorting T → String → Except (Stop T) (Sorting T)} {l : List String}
    (hf : ∀ gone st, r.Kept gone st → ∀ id ∈ l, r.Ends (id :: gone) C (f st id))
    (h : r.Kept gone st) : r.Ends (l ++ gone) C (l.foldlM f st) := by
  induction l generalizing gone st with
  | nil => exact h
  | cons id l ih =>
    refine (hf gone st h id mem_cons_self).bind fun st' hkept => ?_
    exact (ih (fun gone st hst id hid => hf gone st hst id (mem_cons_of_mem _ hid)) hkept).imp
      perm_middle.symm.subset (·)

/-- An object is taken over when all it refers to is gone. -/
theorem ends_takeOver (h : r.Kept gone st) (hid : ∀ toId, r.graph.Refers id toId → toId ∈ gone) :
    r.Ends (id :: gone) C (takeOver id st) := by
  rw [takeOver]
  cases hpos : st.create.findIdx? (·.1 = id) with
  | none =>
    refine { h with gone := forall_mem_cons.mpr ⟨fun hmem => ?_, h.gone⟩ }
    obtain ⟨entry, hentry, rfl⟩ := mem_map.mp hmem
    simpa using findIdx?_eq_none_iff.mp hpos entry hentry
  | some pos =>
    obtain ⟨hlt, hid', -⟩ := findIdx?_eq_some_iff_getElem.mp hpos
    have hperm := getElem_cons_eraseIdx_perm hlt
    obtain rfl := of_decide_eq_true hid'
    dsimp only
    rw [getElem?_eq_getElem hlt]
    generalize st.create[pos] = entry, st.create.eraseIdx pos = rest at hperm hid ⊢
    have hids : (ids (entry :: rest)).Perm (ids st.create) := hperm.map _
    have hall := (hperm.append_left st.sorted).trans h.perm
    have hkept : r.Kept (entry.1 :: gone) ⟨rest, st.sorted ++ [entry]⟩ := by
      refine ⟨?_, h.order.append_singleton fun toId hto => ?_, fun id hcycle => ?_,
        forall_mem_cons.mpr ⟨?_, fun id hid hmem => ?_⟩⟩
      · rwa [append_assoc]
      · have hmem := (h.perm.map Prod.fst).mem_iff.mpr (r.closed _ _ hto)
        rw [map_append, mem_append] at hmem
        exact hmem.resolve_right (h.gone toId (hid toId hto))
      · refine (mem_cons.mp (hids.mem_iff.mpr (h.cycles id hcycle))).resolve_left ?_
        rintro rfl
        -- the next object of the cycle is left as well
        obtain ⟨next, hnext, hback⟩ := Relation.TransGen.head'_iff.mp hcycle
        exact h.gone next (hid next hnext) (h.cycles next (.tail' hback hnext))
      · have hnodup := (hall.map Prod.fst).nodup_iff.mpr r.nodup
        rw [map_append, nodup_append] at hnodup
        exact (nodup_cons.mp hnodup.2.1).1
      · exact h.gone id hid (hids.subset (mem_cons_of_mem _ hmem))
    split_ifs with hempty
    · rw [isEmpty_iff.mp hempty] at hkept
      exact { hkept with gone := nofun }
    · exact hkept

/-- The search from an object takes it over, or the stack gets too large. -/
theorem ends_visit (depth : ℕ) (h : r.Kept gone st) (id : String) :
    r.Ends (id :: gone) (r.Fills depth id) (visit r.graph depth st id) := by
  induction depth generalizing gone st id with
  | zero =>
    rw [visit]
    split
    · exact ends_takeOver h fun toId ⟨_, hsome, _⟩ => by simp [*] at hsome
    · exact ⟨[], .singleton _, rfl, by simp [*]⟩
  | succ depth ih =>
    rw [visit]
    split
    · exact ends_takeOver h fun toId ⟨_, hsome, _⟩ => by simp [*] at hsome
    · rename_i toIds hget
      -- a chain that fills the stack from a reference is one longer from here
      have hloop : r.Ends (toIds ++ gone) (r.Fills (depth + 1) id)
          (toIds.foldlM (visit r.graph depth) st) := by
        refine ends_foldlM (fun gone st hst toId hto => (ih hst toId).imp (Subset.refl _) ?_) h
        rintro ⟨chain, hchain, hlength, hsome⟩
        exact ⟨toId :: chain, hchain.cons_cons ⟨toIds, hget, hto⟩,
          by rw [length_cons, hlength], forall_mem_cons.mpr ⟨by simp [hget], hsome⟩⟩
      refine (hloop.bind fun st' hkept => ends_takeOver hkept ?_).imp
        (cons_subset_cons _ (subset_append_right _ _)) (·)
      rintro toId ⟨toIds', hget', hto⟩
      cases hget.symm.trans hget'
      exact mem_append_left _ hto

/-- Objects that refer to nothing can come last. -/
theorem Kept.valid (h : r.Kept gone st) (hleft : ∀ id ∈ ids st.create, r.graph.get id = none) :
    (∀ id, ¬Relation.TransGen r.graph.Refers id id) ∧
      (st.sorted ++ st.create).Perm r.create ∧ InOrder r.graph (st.sorted ++ st.create) := by
  have hnone {id toId : String} (hid : id ∈ ids st.create) : ¬r.graph.Refers id toId := by
    rintro ⟨toIds, hget, -⟩
    cases (hleft id hid).symm.trans hget
  refine ⟨fun id hcycle => ?_, h.perm, ?_⟩
  · obtain ⟨next, hnext, -⟩ := Relation.TransGen.head'_iff.mp hcycle
    exact hnone (h.cycles id hcycle) hnext
  · have horder (rest sorted : List (String × T)) (hrest : rest ⊆ st.create)
        (hsorted : InOrder r.graph sorted) : InOrder r.graph (sorted ++ rest) := by
      induction rest generalizing sorted with
      | nil => rwa [append_nil]
      | cons entry rest ih =>
        rw [append_cons]
        refine ih _ (cons_subset.mp hrest).2 (hsorted.append_singleton fun toId hto => ?_)
        exact absurd hto (hnone (mem_map_of_mem (cons_subset.mp hrest).1))
    exact horder st.create st.sorted (Subset.refl _) h.order

end Request

/-- A reference to something that is not created is found. -/
theorem danglingReference_isSome_iff :
    (danglingReference create graph).isSome ↔ ∃ a b, graph.Refers a b ∧ b ∉ ids create := by
  simp only [danglingReference, findSome?_isSome_iff, Option.isSome_map, find?_isSome,
    decide_eq_true_eq, graph.mem_keys]
  constructor
  · rintro ⟨a, ha, b, hb, hnot⟩
    obtain ⟨toIds, hget⟩ := Option.isSome_iff_exists.mp ha
    rw [hget] at hb
    exact ⟨a, b, ⟨toIds, hget, hb⟩, hnot⟩
  · rintro ⟨a, b, ⟨toIds, hget, hb⟩, hnot⟩
    exact ⟨a, by rw [hget]; rfl, b, by rwa [hget], hnot⟩

/-- If no chain of references is longer than the stack, there is an error exactly when a reference
    leads out of the request or there is a cycle, and otherwise every object comes once, after all
    it refers to. -/
theorem topologicalSort_spec (graph : Graph) (create : List (String × T))
    (hcreate : (ids create).Nodup)
    (hchains : ∀ chain : List String, chain.IsChain graph.Refers → chain.Nodup →
      (∀ id ∈ chain, (graph.get id).isSome) → chain.length ≤ 1000) :
    ((∃ e, topologicalSort create graph = .error e) ↔
      (∃ a b, graph.Refers a b ∧ b ∉ ids create) ∨
        ∃ id, Relation.TransGen graph.Refers id id) ∧
    ∀ sorted, topologicalSort create graph = .ok sorted →
      sorted.Perm create ∧ InOrder graph sorted := by
  rw [← danglingReference_isSome_iff, topologicalSort]
  rcases hdangling : danglingReference create graph with _ | ⟨toId, fromId⟩
  · let r : Request T := ⟨graph, create, hcreate, fun a b h => by
      by_contra hb
      simpa [hdangling] using danglingReference_isSome_iff.mpr ⟨a, b, h, hb⟩⟩
    have hkept : r.Kept [] ⟨create, []⟩ := by
      refine ⟨.refl _, fun before entry after heq => by simp at heq, fun id hcycle => ?_, nofun⟩
      obtain ⟨last, -, hlast⟩ := Relation.TransGen.tail'_iff.mp hcycle
      exact r.closed last id hlast
    have hends : r.Ends (graph.keys ++ []) (∃ id, r.Fills 1000 id)
        (graph.keys.foldlM (visit graph 1000) ⟨create, []⟩) :=
      Request.ends_foldlM (fun gone st hst id _ =>
        (Request.ends_visit 1000 hst id).imp (Subset.refl _) (⟨id, ·⟩)) hkept
    generalize graph.keys.foldlM (visit graph 1000) ⟨create, []⟩ = result at hends
    rcases result with (_ | sorted) | st
    · obtain ⟨id, chain, hchain, hlength, hsome⟩ := hends
      have hcycle : ∃ id, Relation.TransGen graph.Refers id id := by
        by_contra! hno
        -- otherwise no object is in the chain twice
        have hpairs := (hchain.imp fun _ _ => Relation.TransGen.single).pairwise
        have hle := hchains _ hchain (hpairs.imp fun {a b} hab => ?_) hsome
        · rw [length_cons] at hle
          omega
        · rintro rfl
          exact hno a hab
      simp [hcycle]
    · simpa using hends.valid (by simp [ids])
    · simpa using hends.valid fun id hid => by
        rw [← Option.not_isSome_iff_eq_none, ← graph.mem_keys]
        exact fun hmem => hends.gone id (mem_append_left _ hmem) hid
  · simp

/-- A mailbox and one inside of it, which comes first in the request. -/
def childAndParent : Graph where
  keys := ["child"]
  get id := if id = "child" then some ["parent"] else none
  mem_keys id := by split <;> simp [*]

theorem topologicalSort_childAndParent :
    InOrder childAndParent [("parent", ()), ("child", ())] := by
  refine ((topologicalSort_spec childAndParent [("child", ()), ("parent", ())] (by decide)
    fun chain _ hnodup hsome => ?_).2 _ rfl).2
  have hsub : chain ⊆ childAndParent.keys := fun id hid =>
    (childAndParent.mem_keys id).mpr (hsome id hid)
  exact (hnodup.subperm hsub).length_le.trans (by decide)

end Inworkspace.Jmap
