import Mathlib.Data.List.Basic

/-!
# Trees of conditions, written as lists

Conditions that are combined by `and`, `or` and `not`, each of any number of conditions:
`and` means all of them, `or` one of them and `not` none of them. A tree of them is written
as a list of tokens, where a group is opened by its operator and closed by a token of
its own (`Forest.tokens`); the lists that are written so are those in which every token
that closes a group has one that opens it (`wellNested_iff`), and their values are found in
one pass (`evalTokens_tokens`).

A forest is a list of trees, as a type with two kinds of `cons`: so everything about trees
is an induction with two cases.
-/

namespace Inworkspace.Lib.FilterTree

open List

/-- The operators. -/
inductive Op where
  | and
  | or
  | not
  deriving DecidableEq

/-- The conditions that an operator combines. -/
def Op.apply : Op → List Bool → Bool
  | .and, values => values.all id
  | .or, values => values.any id
  | .not, values => !values.any id

/-- The value of one condition under an operator. -/
def Op.single : Op → Bool → Bool
  | .and, value | .or, value => value
  | .not, value => !value

/-- The value of some conditions and of the others. -/
def Op.join : Op → Bool → Bool → Bool
  | .or, first, others => first || others
  | .and, first, others | .not, first, others => first && others

variable (op : Op) (value : Bool)

theorem Op.apply_cons (values : List Bool) :
    op.apply (value :: values) = op.join (op.single value) (op.apply values) := by
  cases op with
  | and | or => rfl
  | not => exact Bool.not_or value _

theorem Op.join_assoc (a b c : Bool) : op.join (op.join a b) c = op.join a (op.join b c) := by
  cases op <;> simp [join, Bool.and_assoc, Bool.or_assoc]

theorem Op.join_comm (a b : Bool) : op.join a b = op.join b a := by
  cases op <;> simp [join, Bool.and_comm, Bool.or_comm]

theorem Op.join_left_comm (a b c : Bool) : op.join a (op.join b c) = op.join b (op.join a c) := by
  rw [← op.join_assoc, op.join_comm a, op.join_assoc]

theorem Op.apply_append (values values' : List Bool) :
    op.apply (values ++ values') = op.join (op.apply values) (op.apply values') := by
  cases op <;> simp [apply, join]

theorem Op.apply_singleton : op.apply [value] = op.single value := by
  cases op <;> simp [apply, single]

theorem Op.single_injective : Function.Injective op.single := by
  cases op with
  | and | or => exact fun _ _ h => h
  | not => exact fun _ _ h => Bool.not_inj h

/-- The tokens of a list of conditions. -/
inductive Token (L : Type) where
  | leaf (l : L)
  | group (op : Op)
  | close
  deriving DecidableEq

variable {L M : Type}

/-- A token that closes a group. -/
def Token.isClose : Token L → Bool
  | .close => true
  | _ => false

/-- A list of trees. -/
inductive Forest (L : Type) where
  | nil
  | leaf (l : L) (rest : Forest L)
  | group (op : Op) (children rest : Forest L)
  deriving DecidableEq

namespace Forest

/-- The trees of one list and then those of another. -/
def append : Forest L → Forest L → Forest L
  | nil, other => other
  | leaf l rest, other => leaf l (rest.append other)
  | group op children rest, other => group op children (rest.append other)

instance : Append (Forest L) := ⟨append⟩

def tokens : Forest L → List (Token L)
  | nil => []
  | leaf l rest => .leaf l :: rest.tokens
  | group op children rest => .group op :: (children.tokens ++ .close :: rest.tokens)

/-- The forest with other leaves. -/
def map (g : L → M) : Forest L → Forest M
  | nil => nil
  | leaf l rest => leaf (g l) (rest.map g)
  | group op children rest => group op (children.map g) (rest.map g)

/-- How many trees there are. -/
def length : Forest L → ℕ
  | nil => 0
  | leaf _ rest | group _ _ rest => rest.length + 1

def values (v : L → Bool) : Forest L → List Bool
  | nil => []
  | leaf l rest => v l :: rest.values v
  | group op children rest => op.apply (children.values v) :: rest.values v

/-- The value of the trees under an operator. -/
def holds (v : L → Bool) (op : Op) (f : Forest L) : Bool := op.apply (f.values v)

section Append

variable (f g : Forest L)

@[simp]
theorem leaf_append (l : L) : leaf l f ++ g = leaf l (f ++ g) := rfl

@[simp]
theorem group_append (op : Op) (children : Forest L) :
    group op children f ++ g = group op children (f ++ g) := rfl

@[simp]
theorem tokens_append : (f ++ g).tokens = f.tokens ++ g.tokens := by
  induction f with
  | nil => rfl
  | leaf l rest ih => rw [leaf_append, tokens, tokens, ih, cons_append]
  | group op children rest _ ih =>
    rw [group_append, tokens, tokens, ih, cons_append, append_assoc, cons_append]

theorem map_append (g' : L → M) : (f ++ g).map g' = f.map g' ++ g.map g' := by
  induction f with
  | nil => rfl
  | leaf l rest ih => rw [leaf_append, map, map, ih, leaf_append]
  | group op children rest _ ih => rw [group_append, map, map, ih, group_append]

@[simp]
theorem values_append (v : L → Bool) : (f ++ g).values v = f.values v ++ g.values v := by
  induction f with
  | nil => rfl
  | leaf l rest ih => rw [leaf_append, values, values, ih, cons_append]
  | group op children rest _ ih => rw [group_append, values, values, ih, cons_append]

end Append

theorem length_append (f g : Forest L) : (f ++ g).length = f.length + g.length := by
  induction f with
  | nil => exact (Nat.zero_add _).symm
  | leaf l rest ih | group op children rest _ ih =>
    simp only [leaf_append, group_append, length]
    omega

variable (g : L → M) (f : Forest L)

theorem length_map : (f.map g).length = f.length := by
  induction f with
  | nil => rfl
  | leaf l rest ih | group op children rest _ ih => rw [map, length, ih, length]

theorem length_tokens_map : (f.map g).tokens.length = f.tokens.length := by
  induction f with
  | nil => rfl
  | leaf l rest ih => rw [map, tokens, tokens, length_cons, length_cons, ih]
  | group op children rest ihc ih => simp [map, tokens, ihc, ih]

theorem values_map (v : M → Bool) (f : Forest L) : (f.map g).values v = f.values (v ∘ g) := by
  induction f with
  | nil => rfl
  | leaf l rest ih => rw [map, values, values, ih, Function.comp]
  | group op children rest ihc ih => rw [map, values, values, ihc, ih]

/-- A forest whose leaves are of one kind is one of what they are made of. -/
theorem exists_map (f : Forest M) (h : ∀ m, .leaf m ∈ f.tokens → ∃ l, g l = m) :
    ∃ f' : Forest L, f'.map g = f := by
  induction f with
  | nil => exact ⟨nil, rfl⟩
  | leaf m rest ih =>
    obtain ⟨l, rfl⟩ := h m mem_cons_self
    obtain ⟨f', rfl⟩ := ih fun m' hm' => h m' (mem_cons_of_mem _ hm')
    exact ⟨leaf l f', rfl⟩
  | group op children rest ihc ih =>
    have hmem (m : M) (hm : .leaf m ∈ children.tokens ∨ .leaf m ∈ rest.tokens) : ∃ l, g l = m := by
      refine h m ?_
      rw [tokens]
      rcases hm with hm | hm <;> simp [hm]
    obtain ⟨children', rfl⟩ := ihc fun m hm => hmem m (.inl hm)
    obtain ⟨rest', rfl⟩ := ih fun m hm => hmem m (.inr hm)
    exact ⟨group op children' rest', rfl⟩

section Holds

variable (v : L → Bool) (op : Op)

theorem holds_leaf (l : L) (f : Forest L) :
    (leaf l f).holds v op = op.join (op.single (v l)) (f.holds v op) :=
  op.apply_cons _ _

theorem holds_group (op' : Op) (children f : Forest L) :
    (group op' children f).holds v op = op.join (op.single (children.holds v op')) (f.holds v op) :=
  op.apply_cons _ _

theorem holds_append (f g : Forest L) :
    (f ++ g).holds v op = op.join (f.holds v op) (g.holds v op) := by
  rw [holds, values_append, op.apply_append, holds, holds]

theorem length_values : (f.values v).length = f.length := by
  induction f with
  | nil => rfl
  | leaf l rest ih | group op children rest _ ih => rw [values, length_cons, ih, length]

theorem length_le_length_tokens : f.length ≤ f.tokens.length := by
  induction f with
  | nil => exact Nat.le_refl 0
  | leaf l rest ih => exact Nat.succ_le_succ ih
  | group op children rest _ ih =>
    rw [length, tokens, List.length_cons, List.length_append, List.length_cons]
    omega

/-- No more conditions change nothing. -/
theorem join_holds_nil (value : Bool) : op.join value ((nil : Forest L).holds v op) = value := by
  cases op <;> simp [holds, values, Op.apply, Op.join]

end Holds

end Forest

/-! ## Lists that are well nested -/

/-- Every token that closes a group has one that opens it, `depth` groups being open. -/
def closes : ℕ → List (Token L) → Bool
  | depth, [] => depth == 0
  | depth, .leaf _ :: tokens => closes depth tokens
  | depth, .group _ :: tokens => closes (depth + 1) tokens
  | 0, .close :: _ => false
  | depth + 1, .close :: tokens => closes depth tokens

/-- Every token that closes a group has one that opens it, and vice versa. -/
def WellNested (tokens : List (Token L)) : Prop := closes 0 tokens = true

/-- The tokens of a forest, and of more behind it, each in a group further out. -/
def unwind : Forest L → List (Forest L) → List (Token L)
  | f, [] => f.tokens
  | f, outer :: rest => f.tokens ++ .close :: unwind outer rest

variable {tokens : List (Token L)}

/-- Tokens that close `depth` groups more than they open are those of forests in these groups. -/
theorem exists_unwind {depth : ℕ} (h : closes depth tokens = true) :
    ∃ f outer, outer.length = depth ∧ unwind f outer = tokens := by
  induction tokens generalizing depth with
  | nil =>
    refine ⟨.nil, [], ?_, rfl⟩
    exact (beq_iff_eq.mp h).symm
  | cons token tokens ih =>
    rcases token with l | op | _
    · obtain ⟨f, outer, hlen, rfl⟩ := ih h
      refine ⟨.leaf l f, outer, hlen, ?_⟩
      cases outer <;> rfl
    · -- the group that is opened takes the trees up to where it is closed
      obtain ⟨f, outer, hlen, rfl⟩ := ih h
      obtain ⟨g, outer, rfl⟩ := exists_cons_of_length_eq_add_one hlen
      refine ⟨.group op f g, outer, Nat.succ.inj hlen, ?_⟩
      cases outer <;> simp [unwind, Forest.tokens]
    · rcases depth with _ | depth
      · cases h
      · obtain ⟨f, outer, hlen, rfl⟩ := ih h
        exact ⟨.nil, f :: outer, by rw [length_cons, hlen], rfl⟩

theorem closes_tokens (f : Forest L) (depth : ℕ) (rest : List (Token L)) :
    closes depth (f.tokens ++ rest) = closes depth rest := by
  induction f generalizing depth rest with
  | nil => rfl
  | leaf l f ih => exact ih depth rest
  | group op children f ihc ih =>
    rw [Forest.tokens, cons_append, append_assoc, closes, ihc, cons_append, closes, ih]

/-- The lists that are well nested are those of forests. -/
theorem wellNested_iff :
    WellNested tokens ↔ ∃ f : Forest L, f.tokens = tokens := by
  constructor
  · intro h
    obtain ⟨f, outer, hlen, rfl⟩ := exists_unwind h
    obtain rfl := length_eq_zero_iff.mp hlen
    exact ⟨f, rfl⟩
  · rintro ⟨f, rfl⟩
    have h := closes_tokens f 0 []
    rwa [append_nil] at h

/-! ## The value of a list -/

/-- The values of the trees in some tokens, after `values`, in groups that have been opened with an
    operator after some values. -/
def evalTokens (v : L → Bool) : List (Token L) → List Bool → List (Op × List Bool) → List Bool
  | [], values, _ => values
  | .leaf l :: tokens, values, outer => evalTokens v tokens (values ++ [v l]) outer
  | .group op :: tokens, values, outer => evalTokens v tokens [] ((op, values) :: outer)
  | .close :: tokens, values, (op, before) :: outer =>
    evalTokens v tokens (before ++ [op.apply values]) outer
  | .close :: _, values, [] => values

/-- The trees of a forest have their values, whatever follows. -/
theorem evalTokens_tokens (v : L → Bool) (f : Forest L) (rest : List (Token L))
    (values : List Bool) (outer : List (Op × List Bool)) :
    evalTokens v (f.tokens ++ rest) values outer =
      evalTokens v rest (values ++ f.values v) outer := by
  induction f generalizing rest values outer with
  | nil => rw [Forest.values, append_nil, Forest.tokens, nil_append]
  | leaf l f ih =>
    rw [Forest.tokens, cons_append, evalTokens, ih, append_assoc, singleton_append, Forest.values]
  | group op children f ihc ih =>
    rw [Forest.tokens, cons_append, append_assoc, evalTokens, ihc, cons_append,
      evalTokens, nil_append, ih, append_assoc, singleton_append, Forest.values]

end Inworkspace.Lib.FilterTree
