import Inworkspace.Imap.Search

/-!
# What search criteria mean

The grammar of search programs: a key, `NOT` with one key, `OR` with two, and a parenthesis with
several, all of which have to be met. `parse_filters` turns a program into filters tree by tree
(`SearchProgram.emit`): the items of a program change the innermost frame only, by the trees of the
program (`foldlM_step_items`).

* A parenthesis is dissolved into what is around it. Under a `NOT` that is wrong if it has several
  keys (`SearchProgram.isSound`): with no such `NOT` the filters mean what the program means
  (`holds_emit`), and with one there are values of the keys for which they do not
  (`exists_holds_emit_ne`).
* What has been opened and not closed is not looked at in the end. So what is rejected is what is
  stuck on the way (`parseItems_eq_error_iff`).
-/

namespace Inworkspace.Imap

open Lib.FilterTree Imap.Frame List Nat

variable {L M : Type} {many : Bool}

/-- The search keys of the grammar, and programs of one or more of them. -/
inductive SearchProgram (L : Type) : (many : Bool) → Type where
  | key (l : L) : SearchProgram L false
  | not (s : SearchProgram L false) : SearchProgram L false
  | or (s t : SearchProgram L false) : SearchProgram L false
  | group (p : SearchProgram L true) : SearchProgram L false
  | one (s : SearchProgram L false) : SearchProgram L true
  | more (s : SearchProgram L false) (p : SearchProgram L true) : SearchProgram L true

namespace SearchProgram

/-- How a program is written. -/
def items {many : Bool} : SearchProgram L many → List (Item L)
  | key l => [.key l]
  | not s => .nest .not :: s.items
  | or s t => .nest .or :: (s.items ++ t.items)
  | group p => .nest .and :: (p.items ++ [.close])
  | one s => s.items
  | more s p => s.items ++ p.items

/-- How deep operators and parentheses are nested. -/
def depth {many : Bool} : SearchProgram L many → ℕ
  | key _ => 0
  | not s => s.depth + 1
  | or s t => max s.depth t.depth + 1
  | group p => p.depth + 1
  | one s => s.depth
  | more s p => max s.depth p.depth

/-- What a program means. -/
def holds (v : L → Bool) {many : Bool} : SearchProgram L many → Bool
  | key l => v l
  | not s => !s.holds v
  | or s t => s.holds v || t.holds v
  | group p => p.holds v
  | one s => s.holds v
  | more s p => s.holds v && p.holds v

/-- The program with other conditions. -/
def map (g : L → M) {many : Bool} : SearchProgram L many → SearchProgram M many
  | key l => key (g l)
  | not s => not (s.map g)
  | or s t => or (s.map g) (t.map g)
  | group p => group (p.map g)
  | one s => one (s.map g)
  | more s p => more (s.map g) (p.map g)

/-- How many keys there are, not counting parentheses. -/
def conjuncts {many : Bool} : SearchProgram L many → ℕ
  | key _ | not _ | or _ _ => 1
  | group p => p.conjuncts
  | one s => s.conjuncts
  | more s p => s.conjuncts + p.conjuncts

/-- No `NOT` is followed by a parenthesis with several keys. -/
def isSound {many : Bool} : SearchProgram L many → Bool
  | key _ => true
  | not s => s.conjuncts = 1 && s.isSound
  | or s t => s.isSound && t.isSound
  | group p => p.isSound
  | one s => s.isSound
  | more s p => s.isSound && p.isSound

/-- The filters that a program becomes in a frame of the operator. -/
def emit {many : Bool} (op : Op) : SearchProgram L many → Forest L
  | key l => .leaf l .nil
  | not s => .group .not (s.emit .not) .nil
  | or s t => .group .or (s.emit .or ++ t.emit .or) .nil
  | group p =>
    if op ≠ .or ∨ (p.emit .and).length = 1 then p.emit .and else .group .and (p.emit .and) .nil
  | one s => s.emit .and
  | more s p => s.emit .and ++ p.emit .and

section Map

variable (g : L → M) (s : SearchProgram L many)

theorem conjuncts_map : (s.map g).conjuncts = s.conjuncts := by
  induction s with
  | key l | not s | or s t => rfl
  | group s ih | one s ih => exact ih
  | more s p ihs ihp => rw [map, conjuncts, ihs, ihp, conjuncts]

theorem isSound_map : (s.map g).isSound = s.isSound := by
  induction s with
  | key l => rfl
  | not s ih => rw [map, isSound, ih, conjuncts_map, isSound]
  | group s ih | one s ih => exact ih
  | or s t ihs iht | more s t ihs iht => rw [map, isSound, ihs, iht, isSound]

theorem depth_map : (s.map g).depth = s.depth := by
  induction s with
  | key l => rfl
  | not s ih | group s ih | one s ih => rw [map, depth, ih, depth]
  | or s t ihs iht | more s t ihs iht => rw [map, depth, ihs, iht, depth]

theorem holds_map (v : M → Bool) : (s.map g).holds v = s.holds (v ∘ g) := by
  induction s with
  | key l => rfl
  | not s ih | group s ih | one s ih => rw [map, holds, ih, holds]
  | or s t ihs iht | more s t ihs iht => rw [map, holds, ihs, iht, holds]

theorem emit_map (op : Op) : (s.map g).emit op = (s.emit op).map g := by
  induction s generalizing op with
  | key l => rfl
  | not s ih => rw [map, emit, ih, emit, Forest.map, Forest.map]
  | or s t ihs iht => rw [map, emit, ihs, iht, emit, Forest.map, Forest.map_append, Forest.map]
  | group p ih =>
    rw [map, emit, ih, emit, Forest.length_map]
    split_ifs with h
    · rfl
    · rw [Forest.map, Forest.map]
  | one s ih => exact ih .and
  | more s p ihs ihp => rw [map, emit, ihs, ihp, emit, Forest.map_append]

end Map

/-! ## Programs are parsed -/

section Emit

variable (s : SearchProgram L many)

theorem emit_not : s.emit .not = s.emit .and := by
  cases s <;> simp [emit]

theorem length_emit : (s.emit .and).length = s.conjuncts := by
  induction s with
  | key l | not s | or s t => rfl
  | group p ih => rwa [emit]
  | one s ih => exact ih
  | more s p ihs ihp => rw [emit, Forest.length_append, ihs, ihp, conjuncts]

theorem length_emit_or (s : SearchProgram L false) : (s.emit .or).length = 1 := by
  cases s with
  | key l | not s | or s t => rfl
  | group p =>
    rw [emit]
    split_ifs with h
    · exact h.resolve_left fun hne => hne rfl
    · rfl

end Emit

end SearchProgram

namespace ParseState

/-- Where the loop goes on after filters have been added to a frame. -/
def resume (current : Frame L) (stack : List (Frame L)) : ParseState L :=
  if current.isOpen then ⟨current, stack⟩ else unwind current stack

variable {current : Frame L} {stack : List (Frame L)}

theorem resume_of_isOpen (h : current.isOpen) (stack : List (Frame L)) :
    resume current stack = ⟨current, stack⟩ := if_pos h

theorem resume_cons (h : ¬ current.isOpen) (prev : Frame L) (stack : List (Frame L)) :
    resume current (prev :: stack) = resume (current.mergeInto prev) stack := if_neg h

/-- Every operator still lacks an operand, and the outermost frame is that of the command. -/
def IsProper : Frame L → List (Frame L) → Prop
  | current, [] => current.operator = .and
  | current, prev :: stack =>
    (current.operator = .or → current.filtersLen ≤ 1) ∧
      (current.operator = .not → current.filtersLen = 0) ∧ IsProper prev stack

section

variable (h : IsProper current stack)

include h

theorem IsProper.filtersLen (hop : current.operator ≠ .and) :
    stack ≠ [] ∧ (current.operator = .or → current.filtersLen ≤ 1) ∧
      (current.operator = .not → current.filtersLen = 0) := by
  rcases stack with _ | ⟨prev, stack⟩
  · exact absurd h hop
  · exact ⟨cons_ne_nil _ _, h.1, h.2.1⟩

/-- After a key the loop goes on where the frame is complete. -/
theorem step_key (l : L) :
    step ⟨current, stack⟩ (.key l) = .ok (resume (current.add [.leaf l] 1) stack) := by
  rw [step, settle, resume]
  have hadd : (current.add [.leaf l] 1).operator = current.operator ∧
      (current.add [.leaf l] 1).filtersLen = current.filtersLen + 1 := ⟨rfl, rfl⟩
  cases hop : current.operator with
  | and => simp [isOpen, hadd, hop]
  | or =>
    obtain ⟨hne, hle, -⟩ := h.filtersLen (by simp [hop])
    rcases le_one_iff_eq_zero_or_eq_one.mp (hle hop) with hlen | hlen <;>
      simp [isOpen, hadd, hop, hne, hlen]
  | not =>
    obtain ⟨hne, -, hzero⟩ := h.filtersLen (by simp [hop])
    simp [isOpen, hadd, hop, hne, hzero hop]

end

theorem step_nest (h : stack.length ≤ 10) (op : Op) :
    step ⟨current, stack⟩ (.nest op) = .ok ⟨opened op, current :: stack⟩ :=
  if_neg (not_lt.mpr h)

theorem step_close (current prev : Frame L) (stack : List (Frame L)) :
    step ⟨current, prev :: stack⟩ .close = .ok (resume (current.mergeInto prev) stack) := rfl

theorem isProper_opened (h : IsProper current stack) (op : Op) :
    IsProper (opened op) (current :: stack) :=
  ⟨fun _ => zero_le 1, fun _ => rfl, h⟩

end ParseState

namespace Frame

/-- The frame with the trees of a forest. -/
def addForest (self : Frame L) (f : Forest L) : Frame L := self.add f.tokens f.length

@[simp]
theorem opened_operator (op : Op) : (opened op : Frame L).operator = op := rfl

@[simp]
theorem opened_filtersLen (op : Op) : (opened op : Frame L).filtersLen = 0 := rfl

variable (self : Frame L)

@[simp]
theorem addForest_operator (f : Forest L) : (self.addForest f).operator = self.operator := rfl

@[simp]
theorem addForest_filtersLen (f : Forest L) :
    (self.addForest f).filtersLen = self.filtersLen + f.length := rfl

theorem addForest_append (f g : Forest L) :
    self.addForest (f ++ g) = (self.addForest f).addForest g := by
  simp [addForest, add, Forest.length_append, add_assoc]

end Frame

namespace SearchProgram

open ParseState

/-- The items of a program become its filters in the innermost frame. -/
theorem foldlM_step_items (s : SearchProgram L many) {current : Frame L} {stack : List (Frame L)}
    (h : IsProper current stack) (hdepth : stack.length + s.depth ≤ 11)
    (hmany : many = true → current.operator = .and) (rest : List (Item L)) :
    (s.items ++ rest).foldlM step ⟨current, stack⟩ =
      rest.foldlM step (resume (current.addForest (s.emit current.operator)) stack) := by
  induction s generalizing current stack rest with
  | key l =>
    rw [items, singleton_append, foldlM_cons, step_key h]
    rfl
  | not s ih =>
    rw [depth] at hdepth
    rw [items, cons_append, foldlM_cons, step_nest (by omega)]
    refine (ih (isProper_opened h .not) (by rw [length_cons]; omega) nofun rest).trans ?_
    rfl
  | or s t ihs iht =>
    rw [depth] at hdepth
    rw [items, cons_append, append_assoc, foldlM_cons, step_nest (by omega)]
    refine (ihs (isProper_opened h .or) (by rw [length_cons]; omega) nofun _).trans ?_
    -- the first operand leaves the frame open for the second one
    have hlen : ((opened .or).addForest (s.emit .or)).filtersLen = 1 := by
      rw [addForest_filtersLen, length_emit_or, opened_filtersLen]
    have hproper : IsProper ((opened .or).addForest (s.emit .or)) (current :: stack) :=
      ⟨fun _ => le_of_eq hlen, nofun, h⟩
    rw [resume_of_isOpen (.inr ⟨rfl, hlen ▸ Nat.one_lt_two⟩)]
    refine (iht hproper (by rw [length_cons]; omega) nofun rest).trans ?_
    have htwo : (s.emit .or ++ t.emit .or).length = 2 := by
      rw [Forest.length_append, length_emit_or, length_emit_or]
    -- with both its operands, the operator is handed over to the frame around it
    have hopen : ¬ ((opened .or).addForest (s.emit .or ++ t.emit .or)).isOpen := by
      rintro (h | ⟨-, hlt⟩)
      · cases h
      · rw [addForest_filtersLen, htwo] at hlt
        exact absurd hlt (Nat.lt_irrefl 2)
    rw [addForest_operator, opened_operator, ← addForest_append, resume_cons hopen, mergeInto,
      if_neg (by exact fun h => nomatch h.1)]
    simp [opened, addForest, add, emit, Forest.tokens, Forest.length]
  | group p ih =>
    rw [depth] at hdepth
    rw [items, cons_append, append_assoc, foldlM_cons, step_nest (by omega)]
    refine (ih (isProper_opened h .and) (by rw [length_cons]; omega) (fun _ => rfl) _).trans ?_
    rw [opened_operator, resume_of_isOpen (.inl rfl), singleton_append,
      foldlM_cons, step_close, mergeInto, emit]
    -- a parenthesis becomes a group only if it has several keys in an `Or`
    simp only [addForest_operator, addForest_filtersLen, opened, true_and, zero_add]
    split_ifs <;> simp [addForest, add, Forest.tokens, Forest.length] <;> rfl
  | one s ih => rw [items, emit, ih h hdepth nofun, hmany rfl]
  | more s p ihs ihp =>
    rw [depth] at hdepth
    have hand := hmany rfl
    have hopen : (current.addForest (s.emit .and)).isOpen := .inl hand
    rw [items, append_assoc, ihs h (by omega) nofun, hand, resume_of_isOpen hopen]
    have hproper : IsProper (current.addForest (s.emit .and)) stack := by
      cases stack with
      | nil => exact hand
      | cons prev stack => exact ⟨by simp [hand], by simp [hand], h.2.2⟩
    refine (ihp hproper (by omega) (fun _ => hand) rest).trans ?_
    rw [addForest_operator, hand, emit, addForest_append]

/-- A program within the depth is parsed. -/
theorem parseItems_items (p : SearchProgram L true) (h : p.depth ≤ 11) :
    parseItems p.items = .ok (p.emit .and).tokens := by
  have hfold := foldlM_step_items p (show IsProper (opened .and) [] from rfl)
    (by simpa using h) (fun _ => rfl) []
  rw [append_nil] at hfold
  rw [parseItems, hfold]
  rfl

/-! ## What they mean -/

section Meaning

variable {v : L → Bool} {op : Op}

/-- One tree means the same whatever the operator. -/
theorem holds_of_length_eq_one {f : Forest L} (h : f.length = 1) :
    f.holds v op = op.single (f.holds v .and) := by
  obtain ⟨value, hvalue⟩ : ∃ value, f.values v = [value] :=
    length_eq_one_iff.mp ((f.length_values v).trans h)
  rw [Forest.holds, Forest.holds, hvalue, Op.apply_singleton, Op.apply_singleton]
  rfl

theorem holds_group_nil (op' : Op) (f : Forest L) :
    (Forest.group op' f .nil).holds v op = op.single (f.holds v op') := by
  rw [Forest.holds_group, Forest.join_holds_nil]

/-- A parenthesis means the keys in it, but for several of them after a `NOT`. -/
theorem holds_emit_group {p : SearchProgram L true} (h : op = .not → p.conjuncts = 1) :
    ((group p).emit op).holds v op = op.single ((p.emit .and).holds v .and) := by
  rw [emit]
  split_ifs with hflat
  · cases op with
    | and => rfl
    | or => exact holds_of_length_eq_one (hflat.resolve_left fun hne => hne rfl)
    | not => exact holds_of_length_eq_one ((length_emit p).trans (h rfl))
  · exact holds_group_nil .and _

/-- The filters mean what the program means if no `NOT` is followed by a parenthesis with several
    keys. -/
theorem holds_emit {s : SearchProgram L many} (hs : s.isSound = true)
    (hnot : op = .not → s.conjuncts = 1) (hmany : many = true → op = .and) :
    (s.emit op).holds v op = op.single (s.holds v) := by
  induction s generalizing op with
  | key l => exact op.apply_singleton (v l)
  | not s ih =>
    obtain ⟨hone, hs⟩ := Bool.and_eq_true_iff.mp hs
    rw [emit, holds_group_nil, ih hs (fun _ => of_decide_eq_true hone) nofun]
    rfl
  | or s t ihs iht =>
    obtain ⟨hs, ht⟩ := Bool.and_eq_true_iff.mp hs
    have hs : (s.emit .or).holds v .or = s.holds v := ihs hs nofun nofun
    have ht : (t.emit .or).holds v .or = t.holds v := iht ht nofun nofun
    rw [emit, holds_group_nil, Forest.holds_append, hs, ht]
    rfl
  | group p ih =>
    have hp : (p.emit .and).holds v .and = p.holds v := ih hs nofun fun _ => rfl
    rw [holds_emit_group hnot, hp]
    rfl
  | one s ih =>
    obtain rfl := hmany rfl
    exact ih hs nofun nofun
  | more s p ihs ihp =>
    obtain ⟨hs, hp⟩ := Bool.and_eq_true_iff.mp hs
    obtain rfl := hmany rfl
    have hs : (s.emit .and).holds v .and = s.holds v := ihs hs nofun nofun
    have hp : (p.emit .and).holds v .and = p.holds v := ihp hp nofun fun _ => rfl
    rw [emit, Forest.holds_append, hs, hp]
    rfl

end Meaning

/-! ## What others mean -/

section Unsound

/-- The program with values of its conditions such that all in it that is not under a `NOT` has the
    value. -/
def uniform {many : Bool} : Bool → SearchProgram Unit many → SearchProgram Bool many
  | value, key _ => key value
  | value, not s => not (s.uniform !value)
  | value, or s t => or (s.uniform value) (t.uniform value)
  | value, group p => group (p.uniform value)
  | value, one s => one (s.uniform value)
  | value, more s p => more (s.uniform value) (p.uniform value)

/-- The program without its conditions. -/
def shape {many : Bool} (s : SearchProgram L many) : SearchProgram Unit many := s.map fun _ => ()

theorem shape_map (g : L → M) (s : SearchProgram L many) : (s.map g).shape = s.shape := by
  rw [shape, shape]
  induction s with
  | key l => rfl
  | not s ih | group s ih | one s ih => rw [map, map, ih, map]
  | or s t ihs iht | more s t ihs iht => rw [map, map, ihs, iht, map]

variable (value : Bool) (s : SearchProgram Unit many)

theorem shape_uniform : (s.uniform value).shape = s := by
  rw [shape]
  induction s generalizing value with
  | key l => rfl
  | not s ih | group s ih | one s ih => rw [uniform, map, ih]
  | or s t ihs iht | more s t ihs iht => rw [uniform, map, ihs, iht]

theorem holds_uniform : (s.uniform value).holds id = value := by
  induction s generalizing value with
  | key l => rfl
  | not s ih => rw [uniform, holds, ih, Bool.not_not]
  | group s ih | one s ih => rw [uniform, holds, ih]
  | or s t ihs iht => rw [uniform, holds, ihs, iht, Bool.or_self]
  | more s t ihs iht => rw [uniform, holds, ihs, iht, Bool.and_self]

/-- The filters have the same value, whatever operator joins them. -/
theorem holds_emit_uniform (op op' : Op) :
    ((s.uniform value).emit op).holds id op' = op'.single value := by
  induction s generalizing value op op' with
  | key l => exact op'.apply_singleton value
  | not s ih =>
    rw [uniform, emit, holds_group_nil, ih]
    exact congrArg _ (Bool.not_not value)
  | or s t ihs iht =>
    rw [uniform, emit, holds_group_nil, Forest.holds_append, ihs, iht]
    exact congrArg _ (Bool.or_self value)
  | group p ih =>
    rw [uniform, emit]
    split_ifs with hflat
    · exact ih value .and op'
    · rw [holds_group_nil, ih]
      rfl
  | one s ih => exact ih value .and op'
  | more s p ihs ihp =>
    rw [uniform, emit, Forest.holds_append, ihs, ihp]
    cases op' <;> cases value <;> rfl

/-- Several keys can be false together although one of them is true. -/
theorem exists_mixed (h : s.conjuncts ≠ 1) :
    ∃ q : SearchProgram Bool many, q.shape = s ∧ q.holds id = false ∧
      (q.emit .not).holds id .not = false := by
  induction s with
  | key l | not s | or s t => exact absurd rfl h
  | group p ih =>
    obtain ⟨q, rfl, hq⟩ := ih h
    refine ⟨group q, rfl, hq.1, ?_⟩
    rw [emit, ← emit_not]
    exact hq.2
  | one s ih =>
    obtain ⟨q, rfl, hq⟩ := ih h
    refine ⟨one q, rfl, hq.1, ?_⟩
    rw [emit, ← emit_not]
    exact hq.2
  | more s p =>
    refine ⟨more (s.uniform true) (p.uniform false),
      congrArg₂ more (shape_uniform _ s) (shape_uniform _ p), ?_, ?_⟩
    · rw [holds, holds_uniform, holds_uniform]
      rfl
    · rw [emit, Forest.holds_append, holds_emit_uniform]
      rfl

/-- Otherwise the filters do not mean what the program means for some values of its conditions. -/
theorem exists_holds_emit_ne {s : SearchProgram Unit many} (hs : s.isSound = false) :
    ∃ q : SearchProgram Bool many, q.shape = s ∧ ∀ op, (op = .not → s.conjuncts = 1) →
      (many = true → op = .and) → (q.emit op).holds id op ≠ op.single (q.holds id) := by
  induction s with
  | key l => cases hs
  | not s ih =>
    -- the fault is below this `NOT`, or it is this one, with several keys
    by_cases hone : s.conjuncts = 1
    · rw [isSound, decide_eq_true hone] at hs
      obtain ⟨q, rfl, hq⟩ := ih hs
      refine ⟨not q, rfl, fun op _ _ => ?_⟩
      rw [emit, holds_group_nil]
      exact fun heq => hq .not (fun _ => hone) (by simp) (op.single_injective heq)
    · obtain ⟨q, rfl, hholds, hemit⟩ := exists_mixed s hone
      refine ⟨not q, rfl, fun op _ _ => ?_⟩
      rw [emit, holds_group_nil, hemit, holds, hholds]
      exact fun heq => Bool.false_ne_true (op.single_injective heq)
  | or s t ihs iht =>
    have hor {q r : SearchProgram Bool false}
        (hne : ((q.emit .or).holds id .or || (r.emit .or).holds id .or) ≠
          (q.holds id || r.holds id)) (op : Op) :
        ((or q r).emit op).holds id op ≠ op.single ((or q r).holds id) := by
      rw [emit, holds_group_nil, Forest.holds_append]
      exact fun heq => hne (op.single_injective heq)
    -- the other side is made false, so that the faulty one decides
    rcases Bool.and_eq_false_iff.mp hs with hs | ht
    · obtain ⟨q, rfl, hq⟩ := ihs hs
      refine ⟨or q (t.uniform false), congrArg (or _) (shape_uniform _ t), fun op _ _ => hor ?_ op⟩
      simpa [holds_emit_uniform, holds_uniform, Op.single] using hq .or (by simp) (by simp)
    · obtain ⟨q, rfl, hq⟩ := iht ht
      refine ⟨or (s.uniform false) q, congrArg (or · _) (shape_uniform _ s),
        fun op _ _ => hor ?_ op⟩
      simpa [holds_emit_uniform, holds_uniform, Op.single] using hq .or (by simp) (by simp)
  | group p ih =>
    obtain ⟨q, rfl, hq⟩ := ih hs
    refine ⟨group q, rfl, fun op hop _ => ?_⟩
    rw [holds_emit_group fun h => (conjuncts_map _ q).symm.trans (hop h)]
    exact fun heq => hq .and (by simp) (fun _ => rfl) (op.single_injective heq)
  | one s ih =>
    obtain ⟨q, rfl, hq⟩ := ih hs
    refine ⟨one q, rfl, fun op _ hop => ?_⟩
    obtain rfl := hop rfl
    exact hq .and (by simp) (by simp)
  | more s p ihs ihp =>
    -- here the others are made true
    rcases Bool.and_eq_false_iff.mp hs with hs | hp
    · obtain ⟨q, rfl, hq⟩ := ihs hs
      refine ⟨more q (p.uniform true), congrArg (more _) (shape_uniform _ p), fun op _ hop => ?_⟩
      obtain rfl := hop rfl
      rw [emit, Forest.holds_append]
      simpa [holds_emit_uniform, holds, holds_uniform, Op.join, Op.single] using
        hq .and (by simp) (by simp)
    · obtain ⟨q, rfl, hq⟩ := ihp hp
      refine ⟨more (s.uniform true) q, congrArg (more · _) (shape_uniform _ s), fun op _ hop => ?_⟩
      obtain rfl := hop rfl
      rw [emit, Forest.holds_append]
      simpa [holds_emit_uniform, holds, holds_uniform, Op.join, Op.single] using
        hq .and (by simp) fun _ => rfl

end Unsound

end SearchProgram

/-! ## What is rejected -/

/-- What has been opened: a parenthesis, or an operator that lacks one or two operands. -/
inductive Slot where
  | group
  | one
  | two
  deriving DecidableEq

namespace Slot

/-- What an item opens. -/
def ofOp : Op → Slot
  | .and => .group
  | .or => .two
  | .not => .one

/-- What is open after an operand. -/
def fill : List Slot → List Slot
  | [] => []
  | .group :: slots => .group :: slots
  | .two :: slots => .one :: slots
  | .one :: slots => fill slots

/-- What is open after an item, or nothing if it cannot follow. A closing parenthesis may stand for
    operands that an operator lacks. -/
def next (slots : List Slot) {L : Type} : Item L → Option (List Slot)
  | .key _ => some (fill slots)
  | .nest op => if slots.length > 10 then none else some (ofOp op :: slots)
  | .close =>
    match slots with
    | [] => none
    | _ :: slots => some (fill slots)
  | .fail _ => none

/-- What is open after items. -/
def nexts (slots : List Slot) {L : Type} (items : List (Item L)) : Option (List Slot) :=
  items.foldlM (fun open_ item => next open_ item) slots

end Slot

/-- Some item cannot be read, closes nothing, or is nested too deep. -/
def Stuck (items : List (Item L)) : Prop := Slot.nexts [] items = none

namespace ParseState

/-- What a frame lacks. -/
def slot (frame : Frame L) : Slot :=
  match frame.operator with
  | .and => .group
  | .or => if frame.filtersLen = 0 then .two else .one
  | .not => .one

/-- What is open in a state. -/
def slots : Frame L → List (Frame L) → List Slot
  | _, [] => []
  | current, prev :: stack => slot current :: slots prev stack

theorem length_slots (current : Frame L) (stack : List (Frame L)) :
    (slots current stack).length = stack.length := by
  induction stack generalizing current with
  | nil => rfl
  | cons prev stack ih => rw [slots, length_cons, ih, length_cons]

/-- A frame hands over one operand to an `Or`. -/
theorem exists_mergeInto_eq (current prev : Frame L) :
    ∃ filters count, current.mergeInto prev = prev.add filters count ∧
      (prev.operator = .or → count = 1) := by
  rw [mergeInto]
  split_ifs with h
  · refine ⟨_, _, rfl, fun hor => ?_⟩
    exact h.2.resolve_left fun hne => hne hor
  · exact ⟨_, _, rfl, fun _ => rfl⟩

/-- The state in which the loop goes on is proper, and this is what is open in it. -/
def Shows (state : ParseState L) (open_ : List Slot) : Prop :=
  slots state.current state.stack = open_ ∧ IsProper state.current state.stack

variable {current : Frame L} {stack : List (Frame L)}

/-- An operand fills what is open, be it a key or the keys of a parenthesis. -/
theorem shows_resume (h : IsProper current stack) (filters : List (Filter L)) {count : ℕ}
    (hcount : current.operator = .or → count = 1) :
    Shows (resume (current.add filters count) stack) (Slot.fill (slots current stack)) := by
  induction stack generalizing current filters count with
  | nil =>
    have hopen : (current.add filters count).isOpen := .inl h
    rw [resume_of_isOpen hopen]
    exact ⟨rfl, h⟩
  | cons prev stack ih =>
    obtain ⟨hor, hnot, hprev⟩ := h
    -- a frame that is complete is one operand of the frame around it
    have hnext (hopen : ¬ (current.add filters count).isOpen) :
        Shows (resume (current.add filters count) (prev :: stack)) (Slot.fill (slots prev stack)) := by
      obtain ⟨filters', count', heq, hcount'⟩ :=
        exists_mergeInto_eq (current.add filters count) prev
      rw [resume_cons hopen, heq]
      exact ih hprev filters' hcount'
    cases hop : current.operator with
    | and =>
      have hopen : (current.add filters count).isOpen := .inl hop
      rw [resume_of_isOpen hopen]
      refine ⟨?_, ?_, ?_, hprev⟩
      · simp [slots, slot, add, hop, Slot.fill]
      · simp [add, hop]
      · simp [add, hop]
    | not =>
      rw [slots, slot, hop]
      exact hnext (by simp [isOpen, add, hop])
    | or =>
      obtain rfl := hcount hop
      rcases le_one_iff_eq_zero_or_eq_one.mp (hor hop) with hlen | hlen
      · have hopen : (current.add filters 1).isOpen := .inr ⟨hop, by simp [add, hlen]⟩
        rw [resume_of_isOpen hopen]
        refine ⟨?_, ?_, ?_, hprev⟩
        · simp [slots, slot, add, hop, hlen, Slot.fill]
        · simp [add, hlen]
        · simp [add, hop]
      · rw [slots, slot, hop]
        simp only [hlen]
        exact hnext (by simp [isOpen, add, hop, hlen])

/-- A round fails where nothing can follow, and otherwise keeps track of what is open. -/
theorem step_shows (h : IsProper current stack) (item : Item L) :
    (∃ message, step ⟨current, stack⟩ item = .error message) ∧
        Slot.next (slots current stack) item = none ∨
      ∃ state open_, step ⟨current, stack⟩ item = .ok state ∧
        Slot.next (slots current stack) item = some open_ ∧ Shows state open_ := by
  cases item with
  | key l =>
    refine .inr ⟨_, _, step_key h l, rfl, ?_⟩
    exact shows_resume h _ fun _ => rfl
  | nest op =>
    rw [step, Slot.next, length_slots]
    by_cases hlt : stack.length > 10
    · exact .inl ⟨⟨_, if_pos hlt⟩, if_pos hlt⟩
    · refine .inr ⟨_, _, if_neg hlt, if_neg hlt, ?_, isProper_opened h op⟩
      cases op <;> rfl
  | close =>
    cases stack with
    | nil => exact .inl ⟨⟨_, rfl⟩, rfl⟩
    | cons prev stack =>
      obtain ⟨filters, count, heq, hcount⟩ := exists_mergeInto_eq current prev
      refine .inr ⟨_, _, step_close current prev stack, rfl, ?_⟩
      rw [heq]
      exact shows_resume h.2.2 filters hcount
  | fail message => exact .inl ⟨⟨message, rfl⟩, rfl⟩

/-- So does the loop as a whole. -/
theorem foldlM_step_shows {items : List (Item L)} (h : IsProper current stack) :
    (∃ message, items.foldlM step ⟨current, stack⟩ = .error message) ∧
        Slot.nexts (slots current stack) items = none ∨
      ∃ state open_, items.foldlM step ⟨current, stack⟩ = .ok state ∧
        Slot.nexts (slots current stack) items = some open_ ∧ Shows state open_ := by
  induction items generalizing current stack with
  | nil => exact .inr ⟨⟨current, stack⟩, _, rfl, rfl, rfl, h⟩
  | cons item items ih =>
    rw [foldlM_cons, Slot.nexts, foldlM_cons]
    rcases step_shows h item with ⟨⟨message, herr⟩, hnone⟩ | ⟨state, open_, hok, hsome, rfl, hproper⟩
    · rw [herr, hnone]
      exact .inl ⟨⟨message, rfl⟩, rfl⟩
    · rw [hok, hsome]
      exact ih hproper

end ParseState

theorem isProper_opened_and : ParseState.IsProper (opened .and : Frame L) [] := rfl

/-- `parse_filters` rejects what is stuck, and nothing else. -/
theorem parseItems_eq_error_iff (items : List (Item L)) :
    (∃ message, parseItems items = .error message) ↔ Stuck items := by
  rw [Stuck, parseItems]
  rcases ParseState.foldlM_step_shows isProper_opened_and with
    ⟨⟨message, herr⟩, hnone⟩ | ⟨state, open_, hok, hsome, -⟩
  · rw [herr]
    exact iff_of_true ⟨message, rfl⟩ hnone
  · rw [hok]
    refine iff_of_false nofun fun hnone => ?_
    cases hsome.symm.trans hnone

theorem SearchProgram.depth_le_length_items (s : SearchProgram L many) :
    s.depth ≤ s.items.length := by
  induction s with
  | key l => exact zero_le _
  | not s ih | group s ih | one s ih =>
    simp only [depth, items, length_cons, length_append]
    omega
  | or s t ihs iht | more s t ihs iht =>
    simp only [depth, items, length_cons, length_append]
    omega

/-- After a complete program nothing is open. -/
theorem SearchProgram.nexts_items {p : SearchProgram L true} (h : p.depth ≤ 11) :
    Slot.nexts [] p.items = some [] := by
  have hfold := foldlM_step_items p isProper_opened_and (by simpa using h) (fun _ => rfl) []
  rw [append_nil] at hfold
  rcases ParseState.foldlM_step_shows isProper_opened_and with
    ⟨⟨message, herr⟩, -⟩ | ⟨state, open_, hok, hsome, rfl, -⟩
  · cases hfold.symm.trans herr
  · obtain rfl := Except.ok.inj (hok.symm.trans hfold)
    exact hsome

/-! ## Commands -/

section Commands

variable {F S : Type} (parsers : ArgumentParsers F S) (decoder : Option (List UInt8 → String))

/-- The tokens are parsed to filters that mean what the program means. -/
def Denotes (tokens : List Token) (p : SearchProgram (Key F S) true) : Prop :=
  ∃ f : Forest (Key F S), parseFilters parsers decoder tokens = .ok f.tokens ∧
    ∀ v, f.holds v .and = p.holds v

/-- Two conditions, by their values. -/
def seenOrFlagged : Bool → Key F S
  | true => .seen
  | false => .flagged

/-- How a program over these is written. -/
def SearchProgram.tokens {many : Bool} : SearchProgram Bool many → List Token
  | key value => [.argument (asBytes (if value then "SEEN" else "FLAGGED"))]
  | not s => .argument (asBytes "NOT") :: s.tokens
  | or s t => .argument (asBytes "OR") :: (s.tokens ++ t.tokens)
  | group p => .parenthesisOpen :: (p.tokens ++ [.parenthesisClose])
  | one s => s.tokens
  | more s p => s.tokens ++ p.tokens

theorem items_cons {token : Token} {item : Item (Key F S)}
    (h : ∀ tokens, readItem parsers decoder token tokens = .ok (item, tokens))
    (tokens : List Token) :
    items parsers decoder (token :: tokens) 0 = item :: items parsers decoder tokens 0 := by
  rw [items, h]
  simp

/-- Such a program is read back. -/
theorem items_tokens (s : SearchProgram Bool many) (rest : List Token) :
    items parsers decoder (s.tokens ++ rest) 0 =
      (s.map seenOrFlagged).items ++ items parsers decoder rest 0 := by
  induction s generalizing rest with
  | key value =>
    cases value with
    | true => exact items_cons parsers decoder (fun _ => rfl) rest
    | false => exact items_cons parsers decoder (fun _ => rfl) rest
  | not s ih =>
    refine (items_cons parsers decoder (fun _ => rfl) (s.tokens ++ rest)).trans ?_
    rw [ih]
    rfl
  | or s t ihs iht =>
    refine (items_cons parsers decoder (fun _ => rfl) (s.tokens ++ t.tokens ++ rest)).trans ?_
    rw [append_assoc, ihs, iht, ← append_assoc]
    rfl
  | group p ih =>
    have hopen (tokens : List Token) :
        readItem parsers decoder .parenthesisOpen tokens = .ok (.nest .and, tokens) := rfl
    have hclose (tokens : List Token) :
        readItem parsers decoder .parenthesisClose tokens = .ok (.close, tokens) := rfl
    rw [SearchProgram.tokens, cons_append, items_cons parsers decoder hopen,
      append_assoc, ih, singleton_append, items_cons parsers decoder hclose,
      append_cons]
    rfl
  | one s ih => exact ih rest
  | more s p ihs ihp =>
    rw [SearchProgram.tokens, append_assoc, ihs, ihp, ← append_assoc]
    rfl

/-- What filters mean depends on their tokens only. -/
theorem holds_eq_of_tokens_eq {f g : Forest L} (h : f.tokens = g.tokens) (v : L → Bool) (op : Op) :
    f.holds v op = g.holds v op := by
  have heval (f : Forest L) : evalTokens v f.tokens [] [] = f.values v := by
    have heval := evalTokens_tokens v f [] [] []
    rwa [append_nil] at heval
  rw [Forest.holds, ← heval, h, heval, Forest.holds]

/-- A program within the depth keeps its meaning, whatever its conditions, if and only if no `NOT`
    is followed by a parenthesis with several keys. -/
theorem forall_denotes_iff {p : SearchProgram Unit true} (hp : p.depth ≤ 11) :
    (∀ tokens (q : SearchProgram (Key F S) true), items parsers decoder tokens 0 = q.items →
      q.shape = p → Denotes parsers decoder tokens q) ↔ p.isSound = true := by
  constructor
  · intro h
    by_contra hsound
    obtain ⟨q, rfl, hq⟩ := SearchProgram.exists_holds_emit_ne (Bool.eq_false_of_not_eq_true hsound)
    have hitems := items_tokens parsers decoder q []
    rw [append_nil, items, append_nil] at hitems
    obtain ⟨f, hparse, hf⟩ := h _ _ hitems (q.shape_map _)
    rw [SearchProgram.shape, SearchProgram.depth_map] at hp
    rw [parseFilters, hitems, SearchProgram.parseItems_items _ (by rwa [SearchProgram.depth_map]),
      SearchProgram.emit_map] at hparse
    -- a message that has been seen and is not flagged
    classical
    let v : Key F S → Bool := fun key => decide (key = .seen)
    have hv : v ∘ seenOrFlagged = id := by
      funext value
      cases value <;> simp [v, seenOrFlagged]
    have hholds := holds_eq_of_tokens_eq (Except.ok.inj hparse) v .and
    rw [hf v, SearchProgram.holds_map, Forest.holds, Forest.values_map, hv] at hholds
    exact hq .and (by simp) (fun _ => rfl) hholds
  · rintro hsound tokens q hitems rfl
    rw [SearchProgram.shape, SearchProgram.depth_map] at hp
    rw [SearchProgram.shape, SearchProgram.isSound_map] at hsound
    refine ⟨q.emit .and, ?_, fun v => SearchProgram.holds_emit hsound (by simp) fun _ => rfl⟩
    rw [parseFilters, hitems, SearchProgram.parseItems_items q hp]

/-- Search criteria keep their meaning if and only if no `NOT` is followed by a parenthesis with
    several keys. What is not a program is rejected if and only if it cannot be read, closes nothing
    or is nested too deep. -/
theorem parseFilters_searchProgram :
    (∀ p : SearchProgram Unit true, p.depth ≤ 11 →
      ((∀ tokens (q : SearchProgram (Key F S) true), items parsers decoder tokens 0 = q.items →
        q.shape = p → Denotes parsers decoder tokens q) ↔ p.isSound = true)) ∧
    ∀ tokens,
      ((¬ ∃ q : SearchProgram (Key F S) true, items parsers decoder tokens 0 = q.items) →
          ∃ message, parseFilters parsers decoder tokens = .error message) ↔
        (∃ q : SearchProgram (Key F S) true, items parsers decoder tokens 0 = q.items) ∨
          Stuck (items parsers decoder tokens 0) := by
  refine ⟨fun p hp => forall_denotes_iff parsers decoder hp, fun tokens => ?_⟩
  rw [parseFilters, parseItems_eq_error_iff, ← or_iff_not_imp_left]

end Commands

/-- Parsers that read nothing. -/
def noParsers : ArgumentParsers Unit Unit :=
  ⟨fun _ => .error "", fun _ _ => .error "", fun _ => .error "", fun _ => .error ""⟩

/-- `OR (SEEN FLAGGED) NOT SEEN`. -/
def seenAndFlaggedOrNot : SearchProgram Bool true :=
  .one (.or (.group (.more (.key true) (.one (.key false)))) (.not (.key true)))

theorem denotes_seenAndFlaggedOrNot :
    Denotes noParsers none seenAndFlaggedOrNot.tokens (seenAndFlaggedOrNot.map seenOrFlagged) := by
  have hitems := items_tokens noParsers none seenAndFlaggedOrNot []
  refine ((parseFilters_searchProgram noParsers none).1 seenAndFlaggedOrNot.shape ?_).mpr ?_ _ _
    hitems (seenAndFlaggedOrNot.shape_map _)
  · decide
  · decide

/-- `NOT (SEEN FLAGGED)`. -/
def notSeenAndFlagged : SearchProgram Bool true :=
  .one (.not (.group (.more (.key true) (.one (.key false)))))

/-- `NOT (SEEN FLAGGED)` does not find a message that is seen and not flagged, and `OR SEEN` is
    taken for `SEEN`. -/
theorem notSeenAndFlagged_misread :
    items noParsers none notSeenAndFlagged.tokens 0 = (notSeenAndFlagged.map seenOrFlagged).items ∧
      parseFilters noParsers none notSeenAndFlagged.tokens =
        .ok [.group .not, .leaf .seen, .leaf .flagged, .close] ∧
      Op.and.apply (evalTokens (· = Key.seen)
        [.group .not, .leaf (.seen : Key Unit Unit), .leaf .flagged, .close] [] []) = false ∧
      (notSeenAndFlagged.map seenOrFlagged).holds (· = (Key.seen : Key Unit Unit)) = true ∧
      (¬ ∃ q : SearchProgram (Key Unit Unit) true,
        items noParsers none [.argument (asBytes "OR"), .argument (asBytes "SEEN")] 0 = q.items) ∧
      parseFilters noParsers none [.argument (asBytes "OR"), .argument (asBytes "SEEN")] =
        .ok [.leaf .seen] := by
  refine ⟨?_, ?_, by decide, by decide, ?_, ?_⟩
  · decide +kernel
  · rfl
  · rintro ⟨q, hq⟩
    have hdepth := q.depth_le_length_items
    rw [← hq] at hdepth
    have hnexts := SearchProgram.nexts_items (hdepth.trans (by decide))
    rw [← hq] at hnexts
    cases hnexts
  · rfl

end Inworkspace.Imap
