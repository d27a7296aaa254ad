import Inworkspace.Lib.Loop
import Inworkspace.Write.Backends
import Inworkspace.Write.BatchBuilder

/-!
# Commit points

The slices of a batch are written one by one, until a write fails (`commitBatch`), and a backend
starts each of them without an account and a collection. So the builder writes both again behind a
commit point.

The account that it writes is its current one, and before a slice ends the logs are
written, account by account, each of which becomes the current one. Operations behind
the commit point then land in the last account that has changed, and not in the one that the
caller has set, unless they are the same or the caller sets it anew. This is all that
goes wrong (`commitBatch_slices`): the slices have all operations in their order, and the
collection is that of the caller. A write fails where an account is set that has not changed while
another one has.
-/

namespace Inworkspace.Write

open Lib BatchBuilder KeyedList

variable {C : Type} (context : Context)

/-! ## Where operations land -/

/-- An operation, and the account and the collection it is executed in. -/
structure Placement (C : Type) where
  accountId : UInt32
  collection : UInt8
  operation : Operation C

/-- The operations on values where a backend executes them, if it executes them all. -/
def placed (context : Context) : List (Operation C) → List (Placement C)
  | [] => []
  | op :: ops =>
    if op.isValue then ⟨context.accountId, context.collection, op⟩ :: placed (context.next op) ops
    else placed (context.next op) ops

section Executed

variable {S : Type} [ValueClass C] (xxh3 : Bytes → UInt64) (backend : Backend S)

/-- The operations on values of a slice that are executed, up to one that fails, where the loop
    ends, and the error. -/
def Executor.trace (hasChanges : Bool) :
    Executor S → List (Operation C) → List (Placement C) × Executor S × Option Error
  | self, [] => ([], self, none)
  | self, op :: ops =>
    match self.operation xxh3 backend hasChanges op with
    | .error error => ([], self, some error)
    | .ok next =>
      let (placements, rest) := trace hasChanges next ops
      (if op.isValue then ⟨self.context.accountId, self.context.collection, op⟩ :: placements
        else placements, rest)

/-- `Server::commit_batch`, up to the notifications: the operations on values that are executed, and
    the error. The changed accounts are those of the whole batch. -/
def commitBatch (changes : List UInt32) :
    S → List (List (Operation C)) → List (Placement C) × Option Error
  | _, [] => ([], none)
  | store, slice :: slices =>
    match Executor.steps (Executor.assignChangeId backend) (.start store) changes with
    | (_, some error) => ([], some error)
    | (self, none) =>
      match self.trace xxh3 backend (!changes.isEmpty) slice with
      | (placements, _, some error) => (placements, some error)
      | (placements, self, none) =>
        let (rest, error) := commitBatch changes self.store slices
        (placements ++ rest, error)

end Executed

/-- The placement of an operation; account or collection may be missing. -/
def place (account : Option UInt32) (collection : Option UInt8) (op : Operation C) : Placement C :=
  ⟨account.getD Context.start.accountId, collection.getD Context.start.collection, op⟩

/-- The operations on values as issued, in the account and collection that the caller has set
    last. -/
def issued [ValueClass C] (account : Option UInt32) (collection : Option UInt8) :
    List (Call C) → List (Placement C)
  | [] => []
  | .withAccountId accountId :: calls => issued (some accountId) collection calls
  | .withCollection collection :: calls => issued account (some collection) calls
  | .value call :: calls => place account collection call.operation :: issued account collection calls
  | .logShareNotification _ valueClass value :: calls =>
    place account collection (.value valueClass (.set value)) :: issued account collection calls
  | _ :: calls => issued account collection calls

/-- What decides where an operation lands: the account, the collection and the document that the
    caller has set, the accounts that have changed, in the order of their first changes, how large
    the slice is, and the account whose changes were written last, if the caller has not set it
    since. -/
structure Issuer where
  account : Option UInt32
  collection : Option UInt8
  document : Option UInt32
  changed : List UInt32
  size : ℕ
  count : ℕ
  written : Option UInt32

namespace Issuer

variable (self : Issuer)

/-- Before the first call. -/
def start : Issuer := ⟨none, none, none, [], 0, 0, none⟩

/-- The account that operations land in. -/
def current : Option UInt32 := self.written <|> self.account

/-- After an operation on a value. -/
def grow [ValueClass C] (call : ValueCall C) : Issuer :=
  { self with size := self.size + call.size, count := self.count + call.count }

/-- After a call. -/
def next [ValueClass C] (self : Issuer) : Call C → Issuer
  | .withAccountId accountId => { self with account := some accountId, written := none }
  | .withCollection collection => { self with collection := some collection }
  | .withDocument documentId => { self with document := some documentId }
  | .value call => self.grow call
  | .logShareNotification _ valueClass value => self.grow (.set valueClass value)
  | .log call =>
    match self.current, call.logged self.document with
    | some accountId, some _ =>
      { self with
        size := self.size + call.size, changed := insertNew id self.changed accountId }
    | _, _ => self
  | .commitPoint =>
    if isLarge self.size self.count then
      { self with
        written := self.changed.getLast? <|> self.written, changed := [], size := 0, count := 0 }
    else self

/-- If the call adds an operation, the account whose changes were written last is the one that the
    caller has set, unless that was since. -/
def staysAt : Call C → Bool
  | .value _ | .logShareNotification .. => self.written = none ∨ self.written = self.account
  | _ => true

/-- This is so at all calls. -/
def stays [ValueClass C] (self : Issuer) : List (Call C) → Bool
  | [] => true
  | call :: calls => self.staysAt call && (self.next call).stays calls

/-- The operation on a value that the call adds, where it lands. -/
def landsAt [ValueClass C] (self : Issuer) : Call C → List (Placement C)
  | .value call => [place self.current self.collection call.operation]
  | .logShareNotification _ valueClass value =>
    [place self.current self.collection (.value valueClass (.set value))]
  | _ => []

/-- The operations on values as they land. -/
def landed [ValueClass C] (self : Issuer) : List (Call C) → List (Placement C)
  | [] => []
  | call :: calls => self.landsAt call ++ (self.next call).landed calls

end Issuer

open Issuer

/-! ## Slices -/

/-- Where slices end. -/
def ends : (offsetStart : ℕ) → List (List (Operation C)) → List ℕ
  | _, [] => []
  | offsetStart, slice :: slices =>
    (offsetStart + slice.length) :: ends (offsetStart + slice.length) slices

theorem ends_append (start : ℕ) (slices : List (List (Operation C))) (slice : List (Operation C)) :
    ends start (slices ++ [slice]) =
      ends start slices ++ [start + (slices.flatten ++ slice).length] := by
  induction slices generalizing start with
  | nil => simp [ends]
  | cons first slices ih =>
    rw [List.cons_append, ends, ends, ih, List.cons_append, List.flatten_cons, List.append_assoc,
      @List.length_append _ first, Nat.add_assoc]

/-- Cutting where slices end gives the slices, and what is behind them. -/
theorem slicesFrom_ends (before : List (Operation C)) (closed : List (List (Operation C)))
    (current : List (Operation C)) :
    slicesFrom (before ++ (closed.flatten ++ current)) before.length
      (ends before.length closed ++ [(before ++ (closed.flatten ++ current)).length]) =
        closed ++ [current] := by
  induction closed generalizing before with
  | nil =>
    rw [List.flatten_nil, List.nil_append, ends, List.nil_append, slicesFrom, slicesFrom,
      List.take_length, List.drop_left, List.nil_append]
  | cons slice closed ih =>
    have hrest := ih (before ++ slice)
    rw [List.length_append, List.append_assoc, ← List.append_assoc slice] at hrest
    rw [ends, List.cons_append, slicesFrom, List.flatten_cons, hrest, List.cons_append,
      ← List.append_assoc before, ← List.append_assoc before, ← List.length_append,
      List.append_assoc _ closed.flatten, List.take_left, List.drop_left]

/-! ## Following the builder -/

/-- The account that an operation sets. -/
def Operation.setsAccount : Operation C → Option UInt32
  | .accountId id => some id
  | _ => none

/-- The collection that an operation sets. -/
def Operation.setsCollection : Operation C → Option UInt8
  | .collection set => some set
  | _ => none

theorem placed_append (ops ops' : List (Operation C)) :
    placed context (ops ++ ops') = placed context ops ++ placed (ops.foldl .next context) ops' := by
  induction ops generalizing context with
  | nil => rfl
  | cons op ops ih =>
    rw [List.cons_append, placed, placed, ih]
    split <;> rfl

section Executed

variable {S : Type} [ValueClass C] {xxh3 : Bytes → UInt64} {backend : Backend S} {self : Executor S}

/-- Operations on values do not change the context. -/
theorem Executor.value_context {subspace : UInt8} {key : Bytes} {op : ValueOp} {next : Executor S}
    (h : self.value backend subspace key op = .ok next) : next.context = self.context := by
  cases op with
  | set | atomicAdd | addAndGet | clear =>
    obtain ⟨_, -, h⟩ := Loop.bind_eq_ok_iff.mp h
    exact Except.ok.inj h ▸ rfl
  | setFnc =>
    obtain ⟨_, -, h⟩ := Loop.bind_eq_ok_iff.mp h
    obtain ⟨_, -, h⟩ := Loop.bind_eq_ok_iff.mp h
    exact Except.ok.inj h ▸ rfl
  | mergeFnc =>
    obtain ⟨_, -, h⟩ := Loop.bind_eq_ok_iff.mp h
    obtain ⟨merged, -, h⟩ := Loop.bind_eq_ok_iff.mp h
    cases merged with
    | skip => exact Except.ok.inj h ▸ rfl
    | update | delete =>
      obtain ⟨_, -, h⟩ := Loop.bind_eq_ok_iff.mp h
      exact Except.ok.inj h ▸ rfl

/-- An operation that succeeds leads to the next context. -/
theorem Executor.operation_context {hasChanges : Bool} {op : Operation C} {next : Executor S}
    (h : self.operation xxh3 backend hasChanges op = .ok next) :
    next.context = self.context.next op := by
  cases op with
  | accountId accountId =>
    rw [operation] at h
    split at h
    · obtain ⟨_, -, h⟩ := Loop.bind_eq_ok_iff.mp h
      exact Except.ok.inj h ▸ rfl
    · exact Except.ok.inj h ▸ rfl
  | collection | documentId => exact Except.ok.inj h ▸ rfl
  | value => exact value_context h
  | index =>
    rw [operation] at h
    split at h <;>
    · obtain ⟨_, -, h⟩ := Loop.bind_eq_ok_iff.mp h
      exact Except.ok.inj h ▸ rfl
  | log =>
    obtain ⟨_, -, h⟩ := Loop.bind_eq_ok_iff.mp h
    exact Except.ok.inj h ▸ rfl
  | assertValue valueClass assertValue =>
    obtain ⟨⟨_, _⟩, -, h⟩ := Loop.bind_eq_ok_iff.mp h
    dsimp only at h
    split at h
    · exact Except.ok.inj h ▸ rfl
    · cases h

/-- Drawing the ids of changes leaves the context. -/
theorem Executor.steps_assignChangeId_context (backend : Backend S) (self : Executor S)
    (changes : List UInt32) :
    (steps (assignChangeId backend) self changes).1.context = self.context := by
  induction changes generalizing self with
  | nil => rfl
  | cons accountId changes ih =>
    rw [steps]
    cases hassign : self.assignChangeId backend accountId with
    | error error => rfl
    | ok next =>
      obtain ⟨_, -, hnext⟩ := Loop.bind_eq_ok_iff.mp hassign
      exact (ih next).trans (Except.ok.inj hnext ▸ rfl)

variable (xxh3 backend self)

/-- The loop is that of a backend. -/
theorem Executor.trace_snd (hasChanges : Bool) (ops : List (Operation C)) :
    (self.trace xxh3 backend hasChanges ops).2 =
      steps (operation xxh3 backend hasChanges) self ops := by
  induction ops generalizing self with
  | nil => rfl
  | cons op ops ih =>
    rw [trace, steps]
    cases self.operation xxh3 backend hasChanges op with
    | error error => rfl
    | ok next => exact ih next

/-- What is executed is the beginning of what there is, and all if nothing fails. -/
theorem Executor.trace_fst (hasChanges : Bool) (ops : List (Operation C)) :
    let result := self.trace xxh3 backend hasChanges ops
    result.1 <+: placed self.context ops ∧
      (result.2.2 = none → result.1 = placed self.context ops) := by
  induction ops generalizing self with
  | nil => exact ⟨List.prefix_rfl, fun _ => rfl⟩
  | cons op ops ih =>
    rw [trace, placed]
    cases hop : self.operation xxh3 backend hasChanges op with
    | error error => exact ⟨List.nil_prefix, by rintro ⟨⟩⟩
    | ok next =>
      have ih := ih next
      rw [operation_context hop] at ih
      dsimp only
      split
      · exact ⟨List.prefix_cons_inj _ |>.mpr ih.1, fun h => congrArg _ (ih.2 h)⟩
      · exact ih

/-- What is committed is a beginning of what was issued, all of it without an error. -/
theorem commitBatch_fst (changes : List UInt32) (store : S) (slices : List (List (Operation C))) :
    let result := commitBatch xxh3 backend changes store slices
    result.1 <+: slices.flatMap (placed .start) ∧
      (result.2 = none → result.1 = slices.flatMap (placed .start)) := by
  induction slices generalizing store with
  | nil => exact ⟨List.prefix_rfl, fun _ => rfl⟩
  | cons slice slices ih =>
    rw [commitBatch, List.flatMap_cons]
    have hcontext := Executor.steps_assignChangeId_context backend (.start store) changes
    -- a slice is executed only when its change ids have been drawn
    rcases hdrawn : Executor.steps (Executor.assignChangeId backend) (.start store) changes with
      ⟨self, _ | error⟩
    · rw [hdrawn] at hcontext
      have htrace := self.trace_fst xxh3 backend (!changes.isEmpty) slice
      rw [hcontext] at htrace
      dsimp only
      generalize self.trace xxh3 backend (!changes.isEmpty) slice = traced at htrace ⊢
      obtain ⟨placements, self', _ | error⟩ := traced
      · obtain rfl := htrace.2 rfl
        have ih := ih self'.store
        exact ⟨(List.prefix_append_right_inj _).mpr ih.1, fun h => congrArg _ (ih.2 h)⟩
      · exact ⟨htrace.1.trans (List.prefix_append _ _), by rintro ⟨⟩⟩
    · exact ⟨List.nil_prefix, by rintro ⟨⟩⟩

end Executed

/-- The operations are those of some slices and a current one, at whose end a backend is in the
    account and collection, and are executed where the placements say. -/
def Sliced (ops : List (Operation C)) (commitPoints : List ℕ) (account : Option UInt32)
    (collection : Option UInt8) (placements : List (Placement C)) : Prop :=
  ∃ closed current,
    ops = closed.flatten ++ current ∧ commitPoints = ends 0 closed ∧
    (current.foldl Context.next Context.start).accountId =
      account.getD Context.start.accountId ∧
    (current.foldl Context.next Context.start).collection =
      collection.getD Context.start.collection ∧
    (closed ++ [current]).flatMap (placed .start) = placements

open List

namespace Sliced

variable {ops : List (Operation C)} {commitPoints : List ℕ} {account : Option UInt32}
  {collection : Option UInt8} {placements : List (Placement C)}

section

variable (h : Sliced ops commitPoints account collection placements)

include h

/-- An operation is executed in the account and collection of the builder. -/
theorem push (op : Operation C) :
    Sliced (ops ++ [op]) commitPoints (op.setsAccount <|> account)
      (op.setsCollection <|> collection)
      (placements ++ if op.isValue then [place account collection op] else []) := by
  obtain ⟨closed, current, rfl, rfl, haccount, hcollection, rfl⟩ := h
  refine ⟨closed, current ++ [op], ?_, rfl, ?_, ?_, ?_⟩
  · rw [append_assoc]
  · rw [foldl_append]
    cases op <;> first | exact haccount | rfl
  · rw [foldl_append]
    cases op <;> first | exact hcollection | rfl
  · rw [flatMap_append, flatMap_append, append_assoc]
    simp only [flatMap_cons, flatMap_nil, append_nil, placed_append, placed]
    rw [haccount, hcollection]
    rfl

/-- A cut ends the slice; the next one has no account and collection. -/
theorem cut : Sliced ops (commitPoints ++ [ops.length]) none none placements := by
  obtain ⟨closed, current, rfl, rfl, -, -, rfl⟩ := h
  refine ⟨closed ++ [current], [], ?_, ?_, rfl, rfl, ?_⟩
  · rw [flatten_append, flatten_singleton, append_nil]
  · rw [ends_append, Nat.zero_add]
  · rw [flatMap_append, flatMap_singleton, placed, append_nil]

/-- An operation that is not on a value is not executed. -/
theorem pushOther {op : Operation C} (hop : op.isValue = false) :
    Sliced (ops ++ [op]) commitPoints (op.setsAccount <|> account)
      (op.setsCollection <|> collection) placements := by
  simpa [hop] using h.push op

theorem append_logs {logs : List (Operation C)}
    (hlogs : ∀ op ∈ logs, ∃ collection set, op = .log collection set) :
    Sliced (ops ++ logs) commitPoints account collection placements := by
  induction logs generalizing ops with
  | nil => rwa [append_nil]
  | cons op logs ih =>
    rw [forall_mem_cons] at hlogs
    obtain ⟨logged, set, rfl⟩ := hlogs.1
    rw [append_cons]
    exact ih (h.pushOther rfl) hlogs.2

end

end Sliced

/-- The operations of a builder are executed where the placements say. -/
def BatchBuilder.Places (self : BatchBuilder C) (placements : List (Placement C)) : Prop :=
  Sliced self.ops self.commitPoints self.currentAccountId self.currentCollection placements

namespace BatchBuilder

variable {self : BatchBuilder C} {placements : List (Placement C)}

section

variable (h : self.Places placements) (format : LogFormat)

include h

/-- Setting the account changes nothing else, operations apart. -/
theorem Places.withAccountId (accountId : UInt32) :
    ∃ ops, self.withAccountId accountId =
        { self with currentAccountId := some accountId, ops := ops } ∧
      (self.withAccountId accountId).Places placements := by
  rw [BatchBuilder.withAccountId]
  split
  · exact ⟨_, rfl, h.pushOther rfl⟩
  · rename_i hcurrent
    exact ⟨self.ops, by rw [← not_not.mp hcurrent], h⟩

theorem Places.serializeChangeLog (entry : UInt32 × ChangeLogBuilder) :
    ∃ ops changedCollections, self.serializeChangeLog format entry =
        { self with currentAccountId := some entry.1, ops, changedCollections } ∧
      (self.serializeChangeLog format entry).Places placements := by
  obtain ⟨ops, hops, hplaces⟩ := h.withAccountId entry.1
  have hlogs {V : Type} {logs : List (UInt8 × V)} {f : V → Bytes} :
      ∀ op ∈ logs.map fun log => (.log log.1 (f log.2) : Operation C),
        ∃ collection set, op = .log collection set := by
    intro op hop
    obtain ⟨log, -, rfl⟩ := mem_map.mp hop
    exact ⟨_, _, rfl⟩
  rw [BatchBuilder.serializeChangeLog]
  rw [hops] at hplaces ⊢
  split <;> exact ⟨_, _, rfl, (hplaces.append_logs hlogs).append_logs hlogs⟩

/-- The account whose changes are written last becomes the current one. -/
theorem Places.foldl_serializeChangeLog (changes : List (UInt32 × ChangeLogBuilder)) :
    ∃ ops changedCollections, changes.foldl (BatchBuilder.serializeChangeLog format) self =
        { self with
          currentAccountId := (changes.map Prod.fst).getLast? <|> self.currentAccountId
          ops, changedCollections } ∧
      (changes.foldl (BatchBuilder.serializeChangeLog format) self).Places placements := by
  induction changes generalizing self with
  | nil => exact ⟨self.ops, self.changedCollections, rfl, h⟩
  | cons entry changes ih =>
    obtain ⟨ops, changed, hops, hplaces⟩ := h.serializeChangeLog format entry
    obtain ⟨ops', changed', hops', hplaces'⟩ := ih hplaces
    refine ⟨ops', changed', ?_, hplaces'⟩
    rw [foldl_cons, hops', hops, map_cons, getLast?_cons]
    cases (changes.map Prod.fst).getLast? <;> rfl

theorem Places.serializeChanges :
    ∃ ops changedCollections, self.serializeChanges format =
        { self with
          currentAccountId := (self.changes.map Prod.fst).getLast? <|> self.currentAccountId
          changes := [], ops, changedCollections } ∧
      (self.serializeChanges format).Places placements := by
  have hempty : Places { self with changes := [] } placements := h
  exact hempty.foldl_serializeChangeLog format self.changes

end

theorem Places.beginSlice (h : Sliced self.ops self.commitPoints none none placements) :
    self.beginSlice.Places placements := by
  rw [BatchBuilder.beginSlice, Places]
  have haccount : Sliced (self.ops ++ (self.currentAccountId.map .accountId).toList)
      self.commitPoints self.currentAccountId none placements := by
    rcases self.currentAccountId with _ | accountId
    · simpa using h
    · exact h.pushOther rfl
  rcases self.currentCollection with _ | collection
  · simpa using haccount
  · exact haccount.pushOther rfl

theorem Places.slices (h : self.Places placements) (format : LogFormat) :
    (self.slices format).flatten = (self.serializeChanges format).ops ∧
      (self.slices format).flatMap (placed .start) = placements := by
  obtain ⟨-, -, -, closed, current, hops, hends, -, -, hplacements⟩ := h.serializeChanges format
  have hslices : self.slices format = closed ++ [current] := by
    rw [BatchBuilder.slices, hends, hops]
    exact slicesFrom_ends [] closed current
  rw [hslices, hops, hplacements, flatten_append, flatten_singleton]
  exact ⟨rfl, rfl⟩

end BatchBuilder

/-! ## Runs -/

/-- The builder, and what of the calls decides where operations land. -/
structure Follows (builder : BatchBuilder C) (issuer : Issuer) (placements : List (Placement C)) :
    Prop where
  places : builder.Places placements
  account : builder.currentAccountId = issuer.current
  collection : builder.currentCollection = issuer.collection
  document : builder.currentDocumentId = issuer.document
  changed : builder.changes.map Prod.fst = issuer.changed
  size : builder.batchSize = issuer.size
  count : builder.batchOps = issuer.count

theorem follows_new : Follows (BatchBuilder.new : BatchBuilder C) .start [] :=
  ⟨⟨[], [], rfl, rfl, rfl, rfl, rfl⟩, rfl, rfl, rfl, rfl, rfl, rfl⟩

theorem map_fst_getMutOrInsert {K V : Type} [DecidableEq K] (map : List (K × V)) (default : V)
    (key : K) (f : V → V) :
    (getMutOrInsert map default key f).map Prod.fst = insertNew id (map.map Prod.fst) key := by
  rw [getMutOrInsert, map_key_updateFirst (fun entry => (entry.1, f entry.2)) fun _ => rfl,
    insertNew, insertNew, any_map]
  split
  · rename_i h
    rw [if_pos (by exact h)]
  · rename_i h
    rw [if_neg (by exact h), map_append, map_singleton]

namespace Issuer

/-- The account of the last changes is known only if the caller has set one. -/
def Sound (self : Issuer) : Prop :=
  self.account = none → self.written = none ∧ self.changed = []

end Issuer

variable [ValueClass C]

namespace Follows

variable {builder : BatchBuilder C} {issuer : Issuer} {placements : List (Placement C)}

section

variable (h : Follows builder issuer placements) (format : LogFormat)

include h

/-- A log entry is for the account at the time. -/
theorem log (call : LogCall) :
    Follows (builder.log call) (issuer.next (.log call : Call C)) placements := by
  rcases haccount : issuer.current with _ | accountId
  · rw [BatchBuilder.log, Issuer.next, h.account, haccount]
    exact h
  rcases hlogged : call.logged issuer.document with _ | logged
  · rw [BatchBuilder.log, Issuer.next, h.account, h.document, haccount, hlogged]
    exact h
  have hlog : builder.log call = { builder with
        batchSize := builder.batchSize + call.size
        changes := getMutOrInsert builder.changes .default accountId logged } := by
    rw [BatchBuilder.log, h.account, h.document, haccount, hlogged]
  rw [hlog, Issuer.next, haccount, hlogged]
  refine ⟨h.places, h.account, h.collection, h.document, ?_, ?_, h.count⟩
  · rw [map_fst_getMutOrInsert, h.changed]
  · rw [h.size]

/-- A commit point ends a large slice; the next one sets the account and the collection again. -/
theorem commitPoint :
    Follows (builder.commitPoint format) (issuer.next (.commitPoint : Call C)) placements := by
  rw [BatchBuilder.commitPoint, isLargeBatch, h.size, h.count, Issuer.next]
  split
  · obtain ⟨ops, _, hops, hplaces⟩ := h.places.serializeChanges format
    have hcut := hplaces.cut
    rw [hops] at hcut ⊢
    refine ⟨BatchBuilder.Places.beginSlice hcut, ?_, h.collection, h.document, rfl, rfl, rfl⟩
    rw [h.changed, h.account]
    rcases issuer.changed.getLast? with _ | _ <;> rfl
  · exact h

theorem withAccountId (accountId : UInt32) :
    Follows (builder.withAccountId accountId) (issuer.next (.withAccountId accountId : Call C))
      placements := by
  obtain ⟨ops, hops, hplaces⟩ := h.places.withAccountId accountId
  rw [hops] at hplaces ⊢
  exact ⟨hplaces, rfl, h.collection, h.document, h.changed, h.size, h.count⟩

theorem withCollection (collection : UInt8) :
    Follows (builder.withCollection collection) (issuer.next (.withCollection collection : Call C))
      placements := by
  rw [BatchBuilder.withCollection]
  split
  · exact ⟨h.places.pushOther rfl, h.account, rfl, h.document, h.changed, h.size, h.count⟩
  · rename_i hcollection
    exact ⟨h.places, h.account, (not_not.mp hcollection).symm, h.document, h.changed, h.size,
      h.count⟩

theorem withDocument (documentId : UInt32) :
    Follows (builder.withDocument documentId) (issuer.next (.withDocument documentId : Call C))
      placements :=
  ⟨h.places.pushOther rfl, h.account, h.collection, rfl, h.changed, h.size, h.count⟩

/-- A value is for the account and collection at the time. -/
theorem value (call : ValueCall C) :
    Follows (builder.value call) (issuer.next (.value call))
      (placements ++ [place issuer.current issuer.collection call.operation]) := by
  have hplaces := h.places.push call.operation
  have hvalue : call.operation.isValue = true ∧ call.operation.setsAccount = none ∧
      call.operation.setsCollection = none := by
    rcases call <;> exact ⟨rfl, rfl, rfl⟩
  obtain ⟨hvalue, haccount, hcollection⟩ := hvalue
  rw [if_pos hvalue, haccount, hcollection] at hplaces
  refine ⟨?_, h.account, h.collection, h.document, h.changed, ?_, ?_⟩
  · rw [← h.account, ← h.collection]
    exact hplaces
  · rw [BatchBuilder.value, push, h.size]
    rfl
  · rw [BatchBuilder.value, push, h.count]
    rfl

omit [ValueClass C] in
theorem addChanged (accountId : UInt32) :
    Follows (builder.addChanged accountId) issuer placements :=
  ⟨h.places, h.account, h.collection, h.document, h.changed, h.size, h.count⟩

/-- One call. -/
theorem call (call : Call C) :
    Follows (builder.call format call) (issuer.next call) (placements ++ issuer.landsAt call) := by
  have hnil : placements ++ [] = placements := append_nil placements
  cases call with
  | withAccountId accountId => exact hnil.symm ▸ h.withAccountId accountId
  | withCollection collection => exact hnil.symm ▸ h.withCollection collection
  | withDocument documentId => exact hnil.symm ▸ h.withDocument documentId
  | value call => exact h.value call
  | log call => exact hnil.symm ▸ h.log call
  | logShareNotification notifyAccountId valueClass value =>
    exact (h.addChanged notifyAccountId).value (.set valueClass value)
  | commitPoint => exact hnil.symm ▸ h.commitPoint format

/-- A run: the operations of the calls land where the calls before let them. -/
theorem run (calls : List (Call C)) :
    Follows (calls.foldl (BatchBuilder.call format) builder) (calls.foldl next issuer)
      (placements ++ issuer.landed calls) := by
  induction calls generalizing builder issuer placements with
  | nil => exact (append_nil placements).symm ▸ h
  | cons call calls ih =>
    rw [landed, ← append_assoc]
    exact ih (h.call format call)

end

end Follows

namespace Issuer

variable {issuer : Issuer}

theorem Sound.next (h : issuer.Sound) (call : Call C) : (issuer.next call).Sound := by
  cases call with
  | withAccountId accountId =>
    intro hnone
    cases hnone
  | withCollection | withDocument | value | logShareNotification => exact h
  | log call =>
    rw [Issuer.next]
    split
    · rename_i accountId logged hcurrent _
      intro hnone
      -- nothing can be logged before an account is set
      rw [current, (h hnone).1, hnone] at hcurrent
      cases hcurrent
    · exact h
  | commitPoint =>
    rw [Issuer.next]
    split
    · intro hnone
      obtain ⟨hwritten, hchanged⟩ := h hnone
      rw [hwritten, hchanged]
      exact ⟨rfl, rfl⟩
    · exact h

/-- A call issues its operation, and then account and collection are those of the caller. -/
theorem issued_cons (call : Call C) (calls : List (Call C)) :
    issued issuer.account issuer.collection (call :: calls) =
      (issuer.landsAt call).map (fun landed => place issuer.account issuer.collection
        landed.operation) ++
        issued (issuer.next call).account (issuer.next call).collection calls := by
  cases call with
  | withAccountId | withCollection | withDocument | value | logShareNotification => rfl
  | log | commitPoint =>
    rw [next]
    split <;> rfl

/-- Operations land where they are issued if and only if the account stays. -/
theorem landed_eq_issued_iff (h : issuer.Sound) (calls : List (Call C)) :
    issuer.landed calls = issued issuer.account issuer.collection calls ↔
      issuer.stays calls = true := by
  induction calls generalizing issuer with
  | nil => exact iff_of_true rfl rfl
  | cons call calls ih =>
    rw [landed, stays, Bool.and_eq_true, issued_cons, append_eq_append_iff_of_size_eq_left
      (length_map _).symm, ih (h.next call)]
    refine and_congr_left' ?_
    cases call with
    | withAccountId | withCollection | withDocument | log | commitPoint => exact iff_of_true rfl rfl
    | value | logShareNotification =>
      -- the operation lands where it is issued if and only if the account stays
      rw [landsAt, map_singleton, singleton_inj, staysAt, decide_eq_true_iff, place, place, current]
      rcases hwritten : issuer.written with _ | written
      · simp
      rcases haccount : issuer.account with _ | account
      · rw [(h haccount).1] at hwritten
        cases hwritten
      · simp

/-- Wherever they land, the operations are those of the calls. -/
theorem map_operation_landed (issuer : Issuer) (calls : List (Call C)) :
    (issuer.landed calls).map Placement.operation =
      (issued issuer.account issuer.collection calls).map Placement.operation := by
  induction calls generalizing issuer with
  | nil => rfl
  | cons call calls ih =>
    rw [landed, issued_cons, map_append, map_append, ih, map_map]
    rfl

end Issuer

/-- `BatchBuilder`: the slices have all operations once and in order. When they are written, to any
    store, and no write fails, those on values are the ones of the calls, and each is executed in
    the account and collection in which it was issued, if and only if the account stays. If it stays,
    this is so as well for those that are executed before a write fails. -/
theorem commitBatch_slices {S : Type} (format : LogFormat) (calls : List (Call C))
    (xxh3 : Bytes → UInt64) (backend : Backend S) (store : S) :
    let built := (run format calls).serializeChanges format
    let slices := (run format calls).slices format
    let executed := commitBatch xxh3 backend built.changedCollections store slices
    slices.flatten = built.ops ∧
      (executed.2 = none →
        executed.1.map Placement.operation = (issued none none calls).map Placement.operation ∧
          (executed.1 = issued none none calls ↔ start.stays calls = true)) ∧
      (start.stays calls = true → executed.1 <+: issued none none calls) := by
  have hfollows : Follows (run format calls) (calls.foldl next .start)
      (start.landed calls) := follows_new.run format calls
  obtain ⟨hflatten, hlanded⟩ := hfollows.places.slices format
  have hsound : start.Sound := fun _ => ⟨rfl, rfl⟩
  have hiff : start.landed calls = issued none none calls ↔ start.stays calls = true :=
    landed_eq_issued_iff hsound calls
  obtain ⟨hbegin, hall⟩ := commitBatch_fst xxh3 backend
    ((run format calls).serializeChanges format).changedCollections store
    ((run format calls).slices format)
  rw [hlanded] at hbegin hall
  refine ⟨hflatten, fun hnone => ?_, fun hstays => hiff.mpr hstays ▸ hbegin⟩
  rw [hall hnone]
  exact ⟨start.map_operation_landed calls, hiff⟩

/-- A format of logs in which nothing is written. -/
def emptyFormat : LogFormat := ⟨fun _ => [], fun _ => []⟩

/-- A document is added to account 2, and one to account 1, both of which are logged. Then so many
    values of account 2 are cleared that the batch is cut, and one more. -/
def clearedInAnother : List (Call AccountClass) :=
  [.withAccountId 2, .withCollection 8, .withDocument 7, .log (.itemInsert 4 none),
      .withAccountId 1, .withDocument 8, .log (.itemInsert 4 none), .withAccountId 2,
      .withDocument 9] ++
    replicate 1001 (.value (.clear (.property 50))) ++
    [.commitPoint, .withDocument 10, .value (.clear (.property 50))]

/-- What is executed, with the ephemeral store. -/
def executedInAnother : List (Placement AccountClass) × Option Error :=
  commitBatch (fun _ => 0) ephemeral
    ((run emptyFormat clearedInAnother).serializeChanges emptyFormat).changedCollections
    (fun _ _ => none) ((run emptyFormat clearedInAnother).slices emptyFormat)

/-- No write fails, and the last value is cleared in account 1. -/
theorem commitBatch_clearedInAnother :
    executedInAnother.2 = none ∧ executedInAnother.1 ≠ issued none none clearedInAnother := by
  refine ⟨by decide +kernel, fun h => ?_⟩
  have haccounts := congrArg (fun placements => (placements.map Placement.accountId).getLast?) h
  revert haccounts
  decide +kernel

end Inworkspace.Write
