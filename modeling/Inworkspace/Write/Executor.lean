import Inworkspace.Lib.Outcome
import Inworkspace.Write.Operation

/-!
# Executing a batch

The loop over the operations of a batch that the backends of `store` have in common. What it asks
of a store is a `Request`, with an answer (`Request.Reply`); a backend (`Backend`) is what
it does with the requests. Before the operations, an id is drawn for the changes of each account
that has changed.

A transactional backend goes back to where it started when an operation fails
(`writeTransaction`), the ephemeral one stays where it is (`writeInPlace`).

If a backend answers requests as another one does, batches have the same outcome
(`Executor.Alike.batch`).
-/

namespace Inworkspace.Write

open Lib.BigEndian Lib.Outcome

/-! ## Numbers and assertions -/

def toLeBytes (value : Int64) : Bytes := (beBytes 8 value.toUInt64.toNat).reverse

/-- `i64::from_le_bytes`, if the bytes are eight. -/
def fromLeBytes (bytes : Bytes) : Option Int64 :=
  if bytes.length = 8 then
    some (UInt64.ofNat (ofBigEndian (bytes.reverse.map UInt8.toNat))).toInt64
  else none

def deserializeI64Le (key bytes : Bytes) : Except Error Int64 :=
  match fromLeBytes bytes with
  | some value => .ok value
  | none => .error (.corruptedKey key bytes)

/-- A number is read back. -/
theorem fromLeBytes_toLeBytes (value : Int64) : fromLeBytes (toLeBytes value) = some value := by
  have hlt : value.toUInt64.toNat < 256 ^ 8 := value.toUInt64.toNat_lt
  rw [fromLeBytes, toLeBytes, List.reverse_reverse, ofBigEndian_beBytes, Nat.mod_eq_of_lt hlt,
    UInt64.ofNat_toNat]
  rfl

/-- `bytes.get(bytes.len() - fromEnd..bytes.len() - toEnd)`, where a difference below zero is beyond
    the end. -/
def bytesFromEnd (bytes : Bytes) (fromEnd toEnd : ℕ) : Option Bytes :=
  if fromEnd ≤ bytes.length then
    some ((bytes.take (bytes.length - toEnd)).drop (bytes.length - fromEnd))
  else none

namespace AssertValue

/-- `AssertValue::matches`. -/
def matchesBytes (xxh3 : Bytes → UInt64) (bytes : Bytes) : AssertValue → Bool
  | .u32 value => bytesFromEnd bytes 4 0 == Option.some (beBytes 4 value.toNat)
  | .u64 value => bytesFromEnd bytes 8 0 == Option.some (beBytes 8 value.toNat)
  | .hash value => xxh3 bytes == value
  | .archive (.versioned _ crc) =>
    bytesFromEnd bytes (4 + 8 + 1) (8 + 1) == Option.some (beBytes 4 crc.toNat)
  | .archive (.hashed crc) => bytesFromEnd bytes (4 + 1) 1 == Option.some (beBytes 4 crc.toNat)
  | .archive .unversioned => false
  | .none => false
  | .some => true

def isNone : AssertValue → Bool
  | .none => true
  | _ => false

/-- The assertion about a value that may be missing. -/
def holds (xxh3 : Bytes → UInt64) (self : AssertValue) : Option Bytes → Bool
  | .some bytes => self.matchesBytes xxh3 bytes
  | .none => self.isNone

end AssertValue

/-! ## Requests -/

/-- What the loop asks of a store; `put` is for a value that a function has given. -/
inductive Request where
  | get (subspace : UInt8) (key : Bytes)
  | set (subspace : UInt8) (key value : Bytes)
  | put (subspace : UInt8) (key value : Bytes)
  | atomicAdd (subspace : UInt8) (key : Bytes) (value : Int64)
  | addAndGet (subspace : UInt8) (key : Bytes) (value : Int64)
  | clear (subspace : UInt8) (key : Bytes)
  | setIndex (key : Bytes)
  | clearIndex (key : Bytes)
  | setLog (key value : Bytes)

/-- The type of the answer to a request. -/
abbrev Request.Reply : Request → Type
  | .get .. => Option Bytes
  | .addAndGet .. => Int64
  | _ => Unit

/-- What a backend does with the requests. -/
def Backend (S : Type) := S → (request : Request) → Except Error (S × request.Reply)

/-! ## The loop -/

/-- `Batch`: the accounts that have changed, and the operations. -/
structure Batch (C : Type) where
  changes : List UInt32
  ops : List (Operation C)

/-- The variables of the loop. -/
structure Executor (S : Type) where
  store : S
  context : Context
  changeId : UInt64
  result : AssignedIds

/-- `SUBSPACE_COUNTER`. -/
def subspaceCounter : UInt8 := 'n'.toUInt8

/-- `SUBSPACE_INDEXES`. -/
def subspaceIndexes : UInt8 := 'i'.toUInt8

/-- `SUBSPACE_LOGS`. -/
def subspaceLogs : UInt8 := 'l'.toUInt8

/-- `ValueClass::ChangeId.serialize`. -/
def changeIdKey (accountId : UInt32) : Bytes := beBytes 4 accountId.toNat

/-- `IndexKey::serialize`. -/
def indexKey (context : Context) (field : UInt8) (key : Bytes) : Bytes :=
  beBytes 4 context.accountId.toNat ++ [context.collection, field] ++ key ++
    beBytes 4 context.documentId.toNat

/-- `LogKey::serialize`. -/
def logKey (accountId : UInt32) (collection : UInt8) (changeId : UInt64) : Bytes :=
  beBytes 4 accountId.toNat ++ [collection] ++ beBytes 8 changeId.toNat

variable {S T C : Type}

namespace Executor

/-- At the start of a batch. -/
def start (store : S) : Executor S := ⟨store, .start, 0, .default⟩

def assignChangeId (backend : Backend S) (self : Executor S) (accountId : UInt32) :
    Except Error (Executor S) := do
  let (store, changeId) ← backend self.store (.addAndGet subspaceCounter (changeIdKey accountId) 1)
  return { self with store, result := self.result.pushChangeId accountId changeId.toUInt64 }

/-- An operation on a value. -/
def value (backend : Backend S) (self : Executor S) (subspace : UInt8) (key : Bytes) :
    ValueOp → Except Error (Executor S)
  | .set value => do
    let (store, _) ← backend self.store (.set subspace key value)
    return { self with store }
  | .setFnc fnc => do
    let value ← fnc self.result
    let (store, _) ← backend self.store (.put subspace key value)
    return { self with store }
  | .mergeFnc fnc => do
    let (store, current) ← backend self.store (.get subspace key)
    match ← fnc self.result current with
    | .update value =>
      let (store, _) ← backend store (.put subspace key value)
      return { self with store }
    | .delete =>
      let (store, _) ← backend store (.clear subspace key)
      return { self with store }
    | .skip => return { self with store }
  | .atomicAdd value => do
    let (store, _) ← backend self.store (.atomicAdd subspace key value)
    return { self with store }
  | .addAndGet value => do
    let (store, next) ← backend self.store (.addAndGet subspace key value)
    return { self with store, result := self.result.pushCounterId next }
  | .clear => do
    let (store, _) ← backend self.store (.clear subspace key)
    return { self with store }

def operation [ValueClass C] (xxh3 : Bytes → UInt64) (backend : Backend S) (hasChanges : Bool)
    (self : Executor S) (op : Operation C) : Except Error (Executor S) :=
  let next := { self with context := self.context.next op }
  match op with
  | .accountId accountId =>
    if hasChanges then do
      let (result, changeId) ← self.result.setCurrentChangeId accountId
      return { next with result, changeId }
    else return next
  | .collection _ | .documentId _ => return next
  | .value valueClass op =>
    self.value backend (ValueClass.subspace self.context.collection valueClass)
      (ValueClass.serialize self.context.accountId self.context.collection self.context.documentId
        valueClass) op
  | .index field key set => do
    let key := indexKey self.context field key
    let (store, _) ← if set then backend self.store (.setIndex key)
      else backend self.store (.clearIndex key)
    return { self with store }
  | .log collection set => do
    let key := logKey self.context.accountId collection self.changeId
    let (store, _) ← backend self.store (.setLog key set)
    return { self with store }
  | .assertValue valueClass assertValue => do
    let subspace := ValueClass.subspace self.context.collection valueClass
    let key := ValueClass.serialize self.context.accountId self.context.collection
      self.context.documentId valueClass
    let (store, current) ← backend self.store (.get subspace key)
    if assertValue.holds xxh3 current then return { self with store }
    else throw .assertValueFailed

/-- Steps until one fails: where they end, and the error. -/
def steps {α : Type} (step : Executor S → α → Except Error (Executor S)) :
    Executor S → List α → Executor S × Option Error
  | self, [] => (self, none)
  | self, a :: as =>
    match step self a with
    | .ok next => steps step next as
    | .error error => (self, some error)

/-- `write`, up to what is done with an error. -/
def batch [ValueClass C] (xxh3 : Bytes → UInt64) (backend : Backend S) (store : S)
    (batch : Batch C) : Executor S × Option Error :=
  match steps (assignChangeId backend) (start store) batch.changes with
  | (self, none) => steps (operation xxh3 backend !batch.changes.isEmpty) self batch.ops
  | (self, some error) => (self, some error)

end Executor

variable [ValueClass C]

/-- `write` of a backend that changes the store as it goes. -/
def writeInPlace (xxh3 : Bytes → UInt64) (backend : Backend S) (store : S) (batch : Batch C) :
    S × Except Error AssignedIds :=
  match Executor.batch xxh3 backend store batch with
  | (self, none) => (self.store, .ok self.result)
  | (self, some error) => (self.store, .error error)

/-- `write` of a backend that commits a transaction, or leaves the store. -/
def writeTransaction (xxh3 : Bytes → UInt64) (backend : Backend S) (store : S) (batch : Batch C) :
    S × Except Error AssignedIds :=
  match Executor.batch xxh3 backend store batch with
  | (self, none) => (self.store, .ok self.result)
  | (_, some error) => (store, .error error)

open Executor

/-! ## Backends that answer alike -/

/-- The first backend answers as the second one, where that leaves nothing open, and the stores stay
    related. -/
def Answers (Open : Error → Prop) (R : S → T → Prop) (backend : Backend S) (spec : Backend T) :
    Prop :=
  ∀ store store' request, R store store' →
    RelatedUnless Open (fun reply reply' => R reply.1 reply'.1 ∧ reply.2 = reply'.2)
      (backend store request) (spec store' request)

namespace Executor

/-- The stores are related, all else is the same. -/
structure Alike (R : S → T → Prop) (left : Executor S) (right : Executor T) : Prop where
  store : R left.store right.store
  context : left.context = right.context
  changeId : left.changeId = right.changeId
  result : left.result = right.result

variable {Open : Error → Prop} {R : S → T → Prop} {backend : Backend S} {spec : Backend T}
  {left : Executor S} {right : Executor T} {store' : T} {store : S} {result : AssignedIds}
  {context : Context} {changeId : UInt64}

theorem Alike.exists_eq (h : left.Alike R right) :
    ∃ store store' context changeId result, R store store' ∧
      left = ⟨store, context, changeId, result⟩ ∧ right = ⟨store', context, changeId, result⟩ := by
  obtain ⟨store', context, changeId, result⟩ := right
  obtain ⟨hstore, rfl, rfl, rfl⟩ := h
  exact ⟨left.store, store', _, _, _, hstore, rfl, rfl⟩

theorem alike_mk (h : R store store') :
    Alike R ⟨store, context, changeId, result⟩ ⟨store', context, changeId, result⟩ :=
  ⟨h, rfl, rfl, rfl⟩

section Answers

variable (hanswers : Answers Open R backend spec)

include hanswers

/-- A request that is answered with nothing but another store. -/
theorem related_request (h : R store store') (request : Request) :
    RelatedUnless Open (Alike R) (do
        let (store, _) ← backend store request return ⟨store, context, changeId, result⟩) (do
        let (store, _) ← spec store' request return ⟨store, context, changeId, result⟩) :=
  (hanswers _ _ request h).bind fun _ _ hreply => .ok (alike_mk hreply.1)

theorem Alike.assignChangeId (h : left.Alike R right) (accountId : UInt32) :
    RelatedUnless Open (Alike R) (left.assignChangeId backend accountId)
      (right.assignChangeId spec accountId) := by
  obtain ⟨store, store', context, changeId, result, hstore, rfl, rfl⟩ := h.exists_eq
  refine (hanswers _ _ _ hstore).bind fun ⟨store₁, id⟩ ⟨store₁', id'⟩ ⟨hstore₁, hid⟩ => ?_
  obtain rfl : id = id' := hid
  exact .ok (alike_mk hstore₁)

/-- An operation on a value keeps the executors alike. -/
theorem Alike.value (h : left.Alike R right) (subspace : UInt8) (key : Bytes) (op : ValueOp) :
    RelatedUnless Open (Alike R) (left.value backend subspace key op)
      (right.value spec subspace key op) := by
  obtain ⟨store, store', context, changeId, result, hstore, rfl, rfl⟩ := h.exists_eq
  rcases op with value | fnc | fnc | value | value | _
  · exact related_request hanswers hstore _
  · refine (RelatedUnless.refl (fnc result)).bind fun value value' hvalue => ?_
    rw [hvalue]
    exact related_request hanswers hstore _
  · refine (hanswers _ _ _ hstore).bind fun ⟨store₁, old⟩ ⟨store₁', old'⟩ ⟨hstore₁, hold⟩ => ?_
    obtain rfl : old = old' := hold
    refine (RelatedUnless.refl (fnc result old)).bind fun merged merged' hmerged => ?_
    -- what is merged is worked out from the same value
    obtain rfl : merged = merged' := hmerged
    rcases merged with value | _ | _
    · exact related_request hanswers hstore₁ _
    · exact .ok (alike_mk hstore₁)
    · exact related_request hanswers hstore₁ _
  · exact related_request hanswers hstore _
  · refine (hanswers _ _ _ hstore).bind fun ⟨store₁, id⟩ ⟨store₁', id'⟩ ⟨hstore₁, hid⟩ => ?_
    obtain rfl : id = id' := hid
    exact .ok (alike_mk hstore₁)
  · exact related_request hanswers hstore _

/-- One operation. -/
theorem Alike.operation (h : left.Alike R right) (xxh3 : Bytes → UInt64) (hasChanges : Bool)
    (op : Operation C) :
    RelatedUnless Open (Alike R) (left.operation xxh3 backend hasChanges op)
      (right.operation xxh3 spec hasChanges op) := by
  obtain ⟨store, store', context, changeId, result, hstore, rfl, rfl⟩ := h.exists_eq
  rcases op with accountId | collection | documentId | ⟨valueClass, assertValue⟩ |
    ⟨valueClass, op⟩ | ⟨field, key, set⟩ | ⟨collection, set⟩
  · rw [operation, operation]
    split
    · refine (RelatedUnless.refl (result.setCurrentChangeId accountId)).bind
        fun reply reply' hreply => .ok ?_
      rw [hreply]
      exact alike_mk hstore
    · exact .ok (alike_mk hstore)
  · exact .ok (alike_mk hstore)
  · exact .ok (alike_mk hstore)
  -- both have read the same value, so the assertion fails for both or for none
  · refine (hanswers _ _ _ hstore).bind fun ⟨store₁, old⟩ ⟨store₁', old'⟩ ⟨hstore₁, hold⟩ => ?_
    obtain rfl : old = old' := hold
    dsimp only
    split
    · exact .ok (alike_mk hstore₁)
    · exact .error _
  · exact (alike_mk hstore).value hanswers _ _ op
  · rw [operation, operation]
    split
    · exact related_request hanswers hstore _
    · exact related_request hanswers hstore _
  · exact related_request hanswers hstore _

end Answers

/-- Steps that go alike end alike. -/
theorem Alike.steps {α : Type} {step : Executor S → α → Except Error (Executor S)}
    {step' : Executor T → α → Except Error (Executor T)}
    (hstep : ∀ left right a, Alike R left right →
      RelatedUnless Open (Alike R) (step left a) (step' right a))
    (h : left.Alike R right) (as : List α)
    (hopen : ∀ e, (steps step' right as).2 = some e → ¬ Open e) :
    Alike R (steps step left as).1 (steps step' right as).1 ∧
      (steps step left as).2 = (steps step' right as).2 := by
  induction as generalizing left right with
  | nil => exact ⟨h, rfl⟩
  | cons a as ih =>
    rw [steps, steps] at *
    have hrelated := hstep left right a h
    rcases hright : step' right a with error | next
    · rw [hright] at hrelated hopen
      have hsame := hrelated fun e he => hopen e (congrArg some (Except.error.inj he))
      rcases hleft : step left a with error' | next
      · rw [hleft] at hsame
        exact ⟨h, congrArg some hsame⟩
      · rw [hleft] at hsame
        exact hsame.elim
    · rw [hright] at hrelated hopen
      have hsame := hrelated fun e he => by cases he
      rcases hleft : step left a with error' | next'
      · rw [hleft] at hsame
        exact hsame.elim
      · rw [hleft] at hsame
        exact ih hsame hopen

/-- A batch, unless the strict store refuses something. -/
theorem Alike.batch (h : R store store') (hanswers : Answers Open R backend spec)
    (xxh3 : Bytes → UInt64) (batch : Batch C)
    (hopen : ∀ e, (Executor.batch xxh3 spec store' batch).2 = some e → ¬ Open e) :
    Alike R (Executor.batch xxh3 backend store batch).1 (Executor.batch xxh3 spec store' batch).1 ∧
      (Executor.batch xxh3 backend store batch).2 = (Executor.batch xxh3 spec store' batch).2 := by
  have hstart : Alike R (start store) (start store') := alike_mk h
  have hassign := hstart.steps (fun _ _ accountId halike => halike.assignChangeId hanswers accountId)
    batch.changes
  rw [Executor.batch, Executor.batch] at *
  generalize Executor.steps (Executor.assignChangeId backend) (start store) batch.changes = left,
    Executor.steps (Executor.assignChangeId spec) (start store') batch.changes = right at *
  obtain ⟨left, error⟩ := left
  obtain ⟨right, _ | error'⟩ := right
  · obtain ⟨halike, rfl⟩ := hassign fun e he => by cases he
    exact halike.steps (fun _ _ op halike => halike.operation hanswers xxh3 _ op) batch.ops hopen
  · obtain ⟨halike, rfl⟩ := hassign hopen
    exact ⟨halike, rfl⟩

end Executor

end Inworkspace.Write
