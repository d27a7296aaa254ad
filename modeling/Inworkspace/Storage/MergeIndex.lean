import Inworkspace.Storage.ObjectIndex

/-!
# Merging two index values

What one value gives: the rows under its keys (`IndexValue.rows`) and what it counts
(`IndexValue.used`). An update looks at the values of the two versions that stand at the same
place. `exists_updateIndex` says what it does there: the rows of the old value are replaced by
those of the new one, nothing else changes, and the counters get the difference (`Merged`).
-/

namespace Inworkspace.Storage

open Lib.Batch IndexValue IndexItem List AclGrant
open Write (Bytes Call ArchiveVersion beBytes)

variable {P : Type} (counter : Counter) (calls calls' : Calls P) (env : Env)

/-! ## Counters -/

/-- What calls add to a counter. -/
def total (counter : Counter) (calls : Calls P) : Int64 :=
  calls.foldl (fun total call => total + added counter call) 0

theorem foldl_added (calls : Calls P) (start : Int64) :
    calls.foldl (fun total call => total + added counter call) start =
      start + total counter calls := by
  rw [total]
  induction calls generalizing start with
  | nil => exact (Int64.add_zero start).symm
  | cons call calls ih =>
    rw [foldl_cons, foldl_cons, ih, ih (0 + _), Int64.zero_add, Int64.add_assoc]

theorem total_append :
    total counter (calls ++ calls') = total counter calls + total counter calls' := by
  rw [total, foldl_append, foldl_added]
  rfl

/-- The counter is one of the account or of the tenant. -/
def Counter.isFor (tenantId : Option UInt32) : Counter → Bool
  | .quota => true
  | .tenantQuota id => tenantId = some id

theorem total_addQuota (value : Int64) (counter : Counter) :
    total counter (env.addQuota value : Calls P) =
      if counter.isFor env.tenantId then value else 0 := by
  rw [Env.addQuota]
  rcases env.tenantId with _ | tenantId <;> rcases counter with _ | id <;>
    simp [total, added, ObjectClass.counter, Counter.isFor]

variable {calls} {env} {old new : IndexValue P} {items : List AclGrant} {item : IndexValue P}
  {key : DerivedKey P}

/-- Calls that are not about counters. -/
theorem total_eq_zero {counter : Counter} (h : ∀ call ∈ calls, added counter call = 0) :
    total counter calls = 0 := by
  induction calls with
  | nil => rfl
  | cons call calls ih =>
    rw [forall_mem_cons] at h
    rw [total, foldl_cons, foldl_added, ih h.2, h.1]
    rfl

/-- What a value counts. -/
def IndexValue.used : IndexValue P → Int64
  | .quota used => Int64.ofNat used.toNat
  | _ => 0

/-- What values count together. -/
def usedBy : List (IndexValue P) → Int64
  | [] => 0
  | item :: values => item.used + usedBy values

/-! ## Rows -/

/-- The rows of an access list. -/
def aclRows (items : List AclGrant) : List (DerivedKey P × Bytes) :=
  items.map fun item => (.acl item.accountId, beBytes 8 item.grants.bitmap.toNat)

theorem mem_aclRows :
    key ∈ (aclRows items).map Prod.fst ↔ ∃ item ∈ items, key = .acl item.accountId := by
  rw [aclRows, map_map, mem_map]
  exact exists_congr fun item => and_congr_right fun _ => eq_comm

namespace IndexValue

variable (item)

/-- The rows that a value gives. -/
def rows : IndexValue P → List (DerivedKey P × Bytes)
  | .index field value =>
    if isEmpty value then [] else [(.index field (asSlice value), [])]
  | .property field value => value.toList.map fun bytes => (.property field, bytes)
  | .blob value => [(.blobLink value, [])]
  | .acl value => aclRows value
  | _ => []

/-- The keys that a value names; that of a property also without a value. -/
def keys : IndexValue P → List (DerivedKey P)
  | .property field _ => [.property field]
  | value => value.rows.map Prod.fst

end IndexValue

theorem isAssert_of_rowOp {call : Call (ObjectClass P)} {op : Op (DerivedKey P) Bytes}
    (h : rowOp call = some op) : op.isAssert = false := by
  rw [rowOp.eq_def] at h
  split at h
  · cases h
    rfl
  · cases h
    rfl
  · obtain ⟨_, _, rfl⟩ := Option.map_eq_some_iff.mp h
    rfl
  · obtain ⟨_, _, rfl⟩ := Option.map_eq_some_iff.mp h
    rfl
  · cases h

/-- Accounts that get rights have rows with them. -/
theorem filterMap_aclGrant (rights : AclGrant → Bitmap Acl) (items : List AclGrant) :
    (items.flatMap fun item =>
        (env.aclGrant (rights item) item : Calls P)).filterMap rowOp =
      (aclRows items).map fun row => Op.set row.1 row.2 := by
  rw [filterMap_flatMap, aclRows, map_map]
  exact flatMap_pure_eq_map _ _

theorem filterMap_aclRevoke (items : List AclGrant) :
    (items.flatMap fun item => (env.aclRevoke item : Calls P)).filterMap rowOp =
      (items.map fun item => DerivedKey.acl item.accountId).map Op.clear := by
  rw [filterMap_flatMap, map_map]
  exact flatMap_pure_eq_map _ _

/-- The operations of a changed access list. -/
theorem filterMap_mergeAcl (old new : List AclGrant) :
    (mergeAcl env old new : Calls P).filterMap rowOp =
      ((old.filter fun current => !new.any (·.accountId = current.accountId)).map
          fun item => DerivedKey.acl item.accountId).map Op.clear ++
        (aclRows (new.filter fun item => (changedRights old item).isSome)).map
          fun row => Op.set row.1 row.2 := by
  have hchanged : (new.flatMap (aclUpdate env old) : Calls P) =
        (new.filter fun item => (changedRights old item).isSome).flatMap fun item =>
          env.aclGrant ((changedRights old item).getD .new) item := by
    induction new with
    | nil => rfl
    | cons item new ih =>
      rw [flatMap_cons, ih, aclUpdate]
      rcases hrights : changedRights old item with _ | rights
      · rw [filter_cons_of_neg (by simp [hrights])]
        rfl
      · rw [filter_cons_of_pos (by simp [hrights]), flatMap_cons, hrights]
        rfl
  -- the code takes empty lists apart, and does the same for them
  rcases old with _ | ⟨first, old⟩
  · have hall : new.filter (fun item => (changedRights [] item).isSome) = new :=
      filter_eq_self.mpr fun _ _ => rfl
    rw [hall, ← filterMap_aclGrant fun _ => .new]
    rcases new with _ | ⟨item, new⟩ <;> rfl
  · rcases new with _ | ⟨item, new⟩
    · have hall : (first :: old).filter (fun current =>
          !([] : List AclGrant).any (·.accountId = current.accountId)) = first :: old :=
        filter_eq_self.mpr fun _ _ => rfl
      rw [hall, ← filterMap_aclRevoke]
      exact (append_nil _).symm
    · rw [mergeAcl]
      dsimp only [isEmpty_cons]
      rw [hchanged, filterMap_append, filterMap_aclRevoke, filterMap_aclGrant]

theorem filterMap_addQuota (value : Int64) :
    (env.addQuota value : Calls P).filterMap rowOp = [] := by
  rw [Env.addQuota]
  rcases env.tenantId with _ | tenantId <;> rfl

/-- An insertion sets the rows of a value, and a deletion clears them. -/
theorem filterMap_buildIndex (set : Bool) :
    (buildIndex env item set).filterMap rowOp =
      if set then item.rows.map fun row => Op.set row.1 row.2
      else (item.rows.map Prod.fst).map Op.clear := by
  rcases item with ⟨field, value⟩ | ⟨field, _ | bytes⟩ | _ | value | used | _ | ⟨_, ids⟩ | _ | value
  case index =>
    rw [buildIndex, rows]
    split <;> cases set <;> rfl
  case quota =>
    refine (filterMap_addQuota _).trans ?_
    cases set <;> rfl
  case logContainerProperty => simp [buildIndex, rows, rowOp]
  case acl =>
    cases set with
    | true => exact filterMap_aclGrant _ value
    | false =>
      refine (filterMap_aclRevoke value).trans ?_
      rw [if_neg Bool.false_ne_true, rows, aclRows, map_map, map_map, map_map]
      rfl
  all_goals cases set <;> rfl

theorem added_aclGrant (rights : Bitmap Acl) (item : AclGrant) (counter : Counter) :
    ∀ call ∈ (env.aclGrant rights item : Calls P), added counter call = 0 := by
  rw [Env.aclGrant, forall_mem_cons, forall_mem_singleton]
  exact ⟨rfl, rfl⟩

theorem added_aclRevoke (item : AclGrant) (counter : Counter) :
    ∀ call ∈ (env.aclRevoke item : Calls P), added counter call = 0 := by
  rw [Env.aclRevoke, forall_mem_cons, forall_mem_singleton]
  exact ⟨rfl, rfl⟩

/-- Calls for values that are not quotas add nothing. -/
theorem added_buildIndex (h : ∀ used, item ≠ .quota used) (env : Env) (set : Bool)
    (counter : Counter) : ∀ call ∈ buildIndex env item set, added counter call = 0 := by
  rcases item with ⟨field, value⟩ | ⟨field, value⟩ | _ | value | used | _ | ⟨_, ids⟩ | _ | value
  case quota => exact absurd rfl (h used)
  case index | property =>
    rw [buildIndex]
    split
    · simp
    · cases set <;> simp [added]
  case acl =>
    rw [buildIndex]
    split <;> refine forall_mem_flatMap.mpr fun item _ => ?_
    · exact added_aclGrant _ item counter
    · exact added_aclRevoke item counter
  all_goals cases set <;> simp [buildIndex, Env.scheduleTask, added]

theorem total_buildIndex (set : Bool) (counter : Counter) :
    total counter (buildIndex env item set) =
      if counter.isFor env.tenantId then if set then item.used else -item.used else 0 := by
  by_cases h : ∃ used, item = .quota used
  · obtain ⟨used, rfl⟩ := h
    rw [buildIndex, total_addQuota]
    rfl
  · have hused : item.used = 0 := by rcases item <;> first | rfl | exact absurd ⟨_, rfl⟩ h
    rw [total_eq_zero (added_buildIndex (fun used heq => h ⟨used, heq⟩) env set counter), hused]
    simp

/-! ## Merging two values -/

variable [DecidableEq P]

/-- What calls do to a derived key. -/
def effectOf (calls : Calls P) (key : DerivedKey P) : Option (Option Bytes) :=
  effect (calls.filterMap rowOp) key

theorem effectOf_append (key : DerivedKey P) :
    effectOf (calls ++ calls') key = (effectOf calls' key <|> effectOf calls key) := by
  rw [effectOf, filterMap_append, effect_append, effectOf, effectOf]

/-- The values can be merged at one place: they are of one kind, a search field stays the same, the
    class of a property changes only if there is a value, an empty value does not become none, or
    vice versa, and an account is in an access list once. -/
def IndexValue.mergeable : IndexValue P → IndexValue P → Bool
  | .index field _, .index field' value' => field = field' ∨ isEmpty value' = true
  | .property field value, .property field' value' =>
    if field = field' then
      asSlice value = asSlice value' → value.isNone = value'.isNone
    else value'.isSome
  | .acl value, .acl value' =>
    (value.map accountId).Nodup ∧ (value'.map accountId).Nodup
  | .logContainer syncCollection, .logContainer syncCollection' =>
    syncCollection = syncCollection'
  | .searchIndex _ _, .searchIndex _ _ | .blob _, .blob _ | .quota _, .quota _ => true
  | .logContainerProperty _ _, .logContainerProperty _ _ | .logItem _ _, .logItem _ _ => true
  | _, _ => false

/-- Calls that bring the derived data of one value to that of another. -/
structure Merged (env : Env) (old new : IndexValue P) (calls : Calls P) : Prop where
  /-- Keys that neither value names stay. -/
  frame : ∀ key, key ∉ old.keys → key ∉ new.keys → effectOf calls key = none
  /-- The rows of the old value become those of the new one. -/
  row : ∀ key, (effectOf calls key).getD (lastRow old.rows key) = lastRow new.rows key
  /-- Only keys of the old value are cleared. -/
  clears : ∀ key, effectOf calls key = some none → key ∈ old.keys
  /-- Nothing is done if the values are the same. -/
  same : old.eq new = true → ∀ key, effectOf calls key = none
  /-- The difference is added to the counters. -/
  counted : ∀ counter, total counter calls =
    if counter.isFor env.tenantId then new.used - old.used else 0

/-- Calls that do nothing to keys, for values that give the same rows. -/
theorem Merged.of_nothing (hcalls : calls.filterMap rowOp = []) (hrows : old.rows = new.rows)
    (hcounted : ∀ counter, total counter calls =
      if counter.isFor env.tenantId then new.used - old.used else 0) : Merged env old new calls := by
  have heffect (key : DerivedKey P) : effectOf calls key = none := by
    rw [effectOf, hcalls]
    rfl
  refine ⟨fun key _ _ => heffect key, ?_, ?_, fun _ => heffect, hcounted⟩
  · intro key
    rw [heffect, hrows]
    rfl
  · intro key hclear
    rw [heffect] at hclear
    cases hclear

omit [DecidableEq P] in
/-- Values that count the same, and calls that add nothing. -/
theorem counted_of_used_eq (hadded : ∀ counter, ∀ call ∈ calls, added counter call = 0)
    (hused : old.used = new.used) (counter : Counter) : total counter calls =
      if counter.isFor env.tenantId then new.used - old.used else 0 := by
  rw [total_eq_zero (hadded counter), hused, Int64.sub_self, ite_self]

/-- Values that are the same and can be merged give the same. -/
theorem IndexValue.rows_eq_of_eq (heq : old.eq new = true) (h : old.mergeable new = true) :
    old.rows = new.rows ∧ old.used = new.used := by
  rcases old with ⟨field, value⟩ | ⟨field, value⟩ | _ | value | used | _ | _ | _ | value <;>
    rcases new with ⟨field', value'⟩ | ⟨field', value'⟩ | _ | value' | used' | _ | _ | _ | value' <;>
    try exact absurd heq Bool.false_ne_true
  case index.index =>
    obtain ⟨rfl, hvalue⟩ := of_decide_eq_true heq
    rw [rows, rows, IndexItem.isEmpty, hvalue]
    exact ⟨rfl, rfl⟩
  case property.property =>
    obtain ⟨rfl, hvalue⟩ := of_decide_eq_true heq
    rw [mergeable, if_pos rfl, decide_eq_true_iff] at h
    -- no value and an empty one are equal for the code, but not their rows
    have hnone := h hvalue
    obtain rfl : value = value' := by
      rcases value with _ | bytes <;> rcases value' with _ | bytes' <;> try cases hnone
      · rfl
      · exact congrArg some hvalue
    exact ⟨rfl, rfl⟩
  case blob.blob | quota.quota | acl.acl =>
    obtain rfl := of_decide_eq_true heq
    exact ⟨rfl, rfl⟩
  all_goals exact ⟨rfl, rfl⟩

theorem IndexValue.lastRow_rows_of_not_mem (h : key ∉ item.keys) :
    lastRow item.rows key = none := by
  refine lastRow_eq_none_iff.mpr fun hmem => h ?_
  rcases item with _ | ⟨field, _ | bytes⟩ | _ | _ | _ | _ | _ | _ | _
  case property.none => cases hmem
  all_goals exact hmem

section Rows

variable (hne : old.eq new = false) (hadded : ∀ counter, ∀ call ∈ calls, added counter call = 0)
  (hused : old.used = new.used)

include hne hadded hused

/-- Keys of the old value are cleared, and rows of the new one set. -/
theorem Merged.of_ops {cleared : List (DerivedKey P)} {sets : List (DerivedKey P × Bytes)}
    (hops : calls.filterMap rowOp =
      cleared.map Op.clear ++ sets.map fun row => Op.set row.1 row.2)
    (hcleared : ∀ key ∈ cleared, key ∈ old.keys)
    (hsets : ∀ key ∈ sets.map Prod.fst, key ∈ new.keys ∧ lastRow sets key = lastRow new.rows key)
    (hothers : ∀ key, key ∉ sets.map Prod.fst →
      lastRow new.rows key = if key ∈ cleared then none else lastRow old.rows key) :
    Merged env old new calls := by
  -- all keys are cleared before any is set, so the last set decides
  have heffect (key : DerivedKey P) : effectOf calls key =
      ((lastRow sets key).map some <|> if key ∈ cleared then some none else none) := by
    rw [effectOf, hops, effect_append, effect_map_rows, effect_map_clear]
  refine ⟨?_, ?_, ?_, ?_, ?_⟩
  · intro key hold hnew
    have hset : lastRow sets key = none :=
      lastRow_eq_none_iff.mpr fun hmem => hnew (hsets key hmem).1
    rw [heffect, hset, if_neg fun hmem => hold (hcleared key hmem)]
    rfl
  · intro key
    by_cases hmem : key ∈ sets.map Prod.fst
    · obtain ⟨value, hvalue⟩ := Option.ne_none_iff_exists'.mp fun hnone =>
        lastRow_eq_none_iff.mp hnone hmem
      rw [heffect, ← (hsets key hmem).2, hvalue]
      rfl
    · rw [heffect, lastRow_eq_none_iff.mpr hmem, hothers key hmem]
      split <;> rfl
  · intro key hclear
    rw [heffect] at hclear
    rcases hset : lastRow sets key with _ | value
    · by_contra hold
      rw [hset, if_neg fun hmem => hold (hcleared key hmem)] at hclear
      cases hclear
    · rw [hset] at hclear
      cases hclear
  · intro heq
    rw [hne] at heq
    cases heq
  · exact counted_of_used_eq hadded hused

/-- The keys of the old value are cleared, and the rows of the new one set. -/
theorem Merged.of_replace (hops : calls.filterMap rowOp =
      old.keys.map Op.clear ++ new.rows.map fun row => Op.set row.1 row.2) :
    Merged env old new calls := by
  refine .of_ops hne hadded hused hops (fun _ hkey => hkey) ?_ ?_
  · intro key hmem
    refine ⟨?_, rfl⟩
    by_contra hkey
    exact lastRow_eq_none_iff.mp (lastRow_rows_of_not_mem hkey) hmem
  · intro key hmem
    rw [lastRow_eq_none_iff.mpr hmem]
    split
    · rfl
    · rename_i hkey
      exact (lastRow_rows_of_not_mem hkey).symm

end Rows

omit [DecidableEq P] in
/-- Changes of grants add to no counter. -/
theorem added_mergeAcl (old new : List AclGrant) (counter : Counter) :
    ∀ call ∈ (mergeAcl env old new : Calls P), added counter call = 0 := by
  rw [mergeAcl]
  split
  · exact forall_mem_nil _
  · rw [forall_mem_append, forall_mem_flatMap, forall_mem_flatMap]
    refine ⟨fun item _ => added_aclRevoke item counter, fun item _ => ?_⟩
    rw [aclUpdate]
    split
    · exact added_aclGrant _ item counter
    · exact forall_mem_nil _
  · exact forall_mem_flatMap.mpr fun item _ => added_aclGrant _ item counter
  · exact forall_mem_flatMap.mpr fun item _ => added_aclRevoke item counter

/-- The row of an account in an access list in which accounts are different. -/
theorem lastRow_aclRows (h : (items.map accountId).Nodup) (accountId : ℕ) :
    lastRow (aclRows items : List (DerivedKey P × Bytes)) (.acl accountId) =
      (items.find? (·.accountId = accountId)).map fun item =>
        beBytes 8 item.grants.bitmap.toNat := by
  have hkeys : (items.map fun item => (DerivedKey.acl item.accountId : DerivedKey P)).Nodup := by
    refine Nodup.of_map (fun key => match key with | .acl id => id | _ => 0) ?_
    rwa [map_map]
  rw [aclRows, lastRow_map hkeys]
  simp only [DerivedKey.acl.injEq]

/-- An access list with different accounts is merged account by account. -/
theorem merged_acl {old new : List AclGrant} (hold : (old.map accountId).Nodup)
    (hnew : (new.map accountId).Nodup) (hne : old ≠ new) :
    Merged env (.acl old : IndexValue P) (.acl new) (mergeAcl env old new) := by
  have hsets : ((new.filter fun item => (changedRights old item).isSome).map
      accountId).Nodup := hnew.sublist (filter_sublist.map _)
  have hfind {items : List AclGrant} {item : AclGrant}
      (hnodup : (items.map accountId).Nodup) (hitem : item ∈ items) :
      items.find? (·.accountId = item.accountId) = some item :=
    Lib.KeyedList.find?_eq_some hnodup hitem
  refine .of_ops (decide_eq_false hne) (added_mergeAcl old new) rfl (filterMap_mergeAcl old new)
    ?_ ?_ ?_
  · intro key hkey
    obtain ⟨item, hitem, rfl⟩ := mem_map.mp hkey
    exact mem_aclRows.mpr ⟨item, mem_of_mem_filter hitem, rfl⟩
  · intro key hkey
    obtain ⟨item, hitem, rfl⟩ := mem_aclRows.mp hkey
    have hin : item ∈ new := mem_of_mem_filter hitem
    refine ⟨mem_aclRows.mpr ⟨item, hin, rfl⟩, ?_⟩
    rw [rows, lastRow_aclRows hsets, lastRow_aclRows hnew, hfind hsets hitem, hfind hnew hin]
  · intro key hkey
    rw [rows, rows]
    by_cases hin : ∃ item ∈ new, key = .acl item.accountId
    · -- the account has rights, and it had the same ones
      obtain ⟨item, hitem, rfl⟩ := hin
      have hsame : changedRights old item = none := by
        by_contra hchanged
        exact hkey (mem_aclRows.mpr ⟨item, mem_filter.mpr ⟨hitem,
          Option.isSome_iff_ne_none.mpr hchanged⟩, rfl⟩)
      rw [changedRights] at hsame
      rw [if_neg, lastRow_aclRows hnew, lastRow_aclRows hold, hfind hnew hitem]
      · split at hsame
        · rename_i current hcurrent
          split at hsame
          · rename_i hgrants
            rw [hcurrent, Option.map_some, Option.map_some, hgrants]
          · cases hsame
        · cases hsame
      · intro hcleared
        obtain ⟨current, hcurrent, haccount⟩ := mem_map.mp hcleared
        have hnot := (mem_filter.mp hcurrent).2
        rw [Bool.not_eq_true', any_eq_false] at hnot
        exact hnot item hitem (decide_eq_true (DerivedKey.acl.inj haccount).symm)
    · -- the account has no rights, and it has lost them if it had some
      rw [lastRow_eq_none_iff.mpr fun h => hin (mem_aclRows.mp h)]
      split
      · rfl
      rename_i hcleared
      refine (lastRow_eq_none_iff.mpr fun h => hcleared ?_).symm
      obtain ⟨current, hcurrent, rfl⟩ := mem_aclRows.mp h
      refine mem_map.mpr ⟨current, mem_filter.mpr ⟨hcurrent, ?_⟩, rfl⟩
      rw [Bool.not_eq_true', any_eq_false]
      intro item hitem haccount
      exact hin ⟨item, hitem, by rw [of_decide_eq_true haccount]⟩

/-- A property gets another value, or none. -/
theorem merged_property {field : P} {old new : IndexItem} (hne : asSlice old ≠ asSlice new) :
    Merged env (.property field old : IndexValue P) (.property field new)
      (if new.isSome then [.value (.set (.property field) (asSlice new))]
        else [.value (.clear (.property field))]) := by
  have heq : (property field old).eq (.property field new) = false :=
    decide_eq_false fun h => hne h.2
  rcases new with _ | bytes
  · exact .of_replace heq (fun _ => forall_mem_singleton.mpr rfl) rfl rfl
  have hops : ([.value (.set (.property field) bytes)] : Calls P).filterMap
      rowOp = ([] : List (DerivedKey P)).map Op.clear ++
        [(DerivedKey.property field, bytes)].map fun row => Op.set row.1 row.2 := rfl
  refine .of_ops heq (fun _ => forall_mem_singleton.mpr rfl) rfl hops (forall_mem_nil _) ?_ ?_
  · intro key hkey
    exact ⟨hkey, rfl⟩
  · intro key hkey
    exact (lastRow_rows_of_not_mem hkey).trans (lastRow_rows_of_not_mem hkey).symm

/-- A value is indexed under another one. -/
theorem merged_index {field field' : UInt8} {old new : IndexItem}
    (h : field = field' ∨ isEmpty new = true)
    (hne : (index field old : IndexValue P).eq (.index field' new) = false) :
    Merged env (.index field old : IndexValue P) (.index field' new)
      ((if isEmpty old then [] else [.value (.unindex field (asSlice old))]) ++
      if isEmpty new then [] else [.value (.index field (asSlice new))]) := by
  refine .of_replace hne ?_ rfl ?_
  · intro counter
    split <;> split <;> simp [added]
  · rw [filterMap_append, IndexValue.keys, rows, rows]
    · congr 1
      · split <;> rfl
      · split
        · rfl
        · rename_i hsome
          rw [h.resolve_right hsome]
          rfl
    · exact fun _ _ heq => by cases heq

/-- Two different values that can be merged are. -/
theorem exists_mergeIndex (h : old.mergeable new = true) (hne : old.eq new = false) :
    ∃ calls, mergeIndex env old new = some calls ∧ Merged env old new calls := by
  rcases old with ⟨field, value⟩ | ⟨field, value⟩ | _ | value | used | _ | _ | _ | value <;>
    rcases new with ⟨field', value'⟩ | ⟨field', value'⟩ | _ | value' | used' | _ | _ | _ | value' <;>
    try exact absurd h Bool.false_ne_true
  case index.index => exact ⟨_, rfl, merged_index (of_decide_eq_true h) hne⟩
  case property.property =>
    rw [mergeIndex]
    by_cases hfield : field = field'
    · rw [hfield] at hne ⊢
      have hvalue : asSlice value ≠ asSlice value' := fun heq => of_decide_eq_false hne ⟨rfl, heq⟩
      rw [if_neg (not_not.mpr rfl), if_pos hvalue.symm, ← apply_ite some]
      exact ⟨_, rfl, merged_property hvalue⟩
    · rw [mergeable, if_neg hfield] at h
      obtain ⟨bytes, rfl⟩ := Option.isSome_iff_exists.mp h
      rw [if_pos hfield]
      refine ⟨_, rfl, .of_replace hne (fun counter => ?_) rfl rfl⟩
      rw [forall_mem_cons, forall_mem_singleton]
      exact ⟨rfl, rfl⟩
  case blob.blob =>
    refine ⟨_, rfl, .of_replace hne (fun counter => ?_) rfl rfl⟩
    rw [forall_mem_cons, forall_mem_singleton]
    exact ⟨rfl, rfl⟩
  case acl.acl =>
    obtain ⟨hold, hnew⟩ := of_decide_eq_true h
    exact ⟨_, rfl, merged_acl hold hnew (of_decide_eq_false hne)⟩
  case quota.quota =>
    exact ⟨_, rfl, .of_nothing (filterMap_addQuota _) rfl (total_addQuota env _)⟩
  case logContainer.logContainer => exact absurd (of_decide_eq_true h) (of_decide_eq_false hne)
  -- nothing is derived from tasks and logs
  case logContainerProperty.logContainerProperty =>
    refine ⟨_, rfl, .of_nothing (filterMap_eq_nil_iff.mpr ?_) rfl
      (counted_of_used_eq (fun _ => ?_) rfl)⟩ <;> exact forall_mem_map.mpr fun _ _ => rfl
  all_goals
    refine ⟨_, rfl, .of_nothing rfl rfl (counted_of_used_eq (fun _ => ?_) rfl)⟩
    exact forall_mem_cons.mpr ⟨rfl, forall_mem_singleton.mpr rfl⟩

/-- Two values that can be merged are. -/
theorem exists_updateIndex (env : Env) (h : old.mergeable new = true) :
    ∃ calls, updateIndex env old new = some calls ∧ Merged env old new calls := by
  rcases heq : old.eq new with _ | _
  · have hmerge : updateIndex env old new = mergeIndex env old new := by
      rw [updateIndex.eq_def, heq, if_neg Bool.false_ne_true]
    rw [hmerge]
    exact exists_mergeIndex h heq
  · obtain ⟨hrows, hused⟩ := rows_eq_of_eq heq h
    rw [updateIndex.eq_def, heq, if_pos rfl]
    split <;> refine ⟨_, rfl, .of_nothing ?_ hrows (counted_of_used_eq (fun _ => ?_) hused)⟩ <;>
      simp [rowOp, added]

end Inworkspace.Storage
