import Inworkspace.Write.Backends

/-!
# Agreement of the backends

A negative number that is added to a counter that is missing leaves a negative counter in the
ephemeral store and in RocksDB, and none in SQLite (`runs_negativeQuota`). There are a few more
cases of this kind. A store that refuses them (`strict`) says when the backends agree: they answer
all other requests as it does (`answers_ephemeral`, `answers_rocksdb`, `answers_sqlite`), so after
batches in which it refuses nothing they are equal, and have returned the same (`runs_agree`).
-/

namespace Inworkspace.Write

open Lib.Outcome Option

/-! ## The strict store -/

/-- What is stored: bytes, or a counter. -/
inductive Entry where
  | bytes (bytes : Bytes)
  | counter (value : Int64)
  deriving DecidableEq

/-- The entries by subspace and key. -/
abbrev Entries := UInt8 → Bytes → Option Entry

/-- The error of the strict store where it refuses a request. -/
def refused : Error := .other "refused"

variable (entries : Entries)

/-- A counter to which a number is added, unless the sum is out of range. -/
def addCounter (subspace : UInt8) (key : Bytes) (value : Int64) :
    Option Entry → Except Error (Entries × Int64)
  | some (.counter current) =>
    if inRange (current.toInt + value.toInt) then
      .ok (assign entries subspace key (some (.counter (current + value))), current + value)
    else .error refused
  | some (.bytes _) => .error refused
  | none => .ok (assign entries subspace key (some (.counter value)), value)

/-- A store that keeps counters and values apart, and refuses what the backends do not agree about:
    a negative number added to a missing counter, sums beyond 64 bits, counters and values in
    subspaces of the others, and values where there are keys only. -/
def strict : Backend Entries := fun entries request =>
  match request with
  | .get subspace key =>
    if subspace ∈ valueSubspaces then
      match entries subspace key with
      | some (.bytes bytes) => .ok (entries, some bytes)
      | some (.counter _) => .error refused
      | none => .ok (entries, none)
    else .error refused
  | .set subspace key value =>
    if subspace ∈ valueSubspaces ∨ subspace = subspaceRegistryIdx ∧ value = [] then
      .ok (assign entries subspace key (some (.bytes value)), ())
    else .error refused
  | .put subspace key value =>
    if subspace ∈ valueSubspaces then .ok (assign entries subspace key (some (.bytes value)), ())
    else .error refused
  | .atomicAdd subspace key value =>
    if subspace ∈ counterSubspaces ∧ (0 ≤ value ∨ (entries subspace key).isSome) then do
      let (entries, _) ← addCounter entries subspace key value (entries subspace key)
      return (entries, ())
    else .error refused
  | .addAndGet subspace key value =>
    if subspace ∈ counterSubspaces then
      addCounter entries subspace key value (entries subspace key)
    else .error refused
  | .clear subspace key =>
    if subspace ∈ valueSubspaces ∨ subspace ∈ counterSubspaces ∨ subspace ∈ keySubspaces then
      .ok (assign entries subspace key none, ())
    else .error refused
  | .setIndex key => .ok (assign entries subspaceIndexes key (some (.bytes [])), ())
  | .clearIndex key => .ok (assign entries subspaceIndexes key none, ())
  | .setLog key value => .ok (assign entries subspaceLogs key (some (.bytes value)), ())

/-! ## Agreement -/

namespace Entry

/-- An entry in the ephemeral store and in RocksDB. -/
def toBytes : Entry → Bytes
  | .bytes value => value
  | .counter value => toLeBytes value

def toSqlite : Entry → SqliteValue
  | .bytes value => .blob value
  | .counter value => .integer value

end Entry

/-- The contents of a store with the entries. -/
def contents : Contents :=
  fun subspace key => (entries subspace key).map Entry.toBytes

/-- The tables with the entries. -/
def tables : SqliteTables :=
  fun subspace key => (entries subspace key).map Entry.toSqlite

theorem map_assign {V W : Type} {f : V → W} (rows : UInt8 → Bytes → Option V) (subspace : UInt8)
    (key : Bytes) (value : Option V) :
    (fun subspace' key' => (assign rows subspace key value subspace' key').map f) =
      assign (fun subspace' key' => (rows subspace' key').map f) subspace key (value.map f) := by
  funext subspace' key'
  rw [assign, assign]
  split <;> rfl

section Rows

variable {S : Type} {get : S → Contents} {write : S → UInt8 → Bytes → Option Bytes → S} {store : S}
  {entries}

section

variable (hwrite : ∀ store subspace key value,
  get (write store subspace key value) = assign (get store) subspace key value)

include hwrite

/-- A step that the strict store takes too. -/
theorem get_write_of_eq (h : get store = contents entries) (subspace : UInt8) (key : Bytes)
    (value : Option Entry) : get (write store subspace key (value.map Entry.toBytes)) =
      contents (assign entries subspace key value) := by
  rw [hwrite, h]
  exact (map_assign entries subspace key value).symm

/-- Counters are added up alike, unless the sum overflows. -/
theorem related_addToCounter (h : get store = contents entries) (subspace : UInt8) (key : Bytes)
    (value : Int64) :
    RelatedUnless (· = refused)
      (fun reply reply' => get reply.1 = contents reply'.1 ∧ reply.2 = reply'.2)
      (addToCounter get write store subspace key value)
      (addCounter entries subspace key value (entries subspace key)) := by
  have hassign (sum : Int64) := get_write_of_eq hwrite h subspace key (some (.counter sum))
  rw [addToCounter, h, contents]
  rcases entries subspace key with _ | bytes | current
  · refine .ok ⟨?_, Int64.zero_add value⟩
    rw [Int64.zero_add]
    exact hassign value
  · exact .of_open rfl
  · rw [map_some, Entry.toBytes, counterOf, deserializeI64Le, fromLeBytes_toLeBytes]
    exact .ite rfl fun _ => .ok ⟨hassign (current + value), rfl⟩

/-- A store with values under keys answers as the strict one does. -/
theorem answers_rows :
    Answers (· = refused) (fun store entries => get store = contents entries) (rows get write)
      strict := by
  intro store entries request h
  have hassign := get_write_of_eq hwrite h
  cases request with
  | get subspace key =>
    refine .ite rfl fun _ => ?_
    have hget := congrFun (congrFun h subspace) key
    rw [contents] at hget
    -- a counter read as a value is where the stores may differ, and is refused
    rcases hentry : entries subspace key with _ | bytes | current
    · exact .ok ⟨h, by rw [hget, hentry]; rfl⟩
    · exact .ok ⟨h, by rw [hget, hentry]; rfl⟩
    · exact .of_open rfl
  | set subspace key value | put subspace key value =>
    exact .ite rfl fun _ => .ok ⟨hassign subspace key (some (.bytes value)), rfl⟩
  | atomicAdd =>
    exact .ite rfl fun _ => (related_addToCounter hwrite h _ _ _).bind
      fun _ _ hreply => .ok ⟨hreply.1, rfl⟩
  | addAndGet => exact .ite rfl fun _ => related_addToCounter hwrite h _ _ _
  | clear subspace key => exact .ite rfl fun _ => .ok ⟨hassign subspace key none, rfl⟩
  | setIndex key => exact .ok ⟨hassign subspaceIndexes key (some (.bytes [])), rfl⟩
  | clearIndex key => exact .ok ⟨hassign subspaceIndexes key none, rfl⟩
  | setLog key value => exact .ok ⟨hassign subspaceLogs key (some (.bytes value)), rfl⟩

end

end Rows

theorem answers_ephemeral :
    Answers (· = refused) (fun store entries => id store = contents entries) ephemeral strict :=
  answers_rows fun _ _ _ _ => rfl

theorem numericValueMerge_toLeBytes (current : Option Int64) (value : Int64) :
    numericValueMerge (current.map toLeBytes) [toLeBytes value] =
      some (toLeBytes (current.elim value (· + value))) := by
  cases current <;> simp [numericValueMerge, fromLeBytes_toLeBytes]

/-- RocksDB answers as the strict store does. -/
theorem answers_rocksdb :
    Answers (· = refused) (fun txn entries => txn.get = contents entries) rocksdb strict := by
  intro txn entries request h
  have hrows := answers_rows Transaction.get_write txn entries request h
  cases request
  case atomicAdd subspace key value =>
    have hassign (sum : Int64) :=
      get_write_of_eq Transaction.get_write h subspace key (some (.counter sum))
    rw [rocksdb, h, contents]
    -- RocksDB adds with its merge operator, on the bytes of the counter
    refine .ite rfl fun hcounter => ?_
    rw [if_pos hcounter.1]
    rcases entries subspace key with _ | bytes | current
    · rw [map_none, ← map_none, numericValueMerge_toLeBytes]
      exact .ok ⟨hassign value, rfl⟩
    · exact .of_open rfl
    rw [map_some, Entry.toBytes, ← map_some, numericValueMerge_toLeBytes, addCounter]
    dsimp only [Option.elim]
    split
    · exact .ok ⟨hassign (current + value), rfl⟩
    · exact .of_open rfl
  all_goals exact hrows

/-! ### SQLite -/

/-- Where there are keys only, entries are empty. -/
def KeysOnly : Prop :=
  ∀ subspace ∈ keySubspaces, ∀ key entry, entries subspace key = some entry → entry = .bytes []

variable {subspace : UInt8} {entries} (number : Bytes → SqliteValue)

theorem KeysOnly.tables_assign (h : KeysOnly entries) (key : Bytes) (value : Option Entry)
    (hvalue : subspace ∈ keySubspaces → ∀ entry, value = some entry → entry = .bytes []) :
    assign (tables entries) subspace key (value.map Entry.toSqlite) =
      tables (assign entries subspace key value) ∧ KeysOnly (assign entries subspace key value) := by
  refine ⟨(map_assign entries subspace key value).symm, ?_⟩
  intro subspace' hsubspace key' entry hentry
  rw [Write.assign] at hentry
  split at hentry
  · rename_i hkey
    exact hvalue (hkey.1 ▸ hsubspace) entry hentry
  · exact h subspace' hsubspace key' entry hentry

/-- A row of a table with keys only is there or not. -/
theorem insertOrIgnore_tables (h : KeysOnly entries) (hsubspace : subspace ∈ keySubspaces)
    (key : Bytes) :
    insertOrIgnore (tables entries) subspace key =
        tables (assign entries subspace key (some (.bytes []))) ∧
      KeysOnly (assign entries subspace key (some (.bytes []))) := by
  obtain ⟨hassign, hkeys⟩ := h.tables_assign key (some (.bytes [])) fun _ _ hentry =>
    (some.inj hentry).symm
  refine ⟨?_, hkeys⟩
  rw [← hassign, insertOrIgnore]
  split
  · rename_i hsome
    rw [tables, isSome_map, isSome_iff_exists] at hsome
    obtain ⟨entry, hentry⟩ := hsome
    funext subspace' key'
    rw [Write.assign]
    split
    · rename_i hkey
      rw [tables, hkey.1, hkey.2, hentry, h subspace hsubspace key entry hentry]
    · rfl
  · rfl

theorem disjoint_keySubspaces (h : subspace ∈ valueSubspaces ∨ subspace ∈ counterSubspaces) :
    subspace ∉ keySubspaces := by
  intro hkey
  rw [keySubspaces, List.mem_cons, List.mem_singleton] at hkey
  rcases hkey with rfl | rfl <;> revert h <;> decide +kernel

/-- SQLite inserts a counter or adds to it. -/
theorem related_insertOrAdd (h : KeysOnly entries) (hsubspace : subspace ∈ counterSubspaces)
    (key : Bytes) (value : Int64) :
    RelatedUnless (· = refused)
      (fun reply reply' => (reply.1 = tables reply'.1 ∧ KeysOnly reply'.1) ∧
        reply.2 = .integer reply'.2) (insertOrAdd number (tables entries) subspace key value)
      (addCounter entries subspace key value (entries subspace key)) := by
  have hassign (sum : Int64) := h.tables_assign key (some (.counter sum)) fun hkey =>
    absurd hkey (disjoint_keySubspaces (.inr hsubspace))
  rw [insertOrAdd, if_pos (.inr hsubspace)]
  rcases hentry : entries subspace key with _ | bytes | current
  · rw [tables, hentry]
    exact .ok ⟨hassign value, rfl⟩
  · exact .of_open rfl
  refine .ite rfl fun hrange => ?_
  rw [tables, hentry]
  dsimp only [map_some, Entry.toSqlite, SqliteValue.add]
  rw [if_pos hrange]
  exact .ok ⟨hassign (current + value), rfl⟩

/-- SQLite answers as the strict store does. -/
theorem answers_sqlite :
    Answers (· = refused) (fun rows entries => rows = tables entries ∧ KeysOnly entries)
      (sqlite number) strict := by
  rintro _ entries request ⟨rfl, h⟩
  have hassign {subspace : UInt8} (hsubspace : subspace ∈ valueSubspaces) (key value : Bytes) :=
    h.tables_assign key (some (.bytes value)) fun hkey =>
      absurd hkey (disjoint_keySubspaces (.inl hsubspace))
  have hclear (subspace : UInt8) (key : Bytes) : assign (tables entries) subspace key none =
      tables (assign entries subspace key none) ∧ KeysOnly (assign entries subspace key none) :=
    h.tables_assign key none nofun
  rcases request with ⟨subspace, key⟩ | ⟨subspace, key, value⟩ | ⟨subspace, key, value⟩ |
    ⟨subspace, key, value⟩ | ⟨subspace, key, value⟩ | ⟨subspace, key⟩ | key | key | ⟨key, value⟩
  · refine .ite rfl fun hvalue => ?_
    rw [sqlite, if_pos (.inl hvalue), tables]
    rcases entries subspace key with _ | bytes | current
    · exact .ok ⟨⟨rfl, h⟩, rfl⟩
    · exact .ok ⟨⟨rfl, h⟩, rfl⟩
    · exact .of_open rfl
  · refine .ite rfl fun hset => ?_
    rw [sqlite]
    rcases hset with hvalue | ⟨rfl, rfl⟩
    · have hne : subspace ≠ subspaceRegistryIdx := by
        rintro rfl
        exact disjoint_keySubspaces (.inl hvalue) (by decide)
      rw [if_pos hne, insertOrReplace, if_pos (.inl hvalue)]
      exact .ok ⟨hassign hvalue key value, rfl⟩
    · exact .ok ⟨insertOrIgnore_tables h (by decide) key, rfl⟩
  · refine .ite rfl fun hvalue => ?_
    rw [sqlite, insertOrReplace, if_pos (.inl hvalue)]
    exact .ok ⟨hassign hvalue key value, rfl⟩
  · refine .ite rfl fun hcounter => ?_
    have hadd := related_insertOrAdd number h hcounter.1 key value
    rw [sqlite]
    split
    · exact hadd.bind fun _ _ hreply => .ok ⟨hreply.1, rfl⟩
    -- the row is there, so the update does what the insertion would
    rename_i hneg
    obtain ⟨entry, hentry⟩ := isSome_iff_exists.mp (hcounter.2.resolve_left hneg)
    rw [insertOrAdd, if_pos (.inr hcounter.1)] at hadd
    rw [if_pos (.inr hcounter.1)]
    have hrow : tables entries subspace key = some entry.toSqlite := by
      rw [tables, hentry]
      rfl
    rw [hrow] at hadd ⊢
    refine hadd.bind (f := fun reply => .ok (reply.1, ())) fun reply reply' hreply => ?_
    exact RelatedUnless.ok ⟨hreply.1, rfl⟩
  · refine .ite rfl fun hcounter => ?_
    rw [← bind_pure (addCounter entries subspace key value _)]
    refine (related_insertOrAdd number h hcounter key value).bind
      fun ⟨rows, sum⟩ ⟨entries', sum'⟩ ⟨hrows, hsum⟩ => ?_
    obtain rfl : sum = .integer sum' := hsum
    exact .ok ⟨hrows, rfl⟩
  · refine .ite rfl fun hknown => ?_
    rw [sqlite, if_pos hknown]
    exact .ok ⟨hclear subspace key, rfl⟩
  · exact .ok ⟨insertOrIgnore_tables h (by decide) key, rfl⟩
  · exact .ok ⟨hclear subspaceIndexes key, rfl⟩
  · exact .ok ⟨hassign (by decide) key value, rfl⟩

/-! ## Runs -/

variable {S S' T C : Type}

/-- The store after a write and what was returned, if it succeeded. -/
def committed (written : S × Except Error AssignedIds) : Except Error (S × AssignedIds) :=
  written.2.map fun ids => (written.1, ids)

/-- Batches as long as they succeed: the store, and what was returned. -/
def runs (write : S → Batch C → S × Except Error AssignedIds) :
    S → List (Batch C) → Except Error (S × List AssignedIds)
  | store, [] => .ok (store, [])
  | store, batch :: batches => do
    let (store, ids) ← committed (write store batch)
    let (store, rest) ← runs write store batches
    return (store, ids :: rest)

/-- What a batch has led to, if no operation has failed. -/
def finished (f : S → S') : Executor S × Option Error → Except Error (S' × AssignedIds)
  | (self, none) => .ok (f self.store, self.result)
  | (_, some error) => .error error

variable [ValueClass C] {Open : Error → Prop} (R : S' → T → Prop) {backend : Backend S}

/-- Backends that answer alike commit alike. -/
theorem related_finished (f : S → S') {spec : Backend T}
    (hanswers : Answers Open (fun store => R (f store)) backend spec) (xxh3 : Bytes → UInt64)
    {store : S} {store' : T} (h : R (f store) store') (batch : Batch C) :
    RelatedUnless Open (fun reply reply' => R reply.1 reply'.1 ∧ reply.2 = reply'.2)
      (finished f (Executor.batch xxh3 backend store batch))
      (committed (writeTransaction xxh3 spec store' batch)) := by
  have hbatch := Executor.Alike.batch (R := fun store => R (f store)) h hanswers xxh3 batch
  rw [writeTransaction]
  generalize Executor.batch xxh3 spec store' batch = outcome at hbatch ⊢
  generalize Executor.batch xxh3 backend store batch = outcome' at hbatch ⊢
  obtain ⟨right, error⟩ := outcome
  obtain ⟨left, error'⟩ := outcome'
  intro hopen
  rcases error with _ | error
  · obtain ⟨halike, rfl⟩ := hbatch fun e he => by cases he
    exact ⟨halike.store, halike.result⟩
  · obtain ⟨-, rfl⟩ := hbatch fun e he => hopen e (congrArg Except.error (some.inj he))
    rfl

/-- If one store answers as the other does, they are related after all batches. -/
theorem related_runs (f : S → S') (start : S' → S) (hstart : ∀ store, f (start store) = store)
    {spec : Backend T} (hanswers : Answers Open (fun store => R (f store)) backend spec)
    (xxh3 : Bytes → UInt64) (write : S' → Batch C → S' × Except Error AssignedIds)
    (hwrite : ∀ store batch, committed (write store batch) =
      finished f (Executor.batch xxh3 backend (start store) batch)) {store : S'} {store' : T}
    (h : R store store') (batches : List (Batch C)) :
    RelatedUnless Open (fun reply reply' => R reply.1 reply'.1 ∧ reply.2 = reply'.2)
      (runs write store batches) (runs (writeTransaction xxh3 spec) store' batches) := by
  induction batches generalizing store store' with
  | nil => exact .ok ⟨h, rfl⟩
  | cons batch batches ih =>
    have hstore : R (f (start store)) store' := by rwa [hstart]
    have hbatch := related_finished R f hanswers xxh3 hstore batch
    rw [← hwrite] at hbatch
    refine hbatch.bind fun ⟨store₁, ids⟩ ⟨store₁', ids'⟩ ⟨h₁, hids⟩ => ?_
    obtain rfl : ids = ids' := hids
    refine (ih h₁).bind fun ⟨store₂, rest⟩ ⟨store₂', rest'⟩ ⟨h₂, hrest⟩ => ?_
    obtain rfl : rest = rest' := hrest
    exact .ok ⟨h₂, rfl⟩

/-- The bytes of a value, unless it is out of range. -/
def SqliteValue.toBytes : SqliteValue → Option Bytes
  | .blob bytes => some bytes
  | .integer value => some (toLeBytes value)
  | .real => none

def sqliteContents (tables : SqliteTables) : Contents :=
  fun subspace key => (tables subspace key).bind SqliteValue.toBytes

theorem sqliteContents_tables : sqliteContents (tables entries) = contents entries := by
  funext subspace key
  rw [sqliteContents, tables, contents]
  rcases entries subspace key with _ | bytes | value <;> rfl

/-- The strict store has refused a request. -/
def isRefused {α : Type} : Except Error α → Bool
  | .error error => error = refused
  | .ok _ => false

/-- From empty stores, after batches in which the strict store refuses nothing, RocksDB, SQLite and
    the ephemeral store have the same contents and counters, and have returned the same ids. -/
theorem runs_agree (xxh3 : Bytes → UInt64) (number : Bytes → SqliteValue) (batches : List (Batch C))
    (h : isRefused (runs (writeTransaction xxh3 strict) (fun _ _ => none) batches) = false) :
    runs (writeRocksdb xxh3) (fun _ _ => none) batches =
        runs (writeEphemeral xxh3) (fun _ _ => none) batches ∧
      (runs (writeSqlite xxh3 number) (fun _ _ => none) batches).map
          (fun run => (sqliteContents run.1, run.2)) =
        runs (writeEphemeral xxh3) (fun _ _ => none) batches := by
  have hopen : ∀ e, runs (writeTransaction xxh3 strict) (fun _ _ => none) batches = .error e →
      ¬ e = refused := by
    rintro e he rfl
    rw [he] at h
    exact absurd h (by decide)
  -- each store agrees with the strict one, as long as that one refuses nothing
  have hephemeral := related_runs (· = contents ·) id id (fun _ => rfl) answers_ephemeral xxh3
    (writeEphemeral xxh3) (fun store batch => by
      rw [writeEphemeral, writeInPlace, id]
      rcases Executor.batch xxh3 ephemeral store batch with ⟨self, _ | error⟩ <;> rfl)
    rfl batches hopen
  have hrocksdb := related_runs (· = contents ·) Transaction.get (⟨·, []⟩) (fun _ => rfl)
    answers_rocksdb xxh3 (writeRocksdb xxh3) (fun db batch => by
      rw [writeRocksdb]
      rcases Executor.batch xxh3 rocksdb ⟨db, []⟩ batch with ⟨self, _ | error⟩ <;> rfl)
    rfl batches hopen
  have hsqlite := related_runs (fun rows entries => rows = tables entries ∧ KeysOnly entries) id id
    (fun _ => rfl) (answers_sqlite number) xxh3 (writeSqlite xxh3 number) (fun rows batch => by
      rw [writeSqlite, writeTransaction, id]
      rcases Executor.batch xxh3 (sqlite number) rows batch with ⟨self, _ | error⟩ <;> rfl)
    ⟨rfl, fun _ _ _ _ hentry => by cases hentry⟩ batches hopen
  have hephemeral' := hephemeral.map_eq_map (f := id) (g := fun run => (contents run.1, run.2))
    fun run run' hrun => Prod.ext hrun.1 hrun.2
  have hrocksdb' := hrocksdb.map_eq_map (f := id) (g := fun run => (contents run.1, run.2))
    fun run run' hrun => Prod.ext hrun.1 hrun.2
  have hsqlite' := hsqlite.map_eq_map (f := fun run => (sqliteContents run.1, run.2))
    (g := fun run => (contents run.1, run.2)) fun run run' hrun =>
      Prod.ext (hrun.1.1 ▸ sqliteContents_tables) hrun.2
  rw [Except.map_id] at hephemeral' hrocksdb'
  exact ⟨hrocksdb'.trans hephemeral'.symm, hsqlite'.trans hephemeral'.symm⟩

/-- A value is written and asserted, and a quota is counted up and down. -/
def quotaCounted : List (Batch AccountClass) :=
  [⟨[1], [.accountId 1, .collection 4, .documentId 7, .value (.property 50) (.set [1, 2]),
      .value .quota (.atomicAdd 100), .log 4 [0]]⟩,
    ⟨[], [.accountId 1, .collection 4, .documentId 7, .assertValue (.property 50) .some,
      .value (.property 50) .clear, .value .quota (.atomicAdd (-40)),
      .value .quota (.addAndGet 1)]⟩]

theorem runs_agree_quotaCounted :
    runs (writeRocksdb fun _ => 0) (fun _ _ => none) quotaCounted =
        runs (writeEphemeral fun _ => 0) (fun _ _ => none) quotaCounted ∧
      (runs (writeSqlite (fun _ => 0) .blob) (fun _ _ => none) quotaCounted).map
          (fun run => (sqliteContents run.1, run.2)) =
        runs (writeEphemeral fun _ => 0) (fun _ _ => none) quotaCounted :=
  runs_agree (fun _ => 0) .blob quotaCounted (by decide +kernel)

/-- A number is taken from a quota that was never counted. -/
def negativeQuota : List (Batch AccountClass) :=
  [⟨[], [.accountId 1, .value .quota (.atomicAdd (-40))]⟩]

/-- The key of the quota of account 1. -/
def quotaKey : Bytes := AccountClass.serialize 1 0 0 .quota

/-- Then there is a negative quota, but not in SQLite. -/
theorem runs_negativeQuota :
    ¬ ((runs (writeSqlite (fun _ => 0) .blob) (fun _ _ => none) negativeQuota).map
          (fun run => (sqliteContents run.1, run.2)) =
        runs (writeEphemeral fun _ => 0) (fun _ _ => none) negativeQuota) := by
  intro h
  have hquota := congrArg (Except.map fun run => run.1 subspaceCounter quotaKey) h
  revert hquota
  decide +kernel

end Inworkspace.Write
