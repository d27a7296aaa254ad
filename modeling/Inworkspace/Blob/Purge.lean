import Inworkspace.Lib.BigEndian

/-!
# Purging blobs

Blobs are stored under the hash of their contents. For each blob the store has a key that says that
it is there, and one for each link to it: from a document, from something with an id, or a temporary
one that expires. All keys start with the hash, so those of one blob follow each other.
`purge_blobs` goes through the keys once; when the hash changes, it knows whether the last blob was
linked.

* `purgeBlobs`: the pass, over the bytes of the keys.
* `Live`: some link keeps the blob.
* `Purged`: what the state of the pass says of the keys so far.
* `purgeBlobs_marks`: a blob is marked if and only if it is not linked any more and some key has its
  hash, and so are the expired links. Whether the blob is known to be there does not matter: an
  interrupted upload leaves a temporary link only.

The hash of zeros, where the pass starts, is taken to be linked.
-/

namespace Inworkspace.Blob

open Lib.BigEndian List

/-- `BLOB_HASH_LEN`. -/
def blobHashLen : ℕ := 32

structure BlobHash where
  bytes : List ℕ
  length_bytes : bytes.length = blobHashLen
  deriving DecidableEq

def BlobHash.default : BlobHash := ⟨.replicate blobHashLen 0, List.length_replicate⟩

inductive BlobLink where
  | id (id : UInt64)
  | document
  | temporary (expires : UInt64)
  deriving DecidableEq

inductive BlobOp where
  | commit (hash : BlobHash)
  | link (hash : BlobHash) (target : BlobLink)
  deriving DecidableEq

/-- The hash of a key. -/
def BlobOp.hash : BlobOp → BlobHash
  | commit hash | link hash _ => hash

/-- A key, with the document it is written for. -/
structure BlobKey where
  accountId : UInt32
  collection : UInt8
  documentId : UInt32
  op : BlobOp
  deriving DecidableEq

section

variable (self : BlobKey)

/-- What follows the hash. -/
def BlobKey.linkBytes : List ℕ :=
  match self.op with
  | .commit _ => []
  | .link _ (.id id) => bigEndian 8 id.toNat
  | .link _ .document =>
    bigEndian 4 self.accountId.toNat ++ bigEndian 1 self.collection.toNat ++
      bigEndian 4 self.documentId.toNat
  | .link _ (.temporary expires) => bigEndian 4 self.accountId.toNat ++ bigEndian 8 expires.toNat

/-- `ValueKey::serialize` for blobs. -/
def BlobKey.serialize : List ℕ := self.op.hash.bytes ++ self.linkBytes

end

open BlobKey

/-! ## The pass -/

structure BlobPurgeState (ObjectId : Type) where
  lastHash : BlobHash
  lastHashIsLinked : Bool
  deleteKeys : List (Option UInt32 × BlobOp)
  deleteRegistry : List (UInt32 × ObjectId)
  now : UInt64
  totalDeleted : ℕ
  totalActive : ℕ

open BlobPurgeState

section Pass

variable {ObjectId : Type} (deserialize : List ℕ → Option ObjectId) (self : BlobPurgeState ObjectId)

def BlobPurgeState.new (now : UInt64) : BlobPurgeState ObjectId :=
  ⟨.default, true, [], [], now, 0, 0⟩

def BlobPurgeState.finalize (newHash : BlobHash) : BlobPurgeState ObjectId :=
  if self.lastHashIsLinked then
    { self with totalActive := self.totalActive + 1, lastHash := newHash }
  else
    { self with
      totalDeleted := self.totalDeleted + 1
      deleteKeys := self.deleteKeys ++ [(none, .commit self.lastHash)]
      lastHash := newHash }

def BlobPurgeState.updateHash (hash : BlobHash) : BlobPurgeState ObjectId :=
  if self.lastHash ≠ hash then { self.finalize hash with lastHashIsLinked := false } else self

def deserializeBeU64 (bytes : List ℕ) (index : ℕ) : UInt64 :=
  .ofNat (ofBigEndian ((bytes.drop index).take 8))

def deserializeBeU32 (bytes : List ℕ) (index : ℕ) : UInt32 :=
  .ofNat (ofBigEndian ((bytes.drop index).take 4))

/-- `BlobPurgeState::process_key`, with `ObjectId::deserialize`; nothing if a key or a value is
    corrupted. -/
def BlobPurgeState.processKey (key value : List ℕ) : Option (BlobPurgeState ObjectId) :=
  if key.length = blobHashLen then some self
  else if key.length = blobHashLen + 4 + 8 then
    let expires := deserializeBeU64 key (blobHashLen + 4)
    if expires ≤ self.now then
      let accountId := deserializeBeU32 key blobHashLen
      let self := { self with
        deleteKeys :=
          self.deleteKeys ++ [(some accountId, .link self.lastHash (.temporary expires))] }
      if value.length = 2 + 8 then do
        let objectId ← deserialize value
        return { self with deleteRegistry := self.deleteRegistry ++ [(accountId, objectId)] }
      else some self
    else some { self with lastHashIsLinked := true }
  else if key.length = blobHashLen + 8 + 1 ∨ key.length = blobHashLen + 8 then
    some { self with lastHashIsLinked := true }
  else none

/-- What `purge_blobs` does with a key and its value. -/
def BlobPurgeState.step (entry : List ℕ × List ℕ) : Option (BlobPurgeState ObjectId) :=
  if h : blobHashLen ≤ entry.1.length then
    let hash : BlobHash := ⟨entry.1.take blobHashLen, List.length_take_of_le h⟩
    (self.updateHash hash).processKey deserialize entry.1 entry.2
  else none

/-- The pass of `purge_blobs` over the keys of a shard. -/
def purgeBlobs (now : UInt64) (entries : List (List ℕ × List ℕ)) :
    Option (BlobPurgeState ObjectId) := do
  let state ← entries.foldlM (step deserialize) (.new now)
  return state.finalize .default

end Pass

/-! ## What keeps a blob -/

/-- The key is a link that has not expired. -/
def BlobKey.links (self : BlobKey) (now : UInt64) : Bool :=
  match self.op with
  | .commit _ => false
  | .link _ (.id _) | .link _ .document => true
  | .link _ (.temporary expires) => now < expires

/-- The key is a temporary link that has expired, and what is marked for it. -/
def BlobKey.expired (self : BlobKey) (now : UInt64) : Option (Option UInt32 × BlobOp) :=
  match self.op with
  | .link hash (.temporary expires) =>
    if expires ≤ now then some (some self.accountId, .link hash (.temporary expires)) else none
  | _ => none

/-- What is deleted from the registry with a link that has expired. -/
def BlobKey.registryItem {ObjectId : Type} (deserialize : List ℕ → Option ObjectId)
    (self : BlobKey) (now : UInt64) (value : List ℕ) : Option (UInt32 × ObjectId) :=
  if (self.expired now).isSome ∧ value.length = 10 then
    (deserialize value).map (self.accountId, ·)
  else none

/-- Some link keeps the blob. -/
def Live (now : UInt64) (keys : List BlobKey) (hash : BlobHash) : Prop :=
  ∃ key ∈ keys, key.op.hash = hash ∧ key.links now

section Key

variable {ObjectId : Type} {deserialize : List ℕ → Option ObjectId} {key key' : BlobKey}
  (self : BlobPurgeState ObjectId)

/-- How many bytes follow the hash. -/
def BlobOp.linkLen : BlobOp → ℕ
  | commit _ => 0
  | link _ (.id _) => 8
  | link _ .document => 9
  | link _ (.temporary _) => 12

theorem BlobKey.length_serialize : key.serialize.length = blobHashLen + key.op.linkLen := by
  rw [serialize, length_append, key.op.hash.length_bytes, linkBytes]
  rcases key.op with hash | ⟨hash, _ | _ | _⟩ <;> simp [BlobOp.linkLen]

/-- In the order of the keys the hashes are in order. -/
theorem BlobKey.hash_not_lt (h : key.serialize < key'.serialize) :
    ¬ key'.op.hash.bytes < key.op.hash.bytes := by
  intro hlt
  have hlength : key'.op.hash.bytes.length = key.op.hash.bytes.length := by
    rw [key.op.hash.length_bytes, key'.op.hash.length_bytes]
  exact lt_asymm h (append_lt_append_of_length_eq hlength hlt _ _)

/-- A blob is there, is linked, or has a link that has expired. -/
theorem processKey_serialize (value : List ℕ) (hhash : self.lastHash = key.op.hash)
    (hvalue : (key.expired self.now).isSome → value.length = 10 → (deserialize value).isSome) :
    self.processKey deserialize key.serialize value = some { self with
      lastHashIsLinked := self.lastHashIsLinked || key.links self.now
      deleteKeys := self.deleteKeys ++ (key.expired self.now).toList
      deleteRegistry :=
        self.deleteRegistry ++ (key.registryItem deserialize self.now value).toList } := by
  have hlength := key.length_serialize
  obtain ⟨accountId, collection, documentId, op⟩ := key
  rcases op with hash | ⟨hash, id | _ | expires⟩
  iterate 3
    next => simp [processKey, hlength, BlobOp.linkLen, links, expired, registryItem]
  -- a temporary link: its account and expiry are read back from the key
  · have hbytes : (mk accountId collection documentId (.link hash (.temporary expires))).serialize =
        hash.bytes ++ (bigEndian 4 accountId.toNat ++ bigEndian 8 expires.toNat) := rfl
    have haccount : deserializeBeU32 (hash.bytes ++
        (bigEndian 4 accountId.toNat ++ bigEndian 8 expires.toNat)) blobHashLen = accountId := by
      rw [deserializeBeU32, drop_left' hash.length_bytes, take_left' (length_bigEndian 4 _),
        ofBigEndian_bigEndian, Nat.mod_eq_of_lt (by exact accountId.toNat_lt), UInt32.ofNat_toNat]
    have hexpires : deserializeBeU64 (hash.bytes ++
        (bigEndian 4 accountId.toNat ++ bigEndian 8 expires.toNat)) (blobHashLen + 4) =
        expires := by
      have hlength : (hash.bytes ++ bigEndian 4 accountId.toNat).length = blobHashLen + 4 := by
        rw [length_append, hash.length_bytes, length_bigEndian]
      rw [deserializeBeU64, ← append_assoc, drop_left' hlength, take_of_length_le (by simp),
        ofBigEndian_bigEndian, Nat.mod_eq_of_lt (by exact expires.toNat_lt), UInt64.ofNat_toNat]
    rw [processKey, if_neg (by simp [hlength, BlobOp.linkLen]),
      if_pos (by simp [hlength, BlobOp.linkLen])]
    rw [hbytes, haccount, hexpires, hhash]
    simp only [links, expired, registryItem, BlobOp.hash] at hvalue ⊢
    by_cases hle : expires ≤ self.now
    · rw [if_pos hle] at hvalue ⊢
      by_cases hvalueLength : value.length = 10
      · obtain ⟨objectId, hobject⟩ := Option.isSome_iff_exists.mp (hvalue rfl hvalueLength)
        simp [hle, hvalueLength, hobject]
      · simp [hle, hvalueLength]
    · simp [hle, UInt64.not_le.mp hle]

/-- A key and its value are taken up with the hash of the key. -/
theorem step_serialize (value : List ℕ) :
    self.step deserialize (key.serialize, value) =
      (self.updateHash key.op.hash).processKey deserialize key.serialize value := by
  have hlength : blobHashLen ≤ key.serialize.length := by
    rw [length_serialize]
    exact Nat.le_add_right _ _
  have htake : key.serialize.take blobHashLen = key.op.hash.bytes := by
    rw [serialize, take_left' key.op.hash.length_bytes]
  rw [step, dif_pos hlength]
  simp only [htake]

/-- What is marked for a link is marked for no other key. -/
theorem BlobKey.serialize_eq_of_expired {now : UInt64} {mark : Option UInt32 × BlobOp}
    (h : key.expired now = some mark) (h' : key'.expired now = some mark) :
    key.serialize = key'.serialize := by
  obtain ⟨accountId, collection, documentId, op⟩ := key
  obtain ⟨accountId', collection', documentId', op'⟩ := key'
  rcases op with hash | ⟨hash, _ | _ | expires⟩ <;>
    rcases op' with hash' | ⟨hash', _ | _ | expires'⟩ <;> simp [expired] at h h'
  obtain ⟨-, rfl⟩ := h
  obtain ⟨-, h'⟩ := h'
  obtain ⟨rfl, rfl, rfl⟩ := h'
  rfl

/-- Only links are marked when they are met. -/
theorem BlobKey.expired_ne_commit {now : UInt64} {hash : BlobHash} :
    key.expired now ≠ some (none, .commit hash) := by
  rw [expired]
  rcases key.op with hash | ⟨hash, _ | _ | expires⟩ <;> simp

end Key

/-! ## What the pass has marked -/

/-- No bytes are below zeros of the same length. -/
theorem not_lt_replicate_zero (bytes : List ℕ) (n : ℕ) (h : bytes.length = n) :
    ¬ bytes < replicate n 0 := by
  induction bytes generalizing n with
  | nil =>
    subst h
    exact not_lt_nil _
  | cons byte bytes ih =>
    subst h
    rw [length_cons, replicate_succ, cons_lt_cons_iff]
    rintro (hlt | ⟨-, hlt⟩)
    · exact Nat.not_lt_zero _ hlt
    · exact ih _ rfl hlt

/-- No hash is before the first one. -/
theorem BlobHash.not_lt_default (hash : BlobHash) : ¬ hash.bytes < BlobHash.default.bytes :=
  not_lt_replicate_zero _ _ hash.length_bytes

theorem BlobHash.lt_of_ne {hash hash' : BlobHash} (hne : hash ≠ hash')
    (hnot : ¬ hash'.bytes < hash.bytes) : hash.bytes < hash'.bytes := by
  rcases lt_trichotomy hash.bytes hash'.bytes with hlt | heq | hgt
  · exact hlt
  · obtain ⟨bytes, hlength⟩ := hash
    subst heq
    exact absurd rfl hne
  · exact absurd hgt hnot

/-- Some key has the hash of the blob, and no link keeps it. -/
structure Dead (now : UInt64) (keys : List BlobKey) (hash : BlobHash) : Prop where
  ne_default : hash ≠ .default
  known : ∃ key ∈ keys, key.op.hash = hash
  not_live : ¬ Live now keys hash

section Marks

variable {ObjectId : Type} {deserialize : List ℕ → Option ObjectId} {now : UInt64}
  {keys : List BlobKey} {key : BlobKey} {hash : BlobHash} {state : BlobPurgeState ObjectId}

theorem live_append :
    Live now (keys ++ [key]) hash ↔
      Live now keys hash ∨ key.op.hash = hash ∧ key.links now = true := by
  simp [Live]

/-- A key says nothing of other blobs. -/
theorem dead_append (hne : hash ≠ key.op.hash) :
    Dead now (keys ++ [key]) hash ↔ Dead now keys hash := by
  have hlive : Live now (keys ++ [key]) hash ↔ Live now keys hash :=
    live_append.trans (or_iff_left fun h => hne h.1.symm)
  have hknown : (∃ key' ∈ keys ++ [key], key'.op.hash = hash) ↔
      ∃ key' ∈ keys, key'.op.hash = hash := by
    simp [hne.symm]
  exact ⟨fun h => ⟨h.ne_default, hknown.mp h.known, fun hl => h.not_live (hlive.mpr hl)⟩,
    fun h => ⟨h.ne_default, hknown.mpr h.known, fun hl => h.not_live (hlive.mp hl)⟩⟩

/-- What the state says of the keys so far. The last blob is not marked yet: there may be more links
    to it. -/
structure Scanned (now : UInt64) (keys : List BlobKey) (state : BlobPurgeState ObjectId) :
    Prop where
  now_eq : state.now = now
  linked : state.lastHashIsLinked = true ↔
    state.lastHash = .default ∨ Live now keys state.lastHash
  marked : ∀ mark, mark ∈ state.deleteKeys ↔
    (∃ hash, mark = (none, .commit hash) ∧ hash ≠ state.lastHash ∧ Dead now keys hash) ∨
      ∃ key ∈ keys, key.expired now = some mark
  nodup : state.deleteKeys.Nodup
  active : state.lastHash = .default ∨ 1 ≤ state.totalActive

/-- In between, the last blob is the one of the last key. -/
structure Purged (now : UInt64) (keys : List BlobKey) (state : BlobPurgeState ObjectId) : Prop
    extends Scanned now keys state where
  ordered : ∀ key ∈ keys, ¬ state.lastHash.bytes < key.op.hash.bytes
  known : state.lastHash = .default ∨ ∃ key ∈ keys, key.op.hash = state.lastHash

theorem purged_new : Purged now [] (new now : BlobPurgeState ObjectId) where
  now_eq := rfl
  linked := iff_of_true rfl (.inl rfl)
  marked mark := by
    refine iff_of_false not_mem_nil ?_
    rintro (⟨hash, -, -, hdead⟩ | ⟨key, hkey, -⟩)
    · obtain ⟨key, hkey, -⟩ := hdead.known
      exact not_mem_nil hkey
    · exact not_mem_nil hkey
  nodup := nodup_nil
  active := .inl rfl
  ordered := nofun
  known := .inl rfl

/-- When a blob is done with, all blobs so far have been taken care of. -/
structure Finished (now : UInt64) (keys : List BlobKey) (state : BlobPurgeState ObjectId) :
    Prop where
  marked : ∀ mark, mark ∈ state.deleteKeys ↔
    (∃ hash, mark = (none, .commit hash) ∧ Dead now keys hash) ∨
      ∃ key ∈ keys, key.expired now = some mark
  nodup : state.deleteKeys.Nodup
  active : 1 ≤ state.totalActive

/-- When a blob ends it is known whether it is linked. -/
theorem Purged.finalize (h : Purged now keys state) (newHash : BlobHash) :
    Finished now keys (state.finalize newHash) := by
  rw [BlobPurgeState.finalize]
  split_ifs with hlinked
  · refine ⟨fun mark => (h.marked mark).trans (or_congr_left ?_), h.nodup, Nat.le_add_left 1 _⟩
    refine exists_congr fun hash => and_congr_right fun _ => and_iff_right_of_imp ?_
    rintro hdead rfl
    rcases h.linked.mp hlinked with hdefault | hlive
    · exact hdead.ne_default hdefault
    · exact hdead.not_live hlive
  · -- the last blob is marked with the others
    have hlast : Dead now keys state.lastHash := by
      have hnot := mt h.linked.mpr hlinked
      rw [not_or] at hnot
      exact ⟨hnot.1, h.known.resolve_left hnot.1, hnot.2⟩
    refine ⟨fun mark => ?_, ?_, ?_⟩
    · rw [mem_append, mem_singleton, h.marked, or_right_comm]
      refine or_congr_left ⟨?_, ?_⟩
      · rintro (⟨hash, hmark, -, hdead⟩ | hmark)
        · exact ⟨hash, hmark, hdead⟩
        · exact ⟨_, hmark, hlast⟩
      · rintro ⟨hash, rfl, hdead⟩
        by_cases heq : hash = state.lastHash
        · exact .inr (by rw [heq])
        · exact .inl ⟨hash, rfl, heq, hdead⟩
    · refine Nodup.append h.nodup (nodup_singleton _) ?_
      rw [disjoint_singleton, h.marked]
      rintro (⟨hash, hmark, hne, -⟩ | ⟨key, -, hexpired⟩)
      · simp only [Prod.mk.injEq, BlobOp.commit.injEq, true_and] at hmark
        exact hne hmark.symm
      · exact expired_ne_commit hexpired
    · exact h.active.resolve_left hlast.ne_default

/-- The state is ready for the links of the next key's blob. -/
theorem Purged.updateHash (h : Purged now keys state) (hnot : ¬ hash.bytes < state.lastHash.bytes) :
    Scanned now keys (state.updateHash hash) ∧ (state.updateHash hash).lastHash = hash := by
  rw [BlobPurgeState.updateHash]
  split_ifs with hne
  · -- the keys of the new blob are still to come
    have hlt := BlobHash.lt_of_ne hne hnot
    have hunknown : ¬ ∃ key ∈ keys, key.op.hash = hash := by
      rintro ⟨key, hkey, rfl⟩
      exact h.ordered key hkey hlt
    have hdefault : hash ≠ .default := by
      rintro rfl
      exact BlobHash.not_lt_default _ hlt
    have hfinished := h.finalize hash
    have hlast : (state.finalize hash).lastHash = hash := by
      rw [BlobPurgeState.finalize]
      split_ifs <;> rfl
    have hnow : (state.finalize hash).now = now := by
      rw [BlobPurgeState.finalize, ← h.now_eq]
      split_ifs <;> rfl
    refine ⟨⟨hnow, ?_, fun mark => ?_, hfinished.nodup, .inr hfinished.active⟩, hlast⟩
    · refine iff_of_false Bool.false_ne_true ?_
      rw [hlast, not_or]
      exact ⟨hdefault, fun ⟨key, hkey, heq, _⟩ => hunknown ⟨key, hkey, heq⟩⟩
    · rw [hfinished.marked, hlast]
      refine or_congr_left (exists_congr fun hash' => and_congr_right fun _ => ?_)
      refine (and_iff_right_of_imp ?_).symm
      rintro hdead rfl
      exact hunknown hdead.known
  · exact ⟨h.toScanned, not_not.mp hne⟩

section

variable (hsorted : ∀ key' ∈ keys, key'.serialize < key.serialize) {value : List ℕ}
  (hvalue : (key.expired now).isSome → value.length = 10 → (deserialize value).isSome)

include hsorted hvalue

/-- The key of the last blob is taken up. -/
theorem Scanned.processKey (h : Scanned now keys state) (hlast : state.lastHash = key.op.hash) :
    ∃ state', state.processKey deserialize key.serialize value = some state' ∧
      Purged now (keys ++ [key]) state' := by
  obtain rfl := h.now_eq
  refine ⟨_, processKey_serialize state value hlast hvalue, ?_⟩
  -- keys come in order, so none is marked twice
  have hnew : ∀ mark ∈ key.expired state.now, mark ∉ state.deleteKeys := by
    intro mark hmark hmem
    rcases (h.marked mark).mp hmem with ⟨hash, rfl, -⟩ | ⟨key', hkey', hexpired⟩
    · exact expired_ne_commit hmark
    · exact (hsorted key' hkey').ne (serialize_eq_of_expired hexpired hmark)
  refine ⟨⟨rfl, ?_, fun mark => ?_, ?_, h.active⟩, ?_, ?_⟩
  · rw [Bool.or_eq_true, h.linked, live_append, or_assoc, hlast]
    simp
  · rw [mem_append, h.marked, Option.mem_toList]
    have hdead (hash : BlobHash) : hash ≠ state.lastHash ∧ Dead state.now keys hash ↔
        hash ≠ state.lastHash ∧ Dead state.now (keys ++ [key]) hash :=
      and_congr_right fun hne => (dead_append (hlast ▸ hne)).symm
    simp only [hdead, mem_append, mem_singleton, or_and_right, exists_or, exists_eq_left, or_assoc]
  · refine Nodup.append h.nodup ?_ ?_
    · cases key.expired state.now with
      | none => exact nodup_nil
      | some mark => exact nodup_singleton _
    · intro mark hmem hmark
      exact hnew mark (Option.mem_toList.mp hmark) hmem
  · intro key' hkey'
    rw [hlast]
    rcases mem_append.mp hkey' with hkey' | hkey'
    · exact hash_not_lt (hsorted key' hkey')
    · rw [mem_singleton.mp hkey']
      exact lt_irrefl _
  · exact .inr ⟨key, by simp, hlast.symm⟩

/-- The next key is taken up. -/
theorem Purged.step (h : Purged now keys state) :
    ∃ state', state.step deserialize (key.serialize, value) = some state' ∧
      Purged now (keys ++ [key]) state' := by
  have hnot : ¬ key.op.hash.bytes < state.lastHash.bytes := by
    rcases h.known with hdefault | ⟨key', hkey', heq⟩
    · rw [hdefault]
      exact BlobHash.not_lt_default _
    · rw [← heq]
      exact hash_not_lt (hsorted key' hkey')
  obtain ⟨hscanned, hlast⟩ := h.updateHash hnot
  rw [step_serialize]
  exact hscanned.processKey hsorted hvalue hlast

end

/-- The scan goes through with all entries, which come in the order of their keys. -/
theorem Purged.foldlM (h : Purged now keys state) {entries : List (BlobKey × List ℕ)}
    (hsorted : (keys ++ entries.map Prod.fst).Pairwise fun key key' =>
      key.serialize < key'.serialize)
    (hvalues : ∀ entry ∈ entries, (entry.1.expired now).isSome → entry.2.length = 10 →
      (deserialize entry.2).isSome) :
    ∃ state', (entries.map fun entry => (entry.1.serialize, entry.2)).foldlM
        (BlobPurgeState.step deserialize) state = some state' ∧
      Purged now (keys ++ entries.map Prod.fst) state' := by
  induction entries generalizing keys state with
  | nil => exact ⟨state, rfl, by simpa using h⟩
  | cons entry entries ih =>
    rw [forall_mem_cons] at hvalues
    rw [map_cons, append_cons] at hsorted
    have hbefore : ∀ key' ∈ keys, key'.serialize < entry.1.serialize := by
      have hpair := (pairwise_append.mp hsorted).1
      exact fun key' hkey' => (pairwise_append.mp hpair).2.2 key' hkey' entry.1 mem_cons_self
    obtain ⟨state₁, hstep, h₁⟩ := h.step hbefore hvalues.1
    obtain ⟨state', hfold, h'⟩ := ih h₁ hsorted hvalues.2
    refine ⟨state', ?_, ?_⟩
    · rw [map_cons, foldlM_cons, hstep]
      exact hfold
    · rwa [map_cons, append_cons]

end Marks

/-- The pass ends and has marked, each of them once, the temporary links that have expired and the
    blobs that no link keeps, of which there is some key and whose hash is not zero. The blobs that
    are kept are counted with the one the pass starts with. -/
theorem purgeBlobs_marks {ObjectId : Type} (deserialize : List ℕ → Option ObjectId) (now : UInt64)
    (entries : List (BlobKey × List ℕ))
    (hsorted : (entries.map Prod.fst).Pairwise fun key key' => key.serialize < key'.serialize)
    (hvalues : ∀ entry ∈ entries, (entry.1.expired now).isSome → entry.2.length = 10 →
      (deserialize entry.2).isSome) :
    ∃ state, purgeBlobs deserialize now (entries.map fun entry => (entry.1.serialize, entry.2)) =
        some state ∧
      (∀ mark, mark ∈ state.deleteKeys ↔
        (∃ hash, mark = (none, .commit hash) ∧ hash ≠ .default ∧
          (∃ key ∈ entries.map Prod.fst, key.op.hash = hash) ∧
          ¬ Live now (entries.map Prod.fst) hash) ∨
        ∃ key ∈ entries.map Prod.fst, key.expired now = some mark) ∧
      state.deleteKeys.Nodup ∧ 1 ≤ state.totalActive := by
  obtain ⟨state, hfold, hpurged⟩ := (purged_new).foldlM (by simpa using hsorted) hvalues
  have hfinished := hpurged.finalize .default
  refine ⟨state.finalize .default, ?_, fun mark => (hfinished.marked mark).trans ?_,
    hfinished.nodup, hfinished.active⟩
  · rw [purgeBlobs, hfold]
    rfl
  · refine or_congr_left (exists_congr fun hash => and_congr_right fun _ => ?_)
    exact ⟨fun h => ⟨h.ne_default, h.known, h.not_live⟩, fun h => ⟨h.1, h.2.1, h.2.2⟩⟩

def uploadHash : BlobHash := ⟨.replicate 32 7, rfl⟩

/-- An upload for account 3 has been announced, until second 100. -/
def uploadLink : BlobKey := ⟨3, 0, 0, .link uploadHash (.temporary 100)⟩

/-- Interrupted uploads are marked, although it is not known that they are there. -/
theorem purgeBlobs_uploadLink :
    (purgeBlobs (fun _ => some ()) 200 [(uploadLink.serialize, [])]).map deleteKeys =
      some [(some 3, .link uploadHash (.temporary 100)), (none, .commit uploadHash)] := by
  decide +kernel

/-- A document that has the upload. -/
def documentLink : BlobKey := ⟨3, 1, 9, .link uploadHash .document⟩

/-- An upload that a document links to stays, but not its temporary link. -/
theorem purgeBlobs_documentLink :
    ∃ state, purgeBlobs (fun _ => some ()) 200
        [(uploadHash.bytes, []), (uploadLink.serialize, []), (documentLink.serialize, [])] =
          some state ∧
      (none, .commit uploadHash) ∉ state.deleteKeys ∧
      (some 3, .link uploadHash (.temporary 100)) ∈ state.deleteKeys := by
  have hsorted : [mk 0 0 0 (.commit uploadHash), uploadLink, documentLink].Pairwise
      fun key key' => key.serialize < key'.serialize := by decide +kernel
  obtain ⟨state, hstate, hmarked, -⟩ := purgeBlobs_marks (fun _ => some ()) 200
    [(⟨0, 0, 0, .commit uploadHash⟩, []), (uploadLink, []), (documentLink, [])]
    hsorted (by decide +kernel)
  refine ⟨state, hstate, ?_, ?_⟩
  · rw [hmarked]
    rintro (⟨hash, hmark, -, -, hnot⟩ | ⟨key, -, hexpired⟩)
    · obtain rfl : uploadHash = hash := by simpa using hmark
      exact hnot ⟨documentLink, by simp, rfl, rfl⟩
    · exact expired_ne_commit hexpired
  · exact (hmarked _).mpr (.inr ⟨uploadLink, by simp, by decide +kernel⟩)

end Inworkspace.Blob
