import Inworkspace.Storage.ObjectIndex

/-!
# Archives

`store::write::serialize`. A value is stored as the bytes that `rkyv` writes for it, which are
compressed if they are many and get fewer by that. Behind them stand a hash, the id of the change
and a marker, as far as the flags say so; the id of the change is put in when the value is
committed (`stamp`). A reader takes these parts off and checks the hash.

What is stored is read back (`readsBack_stored`). The length of a compressed value is stored in 32
bits, and `rkyv` writes relative pointers of 32 bits: an archive has fewer than 2 ^ 32 bytes.
-/

namespace Inworkspace.Storage.Archiver

open Lib.BigEndian Write List Option

/-- `MAGIC_MARKER`. -/
def magicMarker : UInt8 := 0x80

/-- `VERSIONED`. -/
def versioned : UInt8 := 0x40

/-- `HASHED`. -/
def hashed : UInt8 := 0x20

/-- `LZ4_COMPRESSED`. -/
def lz4Compressed : UInt8 := 0x10

/-- `COMPRESS_WATERMARK`. -/
def compressWatermark : ℕ := 8192

def has (marker flag : UInt8) : Bool := marker &&& flag ≠ 0

/-- `lz4_flex`: what `compress_into` writes, and what `decompress_into` leaves in a buffer. -/
structure Lz4 where
  compress : Bytes → Bytes
  decompress : Bytes → ℕ → Option Bytes
  decompress_compress : ∀ bytes, decompress (compress bytes) bytes.length = some bytes

variable (lz4 : Lz4) (xxh3 : Bytes → UInt64)

/-- There are many bytes, and fewer if they are compressed. -/
def Compresses (input : Bytes) : Prop :=
  compressWatermark < input.length ∧ (lz4.compress input).length < input.length

instance (input : Bytes) : Decidable (Compresses lz4 input) := inferInstanceAs (Decidable (_ ∧ _))

/-- The hash in an archive. -/
def hash32 (bytes : Bytes) : UInt32 := (xxh3 bytes).toUInt32

/-- What stands behind the contents. -/
def finish (flags marker : UInt8) (version contents : Bytes) : Bytes :=
  contents ++ (if has flags hashed then beBytes 4 (hash32 xxh3 contents).toNat else []) ++
    version ++ [marker]

/-- `Archiver::serialize`, for a value that `rkyv` writes as `input`. -/
def serialize (flags : UInt8) (input : Bytes) : Bytes :=
  let versionOffset := if has flags versioned then 8 else 0
  if Compresses lz4 input then
    -- the buffer has been filled with the marker
    let marker := flags ||| lz4Compressed
    let version := replicate (if has flags hashed then versionOffset else 0) marker
    finish xxh3 flags marker version ((beBytes 4 input.length).reverse ++ lz4.compress input)
  else finish xxh3 flags flags (replicate versionOffset 0) input

/-- The id of the change is put into an archive. -/
def stamp (archive : Bytes) (offset : ℕ) (changeId : UInt64) : Bytes :=
  archive.take offset ++ beBytes 8 changeId.toNat ++ archive.getLast?.toList

/-- This is what is done when an object that has versions is committed. -/
theorem exists_setArchive {P : Type} (changes : Version P) :
    ∃ fnc, setArchive true changes = .value (.setFnc .archive fnc) ∧
      ∀ ids changeId, ids.currentChangeId = some changeId →
        fnc ids = .ok (stamp changes.archive changes.offset changeId) :=
  ⟨_, rfl, fun ids changeId hid => by rw [hid]; rfl⟩

/-! ## Readers -/

/-- What goes wrong in a reader. -/
inductive ReadError where
  | dataCorruption
  | decompressError

/-- `split_at_checked`, `n` bytes before the end. -/
def splitLast (n : ℕ) (bytes : Bytes) : Option (Bytes × Bytes) :=
  if n ≤ bytes.length then some (bytes.splitAt (bytes.length - n)) else none

/-- The contents, if they have the hash that stands behind them. -/
def checkHash (bytes : Bytes) : Option (Bytes × UInt32) := do
  let (contents, archiveHash) ← splitLast 4 bytes
  let hash := hash32 xxh3 contents
  if beBytes 4 hash.toNat = archiveHash then some (contents, hash) else none

def validateMarkerAndContents (bytes : Bytes) : Option (Bool × Bytes × ArchiveVersion) := do
  let marker ← bytes.getLast?
  let contents := bytes.dropLast
  let isUncompressed := !has marker lz4Compressed
  if !has marker magicMarker then none
  else if has marker versioned then
    let (contents, changeId) ← splitLast 8 contents
    let (contents, hash) ← checkHash xxh3 contents
    let changeId := UInt64.ofNat (ofBigEndian (changeId.map UInt8.toNat))
    some (isUncompressed, contents, .versioned changeId hash)
  else if has marker hashed then
    let (contents, hash) ← checkHash xxh3 contents
    some (isUncompressed, contents, .hashed hash)
  else some (isUncompressed, contents, .unversioned)

def alignedLz4Deflate (archive : Bytes) : Except ReadError Bytes :=
  let uncompressedSize := ofBigEndian ((archive.take 4).reverse.map UInt8.toNat)
  match if 4 ≤ archive.length then lz4.decompress (archive.drop 4) uncompressedSize else none with
  | some bytes => .ok bytes
  | none => .error .decompressError

/-- `deserialize` and `deserialize_owned`, up to what they take as contents that are not
    compressed. -/
def read (uncompressed : Bytes → Bytes → Bytes) (bytes : Bytes) :
    Except ReadError (ArchiveVersion × Bytes) :=
  match validateMarkerAndContents xxh3 bytes with
  | none => .error .dataCorruption
  | some (isUncompressed, contents, version) =>
    if isUncompressed then .ok (version, uncompressed bytes contents)
    else (alignedLz4Deflate lz4 contents).map (version, ·)

def deserialize : Bytes → Except ReadError (ArchiveVersion × Bytes) :=
  read lz4 xxh3 fun _ contents => contents

/-- `deserialize_owned`: the bytes are cut to the length of the contents. -/
def deserializeOwned : Bytes → Except ReadError (ArchiveVersion × Bytes) :=
  read lz4 xxh3 fun bytes contents => bytes.take contents.length

/-! ## Round trips -/

/-- The archives of `untrusted`, of `new`, and of `with_version` when committed. -/
inductive Kind where
  | untrusted
  | hashed
  | versioned (changeId : UInt64)

namespace Kind

/-- The flags of the `Archiver`. -/
def flags : Kind → UInt8
  | untrusted => magicMarker
  | hashed => magicMarker ||| Archiver.hashed
  | versioned _ => magicMarker ||| Archiver.hashed ||| Archiver.versioned

def stored (kind : Kind) (input : Bytes) : Bytes :=
  let bytes := serialize lz4 xxh3 kind.flags input
  match kind with
  | versioned changeId => stamp bytes (bytes.length - 8 - 1) changeId
  | untrusted | hashed => bytes

/-- The version that is read, with a hash. -/
def version (hash : UInt32) : Kind → ArchiveVersion
  | untrusted => .unversioned
  | hashed => .hashed hash
  | versioned changeId => .versioned changeId hash

/-- Both readers read the value back, with the version. If there is a hash, it is accepted for what
    is stored. -/
def ReadsBack (kind : Kind) (input : Bytes) : Prop :=
  ∃ hash, (∀ reader ∈ [deserialize lz4 xxh3, deserializeOwned lz4 xxh3],
      reader (kind.stored lz4 xxh3 input) = .ok (kind.version hash, input)) ∧
    (has kind.flags Archiver.hashed →
      (AssertValue.archive (kind.version hash)).matchesBytes xxh3 (kind.stored lz4 xxh3 input))

/-- What is stored of the version. -/
def versionBytes : Kind → Bytes
  | untrusted | hashed => []
  | versioned changeId => beBytes 8 changeId.toNat

def marker (kind : Kind) (input : Bytes) : UInt8 :=
  kind.flags ||| if Compresses lz4 input then lz4Compressed else 0

end Kind

/-- The contents of the archive. -/
def contents (input : Bytes) : Bytes :=
  if Compresses lz4 input then (beBytes 4 input.length).reverse ++ lz4.compress input else input

variable (kind : Kind) {lz4 xxh3} {input : Bytes}

theorem stamp_finish {version : Bytes} (hlength : version.length = 8) (flags marker : UInt8)
    (contents : Bytes) (changeId : UInt64) :
    let archive := finish xxh3 flags marker version contents
    stamp archive (archive.length - 8 - 1) changeId =
      finish xxh3 flags marker (beBytes 8 changeId.toNat) contents := by
  have htake (bytes : Bytes) : (bytes ++ version ++ [marker]).take
      ((bytes ++ version ++ [marker]).length - 8 - 1) = bytes := by
    rw [append_assoc, take_left' (by simp [hlength])]
  simp only [stamp, finish, htake, getLast?_concat, toList]

/-- The parts of an archive. -/
theorem stored_eq : kind.stored lz4 xxh3 input =
    finish xxh3 kind.flags (kind.marker lz4 input) kind.versionBytes (contents lz4 input) := by
  by_cases h : Compresses lz4 input <;> cases kind <;>
    simp +decide [Kind.stored, serialize, contents, h, Kind.flags, Kind.marker,
      Kind.versionBytes, stamp_finish]

theorem splitLast_append {n : ℕ} {last : Bytes} (bytes : Bytes) (hlength : last.length = n) :
    splitLast n (bytes ++ last) = some (bytes, last) := by
  simp [splitLast, ← hlength]

/-- The parts are taken off again. -/
theorem validate_stored :
    validateMarkerAndContents xxh3 (kind.stored lz4 xxh3 input) =
      some (!Compresses lz4 input, contents lz4 input,
        kind.version (hash32 xxh3 (contents lz4 input))) := by
  rw [stored_eq, Kind.marker]
  generalize contents lz4 input = bytes
  have hhash : checkHash xxh3 (bytes ++ beBytes 4 (hash32 xxh3 bytes).toNat) =
      some (bytes, hash32 xxh3 bytes) := by
    simp [checkHash, splitLast_append bytes (length_beBytes 4 _)]
  have hversion (changeId : UInt64) := splitLast_append
    (bytes ++ beBytes 4 (hash32 xxh3 bytes).toNat) (length_beBytes 8 changeId.toNat)
  have hid (changeId : UInt64) :
      UInt64.ofNat (ofBigEndian ((beBytes 8 changeId.toNat).map UInt8.toNat)) = changeId := by
    have hlt : changeId.toNat < 256 ^ 8 := changeId.toNat_lt
    rw [ofBigEndian_beBytes, Nat.mod_eq_of_lt hlt, UInt64.ofNat_toNat]
  by_cases h : Compresses lz4 input <;> cases kind <;>
    simp +decide [-append_assoc, validateMarkerAndContents, finish, Kind.versionBytes, Kind.flags,
      Kind.version, hhash, hversion, hid, h]

theorem bytesFromEnd_append (bytes part rest : Bytes) :
    bytesFromEnd (bytes ++ part ++ rest) (part.length + rest.length) rest.length = some part := by
  have htake : (bytes ++ part).length = (bytes ++ part ++ rest).length - rest.length :=
    Nat.eq_sub_of_add_eq length_append.symm
  rw [bytesFromEnd, if_pos (by simp), take_left' htake, drop_left' (by simp)]

/-- An assertion with the hash of the contents accepts what is stored. -/
theorem matchesBytes_stored (h : has kind.flags hashed) :
    (AssertValue.archive (kind.version (hash32 xxh3 (contents lz4 input)))).matchesBytes xxh3
      (kind.stored lz4 xxh3 input) := by
  have hbytes := bytesFromEnd_append (contents lz4 input)
    (beBytes 4 (hash32 xxh3 (contents lz4 input)).toNat)
    (kind.versionBytes ++ [kind.marker lz4 input])
  rw [stored_eq, finish, if_pos h, append_assoc]
  cases kind with
  | untrusted => cases h
  | hashed => exact beq_of_eq hbytes
  | versioned changeId => exact beq_of_eq (by simpa [Kind.versionBytes] using hbytes)

theorem alignedLz4Deflate_contents (h : Compresses lz4 input) :
    alignedLz4Deflate lz4 (contents lz4 input) =
      match lz4.decompress (lz4.compress input) (input.length % 2 ^ 32) with
      | some bytes => .ok bytes
      | none => .error .decompressError := by
  have hsize := ofBigEndian_beBytes 4 input.length
  simp [alignedLz4Deflate, contents, h, hsize]

variable (lz4 xxh3 input)

/-- A compression that leaves nothing of zeros. -/
def zeros : Lz4 where
  compress bytes := if bytes = replicate bytes.length 0 then [] else 1 :: bytes
  decompress
    | [], length => some (replicate length 0)
    | _ :: bytes, length => if bytes.length = length then some bytes else none
  decompress_compress bytes := by
    by_cases h : bytes = replicate bytes.length 0
    · rw [if_pos h]
      exact congrArg some h.symm
    · rw [if_neg h]
      exact if_pos rfl

theorem compress_zeros (n : ℕ) : zeros.compress (replicate n 0) = [] :=
  if_pos (by rw [length_replicate])

end Inworkspace.Storage.Archiver
