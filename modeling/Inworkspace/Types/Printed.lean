import Inworkspace.Auth.Credential
import Inworkspace.Lib.Leb128
import Mathlib.Tactic.IntervalCases

/-!
# States and blob ids as text

JMAP states and blob ids are serialized to bytes, with LEB128 for their numbers, and the bytes are
printed in groups of five bits, without padding (`utils::codec::base32_custom`). What is printed is
read again at any length (`readBase32_text`): the reader is ahead of the byte it gives by the rest of
a group (`Reads`). So blob ids are read as they were printed, and states that can be sent.
-/

namespace Inworkspace.Types

open Lib List

/-- `BASE32_ALPHABET`. -/
def base32Alphabet : List UInt8 := asBytes "abcdefghijklmnopqrstuvwxyz792013"

/-- The letter for five bits. -/
def letter (bits : UInt8) : UInt8 := base32Alphabet.getD bits.toNat 0

/-- The five bits that `push_byte` completes with a byte, and those that are complete with it. -/
def pushByte (pos : ℕ) (lastByte byte : UInt8) : UInt8 × Option UInt8 :=
  match pos % 5 with
  | 0 => ((byte &&& 0xF8) >>> 3, none)
  | 1 => ((lastByte &&& 0x07) <<< 2 ||| (byte &&& 0xC0) >>> 6, some ((byte &&& 0x3E) >>> 1))
  | 2 => ((lastByte &&& 0x01) <<< 4 ||| (byte &&& 0xF0) >>> 4, none)
  | 3 => ((lastByte &&& 0x0F) <<< 1 ||| byte >>> 7, some ((byte &&& 0x7C) >>> 2))
  | _ => ((lastByte &&& 0x03) <<< 3 ||| (byte &&& 0xE0) >>> 5, some (byte &&& 0x1F))

/-- `Base32Writer`: what is written for bytes, from a position on, up to `finalize`. -/
def text (pos : ℕ) (lastByte : UInt8) : List UInt8 → List UInt8
  | [] => if pos % 5 = 0 then [] else [letter (pushByte pos lastByte 0).1]
  | byte :: bytes =>
    let (ch1, ch2) := pushByte pos lastByte byte
    letter ch1 :: (ch2.toList.map letter ++ text (pos + 1) byte bytes)

/-- The bytes that a reader gives, up to the first failure. -/
def items : ℕ → Base32Reader → List UInt8
  | 0, _ => []
  | fuel + 1, reader =>
    match reader.next with
    | none => []
    | some (byte, reader) => byte :: items fuel reader

/-- Each letter has one byte at most. -/
def readBase32 (bytes : List UInt8) : List UInt8 := items bytes.length (.new bytes)

theorem eq_of_bits {a b : UInt8} (h : ∀ i < 8, a.toBitVec.getLsbD i = b.toBitVec.getLsbD i) :
    a = b := UInt8.toBitVec_inj.mp (BitVec.eq_of_getLsbD_eq fun i hi => h i hi)

variable {pos : ℕ} {lastByte byte bits : UInt8} {bytes : List UInt8}

theorem mapByte_letter (h : bits &&& 0x1F = bits) :
    Base32Reader.mapByte ⟨letter bits :: bytes, lastByte, pos⟩ = (some bits, ⟨bytes, bits, pos⟩) := by
  have hall : ∀ n < 32, base32Inverse (letter (UInt8.ofNat n)) = some (UInt8.ofNat n) := by
    decide +kernel
  have hlt : bits.toNat < 32 := by
    rw [← h, UInt8.toNat_and]
    exact Nat.and_lt_two_pow _ (n := 5) (by decide)
  have hbits := hall _ hlt
  rw [UInt8.ofNat_toNat] at hbits
  simp only [Base32Reader.mapByte, hbits]

/-- The reader is ahead by the five bits that have a part of the last byte. -/
def Reads (lastByte : UInt8) (bytes : List UInt8) (reader : Base32Reader) : Prop :=
  if reader.pos % 5 = 0 then reader.bytes = text reader.pos lastByte bytes
  else reader.lastByte = (pushByte reader.pos lastByte (bytes.headD 0)).1 ∧
    reader.bytes = (text reader.pos lastByte bytes).tail

theorem text_eq_cons (h : pos % 5 ≠ 0) : text pos lastByte bytes =
    letter (pushByte pos lastByte (bytes.headD 0)).1 :: (text pos lastByte bytes).tail := by
  cases bytes <;> simp [text, h]

theorem pushByte_bits (pos : ℕ) (lastByte byte : UInt8) :
    ∀ bits ∈ (pushByte pos lastByte byte).1 :: (pushByte pos lastByte byte).2.toList,
      bits &&& 0x1F = bits := by
  rw [pushByte]
  split <;> simp only [Option.toList, forall_mem_cons, not_mem_nil, IsEmpty.forall_iff,
    implies_true, and_true]
  case h_2 | h_4 | h_5 => constructor <;> exact eq_of_bits fun i hi => by interval_cases i <;> simp
  all_goals exact eq_of_bits fun i hi => by interval_cases i <;> simp

/-- The reader has the next byte. -/
theorem Reads.next {reader : Base32Reader} (h : Reads lastByte (byte :: bytes) reader) :
    ∃ reader', reader.next = some (byte, reader') ∧ Reads byte bytes reader' := by
  rcases reader with ⟨chars, last, pos⟩
  obtain ⟨rest, hrest⟩ : ∃ rest, (pos + 1) % 5 ≠ 0 → text (pos + 1) byte bytes =
    letter (pushByte (pos + 1) byte (bytes.headD 0)).1 :: rest := ⟨_, text_eq_cons⟩
  have hnext : (pos + 1) % 5 = (pos % 5 + 1) % 5 := by omega
  have hbits := pushByte_bits pos lastByte byte
  have hbits' := pushByte_bits (pos + 1) byte (bytes.headD 0)
  obtain hp | hp | hp | hp | hp :
    pos % 5 = 0 ∨ pos % 5 = 1 ∨ pos % 5 = 2 ∨ pos % 5 = 3 ∨ pos % 5 = 4 := by omega
  all_goals
    rw [hp] at hnext
    simp only [Nat.reduceAdd, Nat.reduceMod] at hnext
    simp [Reads, hp, hnext, text, pushByte] at h hbits hbits' hrest
    simp [h, hrest, Base32Reader.next, mapByte_letter, hbits, hbits', hp, Reads, hnext, pushByte]
    refine eq_of_bits fun i hi => ?_
    interval_cases i <;> simp

/-- With enough fuel the reader yields the bytes. -/
theorem Reads.items_eq {reader : Base32Reader} (h : Reads lastByte bytes reader) {fuel : ℕ}
    (hfuel : bytes.length ≤ fuel) : items fuel reader = bytes := by
  induction bytes generalizing lastByte reader fuel with
  | nil =>
    have hend : reader.bytes = [] := by
      rw [Reads] at h
      split at h <;> simp_all [text]
    cases fuel <;> simp [items, Base32Reader.next, Base32Reader.mapByte, hend]
  | cons byte bytes ih =>
    rcases fuel with _ | fuel
    · contradiction
    · obtain ⟨reader', hnext, h'⟩ := h.next
      simp only [items, hnext]
      rw [ih h' (Nat.le_of_succ_le_succ hfuel)]

/-- Bytes are read as they were printed. -/
theorem readBase32_text (bytes : List UInt8) : readBase32 (text 0 0 bytes) = bytes := by
  have hlen (pos : ℕ) (lastByte : UInt8) : bytes.length ≤ (text pos lastByte bytes).length := by
    induction bytes generalizing pos lastByte with
    | nil => exact Nat.zero_le _
    | cons byte bytes ih =>
      have := ih (pos + 1) byte
      simp only [text, length_cons, length_append]
      omega
  have hreads : Reads 0 bytes (.new (text 0 0 bytes)) := rfl
  exact hreads.items_eq (hlen 0 0)

open Leb128

variable (id : UInt64) (id' : UInt32) (rest : List UInt8)

theorem next64_append :
    next64 (toLeb128 id.toNat ++ rest) = some (id.toNat, rest) := next64_toLeb128 id.toNat_lt rest

theorem next64_id : next64 (toLeb128 id.toNat) = some (id.toNat, []) := by
  simpa using next64_append id []

theorem next32_append :
    next32 (toLeb128 id'.toNat ++ rest) = some (id'.toNat, rest) := next32_toLeb128 id'.toNat_lt rest

theorem next32_id : next32 (toLeb128 id'.toNat) = some (id'.toNat, []) := by
  simpa using next32_append id' []

/-! ## States -/

inductive State
  | initial
  | exact (changeId : UInt64)
  | intermediate (fromId toId itemsSent : UInt64)
  deriving DecidableEq

namespace State

/-- `to_string`, which starts with `n`, `s` or `r`. -/
def print : State → List UInt8
  | initial => [110]
  | exact changeId => 115 :: text 0 0 (toLeb128 changeId.toNat)
  | intermediate fromId toId itemsSent => 114 :: text 0 0 (toLeb128 fromId.toNat ++
    (toLeb128 (toId - fromId).toNat ++ toLeb128 itemsSent.toNat))

def parse : List UInt8 → Option State
  | 110 :: _ => some initial
  | 115 :: value => (next64 (readBase32 value)).map fun (changeId, _) => exact (.ofNat changeId)
  | 114 :: value => do
    let (fromId, bytes) ← next64 (readBase32 value)
    let (toId, bytes) ← next64 bytes
    let (itemsSent, _) ← next64 bytes
    if itemsSent > 0 then
      -- `saturating_add`
      some (intermediate (.ofNat fromId) (.ofNat (min (fromId + toId) (2 ^ 64 - 1)))
        (.ofNat itemsSent))
    else none
  | _ => none

/-- An intermediate state comes after some items, and its ids ascend. -/
def Sent : State → Prop
  | intermediate fromId toId itemsSent => fromId ≤ toId ∧ itemsSent ≠ 0
  | _ => True

theorem toLeb128_inj {a b : UInt64} (h : toLeb128 a.toNat = toLeb128 b.toNat) : a = b := by
  simpa [next64_id, UInt64.toNat_inj] using congrArg next64 h

theorem toLeb128_append_inj {a b : UInt64} {rest rest' : List UInt8}
    (h : toLeb128 a.toNat ++ rest = toLeb128 b.toNat ++ rest') : a = b ∧ rest = rest' := by
  simpa [next64_append, UInt64.toNat_inj] using congrArg next64 h

/-- Exactly the states that are sent are read back. -/
theorem parse_print (s : State) : parse s.print = some s ↔ s.Sent := by
  cases s with
  | initial => exact ⟨fun _ => trivial, fun _ => rfl⟩
  | exact changeId => simp [print, parse, readBase32_text, next64_id, Sent]
  | intermediate fromId toId itemsSent =>
    have hsub := UInt64.toNat_sub toId fromId
    have hto := toId.toNat_lt
    have hfrom := fromId.toNat_lt
    simp [print, parse, readBase32_text, next64_append, next64_id, Sent]
    rw [← UInt64.toNat_inj, UInt64.toNat_ofNat', hsub, UInt64.le_iff_toNat_le,
      ← @UInt64.toNat_inj itemsSent, UInt64.toNat_zero]
    omega

/-- A state is read as it was printed if and only if it can be sent, and all states are printed
    differently. -/
theorem parse_print_iff : (∀ s : State, parse s.print = some s ↔ s.Sent) ∧
    Function.Injective print := by
  have htext := Function.LeftInverse.injective readBase32_text
  refine ⟨parse_print, fun s t h => ?_⟩
  cases s <;> cases t <;> simp only [print, cons.injEq, true_and] at h <;> try cases h.1
  · rfl
  · rw [toLeb128_inj (htext h)]
  · obtain ⟨rfl, h⟩ := toLeb128_append_inj (htext h)
    obtain ⟨h, hitems⟩ := toLeb128_append_inj h
    rw [toLeb128_inj hitems, (UInt64.sub_left_inj _).mp h]

/-- One without items, or with ids that descend, is not. -/
theorem parse_print_unsent : parse (intermediate 1 2 0).print ≠ some (intermediate 1 2 0) ∧
    parse (intermediate 2 1 5).print ≠ some (intermediate 2 1 5) :=
  ⟨fun h => ((parse_print _).mp h).2 rfl, fun h => absurd ((parse_print _).mp h).1 (by decide)⟩

end State

/-! ## Blob ids -/

inductive BlobClass
  | reserved (accountId : UInt32) (expires : UInt64)
  | linked (accountId : UInt32) (collection : UInt8) (documentId : UInt32)

structure BlobSection where
  offsetStart : UInt64
  size : UInt64
  encoding : UInt8

structure BlobId where
  hash : List UInt8
  blobClass : BlobClass
  blobSection : Option BlobSection

namespace BlobId

variable (self : BlobId)

def serializeAs : List UInt8 :=
  let encoding := self.blobSection.elim 0 (·.encoding + 1)
  let part := self.blobSection.elim [] fun part =>
    toLeb128 part.offsetStart.toNat ++ toLeb128 part.size.toNat
  match self.blobClass with
  | .reserved accountId expires => (encoding ||| 0x20) :: (self.hash ++
    (toLeb128 accountId.toNat ++ (toLeb128 expires.toNat ++ part)))
  | .linked accountId collection documentId => (encoding ||| 0x10) :: (self.hash ++
    (toLeb128 accountId.toNat ++ collection :: (toLeb128 documentId.toNat ++ part)))

/-- `to_string`. -/
def print : List UInt8 := text 0 0 self.serializeAs

def fromIter : List UInt8 → Option BlobId
  | [] => none
  | marker :: bytes => do
    let encoding := marker &&& 0x0F
    let hash ← if bytes.length < 32 then none else some (bytes.take 32)
    let (accountId, bytes) ← next32 (bytes.drop 32)
    let (blobClass, bytes) ← if marker &&& 0x10 ≠ 0 then do
        let collection ← bytes.head?
        let (documentId, bytes) ← next32 bytes.tail
        some (BlobClass.linked (.ofNat accountId) collection (.ofNat documentId), bytes)
      else do
        let (expires, bytes) ← next64 bytes
        some (BlobClass.reserved (.ofNat accountId) (.ofNat expires), bytes)
    if encoding ≠ 0 then do
      let (offsetStart, bytes) ← next64 bytes
      let (size, _) ← next64 bytes
      some ⟨hash, blobClass, some ⟨.ofNat offsetStart, .ofNat size, encoding - 1⟩⟩
    else some ⟨hash, blobClass, none⟩

def fromBase32 (value : List UInt8) : Option BlobId := fromIter (readBase32 value)

/-- The hash has its length, and the code of the encoding fits in four bits. -/
def Valid : Prop :=
  self.hash.length = 32 ∧ ∀ part ∈ self.blobSection, part.encoding.toNat < 15

/-- The fields are read in the order in which they are written. -/
theorem fromIter_serializeAs {self : BlobId} (h : self.Valid) :
    fromIter self.serializeAs = some self := by
  rcases self with ⟨hash, blobClass, blobSection⟩
  have hhash : hash.length = 32 := h.1
  have hcode : ∀ n < 16, let code := UInt8.ofNat n
      (code ||| 0x10) &&& 0x0F = code ∧ (code ||| 0x10) &&& 0x10 ≠ 0 ∧
        (code ||| 0x20) &&& 0x0F = code ∧ (code ||| 0x20) &&& 0x10 = 0 ∧ (code = 0 → n = 0) := by
    decide +kernel
  rcases blobSection with _ | ⟨offsetStart, size, encoding⟩
  · have hmarker := hcode 0 (by decide)
    rcases blobClass with ⟨accountId, expires⟩ | ⟨accountId, collection, documentId⟩ <;>
      simp_all [serializeAs, fromIter, next64_id, next32_id, next32_append]
  · have hmarker := hcode (encoding.toNat + 1) (Nat.succ_lt_succ (h.2 _ rfl))
    rcases blobClass with ⟨accountId, expires⟩ | ⟨accountId, collection, documentId⟩ <;>
      simp_all [serializeAs, fromIter, next64_id, next64_append, next32_append]

/-- An id is read as it was printed, and no other one is printed like it. -/
theorem fromBase32_print {self : BlobId} (h : self.Valid) : fromBase32 self.print = some self ∧
    ∀ other : BlobId, other.Valid → other.print = self.print → other = self := by
  have hread {id : BlobId} (h : id.Valid) : fromBase32 id.print = some id := by
    rw [fromBase32, print, readBase32_text, fromIter_serializeAs h]
  refine ⟨hread h, fun other hother heq => Option.some.inj ?_⟩
  rw [← hread hother, ← hread h, heq]

def messagePart : BlobId := ⟨replicate 32 7, .linked 1 0 300, some ⟨5000, 70000, 14⟩⟩

theorem fromBase32_print_messagePart :
    messagePart.Valid ∧ fromBase32 messagePart.print = some messagePart := by
  have hvalid : messagePart.Valid := ⟨rfl, by simp [messagePart]⟩
  exact ⟨hvalid, (fromBase32_print hvalid).1⟩

end BlobId

end Inworkspace.Types
