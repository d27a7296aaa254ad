import Inworkspace.Lib.Leb128

/-!
# Packed numbers

Numbers of 32 bits in ascending order are written as their count and then in blocks of 256, 128 or
32, as many as there are left, with less than 32 at the end one by one. The blocks are packed by a
library (`BlockPacker`), of which we only assume that a block comes out as it went in.

`BitpackIterator` reads the numbers again (`collect_bitpackSorted`). Whatever it reads, it gives at
most as many numbers as it has been told (`length_collect_le`), of 32 bits each (`collect_lt`).
-/

namespace Inworkspace.Write

open Lib List Option Nat

/-- The numbers ascend, from above an initial one. -/
structure Ascends (initial : Option ℕ) (items : List ℕ) : Prop where
  above : ∀ first ∈ initial, ∀ item ∈ items, first < item
  pairwise : items.Pairwise (· < ·)
  fits : ∀ item ∈ items, item < 2 ^ 32

/-- The two parts of ascending numbers, the first of which is not empty. -/
theorem Ascends.of_append {initial : Option ℕ} {block items : List ℕ}
    (h : Ascends initial (block ++ items)) :
    Ascends initial block ∧ Ascends block.getLast? items := by
  obtain ⟨hblock, hitems, hacross⟩ := pairwise_append.mp h.pairwise
  refine ⟨⟨fun first hfirst item hitem => ?_, hblock, fun item hitem => ?_⟩,
    ⟨fun last hlast item hitem => ?_, hitems, fun item hitem => ?_⟩⟩
  · exact h.above first hfirst item (mem_append_left _ hitem)
  · exact h.fits item (mem_append_left _ hitem)
  · exact hacross last (mem_of_getLast? hlast) item hitem
  · exact h.fits item (mem_append_right _ hitem)

/-- `BLOCK_LEN` for the numbers that are left, or none if they are written one by one. -/
def blockLen (left : ℕ) : Option ℕ :=
  if left < 32 then none
  else if left < 128 then some 32
  else if left < 256 then some 128
  else some 256

/-- `BitBlockPacker`: blocks of ascending numbers, with some bits for each. -/
class BlockPacker where
  numBits : (initial : Option ℕ) → (block : List ℕ) → UInt8
  compress : (initial : Option ℕ) → (block : List ℕ) → UInt8 → List UInt8
  decompress : (initial : Option ℕ) → (compressed : List UInt8) → (blockLen : ℕ) → UInt8 → List ℕ
  length_compress : ∀ {initial block}, Ascends initial block →
    (compress initial block (numBits initial block)).length =
      (numBits initial block).toNat * block.length / 8
  decompress_compress : ∀ {initial block}, Ascends initial block →
    decompress initial (compress initial block (numBits initial block)) block.length
      (numBits initial block) = block
  length_decompress : ∀ initial compressed blockLen numBits,
    (decompress initial compressed blockLen numBits).length = blockLen
  decompress_lt : ∀ initial compressed blockLen numBits,
    ∀ item ∈ decompress initial compressed blockLen numBits, item < 2 ^ 32

theorem blockLen_eq_none {left : ℕ} (h : left < 32) : blockLen left = none := if_pos h

theorem lt_of_blockLen_eq_none {left : ℕ} (h : blockLen left = none) : left < 32 := by
  rw [blockLen] at h
  split_ifs at h with hlt
  exact hlt

theorem blockLen_bounds {left len : ℕ} (h : blockLen left = some len) : 0 < len ∧ len ≤ left := by
  rw [blockLen] at h
  split_ifs at h <;> obtain rfl := some.inj h <;> omega

section Blocks

variable [BlockPacker]

open BlockPacker

/-- The blocks, each after the last number of the one before. -/
def blocks (initial : Option ℕ) (items : List ℕ) : List UInt8 :=
  match _hlen : blockLen items.length with
  | none => items.flatMap Leb128.toLeb128
  | some len =>
    let chunk := items.take len
    let numBits := numBits initial chunk
    numBits :: compress initial chunk numBits ++ blocks chunk.getLast? (items.drop len)
termination_by items.length
decreasing_by
  have := blockLen_bounds _hlen
  rw [List.length_drop]
  omega

variable (initial : Option ℕ)

theorem blocks_eq_flatMap {items : List ℕ} (h : items.length < 32) :
    blocks initial items = items.flatMap Leb128.toLeb128 := by
  rw [blocks]
  split
  · rfl
  · rename_i hlen
    rw [blockLen_eq_none h] at hlen
    contradiction

/-- The first block is packed, and the next counts on from its last item. -/
theorem blocks_append {block items : List ℕ}
    (h : blockLen (block ++ items).length = some block.length) :
    blocks initial (block ++ items) =
      numBits initial block ::
        (compress initial block (numBits initial block) ++ blocks block.getLast? items) := by
  rw [blocks]
  split
  · rename_i hlen
    rw [h] at hlen
    contradiction
  · rename_i len hlen
    obtain rfl : block.length = len := some.inj (h.symm.trans hlen)
    simp

theorem blocks_ne_nil {items : List ℕ} (h : items ≠ []) : blocks initial items ≠ [] := by
  rcases items with _ | ⟨item, items⟩
  · contradiction
  rw [blocks]
  split
  · rw [flatMap_cons, Leb128.toLeb128]
    split <;> exact cons_ne_nil _ _
  · exact cons_ne_nil _ _

def bitpackSorted (items : List ℕ) : List UInt8 :=
  Leb128.toLeb128 (items.length % 2 ^ 32) ++ blocks none items

/-- `BitpackIterator`, with the bytes that have not been read. -/
structure BitpackIterator where
  bytes : List UInt8
  chunk : List ℕ
  chunkOffset : ℕ
  itemsLeft : ℕ

namespace BitpackIterator

/-- `from_bytes_and_offset`. -/
def fromBytes (bytes : List UInt8) (itemsLeft : ℕ) : BitpackIterator := ⟨bytes, [], 0, itemsLeft⟩

def new (bytes : List UInt8) : Option BitpackIterator :=
  (Leb128.next32 bytes).map fun (itemsLeft, bytes) => fromBytes bytes itemsLeft

variable (it : BitpackIterator)

/-- The next block is unpacked, after the last number of the one before. -/
def nextBlock (len : ℕ) : Option (ℕ × BitpackIterator) :=
  match it.bytes with
  | [] => none
  | numBits :: bytes =>
    let bytesRead := numBits.toNat * len / 8
    if bytes.length < bytesRead then none
    else
      let chunk := decompress it.chunk.getLast? (bytes.take bytesRead) len numBits
      chunk.head?.map fun item => (item, ⟨bytes.drop bytesRead, chunk, 1, it.itemsLeft - len⟩)

def next : Option (ℕ × BitpackIterator) :=
  match it.chunk[it.chunkOffset]? with
  | some item => some (item, { it with chunkOffset := it.chunkOffset + 1 })
  | none =>
    if it.itemsLeft = 0 then none
    else
      match blockLen it.itemsLeft with
      | none => (Leb128.next32 it.bytes).map fun (item, bytes) =>
        (item, { it with bytes := bytes, itemsLeft := it.itemsLeft - 1 })
      | some len => it.nextBlock len

/-- The numbers that are expected. -/
def left : ℕ := it.itemsLeft + (it.chunk.length - it.chunkOffset)

/-- The numbers up to the first failure. -/
def items : ℕ → BitpackIterator → List ℕ
  | 0, _ => []
  | fuel + 1, it =>
    match it.next with
    | none => []
    | some (item, it) => item :: items fuel it

/-- What a loop over the iterator sees. -/
def collect : List ℕ := it.items it.left

variable {it} {it' : BitpackIterator} {item : ℕ} {items : List ℕ}

/-- The next number is one of the block, is read, or is the first of the next block. -/
theorem next_cases (h : it.next = some (item, it')) :
    (it.chunk[it.chunkOffset]? = some item ∧
      it' = { it with chunkOffset := it.chunkOffset + 1 }) ∨
    (it.chunk.length ≤ it.chunkOffset ∧ it.itemsLeft ≠ 0 ∧
      ∃ bytes, Leb128.next32 it.bytes = some (item, bytes) ∧
        it' = { it with bytes := bytes, itemsLeft := it.itemsLeft - 1 }) ∨
    (it.chunk.length ≤ it.chunkOffset ∧
      ∃ len, blockLen it.itemsLeft = some len ∧ ∃ initial compressed numBits bytes,
        (decompress initial compressed len numBits).head? = some item ∧
        it' = ⟨bytes, decompress initial compressed len numBits, 1, it.itemsLeft - len⟩) := by
  rcases hchunk : it.chunk[it.chunkOffset]? with _ | found
  · simp only [next, hchunk] at h
    have hread := getElem?_eq_none_iff.mp hchunk
    split at h
    · contradiction
    rename_i hleft
    rcases hlen : blockLen it.itemsLeft with _ | len
    · simp only [hlen] at h
      obtain ⟨⟨value, bytes⟩, hvalue, h⟩ := map_eq_some_iff.mp h
      obtain ⟨rfl, rfl⟩ := Prod.mk.inj h
      exact .inr (.inl ⟨hread, hleft, bytes, hvalue, rfl⟩)
    · simp only [hlen, nextBlock] at h
      split at h
      · contradiction
      split at h
      · contradiction
      obtain ⟨first, hfirst, h⟩ := map_eq_some_iff.mp h
      obtain ⟨rfl, rfl⟩ := Prod.mk.inj h
      exact .inr (.inr ⟨hread, len, rfl, _, _, _, _, hfirst, rfl⟩)
  · simp only [next, hchunk] at h
    obtain ⟨rfl, rfl⟩ := Prod.mk.inj (some.inj h)
    exact .inl ⟨rfl, rfl⟩

/-- Each number is one less to come. -/
theorem left_of_next (h : it.next = some (item, it')) : it.left = it'.left + 1 := by
  rcases next_cases h with ⟨hchunk, rfl⟩ | ⟨hread, hleft, bytes, -, rfl⟩ |
    ⟨hread, len, hlen, initial, compressed, numBits, bytes, -, rfl⟩
  · obtain ⟨hlt, -⟩ := List.getElem?_eq_some_iff.mp hchunk
    simp only [left]
    omega
  · simp only [left]
    omega
  · have hbounds := blockLen_bounds hlen
    simp only [left, length_decompress]
    omega

/-- A loop takes one number after the other. -/
theorem collect_eq (it : BitpackIterator) :
    it.collect = match it.next with
      | none => []
      | some (item, it) => item :: it.collect := by
  rcases hnext : it.next with _ | ⟨item, it'⟩
  · rw [collect]
    rcases it.left with _ | fuel
    · rfl
    · rw [items, hnext]
  · rw [collect, left_of_next hnext, items, hnext]
    rfl

theorem length_collect_le (it : BitpackIterator) : it.collect.length ≤ it.left := by
  rw [collect]
  generalize it.left = fuel
  induction fuel generalizing it with
  | zero => exact le_refl _
  | succ fuel ih =>
    rw [items]
    split
    · exact zero_le _
    · exact succ_le_succ (ih _)

/-- The numbers have 32 bits. -/
theorem next_lt (h : it.next = some (item, it')) (hchunk : ∀ item ∈ it.chunk, item < 2 ^ 32) :
    item < 2 ^ 32 ∧ ∀ item ∈ it'.chunk, item < 2 ^ 32 := by
  rcases next_cases h with ⟨hfound, rfl⟩ | ⟨-, -, bytes, hvalue, rfl⟩ |
    ⟨-, len, -, initial, compressed, numBits, bytes, hfirst, rfl⟩
  · exact ⟨hchunk _ (mem_of_getElem? hfound), hchunk⟩
  · exact ⟨Leb128.fromLeb128_lt (Nat.two_pow_pos _) hvalue, hchunk⟩
  · exact ⟨decompress_lt _ _ _ _ _ (mem_of_head? hfirst), decompress_lt _ _ _ _⟩

/-- Whatever the bytes, the items fit in 32 bits. -/
theorem collect_lt (bytes : List UInt8) (itemsLeft : ℕ) :
    ∀ item ∈ (fromBytes bytes itemsLeft).collect, item < 2 ^ 32 := by
  rw [collect]
  have hchunk : ∀ item ∈ (fromBytes bytes itemsLeft).chunk, item < 2 ^ 32 := forall_mem_nil _
  generalize (fromBytes bytes itemsLeft).left = fuel
  generalize fromBytes bytes itemsLeft = it at hchunk ⊢
  induction fuel generalizing it with
  | zero => exact forall_mem_nil _
  | succ fuel ih =>
    rw [items]
    rcases hnext : it.next with _ | ⟨item, it'⟩
    · exact forall_mem_nil _
    · obtain ⟨hitem, hchunk'⟩ := next_lt hnext hchunk
      exact forall_mem_cons.mpr ⟨hitem, ih it' hchunk'⟩

/-! ## Numbers that were packed -/

/-- A block that has been unpacked is given out. -/
theorem collect_chunk (bytes : List UInt8) (given rest : List ℕ) (itemsLeft : ℕ) :
    collect ⟨bytes, given ++ rest, given.length, itemsLeft⟩ =
      rest ++ collect ⟨bytes, given ++ rest, (given ++ rest).length, itemsLeft⟩ := by
  induction rest generalizing given with
  | nil => rw [append_nil, nil_append]
  | cons item rest ih =>
    have hnext : next ⟨bytes, given ++ item :: rest, given.length, itemsLeft⟩ =
        some (item, ⟨bytes, given ++ item :: rest, given.length + 1, itemsLeft⟩) := by
      rw [next, getElem?_append_right (Nat.le_refl _), Nat.sub_self]
      rfl
    have hmore := ih (given ++ [item])
    rw [append_assoc, length_append] at hmore
    rw [collect_eq, hnext]
    exact congrArg _ hmore

/-- Numbers that were written one by one. -/
theorem collect_flatMap (chunk : List ℕ) (hlen : items.length < 32)
    (hfits : ∀ item ∈ items, item < 2 ^ 32) :
    collect ⟨items.flatMap Leb128.toLeb128, chunk, chunk.length, items.length⟩ = items := by
  induction items with
  | nil =>
    rw [collect_eq, next, getElem?_eq_none (le_refl _)]
    rfl
  | cons item items ih =>
    rw [forall_mem_cons] at hfits
    rw [length_cons] at hlen
    rw [collect_eq, next, getElem?_eq_none (Nat.le_refl _), flatMap_cons]
    simp only [length_cons, Nat.succ_ne_zero, if_false, blockLen_eq_none hlen,
      Leb128.next32_toLeb128 hfits.1, map_some, Nat.add_sub_cancel]
    rw [ih (by omega) hfits.2]

/-- When a block has been read the next one is unpacked. -/
theorem next_block {chunk block items : List ℕ}
    (hlen : blockLen (block ++ items).length = some block.length)
    (hblock : Ascends chunk.getLast? block) {first : ℕ} {others : List ℕ}
    (hfirst : block = first :: others) :
    next ⟨blocks chunk.getLast? (block ++ items), chunk, chunk.length, (block ++ items).length⟩ =
      some (first, ⟨blocks block.getLast? items, block, 1, items.length⟩) := by
  have hpos := blockLen_bounds hlen
  rw [next, getElem?_eq_none (le_refl _)]
  simp only [hlen, blocks_append _ hlen]
  rw [if_neg (by omega), nextBlock]
  simp only [length_append, length_compress hblock]
  rw [if_neg (by omega), ← length_compress hblock, take_left, drop_left,
    decompress_compress hblock, Nat.add_sub_cancel_left, hfirst]
  rfl

/-- Blocks that were packed, after the one whose last number they follow. -/
theorem collect_blocks (chunk : List ℕ) (h : Ascends chunk.getLast? items) :
    collect ⟨blocks chunk.getLast? items, chunk, chunk.length, items.length⟩ = items := by
  induction hn : items.length using Nat.strong_induction_on generalizing chunk items with
  | _ n ih =>
    subst hn
    rcases hlen : blockLen items.length with _ | len
    · have hlt := lt_of_blockLen_eq_none hlen
      rw [blocks_eq_flatMap _ hlt]
      exact collect_flatMap chunk hlt h.fits
    · obtain ⟨hpos, hle⟩ := blockLen_bounds hlen
      obtain ⟨block, rest, rfl, rfl⟩ : ∃ block rest, items = block ++ rest ∧ len = block.length :=
        ⟨items.take len, items.drop len, (take_append_drop len items).symm,
          (length_take_of_le hle).symm⟩
      -- a block is packed after the number before it, which the iterator still has
      obtain ⟨hblock, hrest⟩ := h.of_append
      rcases hfirst : block with _ | ⟨first, others⟩
      · rw [hfirst] at hpos
        contradiction
      rw [← hfirst, collect_eq, next_block hlen hblock hfirst]
      have hgiven := collect_chunk (blocks block.getLast? rest) [first] others rest.length
      rw [singleton_append, ← hfirst] at hgiven
      have hmore := ih rest.length (by rw [length_append]; omega) block hrest rfl
      show first :: collect _ = block ++ rest
      rw [length_singleton] at hgiven
      rw [hgiven, hmore, hfirst, cons_append]

/-- The numbers are read as they were packed. -/
theorem collect_bitpackSorted (h : Ascends none items) :
    (fromBytes (blocks none items) items.length).collect = items :=
  collect_blocks [] h

end BitpackIterator

end Blocks

/-! ## A packer that does not pack -/

/-- A number in four bytes. -/
def plainBytes (item : ℕ) : List UInt8 :=
  [UInt8.ofNat item, UInt8.ofNat (item / 2 ^ 8), UInt8.ofNat (item / 2 ^ 16),
    UInt8.ofNat (item / 2 ^ 24)]

/-- Numbers of four bytes. -/
def plainItems : ℕ → List UInt8 → List ℕ
  | 0, _ => []
  | n + 1, bytes =>
    ((bytes.getD 0 0).toNat + 2 ^ 8 * (bytes.getD 1 0).toNat + 2 ^ 16 * (bytes.getD 2 0).toNat +
      2 ^ 24 * (bytes.getD 3 0).toNat) :: plainItems n (bytes.drop 4)

theorem length_plainItems (n : ℕ) (bytes : List UInt8) : (plainItems n bytes).length = n := by
  induction n generalizing bytes with
  | zero => rfl
  | succ n ih => rw [plainItems, length_cons, ih]

theorem plainItems_lt (n : ℕ) (bytes : List UInt8) : ∀ item ∈ plainItems n bytes, item < 2 ^ 32 := by
  induction n generalizing bytes with
  | zero => exact forall_mem_nil _
  | succ n ih =>
    refine forall_mem_cons.mpr ⟨?_, ih _⟩
    have h0 := (bytes.getD 0 0).toNat_lt
    have h1 := (bytes.getD 1 0).toNat_lt
    have h2 := (bytes.getD 2 0).toNat_lt
    have h3 := (bytes.getD 3 0).toNat_lt
    omega

theorem plainItems_flatMap {items : List ℕ} (h : ∀ item ∈ items, item < 2 ^ 32) :
    plainItems items.length (items.flatMap plainBytes) = items := by
  induction items with
  | nil => rfl
  | cons item items ih =>
    rw [forall_mem_cons] at h
    rw [flatMap_cons, length_cons, plainItems]
    have hitem : (plainBytes item ++ items.flatMap plainBytes).drop 4 = items.flatMap plainBytes := rfl
    rw [hitem, ih h.2]
    simp only [plainBytes, cons_append, getD_cons_zero, getD_cons_succ, UInt8.toNat_ofNat']
    congr 1
    omega

/-- Blocks that are not packed at all. -/
abbrev plainPacker : BlockPacker where
  numBits _ _ := 32
  compress _ block _ := block.flatMap plainBytes
  decompress _ bytes n _ := plainItems n bytes
  length_compress := by
    intro initial block h
    have hlen : (block.flatMap plainBytes).length = 4 * block.length := by
      simp [plainBytes, mul_comm]
    rw [hlen]
    show _ = 32 * block.length / 8
    omega
  decompress_compress h := plainItems_flatMap h.fits
  length_decompress _ _ n _ := length_plainItems n _
  decompress_lt _ _ n _ := plainItems_lt n _

/-! ## The count in front -/

theorem ascends_range {n : ℕ} (h : n ≤ 2 ^ 32) : Ascends none (range n) :=
  ⟨nofun, pairwise_lt_range, fun _ hitem => (mem_range.mp hitem).trans_le h⟩

namespace BitpackIterator

/-- The iterator over what was packed gives the numbers, unless they are all there are. -/
theorem collect_new [BlockPacker] {items : List ℕ} (h : Ascends none items)
    (hlen : items.length < 2 ^ 32) :
    (new (bitpackSorted items)).map collect = some items := by
  rw [new, bitpackSorted, Nat.mod_eq_of_lt hlen, Leb128.next32_toLeb128 hlen]
  exact congrArg some (collect_bitpackSorted h)

local instance : BlockPacker := plainPacker

theorem collect_new_range :
    (new (bitpackSorted (range 300))).map collect = some (range 300) :=
  collect_new (ascends_range (by decide)) (by rw [length_range]; decide)

/-- The count of all numbers has 33 bits, and nothing is read. -/
theorem collect_new_all : Ascends none (range (2 ^ 32)) ∧
    (new (bitpackSorted (range (2 ^ 32)))).map collect = some [] := by
  refine ⟨ascends_range (le_refl _), ?_⟩
  rw [new, bitpackSorted, length_range, Nat.mod_self, Leb128.next32_toLeb128 (by decide)]
  rfl

end BitpackIterator

end Inworkspace.Write
