/-
**The sparse format.**

A `Chunk` is what the format stores: raw blocks, a repeated 32-bit value, a number of don't-care
blocks, or a checksum. `serialize` is its form in the file. `decodeFile` is a strict decoder: it
checks the constants of the file header, that the file has exactly the announced number of chunks,
that the size field of each is its header and payload, that each chunk but a checksum has at least one
block, and that the blocks add up to the announced number.

`decodeFile_serialize` is the round trip: the chunks written one after the other behind a header that
announces them decode to their expansion.
-/

import Genimage.Sparse.Generate

namespace Genimage

open Library

/-- A chunk of a sparse file. -/
inductive Chunk where
  | raw (data : List UInt8)
  | fill (value : List UInt8) (blocks : Nat)
  | dontCare (blocks : Nat)
  | crc (value : UInt32)

namespace Chunk

variable (blockSize : Nat)

/-- The number of blocks a chunk stands for. -/
def blocks : Chunk → Nat
  | raw data => data.length / blockSize
  | fill _ blocks => blocks
  | dontCare blocks => blocks
  | crc _ => 0

/-- The bytes a chunk stands for. -/
def expand : Chunk → List UInt8
  | raw data => data
  | fill value blocks => (List.replicate (blocks * (blockSize / 4)) value).flatten
  | dontCare blocks => List.replicate (blocks * blockSize) 0
  | crc _ => []

/-- The `chunk_type` of a chunk. -/
def type : Chunk → UInt16
  | raw _ => sparseRaw
  | fill _ _ => sparseFill
  | dontCare _ => sparseDontCare
  | crc _ => sparseCrc32

/-- The bytes behind the chunk header. -/
def payload : Chunk → List UInt8
  | raw data => data
  | fill value _ => value
  | dontCare _ => []
  | crc value => leBytes 4 value.toNat

/-- The header of a chunk, as the 32-bit fields hold it. -/
def header (chunk : Chunk) : ChunkHeader where
  chunkType := chunk.type
  blocks := UInt32.ofNat (chunk.blocks blockSize)
  size := UInt32.ofNat (12 + chunk.payload.length)

/-- The chunk in the file. -/
def serialize (chunk : Chunk) : List UInt8 := (chunk.header blockSize).bytes ++ chunk.payload

/-- **A chunk the format can hold**: whole blocks, at least one, and fields of 32 bits. -/
structure Fits (chunk : Chunk) : Prop where
  blocks_pos : chunk.type ≠ sparseCrc32 → 1 ≤ chunk.blocks blockSize
  blocks_lt : chunk.blocks blockSize < 2 ^ 32
  size_lt : 12 + chunk.payload.length < 2 ^ 32
  whole : (chunk.expand blockSize).length = chunk.blocks blockSize * blockSize
  value : chunk.type = sparseFill → chunk.payload.length = 4

end Chunk

/-! ### The decoder -/

/-- The first chunk of a byte string, and the rest. -/
def decodeChunk (blockSize : Nat) (bytes : List UInt8) : Option (Chunk × List UInt8) :=
  let type := field bytes 0 2
  let blocks := field bytes 4 4
  let size := field bytes 8 4
  let payload := (bytes.drop 12).take (size - 12)
  if bytes.length < 12 ∨ size < 12 ∨ bytes.length < size then none
  else if type = sparseRaw.toNat ∧ 1 ≤ blocks ∧ size = 12 + blocks * blockSize then
    some (.raw payload, bytes.drop size)
  else if type = sparseFill.toNat ∧ 1 ≤ blocks ∧ size = 12 + 4 then
    some (.fill payload blocks, bytes.drop size)
  else if type = sparseDontCare.toNat ∧ 1 ≤ blocks ∧ size = 12 then
    some (.dontCare blocks, bytes.drop size)
  else if type = sparseCrc32.toNat ∧ blocks = 0 ∧ size = 12 + 4 then
    some (.crc (UInt32.ofNat (leValue payload)), bytes.drop size)
  else none

/-- Exactly `count` chunks. -/
def decodeChunks (blockSize : Nat) : Nat → List UInt8 → Option (List Chunk)
  | 0, bytes => if bytes = [] then some [] else none
  | count + 1, bytes => do
    let (chunk, rest) ← decodeChunk blockSize bytes
    let chunks ← decodeChunks blockSize count rest
    return chunk :: chunks

/-- **The strict decoder.** -/
def decodeFile (bytes : List UInt8) : Option (List UInt8) :=
  let blockSize := field bytes 12 4
  if bytes.length < 28 ∨ field bytes 0 4 ≠ 0xed26ff3a ∨ field bytes 4 2 ≠ 1 ∨ field bytes 6 2 ≠ 0 ∨
      field bytes 8 2 ≠ 28 ∨ field bytes 10 2 ≠ 12 then none
  else
    match decodeChunks blockSize (field bytes 20 4) (bytes.drop 28) with
    | none => none
    | some chunks =>
      if (chunks.map (Chunk.blocks blockSize)).sum = field bytes 16 4 then
        some (chunks.flatMap (Chunk.expand blockSize))
      else none

/-! ### The fields of the headers -/

@[simp]
theorem ChunkHeader.length_bytes (header : ChunkHeader) : header.bytes.length = 12 := by
  simp [ChunkHeader.bytes]

@[simp]
theorem SparseHeader.length_bytes (header : SparseHeader) : header.bytes.length = 28 := by
  simp [SparseHeader.bytes]

theorem chunkHeader_fields (header : ChunkHeader) (rest : List UInt8) :
    field (header.bytes ++ rest) 0 2 = header.chunkType.toNat ∧
    field (header.bytes ++ rest) 4 4 = header.blocks.toNat ∧
    field (header.bytes ++ rest) 8 4 = header.size.toNat := by
  refine ⟨?_, ?_, ?_⟩
  · exact (field_block [] rfl (length_leBytes 2 _)).trans (leValue_leBytes_uint16 _)
  · exact (field_block [_, _] (by simp) (length_leBytes 4 _)).trans (leValue_leBytes_uint32 _)
  · exact (field_block [_, _, _] (by simp) (length_leBytes 4 _)).trans (leValue_leBytes_uint32 _)

theorem sparseHeader_fields (header : SparseHeader) (rest : List UInt8) :
    field (header.bytes ++ rest) 12 4 = header.blockSize.toNat ∧
    field (header.bytes ++ rest) 16 4 = header.outputBlocks.toNat ∧
    field (header.bytes ++ rest) 20 4 = header.inputChunks.toNat := by
  refine ⟨?_, ?_, ?_⟩
  · exact (field_block [_, _, _, _, _] (by simp) (length_leBytes 4 _)).trans
      (leValue_leBytes_uint32 _)
  · exact (field_block [_, _, _, _, _, _] (by simp) (length_leBytes 4 _)).trans
      (leValue_leBytes_uint32 _)
  · exact (field_block [_, _, _, _, _, _, _] (by simp) (length_leBytes 4 _)).trans
      (leValue_leBytes_uint32 _)

/-- The constants of the file header. -/
theorem sparseHeader_constants (header : SparseHeader) (rest : List UInt8) :
    field (header.bytes ++ rest) 0 4 = 0xed26ff3a ∧ field (header.bytes ++ rest) 4 2 = 1 ∧
    field (header.bytes ++ rest) 6 2 = 0 ∧ field (header.bytes ++ rest) 8 2 = 28 ∧
    field (header.bytes ++ rest) 10 2 = 12 := by
  refine ⟨?_, ?_, ?_, ?_, ?_⟩
  · exact (field_block [] rfl (length_leBytes 4 _)).trans (leValue_leBytes (by decide))
  · exact (field_block [_] (by simp) (length_leBytes 2 _)).trans (leValue_leBytes (by decide))
  · exact (field_block [_, _] (by simp) (length_leBytes 2 _)).trans (leValue_leBytes (by decide))
  · exact (field_block [_, _, _] (by simp) (length_leBytes 2 _)).trans
      (leValue_leBytes (by decide))
  · exact (field_block [_, _, _, _] (by simp) (length_leBytes 2 _)).trans
      (leValue_leBytes (by decide))

/-! ### The round trip -/

section RoundTrip

variable {blockSize : Nat} {chunk : Chunk} {chunks : List Chunk} {rest : List UInt8}

/-- The test for another type fails. -/
theorem other_type {own other : UInt16} {condition : Prop} (differ : own ≠ other) :
    ¬ (own.toNat = other.toNat ∧ condition) :=
  fun both => differ (UInt16.toNat_inj.mp both.1)

/-- **A chunk decodes to itself.** -/
theorem decodeChunk_serialize (fits : chunk.Fits blockSize) :
    decodeChunk blockSize (chunk.serialize blockSize ++ rest) = some (chunk, rest) := by
  have blocks : (UInt32.ofNat (chunk.blocks blockSize)).toNat = chunk.blocks blockSize :=
    UInt32.toNat_ofNat_of_lt' fits.blocks_lt
  have size : (UInt32.ofNat (12 + chunk.payload.length)).toNat = 12 + chunk.payload.length :=
    UInt32.toNat_ofNat_of_lt' fits.size_lt
  obtain ⟨typeEq, blocksEq, sizeEq⟩ :=
    chunkHeader_fields (chunk.header blockSize) (chunk.payload ++ rest)
  simp only [Chunk.header, blocks, size] at typeEq blocksEq sizeEq
  have drops : (chunk.serialize blockSize ++ rest).drop (12 + chunk.payload.length) = rest := by
    rw [Chunk.serialize]
    exact List.drop_left' (by simp)
  have payload : ((chunk.serialize blockSize ++ rest).drop 12).take
      (12 + chunk.payload.length - 12) = chunk.payload := by
    rw [Chunk.serialize, List.append_assoc, List.drop_left' (ChunkHeader.length_bytes _)]
    exact List.take_left' (by omega)
  have length : ¬ ((chunk.serialize blockSize ++ rest).length < 12 ∨
      12 + chunk.payload.length < 12 ∨
      (chunk.serialize blockSize ++ rest).length < 12 + chunk.payload.length) := by
    simp only [Chunk.serialize, List.length_append, ChunkHeader.length_bytes]
    omega
  have typeEq : field (chunk.serialize blockSize ++ rest) 0 2 = chunk.type.toNat := by
    rw [Chunk.serialize, List.append_assoc]
    exact typeEq
  have blocksEq : field (chunk.serialize blockSize ++ rest) 4 4 = chunk.blocks blockSize := by
    rw [Chunk.serialize, List.append_assoc]
    exact blocksEq
  have sizeEq : field (chunk.serialize blockSize ++ rest) 8 4 = 12 + chunk.payload.length := by
    rw [Chunk.serialize, List.append_assoc]
    exact sizeEq
  simp only [decodeChunk, typeEq, blocksEq, sizeEq, payload, drops, if_neg length]
  cases chunk with
  | raw data =>
    have whole : data.length = data.length / blockSize * blockSize := fits.whole
    have some : sparseRaw ≠ sparseCrc32 := by decide
    rw [if_pos ⟨rfl, fits.blocks_pos some, congrArg (12 + ·) whole⟩]
    rfl
  | fill value count =>
    have four : value.length = 4 := fits.value rfl
    have some : sparseFill ≠ sparseCrc32 := by decide
    have raw : (Chunk.fill value count).type ≠ sparseRaw := by
      show sparseFill ≠ sparseRaw
      decide
    rw [if_neg (other_type raw), if_pos ⟨rfl, fits.blocks_pos some, congrArg (12 + ·) four⟩]
    rfl
  | dontCare count =>
    have some : sparseDontCare ≠ sparseCrc32 := by decide
    have raw : (Chunk.dontCare count).type ≠ sparseRaw := by
      show sparseDontCare ≠ sparseRaw
      decide
    have fill : (Chunk.dontCare count).type ≠ sparseFill := by
      show sparseDontCare ≠ sparseFill
      decide
    rw [if_neg (other_type raw), if_neg (other_type fill),
      if_pos ⟨rfl, fits.blocks_pos some, rfl⟩]
    rfl
  | crc value =>
    have raw : (Chunk.crc value).type ≠ sparseRaw := by
      show sparseCrc32 ≠ sparseRaw
      decide
    have fill : (Chunk.crc value).type ≠ sparseFill := by
      show sparseCrc32 ≠ sparseFill
      decide
    have dontCare : (Chunk.crc value).type ≠ sparseDontCare := by
      show sparseCrc32 ≠ sparseDontCare
      decide
    have four : (Chunk.crc value).payload.length = 4 := length_leBytes 4 _
    rw [if_neg (other_type raw), if_neg (other_type fill), if_neg (other_type dontCare),
      if_pos ⟨rfl, rfl, congrArg (12 + ·) four⟩]
    simp [Chunk.payload]

theorem decodeChunks_serialize :
    ∀ {chunks : List Chunk}, (∀ chunk ∈ chunks, chunk.Fits blockSize) →
      decodeChunks blockSize chunks.length (chunks.flatMap (Chunk.serialize blockSize)) =
        some chunks
  | [], _ => rfl
  | chunk :: chunks, fits => by
    rw [List.flatMap_cons, List.length_cons, decodeChunks,
      decodeChunk_serialize (fits chunk List.mem_cons_self)]
    simp only [Option.bind_eq_bind, Option.bind_some,
      decodeChunks_serialize fun chunk member => fits chunk (List.mem_cons_of_mem _ member)]
    rfl

/-- **The round trip of a file**: the header announces the chunks and their blocks. -/
theorem decodeFile_serialize {header : SparseHeader} (fits : ∀ chunk ∈ chunks, chunk.Fits blockSize)
    (size : header.blockSize.toNat = blockSize)
    (count : header.inputChunks.toNat = chunks.length)
    (blocks : header.outputBlocks.toNat = (chunks.map (Chunk.blocks blockSize)).sum) :
    decodeFile (header.bytes ++ chunks.flatMap (Chunk.serialize blockSize)) =
      some (chunks.flatMap (Chunk.expand blockSize)) := by
  obtain ⟨sizeEq, blocksEq, countEq⟩ :=
    sparseHeader_fields header (chunks.flatMap (Chunk.serialize blockSize))
  obtain ⟨magic, major, minor, own, chunk⟩ :=
    sparseHeader_constants header (chunks.flatMap (Chunk.serialize blockSize))
  have length : ¬ (header.bytes ++ chunks.flatMap (Chunk.serialize blockSize)).length < 28 := by
    rw [List.length_append, SparseHeader.length_bytes]
    omega
  have rest : (header.bytes ++ chunks.flatMap (Chunk.serialize blockSize)).drop 28 =
      chunks.flatMap (Chunk.serialize blockSize) :=
    List.drop_left' (SparseHeader.length_bytes _)
  simp only [decodeFile, sizeEq, blocksEq, countEq, magic, major, minor, own, chunk, length, rest,
    size, count, blocks, decodeChunks_serialize fits, ne_eq, not_true_eq_false, or_self,
    if_false, if_true]

end RoundTrip

end Genimage
