/-
**`android_sparse_generate` (`image-android-sparse.c`).**

The function on the output file of `World`, with the input file and the answer of the extent mapping
as constants. Chunk headers are written twice, as placeholders with the chunk and at the remembered
offset `pos` when the chunk is complete. The counters are the C ones: `input_chunks`, `blocks` and
`size` of a chunk are 32 bits wide, `block` and the extents 64, and the index `j` of the merge loop is
an `int`.
-/

import Genimage.Library.Bytes
import Genimage.Util.Crc32
import Genimage.Util.FileOps

namespace Genimage

open Library

/-- `struct sparse` -/
structure SparseOptions where
  blockSize : UInt32
  fillHoles : Bool
  addCrc : Bool

/-- `struct sparse_header`, without the constant fields. -/
structure SparseHeader where
  blockSize : UInt32
  outputBlocks : UInt32
  inputChunks : UInt32
deriving DecidableEq, Repr

/-- The 28 bytes of a file header. -/
def SparseHeader.bytes (header : SparseHeader) : List UInt8 :=
  List.flatten [leBytes 4 0xed26ff3a, leBytes 2 1, leBytes 2 0, leBytes 2 28, leBytes 2 12,
    leBytes 4 header.blockSize.toNat, leBytes 4 header.outputBlocks.toNat,
    leBytes 4 header.inputChunks.toNat, leBytes 4 0]

/-- `SPARSE_RAW` -/
def sparseRaw : UInt16 := 0xCAC1

/-- `SPARSE_FILL` -/
def sparseFill : UInt16 := 0xCAC2

/-- `SPARSE_DONT_CARE` -/
def sparseDontCare : UInt16 := 0xCAC3

/-- `SPARSE_CRC32` -/
def sparseCrc32 : UInt16 := 0xCAC4

/-- `struct sparse_chunk_header` -/
structure ChunkHeader where
  chunkType : UInt16
  blocks : UInt32
  size : UInt32
deriving DecidableEq, Repr

/-- The 12 bytes of a chunk header. -/
def ChunkHeader.bytes (header : ChunkHeader) : List UInt8 :=
  List.flatten [leBytes 2 header.chunkType.toNat, leBytes 2 0, leBytes 4 header.blocks.toNat,
    leBytes 4 header.size.toNat]

/-! ### The extents -/

/-- An extent with its bounds moved to blocks, and its end not past the file. -/
def alignExtent (blockSize size : UInt64) (extent : Extent) : Extent where
  start := extent.start / blockSize * blockSize
  stop := minSize ((extent.stop - 1 + blockSize) / blockSize * blockSize) size

/-- The loop `for (; j > 0; --j) if (extents[j].end != 0) break;`. -/
def lastKept (extents : List Extent) : Nat → Nat
  | 0 => 0
  | j + 1 => if (extents.getD (j + 1) ⟨0, 0⟩).stop ≠ 0 then j + 1 else lastKept extents j

/-- The value of a number as `int`. -/
def toInt (value : Int) : Int := (value + 2 ^ 31) % 2 ^ 32 - 2 ^ 31

/-- `j` behind its loop, for the extent with index `extent`. -/
def searchBack (extents : List Extent) (extent : Nat) : Int :=
  let j := toInt ((extent : Int) - 1)
  if j > 0 then lastKept extents j.toNat else j

/-- The body of the loop that aligns and merges the extents. -/
def mergeStep (blockSize size : UInt64) (extents : List Extent) (extent : Nat) : List Extent :=
  let aligned := alignExtent blockSize size (extents.getD extent ⟨0, 0⟩)
  let extents := extents.set extent aligned
  let j := searchBack extents extent
  if j ≥ 0 ∧ aligned.start ≤ (extents.getD j.toNat ⟨0, 0⟩).stop then
    (extents.set j.toNat ⟨(extents.getD j.toNat ⟨0, 0⟩).start, aligned.stop⟩).set extent ⟨0, 0⟩
  else extents

/-- The loop that aligns and merges the extents. -/
def mergeExtents (blockSize size : UInt64) (extents : List Extent) : List Extent :=
  (List.range extents.length).foldl (mergeStep blockSize size) extents

/-! ### Chunks -/

section Write

variable (os : Os)

/-- `write_data` -/
def writeData (data : List UInt8) : Sys Unit := do
  let written ← Sys.write os data
  if written < 0 then Sys.throwErrno
  else if written ≠ data.length then throw einval

/-- `flush_header` -/
def flushHeader (header : ChunkHeader) (offset : Int) : Sys Unit := do
  if header.chunkType = 0 then return
  if offset ≥ 0 then
    if (← Sys.lseekSet os (UInt64.ofNat offset.toNat)) < 0 then Sys.throwErrno
  writeData os header.bytes
  if offset ≥ 0 then
    if (← Sys.lseekEnd os) < 0 then Sys.throwErrno

/-- All 32-bit words of a block are equal. -/
def isFill (block : List UInt8) : Bool :=
  (List.range' 1 (block.length / 4 - 1)).all fun i => field block (4 * i) 4 = field block 0 4

/-- `max_raw_blocks` -/
def maxRawBlocks (blockSize : UInt32) : UInt32 :=
  UInt32.ofNat ((2 ^ 32 - 1 - 12) / blockSize.toNat)

/-- The variables of the loop over the blocks of an extent. -/
structure BlockLoop where
  size : UInt64
  inPos : Nat
  header : ChunkHeader
  fillValue : Nat
  pos : Int
  inputChunks : UInt32
  crc : UInt32

/-- The current chunk is complete and another one begins with its placeholder. -/
def beginChunk (loop : BlockLoop) (header : ChunkHeader) : Sys BlockLoop := do
  flushHeader os loop.header loop.pos
  let pos ← Sys.lseekCur
  flushHeader os header (-1)
  return { loop with inputChunks := loop.inputChunks + 1, pos := pos, header := header }

/-- A block of equal words. -/
def addFill (loop : BlockLoop) (block : List UInt8) : Sys BlockLoop := do
  let value := field block 0 4
  let loop ←
    if loop.header.chunkType ≠ sparseFill ∨ loop.fillValue ≠ value then do
      let loop ← beginChunk os loop ⟨sparseFill, 0, 12 + 4⟩
      writeData os (block.take 4)
      pure { loop with fillValue := value }
    else pure loop
  return { loop with header := { loop.header with blocks := loop.header.blocks + 1 } }

/-- Any other block. -/
def addRaw (blockSize : UInt32) (loop : BlockLoop) (block : List UInt8) : Sys BlockLoop := do
  let loop ←
    if loop.header.chunkType ≠ sparseRaw ∨ loop.header.blocks ≥ maxRawBlocks blockSize then
      beginChunk os loop ⟨sparseRaw, 0, 12⟩
    else pure loop
  writeData os block
  return { loop with header := { loop.header with
    blocks := loop.header.blocks + 1, size := loop.header.size + blockSize } }

/-- The body of the loop over the blocks of an extent. -/
def blockStep (blockSize : UInt32) (input : File) (loop : BlockLoop) : Sys BlockLoop := do
  let now := minSize loop.size blockSize.toUInt64
  let some data ← Sys.read os input loop.inPos now.toNat | Sys.throwErrno
  if data.length ≠ now.toNat then throw einval
  let block := data ++ List.replicate (blockSize.toNat - data.length) 0
  let loop := { loop with
    size := loop.size - now
    inPos := loop.inPos + now.toNat
    crc := crc32Next block loop.crc }
  if isFill block then addFill os loop block else addRaw os blockSize loop block

/-- The loop over the blocks of an extent, `fuel` times at most. -/
def blockLoop (blockSize : UInt32) (input : File) : Nat → BlockLoop → Sys BlockLoop
  | 0, loop => return loop
  | fuel + 1, loop =>
    if loop.size = 0 then return loop
    else do blockLoop blockSize input fuel (← blockStep os blockSize input loop)

/-- The variables of the loop over the extents. -/
structure ExtentLoop where
  block : UInt64
  inputChunks : UInt32
  crc : UInt32

/-- The checksum over `blocks` blocks of zeros. -/
def crcZeros (blockSize blocks : Nat) (crc : UInt32) : UInt32 :=
  (fun crc => crc32Next (List.replicate blockSize 0) crc)^[blocks] crc

/-- A don't-care chunk up to block `stop`. -/
def skipTo (blockSize : UInt32) (loop : ExtentLoop) (stop : UInt64) : Sys ExtentLoop := do
  if loop.block < stop then
    let blocks := (stop - loop.block).toUInt32
    flushHeader os ⟨sparseDontCare, blocks, 12⟩ (-1)
    return {
      block := stop
      inputChunks := loop.inputChunks + 1
      crc := crcZeros blockSize.toNat blocks.toNat loop.crc }
  else return loop

/-- The body of the loop over the extents. -/
def extentStep (blockSize : UInt32) (input : File) (loop : ExtentLoop) (extent : Extent) :
    Sys ExtentLoop := do
  let startBlock := (extent.start / blockSize.toUInt64).toUInt32
  let size := extent.stop - extent.start
  -- skip removed extents
  if size = 0 then return loop
  let loop ← skipTo os blockSize loop startBlock.toUInt64
  if (← Sys.lseekIn os extent.start) < 0 then Sys.throwErrno
  let pos ← Sys.lseekCur
  let inner ← blockLoop os blockSize input size.toNat {
    size := size
    inPos := extent.start.toNat
    header := ⟨0, 0, 0⟩
    fillValue := 0
    pos := pos
    inputChunks := loop.inputChunks
    crc := loop.crc }
  flushHeader os inner.header inner.pos
  return {
    block := (extent.stop - 1 + blockSize.toUInt64) / blockSize.toUInt64
    inputChunks := inner.inputChunks
    crc := inner.crc }

/-- `block_count`: the sum is an `off_t`. -/
def blockCount (blockSize : UInt32) (size : UInt64) : UInt64 :=
  UInt64.ofInt ((toLongLong (size - 1 + blockSize.toUInt64)).tdiv blockSize.toNat)

/-- The extents to read: the whole file with `fill-holes`, else what `map_file_extents` answers. -/
def inputExtents (options : SparseOptions) (size : UInt64) (mapped : Except Int (List Extent)) :
    Sys (List Extent) :=
  if options.fillHoles then return wholeFileExtent size
  else match mapped with
    | .ok extents => return extents
    | .error ret => throw ret

/-- The chunk with the checksum, if it is wanted; returns `input_chunks`. -/
def addChecksum (options : SparseOptions) (loop : ExtentLoop) : Sys UInt32 := do
  if options.addCrc then
    flushHeader os ⟨sparseCrc32, 0, 12 + 4⟩ (-1)
    writeData os (leBytes 4 loop.crc.toNat)
    return loop.inputChunks + 1
  else return loop.inputChunks

/-- The file header, written over the first one. -/
def rewriteHeader (header : SparseHeader) : Sys Unit := do
  if (← Sys.lseekSet os 0) < 0 then Sys.throwErrno
  else writeData os header.bytes

/-- `android_sparse_generate`, from the opened input file on. `mapped` is the answer of
`map_file_extents`. -/
def androidSparseGenerate (options : SparseOptions) (input : File)
    (mapped : Except Int (List Extent)) : Sys Unit := do
  let size := UInt64.ofNat input.length
  let blockCount := blockCount options.blockSize size
  let extents ← inputExtents options size mapped
  let extents := mergeExtents options.blockSize.toUInt64 size extents
  openFile os true
  let header : SparseHeader := ⟨options.blockSize, blockCount.toUInt32, 0⟩
  writeData os header.bytes
  let loop ← extents.foldlM (extentStep os options.blockSize input) ⟨0, 0, 0⟩
  let loop ← skipTo os options.blockSize loop blockCount
  let inputChunks ← addChecksum os options loop
  rewriteHeader os { header with inputChunks := inputChunks }

end Write

end Genimage
