/-
**The sparse file is lossless.**

`androidSparseGenerate_ensures` puts the steps together: the header and the chunks of the extents,
the don't-care chunk behind the last one, the checksum, and the header again with the number of
chunks. What is in the file then is a `SparseFile`, and a `SparseFile` of fewer than `2 ^ 32` chunks
decodes to the padded input.
-/

import Genimage.Sparse.Extents

namespace Genimage

open Library Effect

theorem blockEnd_le {blockSize stop bound : Nat} (le : stop ≤ bound) (dvd : blockSize ∣ bound) :
    blockEnd blockSize stop ≤ bound := by
  rcases Nat.eq_zero_or_pos blockSize with zero | positive
  · rw [zero, blockEnd, Nat.mul_zero]
    exact Nat.zero_le _
  obtain ⟨count, rfl⟩ := dvd
  rw [blockEnd, countBlocks, Nat.mul_comm blockSize count]
  refine Nat.mul_le_mul_right _ (Nat.le_of_lt_succ ?_)
  refine Nat.div_lt_of_lt_mul ?_
  rw [Nat.mul_succ]
  omega

/-! ### The loop over the extents -/

/-- **The invariant** after the extents `done`. -/
structure ExtentInv (blockSize : UInt32) (input : File) (head : List UInt8) (done : List Extent)
    (loop : ExtentLoop) (world : World) : Prop where
  closed : loop.Closed blockSize input head world
  inside : loop.block.toNat ≤ countBlocks blockSize.toNat input.length
  reached : ∀ extent ∈ done, extent.start.toNat < extent.stop.toNat →
    extent.stop.toNat ≤ loop.block.toNat * blockSize.toNat
  last : loop.block.toNat = 0 ∨ ∃ extent ∈ done,
    loop.block.toNat = countBlocks blockSize.toNat extent.stop.toNat

section Loop

variable {os : Os} {fault : Prop} {world : World} {blockSize : UInt32} {input : File}
  {head : List UInt8} {bound : Nat} {loop : ExtentLoop} {extents done rest : List Extent}
  {extent : Extent}

/-- The next extent begins at the current block or behind it. -/
theorem ExtentInv.ahead (merged : Merged blockSize.toNat input extents)
    (split : extents = done ++ extent :: rest)
    (inv : ExtentInv blockSize input head done loop world)
    (some : extent.start.toNat < extent.stop.toNat) :
    loop.block.toNat * blockSize.toNat ≤ extent.start.toNat := by
  have ordered := merged.ordered
  rw [split, List.pairwise_append] at ordered
  have member : extent ∈ extents := by simp [split]
  rcases inv.last with zero | ⟨previous, before, at_end⟩
  · rw [zero, Nat.zero_mul]
    exact Nat.zero_le _
  · rcases ordered.2.2 previous before extent List.mem_cons_self with le | removed
    · rw [at_end]
      exact blockEnd_le le (merged.blocked extent member).start_dvd
    · rw [removed] at some
      exact absurd some (lt_irrefl _)

/-- Between the current block and the next extent the file is zero. -/
theorem ExtentInv.gap (merged : Merged blockSize.toNat input extents)
    (split : extents = done ++ extent :: rest)
    (inv : ExtentInv blockSize input head done loop world)
    (some : extent.start.toNat < extent.stop.toNat) {i : Nat}
    (behind : loop.block.toNat * blockSize.toNat ≤ i) (before : i < extent.start.toNat) :
    input.byte i = 0 := by
  by_contra nonzero
  obtain ⟨other, member, lower, upper⟩ := merged.data i nonzero
  have ordered := merged.ordered
  rw [split, List.pairwise_append, List.pairwise_cons] at ordered
  rw [split, List.mem_append, List.mem_cons] at member
  rcases member with earlier | rfl | later
  · have := inv.reached other earlier (by omega)
    omega
  · omega
  · rcases ordered.2.1.1 other later with le | removed
    · omega
    · rw [removed] at upper
      exact absurd upper (Nat.not_lt_zero _)

/-- **One extent.** -/
theorem ExtentInv.step (encodable : Encodable fault os blockSize input head bound)
    (merged : Merged blockSize.toNat input extents) (split : extents = done ++ extent :: rest)
    (inv : ExtentInv blockSize input head done loop world) :
    Ensures fault (extentStep os blockSize input loop extent) world
      (ExtentInv blockSize input head (done ++ [extent])) := by
  have member : extent ∈ extents := by simp [split]
  have blocked := merged.blocked extent member
  have old : ∀ {other}, other ∈ done → other ∈ done ++ [extent] := List.mem_append_left _
  by_cases empty : extent.stop.toNat = extent.start.toNat
  · rw [extentStep_empty (UInt64.toNat_inj.mp empty), ensures_pure]
    refine ⟨inv.closed, inv.inside, fun other among some => ?_, inv.last.imp_right ?_⟩
    · rcases List.mem_append.mp among with earlier | same
      · exact inv.reached other earlier some
      · rw [List.mem_singleton.mp same] at some
        omega
    · exact fun ⟨other, among, at_end⟩ => ⟨other, old among, at_end⟩
  · have some : extent.start.toNat < extent.stop.toNat := by
      have := blocked.start_le
      omega
    have ahead := inv.ahead merged split some
    have positive : 0 < blockSize.toNat := by
      have := encodable.shape.ge
      omega
    refine (extentStep_ensures encodable blocked inv.closed some ahead
      fun i behind before => inv.gap merged split some behind before).mono
      fun result next ⟨closed, block⟩ => ?_
    have reach := le_blockEnd positive extent.stop.toNat
    refine ⟨closed, ?_, fun other among nonempty => ?_, Or.inr ⟨extent, by simp, block⟩⟩
    · rw [block]
      exact Nat.div_le_div_right (Nat.add_le_add_right blocked.stop_le _)
    · rw [block]
      rcases List.mem_append.mp among with earlier | same
      · have := inv.reached other earlier nonempty
        rw [blockEnd] at reach
        omega
      · rw [List.mem_singleton.mp same]
        exact reach

/-- Behind the last extent the file is zero. -/
theorem ExtentInv.tail (merged : Merged blockSize.toNat input extents)
    (inv : ExtentInv blockSize input head extents loop world) {i : Nat}
    (behind : loop.block.toNat * blockSize.toNat ≤ i) : input.byte i = 0 := by
  by_contra nonzero
  obtain ⟨extent, member, lower, upper⟩ := merged.data i nonzero
  have := inv.reached extent member (by omega)
  omega

end Loop

/-! ### The file -/

/-- The file header with a number of chunks. -/
def fileHeader (options : SparseOptions) (input : File) (inputChunks : UInt32) : SparseHeader where
  blockSize := options.blockSize
  outputBlocks := UInt32.ofNat (countBlocks options.blockSize.toNat input.length)
  inputChunks := inputChunks

/-- The input, zero-padded to whole blocks. -/
def padded (blockSize : Nat) (input : File) : List UInt8 :=
  input.toList ++ List.replicate (blockEnd blockSize input.length - input.length) 0

theorem padded_eq {blockSize : Nat} (positive : 0 < blockSize) (input : File) :
    padded blockSize input = input.slice 0 (blockEnd blockSize input.length) := by
  have zeros : input.slice input.length (blockEnd blockSize input.length - input.length) =
      List.replicate (blockEnd blockSize input.length - input.length) 0 :=
    File.slice_eq_replicate fun i above _ => input.beyond i above
  have joined := input.slice_append 0 input.length
    (blockEnd blockSize input.length - input.length)
  rw [Nat.zero_add, zeros, Nat.add_sub_cancel' (le_blockEnd positive _)] at joined
  exact joined

/-- The checksum chunk, if it is wanted. -/
def checksum (options : SparseOptions) (input : File) : List Chunk :=
  if options.addCrc then [.crc (crc32 (padded options.blockSize.toNat input))] else []

/-- **A sparse file of the input**: behind a header with the counter `inputChunks` the chunks `body`
that stand for all blocks, and the checksum. -/
structure SparseFile (options : SparseOptions) (input : File) (inputChunks : UInt32)
    (body : List Chunk) (bytes : List UInt8) : Prop where
  bytes : bytes = (fileHeader options input inputChunks).bytes ++
    (body ++ checksum options input).flatMap (Chunk.serialize options.blockSize.toNat)
  stands : Stands options.blockSize.toNat input
    (countBlocks options.blockSize.toNat input.length) body

/-- The number of its chunks. -/
def chunkCount (options : SparseOptions) (body : List Chunk) : Nat :=
  body.length + if options.addCrc then 1 else 0

theorem length_checksum (options : SparseOptions) (input : File) (body : List Chunk) :
    (body ++ checksum options input).length = chunkCount options body := by
  rw [List.length_append, checksum, chunkCount]
  split <;> rfl

theorem crc_fits (blockSize : Nat) (value : UInt32) : (Chunk.crc value).Fits blockSize := by
  refine ⟨fun other => absurd rfl other, ?_, ?_, ?_, nofun⟩
  · show 0 < 2 ^ 32
    decide
  · show 12 + 4 < 2 ^ 32
    decide
  · show 0 = 0 * blockSize
    rw [Nat.zero_mul]

/-- Every chunk of a sparse file fits the format. -/
theorem SparseFile.fits {options : SparseOptions} {input : File} {inputChunks : UInt32}
    {body : List Chunk} {bytes : List UInt8}
    (file : SparseFile options input inputChunks body bytes) :
    ∀ chunk ∈ body ++ checksum options input, chunk.Fits options.blockSize.toNat := by
  intro chunk member
  rcases List.mem_append.mp member with plain | last
  · exact (file.stands.plain chunk plain).fits
  · rw [checksum] at last
    split at last
    · rw [List.mem_singleton.mp last]
      exact crc_fits _ _
    · cases last

/-- **A sparse file decodes to the padded input**, if the header can count its chunks. -/
theorem SparseFile.decodes {options : SparseOptions} {input : File} {body : List Chunk}
    {bytes : List UInt8}
    (file : SparseFile options input (UInt32.ofNat (chunkCount options body)) body bytes)
    (shape : BlockSize options.blockSize)
    (blocks : countBlocks options.blockSize.toNat input.length < 2 ^ 32)
    (few : chunkCount options body < 2 ^ 32) :
    decodeFile bytes = some (padded options.blockSize.toNat input) := by
  have positive : 0 < options.blockSize.toNat := by
    have := shape.ge
    omega
  have sum : ((body ++ checksum options input).map
      (Chunk.blocks options.blockSize.toNat)).sum =
      countBlocks options.blockSize.toNat input.length := by
    rw [List.map_append, List.sum_append, file.stands.blocks, checksum]
    split <;> rfl
  have expand : (body ++ checksum options input).flatMap
      (Chunk.expand options.blockSize.toNat) = padded options.blockSize.toNat input := by
    rw [List.flatMap_append, file.stands.expand, padded_eq positive, checksum]
    split <;> exact List.append_nil _
  rw [file.bytes, ← expand]
  refine decodeFile_serialize file.fits rfl ?_ ?_
  · rw [length_checksum]
    exact UInt32.toNat_ofNat_of_lt' few
  · rw [sum]
    exact UInt32.toNat_ofNat_of_lt' blocks

/-- A header that announces no chunks decodes only without chunks. -/
theorem SparseFile.decodes_none {options : SparseOptions} {input : File} {body : List Chunk}
    {bytes : List UInt8} (file : SparseFile options input 0 body bytes)
    (some : body ++ checksum options input ≠ []) : decodeFile bytes = none := by
  obtain ⟨_, _, count⟩ := sparseHeader_fields (fileHeader options input 0)
    ((body ++ checksum options input).flatMap (Chunk.serialize options.blockSize.toNat))
  have rest : bytes.drop 28 ≠ [] := by
    obtain ⟨chunk, chunks, split⟩ := List.exists_cons_of_ne_nil some
    rw [file.bytes, List.drop_left' (SparseHeader.length_bytes _), split, List.flatMap_cons,
      Chunk.serialize]
    refine List.ne_nil_of_length_pos ?_
    rw [List.length_append, List.length_append, ChunkHeader.length_bytes]
    omega
  rw [← file.bytes] at count
  have none : field bytes 20 4 = 0 := count
  rw [decodeFile]
  simp only [none, decodeChunks, if_neg rest]
  split <;> rfl

theorem toNat_blockCount {blockSize : UInt32} {length : Nat} (shape : BlockSize blockSize)
    (fits : length + blockSize.toNat ≤ 2 ^ 63) :
    (blockCount blockSize (UInt64.ofNat length)).toNat = countBlocks blockSize.toNat length := by
  have ge := shape.ge
  have small : length < 2 ^ 64 := by omega
  have size : (UInt64.ofNat length).toNat = length := UInt64.toNat_ofNat_of_lt' small
  have nonzero : blockSize.toUInt64 ≠ 0 := toNat_pos.mp (by rw [UInt32.toNat_toUInt64]; omega)
  have sum : (UInt64.ofNat length - 1 + blockSize.toUInt64).toNat =
      length + (blockSize.toNat - 1) := by
    rw [toNat_blocks_up nonzero (by rw [size, UInt32.toNat_toUInt64]; omega), size,
      UInt32.toNat_toUInt64]
  have quotient : countBlocks blockSize.toNat length < 2 ^ 64 :=
    (Nat.div_le_self _ _).trans_lt (by omega)
  rw [blockCount, toLongLong, sum, if_pos (by omega)]
  show (UInt64.ofInt ((((length + (blockSize.toNat - 1) : Nat) : Int)).tdiv
    (blockSize.toNat : Int))).toNat = _
  rw [← Int.ofNat_tdiv, UInt64.ofInt, show (2 : Int) ^ 64 = ((2 ^ 64 : Nat) : Int) by norm_num,
    ← Int.natCast_mod, Int.toNat_natCast]
  show (UInt64.ofNat (countBlocks blockSize.toNat length % 2 ^ 64)).toNat = _
  rw [Nat.mod_eq_of_lt quotient]
  exact UInt64.toNat_ofNat_of_lt' quotient

/-! ### The run -/

/-- What the extent mapping promises, where it is asked. -/
def Mapped (options : SparseOptions) (input : File) (mapped : Except Int (List Extent)) : Prop :=
  options.fillHoles = false →
    ∃ extents, mapped = .ok extents ∧ Covers input extents ∧ extents.length ≤ 2 ^ 31 + 1

theorem wholeFileExtent_covers {input : File} (small : input.length < 2 ^ 64) :
    Covers input (wholeFileExtent (UInt64.ofNat input.length)) := by
  have size : (UInt64.ofNat input.length).toNat = input.length := UInt64.toNat_ofNat_of_lt' small
  refine ⟨List.pairwise_singleton _ _, ?_, ?_, fun i nonzero => ?_⟩
  · intro extent member
    rw [List.mem_singleton.mp member]
    exact Nat.zero_le _
  · intro extent member
    rw [List.mem_singleton.mp member]
    exact size.le
  · refine ⟨_, List.mem_singleton_self _, Nat.zero_le _, ?_⟩
    rw [size]
    exact not_le.mp fun beyond => nonzero (input.beyond i beyond)

/-- The extents that are read cover the file. -/
theorem Mapped.given {options : SparseOptions} {input : File}
    {mapped : Except Int (List Extent)} (promise : Mapped options input mapped)
    (small : input.length < 2 ^ 64) :
    ∃ extents, inputExtents options (UInt64.ofNat input.length) mapped = pure extents ∧
      Covers input extents ∧ extents.length ≤ 2 ^ 31 + 1 := by
  unfold inputExtents
  cases holes : options.fillHoles with
  | true =>
    have one : (wholeFileExtent (UInt64.ofNat input.length)).length ≤ 2 ^ 31 + 1 := by
      show 1 ≤ 2 ^ 31 + 1
      decide
    exact ⟨_, rfl, wholeFileExtent_covers small, one⟩
  | false =>
    obtain ⟨list, rfl, covers, few⟩ := promise holes
    exact ⟨list, rfl, covers, few⟩

section Run

variable {os : Os} {fault : Prop} {world : World} {options : SparseOptions} {input : File}

/-- The largest output: every block raw, in a chunk of its own. -/
def largestOutput (options : SparseOptions) (input : File) : Nat :=
  28 + countBlocks options.blockSize.toNat input.length * (options.blockSize.toNat + 12) + 16

/-- **The header at the beginning** is written again, with the number of chunks. -/
theorem SparseFile.announce {body : List Chunk} {bytes : List UInt8} {inputChunks : UInt32}
    {next : World} (file : SparseFile options input 0 body bytes) (wrote : Wrote world bytes)
    (contents : next.contents =
      world.contents.pwrite 0 (fileHeader options input inputChunks).bytes) :
    SparseFile options input inputChunks body next.contents.toList := by
  have split : world.contents.toList = [] ++ (fileHeader options input 0).bytes ++
      (body ++ checksum options input).flatMap (Chunk.serialize options.blockSize.toNat) := by
    rw [wrote.1, file.bytes]
    rfl
  refine ⟨?_, file.stands⟩
  rw [contents]
  exact File.toList_patch split (by rw [SparseHeader.length_bytes, SparseHeader.length_bytes])

theorem openFile_wrote (regular : os.blockDevice = false) {bound : Nat}
    (safe : Safe fault os bound) :
    Ensures fault (openFile os true) world fun _ next => Wrote next [] := by
  refine isBlockDevice_ensures.bind fun _ _ _ => ?_
  refine Sys.openOut_ensures.bind fun ret middle opened => ?_
  rcases opened with ⟨rfl, failed⟩ | ⟨rfl, position, file⟩
  · rw [if_pos (by decide), Sys.throwErrno_ensures]
    exact safe.allowed fun both => failed both.1
  · rw [regular] at file
    rw [if_neg (by decide), ensures_pure]
    refine ⟨?_, position⟩
    rw [World.contents, file]
    rfl

/-- The checksum chunk is in the file if it is wanted, and it is counted. -/
theorem addChecksum_ensures {loop : ExtentLoop} {bound : Nat} {body : List Chunk}
    (stands : Stands options.blockSize.toNat input
      (countBlocks options.blockSize.toNat input.length) body)
    (counts : loop.inputChunks = UInt32.ofNat body.length)
    (crc : loop.crc = crc32 (padded options.blockSize.toNat input))
    (wrote : Wrote world ((fileHeader options input 0).bytes ++
      body.flatMap (Chunk.serialize options.blockSize.toNat)))
    (room : ((fileHeader options input 0).bytes ++
      body.flatMap (Chunk.serialize options.blockSize.toNat)).length + 16 ≤ bound)
    (safe : Safe fault os bound) :
    Ensures fault (addChecksum os options loop) world fun counter next => ∃ bytes,
      SparseFile options input 0 body bytes ∧
        counter = UInt32.ofNat (chunkCount options body) ∧
        Wrote next bytes ∧ bytes.length ≤ bound := by
  rw [addChecksum]
  generalize at_bytes : (fileHeader options input 0).bytes ++
    body.flatMap (Chunk.serialize options.blockSize.toNat) = bytes at *
  cases wanted : options.addCrc with
  | true =>
    rw [if_pos rfl]
    have type : (⟨sparseCrc32, 0, 12 + 4⟩ : ChunkHeader).chunkType ≠ 0 := by
      show sparseCrc32 ≠ 0
      decide
    have whole : (fileHeader options input 0).bytes ++ (body ++ checksum options input).flatMap
        (Chunk.serialize options.blockSize.toNat) =
        bytes ++ (⟨sparseCrc32, 0, 12 + 4⟩ : ChunkHeader).bytes ++ leBytes 4 loop.crc.toNat := by
      rw [checksum, if_pos wanted, ← crc, List.flatMap_append, List.flatMap_singleton,
        ← List.append_assoc, at_bytes, List.append_assoc]
      rfl
    refine (flushHeader_append type wrote (safe.mono (by omega))).bind fun _ middle wrote => ?_
    have within : Safe fault os ((bytes ++ (⟨sparseCrc32, 0, 12 + 4⟩ : ChunkHeader).bytes).length +
        (leBytes 4 loop.crc.toNat).length) := by
      refine safe.mono ?_
      rw [List.length_append, ChunkHeader.length_bytes, length_leBytes]
      omega
    refine (writeData_append wrote within).bind fun _ next wrote => ?_
    rw [ensures_pure]
    refine ⟨_, ⟨whole.symm, stands⟩, ?_, wrote, ?_⟩
    · rw [counts, chunkCount, wanted, if_pos rfl, UInt32.ofNat_add]
      rfl
    · rw [List.length_append, List.length_append, ChunkHeader.length_bytes, length_leBytes]
      omega
  | false =>
    rw [if_neg (by decide), ensures_pure]
    refine ⟨bytes, ⟨?_, stands⟩, ?_, wrote, by omega⟩
    · rw [checksum, wanted, ← at_bytes, if_neg (by decide), List.append_nil]
    · rw [counts, chunkCount, wanted]
      rfl

theorem rewriteHeader_ensures (inputChunks : UInt32) {bound : Nat} {body : List Chunk}
    {bytes : List UInt8} (file : SparseFile options input 0 body bytes)
    (wrote : Wrote world bytes) (room : bytes.length ≤ bound) (safe : Safe fault os bound) :
    Ensures fault (rewriteHeader os (fileHeader options input inputChunks)) world
      fun _ final => SparseFile options input inputChunks body final.contents.toList := by
  have header : 28 ≤ bytes.length := by
    rw [file.bytes, List.length_append, SparseHeader.length_bytes]
    omega
  refine Sys.lseekSet_ensures.bind fun ret middle ⟨kept, moved⟩ => ?_
  rcases moved with ⟨rfl, failed⟩ | ⟨rfl, position, _⟩
  · rw [if_pos (by decide), Sys.throwErrno_ensures]
    refine safe.allowed fun both => failed ⟨both.1, ?_⟩
    show 0 < offLimit
    decide
  · have start : middle.position = 0 := position
    have within : Safe fault os
        (middle.position + (fileHeader options input inputChunks).bytes.length) := by
      refine safe.mono ?_
      rw [start, SparseHeader.length_bytes]
      omega
    rw [if_neg (by decide)]
    refine (writeData_ensures within).mono fun _ final ⟨contents, _⟩ => ?_
    rw [start, World.contents_congr kept] at contents
    exact file.announce wrote contents

/-- **A run of the generator** leaves a sparse file of its input. -/
theorem androidSparseGenerate_ensures {mapped : Except Int (List Extent)}
    (regular : os.blockDevice = false) (shape : BlockSize options.blockSize)
    (blocks : countBlocks options.blockSize.toNat input.length < 2 ^ 32)
    (length : input.length + options.blockSize.toNat ≤ 2 ^ 63)
    (promise : Mapped options input mapped)
    (safe : Safe fault os (largestOutput options input)) :
    Ensures fault (androidSparseGenerate os options input mapped) world fun _ final =>
      ∃ body, SparseFile options input (UInt32.ofNat (chunkCount options body)) body
        final.contents.toList := by
  have ge := shape.ge
  have le := shape.le
  have count := toNat_blockCount shape length
  have nonzero : options.blockSize.toUInt64 ≠ 0 :=
    toNat_pos.mp (by rw [UInt32.toNat_toUInt64]; omega)
  have header : ∀ inputChunks, (⟨options.blockSize,
      (blockCount options.blockSize (UInt64.ofNat input.length)).toUInt32, inputChunks⟩ :
        SparseHeader) = fileHeader options input inputChunks := by
    intro inputChunks
    rw [fileHeader, SparseHeader.mk.injEq]
    refine ⟨rfl, UInt32.toNat_inj.mp ?_, rfl⟩
    rw [UInt64.toNat_toUInt32, count]
    rw [UInt32.toNat_ofNat']
  have encodable : Encodable fault os options.blockSize input (fileHeader options input 0).bytes
      (largestOutput options input) := by
    refine ⟨shape, length, blocks, ?_, ?_, safe⟩
    · rw [SparseHeader.length_bytes, largestOutput]
    · have := Nat.div_mul_le_self (input.length + (options.blockSize.toNat - 1))
        options.blockSize.toNat
      rw [largestOutput, Nat.mul_add]
      rw [countBlocks] at blocks ⊢
      omega
  have room := encodable.within
  obtain ⟨extents, given, covers, few⟩ := promise.given (by omega)
  have merged := mergeExtents_merged covers nonzero few (by rw [UInt32.toNat_toUInt64]; exact length)
  rw [UInt32.toNat_toUInt64] at merged
  unfold androidSparseGenerate
  simp only [given, pure_bind, header]
  generalize mergeExtents options.blockSize.toUInt64 (UInt64.ofNat input.length) extents = kept at *
  refine (openFile_wrote regular safe).bind fun _ world wrote => ?_
  refine (writeData_append wrote (safe.mono (by
    rw [List.length_nil, SparseHeader.length_bytes, largestOutput]; omega))).bind
    fun _ world wrote => ?_
  rw [List.nil_append] at wrote
  -- the extents
  have start : ExtentInv options.blockSize input (fileHeader options input 0).bytes []
      ⟨0, 0, 0⟩ world := by
    refine ⟨⟨[], ?_, Stands.nil, rfl, ?_, ?_⟩, Nat.zero_le _,
      (fun extent member => by cases member), Or.inl rfl⟩
    · rw [List.flatMap_nil, List.append_nil]
      exact wrote
    · show 0 = crc32 (input.slice 0 (0 * options.blockSize.toNat))
      have none : input.slice 0 0 = [] := rfl
      rw [Nat.zero_mul, none, crc32_nil]
    · rw [List.flatMap_nil, List.append_nil]
      exact Nat.le_add_right _ _
  refine (Ensures.foldlM (ExtentInv options.blockSize input (fileHeader options input 0).bytes)
    start fun done extent rest loop world split inv => inv.step encodable merged split).bind
    fun loop world inv => ?_
  -- the rest of the file
  refine (skipTo_ensures encodable count.le inv.closed fun i behind _ => inv.tail merged behind).bind
    fun loop' world facts => ?_
  obtain ⟨⟨body, wrote, stands, counts, crc, short⟩, block⟩ := facts
  rw [count, Nat.max_eq_right inv.inside] at block
  rw [block] at stands short crc
  have crc : loop'.crc = crc32 (padded options.blockSize.toNat input) := by
    rw [crc, padded_eq (by omega), blockEnd]
  refine (addChecksum_ensures stands counts crc wrote (by omega) safe).bind
    fun counter world facts => ?_
  obtain ⟨bytes, file, counts, wrote, within⟩ := facts
  subst counts
  have last := rewriteHeader_ensures (UInt32.ofNat (chunkCount options body)) file wrote within safe
  exact last.mono fun _ final file => ⟨body, file⟩

/-- **A reliable system** with room for the largest output carries the generator out. -/
theorem androidSparseGenerate_returns {mapped : Except Int (List Extent)} (reliable : os.Reliable)
    (shape : BlockSize options.blockSize)
    (blocks : countBlocks options.blockSize.toNat input.length < 2 ^ 32)
    (length : input.length + options.blockSize.toNat ≤ 2 ^ 63)
    (promise : Mapped options input mapped) (room : largestOutput options input < offLimit)
    (start : World) :
    ∃ final body, Returns (androidSparseGenerate os options input mapped) start () final ∧
      SparseFile options input (UInt32.ofNat (chunkCount options body)) body
        final.contents.toList := by
  have ensured : Ensures False (androidSparseGenerate os options input mapped) start _ :=
    androidSparseGenerate_ensures reliable.2 shape blocks length promise (Or.inr ⟨reliable, room⟩)
  obtain ⟨_, final, run, body, file⟩ := ensured.returns
  exact ⟨final, body, run, file⟩

/-- **Android-sparse encoding is lossless and well formed.** The file of every run that returns is a
sparse file of the input, and it decodes to the padded input as long as the header can count the
chunks. The only files with more are those with a checksum whose `2 ^ 32 - 1` blocks are chunks of
their own. On a reliable system with room for the largest output the run does return. -/
theorem androidSparseGenerate_lossless (os : Os) (options : SparseOptions) (input : File)
    (mapped : Except Int (List Extent)) (start : World) (regular : os.blockDevice = false)
    (shape : BlockSize options.blockSize)
    (blocks : countBlocks options.blockSize.toNat input.length < 2 ^ 32)
    (length : input.length + options.blockSize.toNat ≤ 2 ^ 63)
    (promise : Mapped options input mapped) :
    (∀ final, Returns (androidSparseGenerate os options input mapped) start () final →
      ∃ body, SparseFile options input (UInt32.ofNat (chunkCount options body)) body
          final.contents.toList ∧
        (∀ chunk ∈ body ++ checksum options input, chunk.Fits options.blockSize.toNat) ∧
        (chunkCount options body < 2 ^ 32 →
          decodeFile final.contents.toList = some (padded options.blockSize.toNat input)) ∧
        (chunkCount options body < 2 ^ 32 ∨ (options.addCrc = true ∧
          countBlocks options.blockSize.toNat input.length = 2 ^ 32 - 1 ∧
          body.length = 2 ^ 32 - 1))) ∧
    (os.Reliable → largestOutput options input < offLimit →
      ∃ final, Returns (androidSparseGenerate os options input mapped) start () final) := by
  constructor
  · intro final run
    have ensured : Ensures True (androidSparseGenerate os options input mapped) start _ :=
      androidSparseGenerate_ensures regular shape blocks length promise (Or.inl trivial)
    obtain ⟨body, file⟩ := ensured.of_returns run
    refine ⟨body, file, file.fits, file.decodes shape blocks, ?_⟩
    have few := file.stands.length_le
    rw [chunkCount]
    cases options.addCrc with
    | true =>
      by_cases counted : body.length + 1 < 2 ^ 32
      · exact Or.inl counted
      · exact Or.inr ⟨rfl, by omega, by omega⟩
    | false => exact Or.inl (few.trans_lt blocks)
  · intro reliable room
    obtain ⟨final, _, run, _⟩ :=
      androidSparseGenerate_returns reliable shape blocks length promise room start
    exact ⟨final, run⟩

end Run

/-- A byte in the second block. -/
def secondBlock : File := File.empty.pwrite 600 [7]

/-- Every call is carried out. -/
def carriedOut : Os where
  reply _ := .full

theorem androidSparseGenerate_lossless_secondBlock : ∃ final,
    Returns (androidSparseGenerate carriedOut ⟨512, false, true⟩ secondBlock (.ok [⟨600, 601⟩]))
      { file := none } () final ∧
    decodeFile final.contents.toList = some (padded 512 secondBlock) := by
  have covers : Covers secondBlock [⟨600, 601⟩] := by
    refine ⟨List.pairwise_singleton _ _, ?_, ?_, fun i nonzero => ⟨_, List.mem_singleton_self _, ?_⟩⟩
    · intro extent member
      rw [List.mem_singleton.mp member]
      decide
    · intro extent member
      rw [List.mem_singleton.mp member]
      decide
    · by_contra outside
      exact nonzero (File.pwrite_byte_of_not_mem outside)
  have blocks : countBlocks 512 secondBlock.length = 2 := by decide
  obtain ⟨decodes, returns⟩ := androidSparseGenerate_lossless carriedOut ⟨512, false, true⟩
    secondBlock (.ok [⟨600, 601⟩]) { file := none } rfl ⟨by decide, by decide⟩ (by decide) (by decide)
    fun _ => ⟨_, rfl, covers, by decide⟩
  obtain ⟨final, run⟩ := returns ⟨fun _ => rfl, rfl⟩ (by decide)
  obtain ⟨body, file, _, decoded, few⟩ := decodes final run
  refine ⟨final, run, decoded ?_⟩
  rcases few with few | ⟨_, many, _⟩
  · exact few
  · exact absurd (blocks.symm.trans many) (by decide)

/-! ### A file with too many chunks -/

/-- `2 ^ 32 - 1` blocks that are filled with `1` and `2` in turn. -/
def alternating : File where
  length := (2 ^ 32 - 1) * 512
  byte i := if i < (2 ^ 32 - 1) * 512 then (if i / 512 % 2 = 0 then 1 else 2) else 0
  beyond _ above := if_neg (not_lt.mpr above)

theorem alternating_block (block : Nat) (inside : block < 2 ^ 32 - 1) :
    alternating.slice (block * 512) 512 =
      List.replicate 512 (if block % 2 = 0 then 1 else 2) := by
  refine List.eq_replicate_iff.mpr ⟨File.length_slice _ _ _, fun byte member => ?_⟩
  obtain ⟨i, small, rfl⟩ := List.mem_map.mp member
  rw [List.mem_range] at small
  have quotient : (block * 512 + i) / 512 = block := by omega
  show (if block * 512 + i < (2 ^ 32 - 1) * 512 then _ else _) = _
  rw [if_pos (by omega), quotient]

/-- Every block is a chunk of its own. -/
theorem alternating_chunk {body : List Chunk} (stands : Stands 512 alternating (2 ^ 32 - 1) body)
    {chunk : Chunk} (member : chunk ∈ body) : chunk.blocks 512 = 1 := by
  obtain ⟨before, after, rfl⟩ := List.append_of_mem member
  have expand := stands.expand_at
  have total := stands.blocks
  have plain := stands.plain chunk member
  have positive := plain.fits.blocks_pos plain.type
  rw [List.map_append, List.map_cons, List.sum_append, List.sum_cons] at total
  generalize (before.map (Chunk.blocks 512)).sum = place at expand total
  have here := alternating_block place (by omega)
  have split : ∀ more, alternating.slice (place * 512) ((more + 1) * 512) =
      List.replicate 512 (if place % 2 = 0 then 1 else 2) ++
        alternating.slice ((place + 1) * 512) (more * 512) := by
    intro more
    rw [← here, Nat.succ_mul place, File.slice_append, Nat.succ_mul, Nat.add_comm]
  cases chunk with
  | raw data =>
    -- its first block is a repeated word
    obtain ⟨more, count⟩ : ∃ more, data.length / 512 = more + 1 :=
      ⟨data.length / 512 - 1, by have : 1 ≤ data.length / 512 := positive; omega⟩
    have mixed := plain.needed 0 (by omega)
    have data_eq : data = alternating.slice (place * 512) (data.length / 512 * 512) := expand
    rw [count, split] at data_eq
    rw [data_eq, Nat.zero_mul, List.drop_zero, List.take_left' List.length_replicate] at mixed
    split_ifs at mixed
    · exact absurd mixed (by decide +kernel)
    · exact absurd mixed (by decide +kernel)
  | fill value blocks =>
    -- two blocks in a row are different
    show blocks = 1
    by_contra several
    obtain ⟨more, rfl⟩ : ∃ more, blocks = more + 1 + 1 :=
      ⟨blocks - 2, by have : 1 ≤ blocks := positive; omega⟩
    have total : place + (more + 1 + 1 + (after.map (Chunk.blocks 512)).sum) = 2 ^ 32 - 1 := total
    have value_eq : (List.replicate ((more + 1 + 1) * 128) value).flatten =
        alternating.slice (place * 512) ((more + 1 + 1) * 512) := expand
    have four : value.length = 4 := plain.fits.value rfl
    have next := alternating_block (place + 1) (by omega)
    rw [split, show (more + 1) * 512 = 512 + more * 512 by omega, ← File.slice_append, next,
      show (more + 1 + 1) * 128 = 128 + (128 + more * 128) by omega, List.replicate_add,
      List.replicate_add, List.flatten_append, List.flatten_append] at value_eq
    have size : (List.replicate 128 value).flatten.length = 512 := by simp [four]
    obtain ⟨first, rest⟩ := List.append_inj value_eq (by rw [size, List.length_replicate])
    have second := (List.append_inj rest (by rw [size, List.length_replicate])).1
    have same := (List.replicate_right_inj (by decide)).mp (first.symm.trans second)
    rcases Nat.mod_two_eq_zero_or_one place with even | odd
    · rw [if_pos even, if_neg (by omega)] at same
      exact absurd same (by decide)
    · rw [if_neg (by omega), if_pos (by omega)] at same
      exact absurd same (by decide)
  | dontCare blocks =>
    -- no block is zero
    obtain ⟨more, rfl⟩ : ∃ more, blocks = more + 1 :=
      ⟨blocks - 1, by have : 1 ≤ blocks := positive; omega⟩
    have zeros : List.replicate ((more + 1) * 512) 0 =
        alternating.slice (place * 512) ((more + 1) * 512) := expand
    rw [split, Nat.succ_mul, Nat.add_comm, List.replicate_add] at zeros
    have first := (List.append_inj zeros (by rw [List.length_replicate, List.length_replicate])).1
    have same := (List.replicate_right_inj (by decide)).mp first
    split_ifs at same
    · exact absurd same (by decide)
    · exact absurd same (by decide)
  | crc value => exact absurd rfl plain.type

/-- Blocks of 512 bytes, and a checksum. -/
def checkedOptions : SparseOptions := ⟨512, true, true⟩

theorem countBlocks_alternating :
    countBlocks checkedOptions.blockSize.toNat alternating.length = 2 ^ 32 - 1 := by
  show ((2 ^ 32 - 1) * 512 + 511) / 512 = 2 ^ 32 - 1
  norm_num

/-- **The counter wraps around**: with the checksum there are `2 ^ 32` chunks, the header announces
none, and the file does not decode. -/
theorem androidSparseGenerate_wraps :
    countBlocks checkedOptions.blockSize.toNat alternating.length < 2 ^ 32 ∧
    ∃ final, Returns (androidSparseGenerate carriedOut checkedOptions alternating (.ok []))
        { file := none } () final ∧
      decodeFile final.contents.toList ≠
        some (padded checkedOptions.blockSize.toNat alternating) := by
  have few : countBlocks checkedOptions.blockSize.toNat alternating.length < 2 ^ 32 := by
    rw [countBlocks_alternating]
    norm_num
  have shape : BlockSize checkedOptions.blockSize := ⟨by decide, by decide⟩
  have size : checkedOptions.blockSize.toNat = 512 := rfl
  have length : alternating.length + checkedOptions.blockSize.toNat ≤ 2 ^ 63 := by
    rw [size, alternating]
    norm_num
  have promise : Mapped checkedOptions alternating (.ok []) := fun holes => Bool.noConfusion holes
  have room : largestOutput checkedOptions alternating < offLimit := by
    rw [largestOutput, countBlocks_alternating, size, offLimit]
    norm_num
  have reliable : carriedOut.Reliable := ⟨fun _ => rfl, rfl⟩
  obtain ⟨final, body, run, file⟩ :=
    androidSparseGenerate_returns reliable shape few length promise room { file := none }
  refine ⟨few, final, run, ?_⟩
  have stands := file.stands
  rw [countBlocks_alternating, size] at stands
  have count : body.length = 2 ^ 32 - 1 := by
    have sum := stands.blocks
    rw [List.map_congr_left fun chunk member => alternating_chunk stands member,
      List.map_const', List.sum_replicate, smul_eq_mul, Nat.mul_one] at sum
    exact sum
  have zero : UInt32.ofNat (chunkCount checkedOptions body) = 0 := by
    have all : chunkCount checkedOptions body = 2 ^ 32 := by
      show body.length + 1 = 2 ^ 32
      omega
    rw [all]
    decide
  rw [zero] at file
  rw [file.decodes_none]
  · intro same
    cases same
  · intro none
    rw [List.append_eq_nil_iff] at none
    rw [none.1] at count
    exact absurd count (by decide)

end Genimage
