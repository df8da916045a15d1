/-
**The checksum chunk.**

The checksum is added up block by block, in the gaps, in the extents and behind the last extent, while
the chunks are begun and closed on their own. `Summed` ties the two together: the running value is the
checksum of what the chunks in the file expand to. It needs nothing of the extents, so it also holds
where they overlap, and where the number of blocks is cut to 32 bits.

`expandFile` expands the chunks of a file one after the other up to the checksum at its end. It does not
look at the counters of the file header, and takes a don't-care chunk without blocks for what it is.
-/

import Genimage.Sparse.Lossless

namespace Genimage

open Library Effect

/-! ### The largest offset -/

/-- The file has not passed the largest offset. -/
def World.Small (world : World) : Prop := world.contents.length < offLimit

section Small

variable {os : Os} {world next : World} {data block : List UInt8} {header : ChunkHeader}
  {offset : Int} {loop : BlockLoop} {blockSize : UInt32}

theorem World.Small.frame (small : world.Small) (file : next.file = world.file) : next.Small := by
  rw [World.Small, World.contents_congr file]
  exact small

theorem write_small (small : world.Small) :
    Ensures True (Sys.write os data) world fun _ next => next.Small := by
  rw [Sys.write, ensures_bind, ensures_get]
  refine Sys.pwrite_ensures.bind fun ret middle facts => ?_
  obtain ⟨_, written⟩ := facts
  rw [ensures_bind, ensures_modify, ensures_pure]
  change middle.Small
  rcases written with ⟨_, _, kept, _⟩ | ⟨count, _, le, _, inside, _, file⟩
  · exact small.frame kept
  · rw [World.Small, World.contents, file, Option.getD_some]
    by_cases none : data.take count = []
    · rw [none, File.pwrite_nil]
      exact small
    · have length := List.length_take_of_le le
      have positive := List.length_pos_of_ne_nil none
      have some : 0 < count := by omega
      have below := Sys.add_room_lt small some inside
      exact (File.length_pwrite_le_max _ _ _).trans_lt (max_lt small (by rw [length]; exact below))

theorem writeData_small (small : world.Small) :
    Ensures True (writeData os data) world fun _ next => next.Small := by
  rw [writeData]
  refine (write_small small).bind fun written middle small => ?_
  split_ifs
  · trivial
  · trivial
  · exact small

theorem flushHeader_small (small : world.Small) :
    Ensures True (flushHeader os header offset) world fun _ next => next.Small := by
  rw [flushHeader]
  by_cases none : header.chunkType = 0
  · rw [if_pos none]
    exact small
  rw [if_neg none]
  by_cases patch : offset ≥ 0
  · simp only [if_pos patch]
    refine Sys.lseekSet_ensures.bind fun ret middle facts => ?_
    obtain ⟨file, _⟩ := facts
    split_ifs
    · trivial
    · refine (writeData_small (small.frame file)).bind fun _ later small => ?_
      refine Sys.lseekEnd_ensures.bind fun ret last facts => ?_
      obtain ⟨file, _⟩ := facts
      split_ifs
      · trivial
      · exact small.frame file
  · simp only [if_neg patch]
    refine (writeData_small small).bind fun _ later small => ?_
    exact small

theorem beginChunk_small (small : world.Small) :
    Ensures True (beginChunk os loop header) world fun _ next => next.Small := by
  rw [beginChunk]
  refine (flushHeader_small small).bind fun _ middle small => ?_
  rw [ensures_bind, Sys.lseekCur_ensures]
  refine (flushHeader_small small).bind fun _ next small => ?_
  exact small

theorem addFill_small (small : world.Small) :
    Ensures True (addFill os loop block) world fun _ next => next.Small := by
  rw [addFill]
  split_ifs
  · simp only
    refine (beginChunk_small small).bind fun _ middle small => ?_
    refine (writeData_small small).bind fun _ next small => ?_
    exact small
  · exact small

theorem addRaw_small (small : world.Small) :
    Ensures True (addRaw os blockSize loop block) world fun _ next => next.Small := by
  rw [addRaw]
  split_ifs
  · refine (beginChunk_small small).bind fun _ middle small => ?_
    refine (writeData_small small).bind fun _ next small => ?_
    exact small
  · refine (writeData_small small).bind fun _ next small => ?_
    exact small

theorem addBlock_small (small : world.Small) :
    Ensures True (if isFill block then addFill os loop block else addRaw os blockSize loop block)
      world fun _ next => next.Small := by
  split_ifs
  · exact addFill_small small
  · exact addRaw_small small

end Small

/-! ### The blocks of an extent -/

/-- **The invariant of the loop** over the blocks of an extent: the checksum is that of what is written
expands to. -/
structure BlockSum (blockSize : UInt32) (head : List UInt8) (loop : BlockLoop) (world : World) :
    Prop where
  small : world.Small
  emitting : ∃ image chunks current bytes, Wrote world bytes ∧
    Emitting blockSize head image chunks current loop bytes ∧ loop.crc = crc32 image ∧
    (loop.size ≠ 0 → openBlocks blockSize.toNat current * blockSize.toNat ≤ loop.inPos)

/-- **The file between two extents**: complete chunks, and the checksum of what they expand to. -/
structure Summed (blockSize : UInt32) (head : List UInt8) (loop : ExtentLoop) (chunks : List Chunk)
    (world : World) : Prop where
  small : world.Small
  wrote : Wrote world (head ++ chunks.flatMap (Chunk.serialize blockSize.toNat))
  inputChunks : loop.inputChunks = UInt32.ofNat chunks.length
  crc : loop.crc = crc32 (chunks.flatMap (Chunk.expand blockSize.toNat))

/-- The complete chunks are data. -/
def SumsUp (blockSize : UInt32) (head : List UInt8) (loop : ExtentLoop) (world : World) : Prop :=
  ∃ chunks, (∀ chunk ∈ chunks, chunk.Plain blockSize.toNat) ∧
    Summed blockSize head loop chunks world

section Loop

variable {os : Os} {world : World} {blockSize : UInt32} {input : File} {head : List UInt8}
  {loop : BlockLoop}

/-- **One block**, wherever it is in the input. -/
theorem blockStep_sums (shape : BlockSize blockSize)
    (few : countBlocks blockSize.toNat input.length < 2 ^ 32)
    (inv : BlockSum blockSize head loop world) (more : loop.size ≠ 0) :
    Ensures True (blockStep os blockSize input loop) world (BlockSum blockSize head) := by
  obtain ⟨small, image, chunks, current, bytes, wrote, emitting, crc, opened⟩ := inv
  have ge := shape.ge
  have opened := opened more
  have positive : 0 < loop.size.toNat := toNat_pos.mpr more
  have limit : offLimit = 2 ^ 63 := rfl
  rw [blockStep]
  have now_eq : (minSize loop.size blockSize.toUInt64).toNat =
      min loop.size.toNat blockSize.toNat := toNat_minSize _ _
  generalize minSize loop.size blockSize.toUInt64 = now at *
  refine Sys.read_ensures.bind fun data middle facts => ?_
  obtain ⟨file, position, got, _⟩ := facts
  rcases got with ⟨rfl, _⟩ | ⟨length, rfl, le, _, inside⟩
  · trivial
  simp only [File.length_slice]
  split
  next => trivial
  next same =>
    rw [not_not] at same
    subst same
    have block_length : (input.slice loop.inPos now.toNat ++
        List.replicate (blockSize.toNat - now.toNat) 0).length = blockSize.toNat := by
      rw [List.length_append, File.length_slice, List.length_replicate]
      omega
    generalize input.slice loop.inPos now.toNat ++
      List.replicate (blockSize.toNat - now.toNat) 0 = block at block_length
    have count : openBlocks blockSize.toNat current < countBlocks blockSize.toNat input.length :=
      lt_countBlocks (by omega) (by omega)
    have wrote := wrote.frame file position
    have short := small.frame file
    have bytes_small : bytes.length < offLimit := by
      rw [← wrote.length]
      exact short
    generalize advance : ({ loop with
      size := loop.size - now
      inPos := loop.inPos + now.toNat
      crc := crc32Next block loop.crc } : BlockLoop) = advanced
    have step : Emitting blockSize head image chunks current advanced bytes := by
      rw [← advance]
      exact emitting.frame rfl rfl rfl rfl
    refine (((step.addBlock wrote shape block_length (by omega) (by omega) (Or.inl trivial)).and
      (addBlock_small short)).mono ?_)
    rintro result next ⟨⟨⟨chunks', current', bytes', wrote', emitting', _, growth⟩, size, in_pos, sum⟩,
      short⟩
    rw [← advance] at size in_pos sum
    simp only at size in_pos sum
    refine ⟨short, _, chunks', current', bytes', wrote', emitting', ?_, fun some => ?_⟩
    · rw [sum, crc, crc32, crc32, ← crc32Next_append]
    · have nonzero := toNat_pos.mpr some
      rw [size, toNat_sub_of_le (by omega)] at nonzero
      have growth := Nat.mul_le_mul_right blockSize.toNat growth
      rw [Nat.succ_mul] at growth
      omega

/-- **The loop over the blocks of an extent**; by induction on the fuel. -/
theorem blockLoop_sums (shape : BlockSize blockSize)
    (few : countBlocks blockSize.toNat input.length < 2 ^ 32) (fuel : Nat)
    (inv : BlockSum blockSize head loop world) :
    Ensures True (blockLoop os blockSize input fuel loop) world (BlockSum blockSize head) := by
  induction fuel generalizing loop world with
  | zero => exact inv
  | succ fuel ih =>
    rw [blockLoop]
    split
    next => exact inv
    next more => exact (blockStep_sums shape few inv more).bind fun result middle inv => ih inv

/-- **The end of an extent** completes the open chunk. -/
theorem BlockSum.close (inv : BlockSum blockSize head loop world) (block : UInt64) :
    Ensures True (flushHeader os loop.header loop.pos) world fun _ next =>
      SumsUp blockSize head ⟨block, loop.inputChunks, loop.crc⟩ next := by
  obtain ⟨small, image, chunks, current, bytes, wrote, emitting, crc, _⟩ := inv
  have limit : offLimit = 2 ^ 63 := rfl
  have bytes_small : bytes.length < offLimit := by
    rw [← wrote.length]
    exact small
  refine ((emitting.progress.close wrote (by omega) (Or.inl trivial)).and
    (flushHeader_small small)).mono fun _ next ⟨wrote, small⟩ => ?_
  refine ⟨chunks ++ current.toList, emitting.expands.plain, small, ?_, emitting.inputChunks, ?_⟩
  · rw [List.flatMap_append, ← List.append_assoc]
    exact wrote
  · rw [emitting.expands.expand]
    exact crc

/-- **A gap**: a don't-care chunk for the blocks up to `stop`, as many as 32 bits can say. -/
theorem skipTo_sums {loop : ExtentLoop} {chunks : List Chunk} {stop : UInt64}
    (summed : Summed blockSize head loop chunks world) :
    Ensures True (skipTo os blockSize loop stop) world fun result next =>
      ∃ gap : List Chunk, Summed blockSize head result (chunks ++ gap) next ∧
        ∀ chunk ∈ gap, ∃ blocks : UInt32, chunk = .dontCare blocks.toNat ∧
          (stop.toNat < 2 ^ 32 → blocks ≠ 0) := by
  rw [skipTo]
  split
  next less =>
    rw [UInt64.lt_iff_toNat_lt] at less
    have nonzero : stop.toNat < 2 ^ 32 → (stop - loop.block).toUInt32 ≠ 0 := by
      intro small zero
      have value : (stop - loop.block).toUInt32.toNat = stop.toNat - loop.block.toNat := by
        rw [UInt64.toNat_toUInt32, toNat_sub_of_le less.le]
        omega
      rw [zero] at value
      have : (0 : UInt32).toNat = 0 := rfl
      omega
    generalize (stop - loop.block).toUInt32 = gap at nonzero
    have type : (⟨sparseDontCare, gap, 12⟩ : ChunkHeader).chunkType ≠ 0 := by
      show sparseDontCare ≠ 0
      decide
    refine ((flushHeader_append type summed.wrote (Or.inl trivial)).and
      (flushHeader_small summed.small)).bind fun _ next facts => ?_
    obtain ⟨wrote, small⟩ := facts
    rw [ensures_pure]
    refine ⟨[.dontCare gap.toNat], ⟨small, ?_, ?_, ?_⟩, fun chunk member => ?_⟩
    · rw [List.flatMap_append, List.flatMap_singleton, serialize_dontCare, ← List.append_assoc]
      exact wrote
    · exact ofNat_length_succ summed.inputChunks
    · show crcZeros blockSize.toNat gap.toNat loop.crc = _
      rw [crcZeros_eq, summed.crc, crc32, crc32, ← crc32Next_append, List.flatMap_append,
        List.flatMap_singleton]
      rfl
    · exact ⟨gap, List.mem_singleton.mp member, nonzero⟩
  next =>
    rw [ensures_pure]
    refine ⟨[], ?_, fun chunk member => by cases member⟩
    rw [List.append_nil]
    exact summed

/-- **An extent**, wherever it begins and ends. -/
theorem extentStep_sums (shape : BlockSize blockSize)
    (few : countBlocks blockSize.toNat input.length < 2 ^ 32) {loop : ExtentLoop} (extent : Extent)
    (sums : SumsUp blockSize head loop world) :
    Ensures True (extentStep os blockSize input loop extent) world (SumsUp blockSize head) := by
  obtain ⟨chunks, plain, summed⟩ := sums
  rw [extentStep]
  split_ifs
  · exact ⟨chunks, plain, summed⟩
  refine (skipTo_sums summed).bind fun loop' middle facts => ?_
  obtain ⟨gap, summed, dontCare⟩ := facts
  have plain : ∀ chunk ∈ chunks ++ gap, chunk.Plain blockSize.toNat := by
    refine List.forall_mem_append.mpr ⟨plain, fun chunk member => ?_⟩
    obtain ⟨blocks, rfl, some⟩ := dontCare chunk member
    exact dontCare_plain _ (some (by rw [UInt32.toNat_toUInt64]; exact UInt32.toNat_lt _))
  refine Sys.lseekIn_ensures.bind fun ret middle' facts => ?_
  obtain ⟨file, position, _⟩ := facts
  split_ifs
  · trivial
  rw [ensures_bind, Sys.lseekCur_ensures]
  have start : BlockSum blockSize head {
      size := extent.stop - extent.start
      inPos := extent.start.toNat
      header := ⟨0, 0, 0⟩
      fillValue := 0
      pos := middle'.position
      inputChunks := loop'.inputChunks
      crc := loop'.crc } middle' := by
    refine ⟨summed.small.frame file, _, chunks ++ gap, none, _, summed.wrote.frame file position,
      ⟨⟨rfl, rfl⟩, ⟨?_, ?_⟩, ?_⟩, summed.crc, fun _ => ?_⟩
    · rwa [Option.toList_none, List.append_nil]
    · rw [Option.toList_none, List.append_nil]
    · rw [Option.toList_none, List.append_nil]
      exact summed.inputChunks
    · exact (Nat.zero_mul _).trans_le (Nat.zero_le _)
  refine (blockLoop_sums shape few _ start).bind fun inner last inv => ?_
  exact (inv.close _).bind fun _ next sums => sums

end Loop

/-! ### The reader -/

/-- A chunk of data, or a don't-care chunk without blocks. -/
def Chunk.Readable (blockSize : Nat) (chunk : Chunk) : Prop :=
  chunk.Plain blockSize ∨ chunk = .dontCare 0

/-- The first chunk of a byte string, and the rest; a don't-care chunk may have no blocks. -/
def readChunk (blockSize : Nat) (bytes : List UInt8) : Option (Chunk × List UInt8) :=
  if bytes.take 12 = (Chunk.dontCare 0).serialize blockSize then some (.dontCare 0, bytes.drop 12)
  else decodeChunk blockSize bytes

/-- The chunks up to the checksum at the end, at most `fuel`: what they expand to, and the checksum. -/
def readChunks (blockSize : Nat) : Nat → List UInt8 → Option (List UInt8 × UInt32)
  | 0, _ => none
  | fuel + 1, bytes =>
    match readChunk blockSize bytes with
    | none => none
    | some (.crc value, rest) => if rest = [] then some ([], value) else none
    | some (chunk, rest) => (readChunks blockSize fuel rest).map fun (image, value) =>
      (chunk.expand blockSize ++ image, value)

/-- **The image and the checksum of a sparse file.** -/
def expandFile (bytes : List UInt8) : Option (List UInt8 × UInt32) :=
  readChunks (field bytes 12 4) bytes.length (bytes.drop 28)

section Reader

variable {blockSize : Nat} {chunk : Chunk} {chunks : List Chunk} {rest : List UInt8}

theorem readChunk_serialize (fits : chunk.Fits blockSize) :
    readChunk blockSize (chunk.serialize blockSize ++ rest) = some (chunk, rest) := by
  rw [readChunk, if_neg, decodeChunk_serialize fits]
  intro same
  have front : (chunk.serialize blockSize ++ rest).take 12 = (chunk.header blockSize).bytes := by
    rw [Chunk.serialize, List.append_assoc]
    exact List.take_left' (ChunkHeader.length_bytes _)
  have headers : (chunk.header blockSize).bytes ++ [] =
      (Chunk.header blockSize (.dontCare 0)).bytes ++ [] := by
    rw [← front, same, Chunk.serialize, List.append_assoc]
    rfl
  obtain ⟨type, blocks, _⟩ := chunkHeader_fields (chunk.header blockSize) []
  obtain ⟨type', blocks', _⟩ := chunkHeader_fields (Chunk.header blockSize (.dontCare 0)) []
  rw [headers, type'] at type
  rw [headers, blocks'] at blocks
  have kind : chunk.type = sparseDontCare := (UInt16.toNat_inj.mp type).symm
  have positive := fits.blocks_pos (by rw [kind]; decide)
  have none : (UInt32.ofNat (chunk.blocks blockSize)).toNat = 0 := blocks.symm
  rw [UInt32.toNat_ofNat_of_lt' fits.blocks_lt] at none
  omega

theorem readChunk_readable (readable : chunk.Readable blockSize) :
    readChunk blockSize (chunk.serialize blockSize ++ rest) = some (chunk, rest) := by
  rcases readable with plain | rfl
  · exact readChunk_serialize plain.fits
  · have front : ((Chunk.dontCare 0).serialize blockSize ++ rest).take 12 =
        (Chunk.dontCare 0).serialize blockSize := List.take_left' rfl
    have back : ((Chunk.dontCare 0).serialize blockSize ++ rest).drop 12 = rest :=
      List.drop_left' rfl
    rw [readChunk, if_pos front, back]

/-- **The chunks are read back**; by induction on them. -/
theorem readChunks_serialize (readable : ∀ chunk ∈ chunks, chunk.Readable blockSize)
    (value : UInt32) {fuel : Nat} (enough : chunks.length < fuel) :
    readChunks blockSize fuel (chunks.flatMap (Chunk.serialize blockSize) ++
        (Chunk.crc value).serialize blockSize) =
      some (chunks.flatMap (Chunk.expand blockSize), value) := by
  induction chunks generalizing fuel with
  | nil =>
    obtain ⟨fuel, rfl⟩ := Nat.exists_eq_succ_of_ne_zero (Nat.ne_zero_of_lt enough)
    have read : readChunk blockSize ((Chunk.crc value).serialize blockSize ++ []) =
        some (.crc value, []) := readChunk_serialize (crc_fits blockSize value)
    rw [List.append_nil] at read
    rw [readChunks, List.flatMap_nil, List.nil_append, read]
    exact if_pos rfl
  | cons chunk chunks ih =>
    obtain ⟨fuel, rfl⟩ := Nat.exists_eq_succ_of_ne_zero (Nat.ne_zero_of_lt enough)
    rw [List.forall_mem_cons] at readable
    have read := ih readable.2 (Nat.lt_of_succ_lt_succ enough)
    rw [readChunks, List.flatMap_cons, List.append_assoc, readChunk_readable readable.1]
    cases chunk with
    | crc value =>
      rcases readable.1 with plain | same
      · exact absurd rfl plain.type
      · cases same
    | _ =>
      simp only [read]
      rfl

/-- A chunk takes room for its header. -/
theorem length_le_serialize (blockSize : Nat) (chunks : List Chunk) :
    chunks.length ≤ (chunks.flatMap (Chunk.serialize blockSize)).length := by
  induction chunks with
  | nil => exact le_rfl
  | cons chunk chunks ih =>
    rw [List.flatMap_cons, List.length_append, List.length_cons, Chunk.serialize,
      List.length_append, ChunkHeader.length_bytes]
    omega

/-- **A file is expanded**, up to the checksum at its end. -/
theorem expandFile_serialize (readable : ∀ chunk ∈ chunks, chunk.Readable blockSize)
    (header : SparseHeader) (size : header.blockSize.toNat = blockSize) (value : UInt32) :
    expandFile (header.bytes ++ (chunks.flatMap (Chunk.serialize blockSize) ++
        (Chunk.crc value).serialize blockSize)) =
      some (chunks.flatMap (Chunk.expand blockSize), value) := by
  obtain ⟨sizeEq, _⟩ := sparseHeader_fields header (chunks.flatMap (Chunk.serialize blockSize) ++
    (Chunk.crc value).serialize blockSize)
  have count := length_le_serialize blockSize chunks
  rw [expandFile, sizeEq, size, List.drop_left' (SparseHeader.length_bytes _)]
  refine readChunks_serialize readable value ?_
  rw [List.length_append, List.length_append, SparseHeader.length_bytes]
  omega

end Reader

/-! ### The run -/

section Run

variable {os : Os} {world : World} {options : SparseOptions} {input : File}

/-- The checksum chunk behind the others. -/
theorem addChecksum_sums {head : List UInt8} {loop : ExtentLoop} {chunks : List Chunk}
    (summed : Summed options.blockSize head loop chunks world) (wanted : options.addCrc = true) :
    Ensures True (addChecksum os options loop) world fun _ next =>
      Wrote next (head ++ (chunks.flatMap (Chunk.serialize options.blockSize.toNat) ++
        (Chunk.crc (crc32 (chunks.flatMap (Chunk.expand options.blockSize.toNat)))).serialize
          options.blockSize.toNat)) := by
  have type : (⟨sparseCrc32, 0, 12 + 4⟩ : ChunkHeader).chunkType ≠ 0 := by
    show sparseCrc32 ≠ 0
    decide
  rw [addChecksum, if_pos wanted]
  refine (flushHeader_append type summed.wrote (Or.inl trivial)).bind fun _ middle wrote => ?_
  refine (writeData_append wrote (Or.inl trivial)).bind fun _ next wrote => ?_
  rw [ensures_pure]
  rw [List.append_assoc, List.append_assoc, summed.crc] at wrote
  exact wrote

/-- The header is written over the first one. -/
theorem rewriteHeader_replaces {old new : SparseHeader} {rest : List UInt8}
    (wrote : Wrote world (old.bytes ++ rest)) :
    Ensures True (rewriteHeader os new) world fun _ final =>
      final.contents.toList = new.bytes ++ rest := by
  refine Sys.lseekSet_ensures.bind fun ret middle ⟨kept, moved⟩ => ?_
  rcases moved with ⟨rfl, _⟩ | ⟨rfl, position, _⟩
  · trivial
  · have start : middle.position = 0 := position
    rw [if_neg (by decide)]
    refine (writeData_ensures (Or.inl trivial)).mono fun _ final ⟨contents, _⟩ => ?_
    have split : world.contents.toList = [] ++ old.bytes ++ rest := wrote.1
    have same : new.bytes.length = old.bytes.length := by
      rw [SparseHeader.length_bytes, SparseHeader.length_bytes]
    rw [contents, start, World.contents_congr kept]
    exact File.toList_patch split same

/-- **The file of a run** is a header, the chunks, and the checksum of what they expand to. -/
theorem androidSparseGenerate_sums {mapped : Except Int (List Extent)}
    (regular : os.blockDevice = false) (shape : BlockSize options.blockSize)
    (few : countBlocks options.blockSize.toNat input.length < 2 ^ 32)
    (wanted : options.addCrc = true) :
    Ensures True (androidSparseGenerate os options input mapped) world fun _ final =>
      ∃ (header : SparseHeader) (chunks : List Chunk), header.blockSize = options.blockSize ∧
        (∀ chunk ∈ chunks, chunk.Readable options.blockSize.toNat) ∧
        final.contents.toList = header.bytes ++
          (chunks.flatMap (Chunk.serialize options.blockSize.toNat) ++
            (Chunk.crc (crc32 (chunks.flatMap (Chunk.expand options.blockSize.toNat)))).serialize
              options.blockSize.toNat) := by
  have safe : Safe True os 0 := Or.inl trivial
  have given : Ensures True (inputExtents options (UInt64.ofNat input.length) mapped) world
      fun _ _ => True := .of_forall fun _ _ => trivial
  rw [androidSparseGenerate]
  refine given.bind fun extents world _ => ?_
  generalize mergeExtents options.blockSize.toUInt64 (UInt64.ofNat input.length) extents = kept
  refine (openFile_wrote regular safe).bind fun _ world wrote => ?_
  have small : world.Small := by
    rw [World.Small, wrote.length]
    decide
  refine ((writeData_append wrote (Or.inl trivial)).and (writeData_small small)).bind
    fun _ world ⟨wrote, small⟩ => ?_
  rw [List.nil_append] at wrote
  generalize at_first : (⟨options.blockSize,
    (blockCount options.blockSize (UInt64.ofNat input.length)).toUInt32, 0⟩ : SparseHeader) = first
    at wrote
  have start : SumsUp options.blockSize first.bytes ⟨0, 0, 0⟩ world := by
    refine ⟨[], nofun, small, ?_, rfl, crc32_nil.symm⟩
    rw [List.flatMap_nil, List.append_nil]
    exact wrote
  refine (Ensures.foldlM (fun _ => SumsUp options.blockSize first.bytes) start
    fun done extent rest loop world _ sums => extentStep_sums shape few extent sums).bind
    fun loop world ⟨chunks, plain, summed⟩ => ?_
  refine (skipTo_sums summed).bind fun loop' world ⟨gap, summed, dontCare⟩ => ?_
  refine (addChecksum_sums summed wanted).bind fun counter world wrote => ?_
  refine (rewriteHeader_replaces wrote).mono fun _ final contents => ?_
  refine ⟨_, chunks ++ gap, ?_, List.forall_mem_append.mpr ⟨fun chunk member =>
    Or.inl (plain chunk member), fun chunk member => ?_⟩, contents⟩
  · rw [← at_first]
  · obtain ⟨blocks, rfl, _⟩ := dontCare chunk member
    by_cases none : blocks = 0
    · rw [none]
      exact Or.inr rfl
    · exact Or.inl (dontCare_plain _ none)

/-- **The checksum chunk covers the expanded image**: in the file of every run that returns, the
checksum is that of what the chunks in front of it expand to. Where the encoding is lossless this is the
padded input. -/
theorem androidSparseGenerate_checksum (os : Os) (options : SparseOptions) (input : File)
    (mapped : Except Int (List Extent)) (start final : World) (regular : os.blockDevice = false)
    (shape : BlockSize options.blockSize)
    (few : countBlocks options.blockSize.toNat input.length < 2 ^ 32)
    (wanted : options.addCrc = true)
    (run : Returns (androidSparseGenerate os options input mapped) start () final) :
    ∃ image, expandFile final.contents.toList = some (image, crc32 image) ∧
      (input.length + options.blockSize.toNat ≤ 2 ^ 63 → Mapped options input mapped →
        image = padded options.blockSize.toNat input) := by
  obtain ⟨header, chunks, size, readable, contents⟩ :=
    (androidSparseGenerate_sums regular shape few wanted).of_returns run
  have expanded := expandFile_serialize readable header (by rw [size])
    (crc32 (chunks.flatMap (Chunk.expand options.blockSize.toNat)))
  rw [← contents] at expanded
  refine ⟨_, expanded, fun length promise => ?_⟩
  have safe : Safe True os (largestOutput options input) := Or.inl trivial
  obtain ⟨body, file⟩ :=
    (androidSparseGenerate_ensures regular shape few length promise safe).of_returns run
  have again := expandFile_serialize (fun chunk member => Or.inl (file.stands.plain chunk member))
    (fileHeader options input (UInt32.ofNat (chunkCount options body))) rfl
    (crc32 (padded options.blockSize.toNat input))
  have bytes := file.bytes
  rw [checksum, if_pos wanted, List.flatMap_append, List.flatMap_singleton] at bytes
  rw [← bytes, expanded] at again
  have positive : 0 < options.blockSize.toNat := (show 0 < 512 by decide).trans_le shape.ge
  rw [padded_eq positive, blockEnd, ← file.stands.expand]
  exact congrArg Prod.fst (Option.some.inj again)

theorem androidSparseGenerate_checksum_secondBlock : ∃ final image,
    Returns (androidSparseGenerate carriedOut checkedOptions secondBlock (.ok []))
      { file := none } () final ∧
    expandFile final.contents.toList = some (image, crc32 image) ∧ image = padded 512 secondBlock := by
  have shape : BlockSize checkedOptions.blockSize := ⟨by decide, by decide⟩
  have promise : Mapped checkedOptions secondBlock (.ok []) := fun holes => Bool.noConfusion holes
  have reliable : carriedOut.Reliable := ⟨fun _ => rfl, rfl⟩
  obtain ⟨final, _, run, _⟩ := androidSparseGenerate_returns reliable shape (by decide) (by decide)
    promise (by decide) { file := none }
  obtain ⟨image, expanded, whole⟩ := androidSparseGenerate_checksum carriedOut checkedOptions
    secondBlock (.ok []) { file := none } final rfl shape (by decide) rfl run
  exact ⟨final, image, run, expanded, whole (by decide) promise⟩

end Run

end Genimage
