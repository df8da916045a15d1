/-
**The extents of the file.**

Between two extents the file is zero, so that a don't-care chunk stands for the gap (`skipTo_ensures`);
an extent is the loop over its blocks, which begins and ends without an open chunk
(`extentStep_ensures`). The loop over the merged extents keeps `ExtentInv`: everything up to `block` is
written, and no extent so far reaches further.
-/

import Genimage.Sparse.Blocks

namespace Genimage

open Library Effect

/-- **The file between two extents**: complete chunks for the first `count` blocks. -/
structure Closed (blockSize : UInt32) (input : File) (head : List UInt8) (count : Nat)
    (chunks : List Chunk) (inputChunks crc : UInt32) (world : World) : Prop where
  wrote : Wrote world (head ++ chunks.flatMap (Chunk.serialize blockSize.toNat))
  stands : Stands blockSize.toNat input count chunks
  inputChunks : inputChunks = UInt32.ofNat chunks.length
  crc : crc = crc32 (input.slice 0 (count * blockSize.toNat))
  short : (head ++ chunks.flatMap (Chunk.serialize blockSize.toNat)).length ≤
    head.length + count * (blockSize.toNat + 12)

/-- The file after the extents of a loop. -/
def ExtentLoop.Closed (blockSize : UInt32) (input : File) (head : List UInt8) (loop : ExtentLoop)
    (world : World) : Prop :=
  ∃ chunks, Genimage.Closed blockSize input head loop.block.toNat chunks loop.inputChunks loop.crc
    world

section Extents

variable {os : Os} {fault : Prop} {world : World} {blockSize : UInt32} {input : File}
  {head : List UInt8} {bound : Nat} {loop : ExtentLoop}

theorem crcZeros_eq (blockSize blocks : Nat) (crc : UInt32) :
    crcZeros blockSize blocks crc = crc32Next (List.replicate (blocks * blockSize) 0) crc := by
  induction blocks with
  | zero =>
    rw [Nat.zero_mul, List.replicate_zero, crc32Next, List.foldl_nil, UInt32.not_not]
    rfl
  | succ blocks ih =>
    rw [crcZeros, Function.iterate_succ_apply', Nat.succ_mul, List.replicate_add, crc32Next_append,
      ← ih]
    rfl

/-- A don't-care chunk is its header. -/
theorem serialize_dontCare (blockSize : Nat) (gap : UInt32) :
    (Chunk.dontCare gap.toNat).serialize blockSize =
      (⟨sparseDontCare, gap, 12⟩ : ChunkHeader).bytes := by
  rw [Chunk.serialize, Chunk.header]
  show (⟨sparseDontCare, UInt32.ofNat gap.toNat, _⟩ : ChunkHeader).bytes ++ [] = _
  rw [UInt32.ofNat_toNat, List.append_nil]
  rfl

/-- A don't-care chunk with a block. -/
theorem dontCare_plain (blockSize : Nat) {gap : UInt32} (some : gap ≠ 0) :
    (Chunk.dontCare gap.toNat).Plain blockSize := by
  refine ⟨⟨fun _ => ?_, gap.toNat_lt, ?_, List.length_replicate, nofun⟩, ?_, trivial⟩
  · exact Nat.pos_of_ne_zero fun zero => some (UInt32.toNat_inj.mp zero)
  · show 12 + 0 < 2 ^ 32
    decide
  · show sparseDontCare ≠ sparseCrc32
    decide

/-- **A gap.** -/
theorem skipTo_ensures (encodable : Encodable fault os blockSize input head bound) {stop : UInt64}
    (inside : stop.toNat ≤ countBlocks blockSize.toNat input.length)
    (closed : loop.Closed blockSize input head world)
    (zero : ∀ i, loop.block.toNat * blockSize.toNat ≤ i → i < stop.toNat * blockSize.toNat →
      input.byte i = 0) :
    Ensures fault (skipTo os blockSize loop stop) world fun result next =>
      result.Closed blockSize input head next ∧
        result.block.toNat = max loop.block.toNat stop.toNat := by
  obtain ⟨chunks, wrote, stands, counts, crc, short⟩ := closed
  have few := encodable.few
  rw [skipTo]
  split
  next less =>
    rw [UInt64.lt_iff_toNat_lt] at less
    have blocks : (stop - loop.block).toUInt32.toNat = stop.toNat - loop.block.toNat := by
      rw [UInt64.toNat_toUInt32, toNat_sub_of_le less.le]
      omega
    generalize (stop - loop.block).toUInt32 = gap at blocks
    have split : stop.toNat = loop.block.toNat + gap.toNat := by omega
    have zeros : input.slice (loop.block.toNat * blockSize.toNat) (gap.toNat * blockSize.toNat) =
        List.replicate (gap.toNat * blockSize.toNat) 0 :=
      File.slice_eq_replicate fun i above below =>
        zero i above (by rw [split, Nat.add_mul]; exact below)
    have some : gap ≠ 0 := by
      rintro rfl
      have : (0 : UInt32).toNat = 0 := rfl
      omega
    have type : (⟨sparseDontCare, gap, 12⟩ : ChunkHeader).chunkType ≠ 0 := by
      show sparseDontCare ≠ 0
      decide
    have room : Safe fault os ((head ++
        chunks.flatMap (Chunk.serialize blockSize.toNat)).length + 12) := by
      refine encodable.safe.mono ?_
      have := Nat.mul_le_mul_right (blockSize.toNat + 12) (less.le.trans inside)
      have := encodable.within
      omega
    have all : head ++ (chunks ++ [Chunk.dontCare gap.toNat]).flatMap
        (Chunk.serialize blockSize.toNat) =
        head ++ chunks.flatMap (Chunk.serialize blockSize.toNat) ++
          (⟨sparseDontCare, gap, 12⟩ : ChunkHeader).bytes := by
      rw [List.flatMap_append, List.flatMap_singleton, serialize_dontCare, List.append_assoc]
    refine (flushHeader_append type wrote room).bind
      fun _ next wrote => ?_
    rw [ensures_pure]
    refine ⟨⟨chunks ++ [.dontCare gap.toNat], ?_, ?_, ?_, ?_, ?_⟩, ?_⟩
    · rw [all]
      exact wrote
    · have pushed := stands.push (dontCare_plain _ some) zeros.symm
      rw [show loop.block.toNat + (Chunk.dontCare gap.toNat).blocks blockSize.toNat =
        stop.toNat from split.symm] at pushed
      exact pushed
    · exact ofNat_length_succ counts
    · show crcZeros blockSize.toNat gap.toNat loop.crc =
        crc32 (input.slice 0 (stop.toNat * blockSize.toNat))
      have joined := input.slice_append 0 (loop.block.toNat * blockSize.toNat)
        (gap.toNat * blockSize.toNat)
      rw [Nat.zero_add, zeros, ← Nat.add_mul, ← split] at joined
      rw [crcZeros_eq, crc, crc32, crc32, ← crc32Next_append, joined]
    · rw [all, List.length_append, ChunkHeader.length_bytes]
      have := Nat.mul_le_mul_right (blockSize.toNat + 12) (show loop.block.toNat + 1 ≤ stop.toNat
        from less)
      show _ ≤ head.length + stop.toNat * (blockSize.toNat + 12)
      rw [Nat.succ_mul] at this
      omega
    · show stop.toNat = _
      omega
  next le =>
    rw [UInt64.lt_iff_toNat_lt] at le
    rw [ensures_pure]
    exact ⟨⟨chunks, wrote, stands, counts, crc, short⟩, by omega⟩

/-- The blocks up to the end of an extent, from the two bounds of the loop. -/
theorem countBlocks_eq {blockSize stop count : Nat} (reached : stop ≤ count * blockSize)
    (behind : count * blockSize < stop + blockSize) : countBlocks blockSize stop = count := by
  have positive : 0 < blockSize := by omega
  have low := le_blockEnd positive stop
  rw [blockEnd] at low
  have upper := Nat.div_mul_le_self (stop + (blockSize - 1)) blockSize
  have first : countBlocks blockSize stop < count + 1 :=
    Nat.lt_of_mul_lt_mul_right (a := blockSize) (by rw [countBlocks, Nat.succ_mul]; omega)
  have second : count < countBlocks blockSize stop + 1 :=
    Nat.lt_of_mul_lt_mul_right (a := blockSize) (by rw [Nat.succ_mul]; omega)
  omega

/-- A chunk-free beginning of an extent. -/
theorem Closed.building {count : Nat} {chunks : List Chunk} {inputChunks crc : UInt32}
    (closed : Closed blockSize input head count chunks inputChunks crc world) {inner : BlockLoop}
    (none : inner.header.chunkType = 0) (counts : inner.inputChunks = inputChunks) :
    Building blockSize input head count chunks Option.none inner world := by
  refine ⟨⟨_, closed.wrote, ⟨none, rfl⟩, closed.short⟩, ?_, ?_⟩
  · rw [Option.toList_none, List.append_nil]
    exact closed.stands
  · rw [counts, closed.inputChunks, Option.toList_none, List.append_nil]

/-- **The end of an extent** completes the open chunk. -/
theorem Building.close {count : Nat} {chunks : List Chunk} {current : Option Chunk}
    {inner : BlockLoop} (building : Building blockSize input head count chunks current inner world)
    (encodable : Encodable fault os blockSize input head bound)
    (inside : count ≤ countBlocks blockSize.toNat input.length)
    (crc : inner.crc = crc32 (input.slice 0 (count * blockSize.toNat))) :
    Ensures fault (flushHeader os inner.header inner.pos) world fun _ next =>
      Closed blockSize input head count (chunks ++ current.toList) inner.inputChunks inner.crc next := by
  obtain ⟨bytes, wrote, progress, size⟩ := building.file
  have length := progress.length
  have small := encodable.small
  have within : bytes.length ≤ bound := by
    have := Nat.mul_le_mul_right (blockSize.toNat + 12) inside
    have := encodable.within
    omega
  refine (progress.close wrote (by omega) (encodable.safe.mono within)).mono fun _ next wrote => ?_
  have all : head ++ chunks.flatMap (Chunk.serialize blockSize.toNat) ++
      current.toList.flatMap (Chunk.serialize blockSize.toNat) =
      head ++ (chunks ++ current.toList).flatMap (Chunk.serialize blockSize.toNat) := by
    rw [List.flatMap_append, List.append_assoc]
  rw [all] at wrote length
  refine ⟨wrote, building.stands, building.inputChunks, crc, ?_⟩
  rw [← length]
  exact size

/-- A removed extent is skipped. -/
theorem extentStep_empty {extent : Extent} (empty : extent.stop = extent.start) :
    extentStep os blockSize input loop extent = pure loop := by
  rw [extentStep]
  exact if_pos (by rw [empty, UInt64.sub_self])

/-- **An extent.** -/
theorem extentStep_ensures (encodable : Encodable fault os blockSize input head bound)
    {extent : Extent} (blocked : Blocked blockSize.toNat input.length extent)
    (closed : loop.Closed blockSize input head world) (some : extent.start.toNat < extent.stop.toNat)
    (ahead : loop.block.toNat * blockSize.toNat ≤ extent.start.toNat)
    (zero : ∀ i, loop.block.toNat * blockSize.toNat ≤ i → i < extent.start.toNat →
      input.byte i = 0) :
    Ensures fault (extentStep os blockSize input loop extent) world fun result next =>
      result.Closed blockSize input head next ∧
        result.block.toNat = countBlocks blockSize.toNat extent.stop.toNat := by
  have shape := encodable.shape
  have few := encodable.few
  have length := encodable.length
  have ge := shape.ge
  have stop_le := blocked.stop_le
  have start_blocks : extent.start.toNat / blockSize.toNat * blockSize.toNat =
      extent.start.toNat := Nat.div_mul_cancel blocked.start_dvd
  have start_lt : extent.start.toNat / blockSize.toNat <
      countBlocks blockSize.toNat input.length := lt_countBlocks (by omega) (by omega)
  have start : (extent.start / blockSize.toUInt64).toUInt32.toUInt64.toNat =
      extent.start.toNat / blockSize.toNat := by
    rw [UInt32.toNat_toUInt64, UInt64.toNat_toUInt32, UInt64.toNat_div, UInt32.toNat_toUInt64]
    exact Nat.mod_eq_of_lt (by omega)
  have size : (extent.stop - extent.start).toNat = extent.stop.toNat - extent.start.toNat :=
    toNat_sub_of_le some.le
  have before : loop.block.toNat ≤ extent.start.toNat / blockSize.toNat := by
    rw [← start_blocks] at ahead
    exact Nat.le_of_mul_le_mul_right ahead (by omega)
  have nonempty : extent.stop - extent.start ≠ 0 := toNat_pos.mp (by omega)
  rw [extentStep]
  simp only [if_neg nonempty]
  refine (skipTo_ensures encodable (by omega) closed ?_).bind
    fun loop' middle ⟨⟨chunks, closed⟩, at_start⟩ => ?_
  · rw [start, start_blocks]
    exact zero
  rw [start, Nat.max_eq_right before] at at_start
  rw [at_start] at closed
  refine Sys.lseekIn_ensures.bind fun ret middle' ⟨file, position, seek⟩ => ?_
  split
  next failed =>
    rw [ensures_bind, Sys.throwErrno_ensures]
    refine encodable.safe.allowed fun both => ?_
    rcases seek with nonneg | refused
    · omega
    · exact refused ⟨both.1, by rw [offLimit]; omega⟩
  rw [ensures_bind, Sys.lseekCur_ensures]
  have closed : Closed blockSize input head (extent.start.toNat / blockSize.toNat) chunks
      loop'.inputChunks loop'.crc middle' :=
    ⟨closed.wrote.frame file position, closed.stands, closed.inputChunks, closed.crc, closed.short⟩
  have inv : BlockInv blockSize input head extent.stop.toNat
      (extent.start.toNat / blockSize.toNat) {
        size := extent.stop - extent.start
        inPos := extent.start.toNat
        header := ⟨0, 0, 0⟩
        fillValue := 0
        pos := middle'.position
        inputChunks := loop'.inputChunks
        crc := loop'.crc } middle' := by
    refine ⟨⟨chunks, none, closed.building rfl rfl⟩, closed.crc, ?_, fun _ => start_blocks.symm,
      fun empty => absurd empty nonempty, ?_⟩
    · show extent.start.toNat + (extent.stop - extent.start).toNat = extent.stop.toNat
      omega
    · rw [start_blocks]
      omega
  refine (blockLoop_ensures encodable stop_le blocked.stop_whole _ _ _ _ (le_refl _) inv).bind
    fun inner last ⟨finished, count, inv⟩ => ?_
  obtain ⟨chunks, current, building⟩ := inv.building
  have reached := inv.reached finished
  have behind := inv.behind
  have count_eq := countBlocks_eq reached behind
  have count_le : count ≤ countBlocks blockSize.toNat input.length := by
    rw [← count_eq]
    exact Nat.div_le_div_right (by omega)
  have block : ((extent.stop - 1 + blockSize.toUInt64) / blockSize.toUInt64).toNat = count := by
    have nonzero : blockSize.toUInt64 ≠ 0 := toNat_pos.mp (by rw [UInt32.toNat_toUInt64]; omega)
    rw [UInt64.toNat_div, toNat_blocks_up nonzero (by rw [UInt32.toNat_toUInt64]; omega),
      UInt32.toNat_toUInt64, ← count_eq, countBlocks]
  refine (building.close encodable count_le inv.crc).bind fun _ next closed => ?_
  rw [ensures_pure]
  refine ⟨⟨chunks ++ current.toList, ?_⟩, block.trans count_eq.symm⟩
  rw [block]
  exact closed

end Extents

end Genimage
