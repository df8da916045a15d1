/-
**The blocks of an extent.**

`Building` is the invariant of the loop over the blocks of an extent: the file holds closed chunks
and the open one, together they stand for the blocks so far, and `input_chunks` counts them. It is
`Emitting` for an image that is a slice of the input, so one block more is `Emitting.addBlock`
(`blockStep_ensures`); the loop ends with the extent (`blockLoop_ensures`).
-/

import Genimage.Sparse.Emit

namespace Genimage

open Library Effect

/-- **The invariant** after `count` blocks. -/
structure Building (blockSize : UInt32) (input : File) (head : List UInt8) (count : Nat)
    (chunks : List Chunk) (current : Option Chunk) (loop : BlockLoop) (world : World) : Prop where
  file : ∃ bytes, Wrote world bytes ∧
    Progress blockSize.toNat (head ++ chunks.flatMap (Chunk.serialize blockSize.toNat)) loop bytes
      current ∧
    bytes.length ≤ head.length + count * (blockSize.toNat + 12)
  stands : Stands blockSize.toNat input count (chunks ++ current.toList)
  inputChunks : loop.inputChunks = UInt32.ofNat (chunks ++ current.toList).length

/-- One block more, in a new chunk or in the open one. -/
def Grown (blockSize : UInt32) (input : File) (head : List UInt8) (count : Nat)
    (loop result : BlockLoop) (world : World) : Prop :=
  (∃ chunks current, Building blockSize input head (count + 1) chunks current result world) ∧
    result.size = loop.size ∧ result.inPos = loop.inPos ∧ result.crc = loop.crc

section Blocks

variable {os : Os} {fault : Prop} {world : World} {blockSize : UInt32} {input : File}
  {head block : List UInt8} {count bound : Nat} {chunks : List Chunk} {current : Option Chunk}
  {loop : BlockLoop}

/-- What is written expands to the first blocks of the input. -/
theorem Building.emitting (building : Building blockSize input head count chunks current loop world)
    (shape : BlockSize blockSize) : ∃ bytes, Wrote world bytes ∧
      Emitting blockSize head (input.slice 0 (count * blockSize.toNat)) chunks current loop bytes ∧
      bytes.length ≤ head.length + count * (blockSize.toNat + 12) := by
  obtain ⟨bytes, wrote, progress, size⟩ := building.file
  have positive : 0 < blockSize.toNat := (show 0 < 512 by decide).trans_le shape.ge
  exact ⟨bytes, wrote, ⟨progress, (stands_iff positive).mp building.stands, building.inputChunks⟩,
    size⟩

/-- The open chunk is among the blocks so far. -/
theorem Building.openBlocks_le
    (building : Building blockSize input head count chunks current loop world) :
    openBlocks blockSize.toNat current ≤ count := by
  cases current with
  | none => exact Nat.zero_le _
  | some chunk => exact building.stands.blocks_le (List.mem_append_right _ (List.mem_singleton_self _))

/-- Only the fields of the chunk count, and the file. -/
theorem Building.frame (building : Building blockSize input head count chunks current loop world)
    {result : BlockLoop} {next : World} (file : next.file = world.file)
    (position : next.position = world.position) (header : result.header = loop.header)
    (pos : result.pos = loop.pos) (value : result.fillValue = loop.fillValue)
    (counts : result.inputChunks = loop.inputChunks) :
    Building blockSize input head count chunks current result next := by
  obtain ⟨bytes, wrote, progress, size⟩ := building.file
  refine ⟨⟨bytes, wrote.frame file position, ?_, size⟩, building.stands,
    counts.trans building.inputChunks⟩
  cases current with
  | none => exact ⟨by rw [header]; exact progress.1, progress.2⟩
  | some chunk =>
    exact ⟨header.trans progress.header, pos.trans progress.pos, progress.kind,
      fun fill => (progress.value fill).trans value.symm, progress.bytes⟩

/-- **The next block of the input.** -/
theorem Building.addBlock (building : Building blockSize input head count chunks current loop world)
    (shape : BlockSize blockSize)
    (next_block : block = input.slice (count * blockSize.toNat) blockSize.toNat)
    (few : count + 1 < 2 ^ 32)
    (within : head.length + (count + 1) * (blockSize.toNat + 12) ≤ bound) (small : bound < 2 ^ 64)
    (safe : Safe fault os bound) :
    Ensures fault (if isFill block then addFill os loop block else addRaw os blockSize loop block)
      world (Grown blockSize input head count loop) := by
  obtain ⟨bytes, wrote, emitting, size⟩ := building.emitting shape
  have opened := building.openBlocks_le
  have ge := shape.ge
  rw [Nat.add_mul, one_mul] at within
  refine (emitting.addBlock wrote shape (by rw [next_block, File.length_slice]) (by omega)
    (by omega) (safe.mono (by omega))).mono fun result next ⟨grown, rest⟩ => ⟨?_, rest⟩
  obtain ⟨chunks', current', bytes', wrote', emitting', longer, -⟩ := grown
  have joined := input.slice_append 0 (count * blockSize.toNat) blockSize.toNat
  rw [Nat.zero_add, ← Nat.succ_mul, ← next_block] at joined
  rw [joined] at emitting'
  refine ⟨chunks', current', ⟨bytes', wrote', emitting'.progress, ?_⟩,
    (stands_iff (by omega)).mpr emitting'.expands, emitting'.inputChunks⟩
  rw [Nat.add_mul, one_mul]
  omega

end Blocks

/-! ### The loop -/

/-- What the encoding of `input` needs: few enough blocks, and room for the output up to `bound`. -/
structure Encodable (fault : Prop) (os : Os) (blockSize : UInt32) (input : File) (head : List UInt8)
    (bound : Nat) : Prop where
  shape : BlockSize blockSize
  length : input.length + blockSize.toNat ≤ 2 ^ 63
  few : countBlocks blockSize.toNat input.length < 2 ^ 32
  within : head.length +
    countBlocks blockSize.toNat input.length * (blockSize.toNat + 12) + 16 ≤ bound
  small : bound < 2 ^ 64
  safe : Safe fault os bound

/-- **The invariant of the loop** over the blocks of an extent that ends at `stop`. -/
structure BlockInv (blockSize : UInt32) (input : File) (head : List UInt8) (stop count : Nat)
    (loop : BlockLoop) (world : World) : Prop where
  building : ∃ chunks current, Building blockSize input head count chunks current loop world
  crc : loop.crc = crc32 (input.slice 0 (count * blockSize.toNat))
  total : loop.inPos + loop.size.toNat = stop
  pos : loop.size ≠ 0 → loop.inPos = count * blockSize.toNat
  reached : loop.size = 0 → stop ≤ count * blockSize.toNat
  behind : count * blockSize.toNat < stop + blockSize.toNat

section Loop

variable {os : Os} {fault : Prop} {world : World} {blockSize : UInt32} {input : File}
  {head : List UInt8} {stop count bound : Nat} {loop : BlockLoop}

/-- A block before the end of the file is one of its blocks. -/
theorem lt_countBlocks {blockSize length count : Nat} (positive : 0 < blockSize)
    (before : count * blockSize < length) : count < countBlocks blockSize length :=
  Nat.lt_of_mul_lt_mul_right (before.trans_le (le_blockEnd positive length))

/-- What is read of a block, padded, is the block. -/
theorem slice_padded {now : Nat} {blockSize start : Nat} (le : now ≤ blockSize)
    (last : now < blockSize → input.length ≤ start + now) :
    input.slice start now ++ List.replicate (blockSize - now) 0 = input.slice start blockSize := by
  have zeros : input.slice (start + now) (blockSize - now) =
      List.replicate (blockSize - now) 0 := by
    refine File.slice_eq_replicate fun i above below => input.beyond i ?_
    have := last (by omega)
    omega
  rw [← zeros, File.slice_append, Nat.add_sub_cancel' le]

/-- **One block.** -/
theorem blockStep_ensures (encodable : Encodable fault os blockSize input head bound)
    (inv : BlockInv blockSize input head stop count loop world) (more : loop.size ≠ 0)
    (inside : stop ≤ input.length) (whole : blockSize.toNat ∣ stop ∨ stop = input.length) :
    Ensures fault (blockStep os blockSize input loop) world fun result next =>
      BlockInv blockSize input head stop (count + 1) result next ∧
        result.size.toNat < loop.size.toNat := by
  obtain ⟨chunks, current, building⟩ := inv.building
  have shape := encodable.shape
  have ge := shape.ge
  have pos := inv.pos more
  have total := inv.total
  have positive : 0 < loop.size.toNat := toNat_pos.mpr more
  have small := encodable.small
  have next_count : count < countBlocks blockSize.toNat input.length :=
    lt_countBlocks (by omega) (by omega)
  have few := encodable.few
  have within : head.length + (count + 1) * (blockSize.toNat + 12) ≤ bound := by
    have := Nat.mul_le_mul_right (blockSize.toNat + 12) next_count
    have := encodable.within
    rw [Nat.succ_eq_add_one] at *
    omega
  rw [blockStep]
  have now_eq : (minSize loop.size blockSize.toUInt64).toNat =
      min loop.size.toNat blockSize.toNat := toNat_minSize _ _
  generalize minSize loop.size blockSize.toUInt64 = now at *
  have now_pos : 0 < now.toNat := by omega
  refine Sys.read_ensures.bind fun data middle ⟨file, position, got, all⟩ => ?_
  have reliable : data ≠ some (input.slice loop.inPos now.toNat) → fault := by
    intro differs
    refine encodable.safe.allowed fun both => differs ?_
    rw [all both.1, show min now.toNat (input.length - loop.inPos) = now.toNat by omega]
  rcases got with ⟨rfl, _⟩ | ⟨length, rfl, le, _⟩
  · exact reliable nofun
  simp only [File.length_slice]
  split
  next differs =>
    refine reliable fun same => differs ?_
    have := congrArg List.length (Option.some.inj same)
    simpa using this
  next same =>
    rw [not_not] at same
    subst same
    have block : input.slice loop.inPos now.toNat ++
        List.replicate (blockSize.toNat - now.toNat) 0 =
        input.slice (count * blockSize.toNat) blockSize.toNat := by
      rw [pos]
      refine slice_padded (by omega) fun partial_block => ?_
      rcases whole with dvd | last
      · have split : stop = count * blockSize.toNat + now.toNat := by omega
        rw [split] at dvd
        have := Nat.le_of_dvd now_pos ((Nat.dvd_add_right (Nat.dvd_mul_left _ _)).mp dvd)
        omega
      · omega
    rw [block]
    have remaining : (loop.size - now).toNat = loop.size.toNat - now.toNat :=
      toNat_sub_of_le (by omega)
    have crc : crc32Next (input.slice (count * blockSize.toNat) blockSize.toNat) loop.crc =
        crc32 (input.slice 0 ((count + 1) * blockSize.toNat)) := by
      have split := input.slice_append 0 (count * blockSize.toNat) blockSize.toNat
      rw [Nat.zero_add] at split
      rw [inv.crc, crc32, crc32, ← crc32Next_append, split, Nat.succ_mul]
    generalize advance : ({ loop with
      size := loop.size - now
      inPos := loop.inPos + now.toNat
      crc := crc32Next (input.slice (count * blockSize.toNat) blockSize.toNat) loop.crc } :
        BlockLoop) = advanced
    have step : Building blockSize input head count chunks current advanced middle := by
      rw [← advance]
      exact building.frame file position rfl rfl rfl rfl
    have finish : ∀ result next, Grown blockSize input head count advanced result next →
        BlockInv blockSize input head stop (count + 1) result next ∧
          result.size.toNat < loop.size.toNat := by
      rintro result next ⟨grown, size, in_pos, sum⟩
      rw [← advance] at size in_pos sum
      simp only at size in_pos sum
      have zero : result.size = 0 ↔ loop.size.toNat = now.toNat := by
        rw [eq_zero_iff, size, remaining]
        omega
      refine ⟨⟨grown, sum.trans crc, ?_, fun some => ?_, fun none => ?_, ?_⟩, ?_⟩
      · rw [in_pos, size, remaining]
        omega
      · rw [ne_eq, zero] at some
        rw [in_pos, Nat.succ_mul]
        omega
      · rw [zero] at none
        rw [Nat.succ_mul]
        omega
      · rw [Nat.succ_mul]
        omega
      · rw [size, remaining]
        omega
    exact (step.addBlock shape rfl (by omega) within small encodable.safe).mono finish

/-- **The loop ends with the extent.** -/
theorem blockLoop_ensures (encodable : Encodable fault os blockSize input head bound)
    (inside : stop ≤ input.length) (whole : blockSize.toNat ∣ stop ∨ stop = input.length)
    (fuel : Nat) : ∀ (count : Nat) (loop : BlockLoop) (world : World), loop.size.toNat ≤ fuel →
      BlockInv blockSize input head stop count loop world →
      Ensures fault (blockLoop os blockSize input fuel loop) world fun result next =>
        result.size = 0 ∧ ∃ count, BlockInv blockSize input head stop count result next := by
  induction fuel with
  | zero =>
    intro count loop world enough inv
    rw [blockLoop, ensures_pure]
    exact ⟨eq_zero_iff.mpr (by omega), count, inv⟩
  | succ fuel ih =>
    intro count loop world enough inv
    rw [blockLoop]
    split
    next done =>
      rw [ensures_pure]
      exact ⟨done, count, inv⟩
    next more =>
      refine (blockStep_ensures encodable inv more inside whole).bind
        fun result middle ⟨inv, less⟩ => ?_
      exact ih (count + 1) result middle (by omega) inv

end Loop

end Genimage
