/-
**What the chunks of an extent expand to.**

`Emitting` is the invariant of the loop over the blocks of an extent, without the input: the file holds
closed chunks and the open one, together they expand to `image`, and `input_chunks` counts them. A block
of equal words goes through `addFill`, any other through `addRaw`; either adds the block to `image`. Where
the blocks come from does not matter here.
-/

import Genimage.Sparse.Encode

namespace Genimage

open Library Effect

/-! ### Chunks that expand to an image -/

/-- **The chunks expand to `image`.** -/
structure Expands (blockSize : Nat) (image : List UInt8) (chunks : List Chunk) : Prop where
  plain : ∀ chunk ∈ chunks, chunk.Plain blockSize
  expand : chunks.flatMap (Chunk.expand blockSize) = image

section Expands

variable {blockSize count : Nat} {input : File} {image block : List UInt8} {chunks : List Chunk}
  {chunk old new : Chunk}

/-- Chunks stand for the first blocks of the input when they expand to them. -/
theorem stands_iff (positive : 0 < blockSize) : Stands blockSize input count chunks ↔
    Expands blockSize (input.slice 0 (count * blockSize)) chunks := by
  constructor
  · rintro ⟨plain, -, expand⟩
    exact ⟨plain, expand⟩
  · rintro ⟨plain, expand⟩
    refine ⟨plain, ?_, expand⟩
    have length := length_expand plain
    rw [expand, File.length_slice] at length
    exact (Nat.eq_of_mul_eq_mul_right positive length).symm

/-- Another chunk. -/
theorem Expands.push (expands : Expands blockSize image chunks) (plain : chunk.Plain blockSize) :
    Expands blockSize (image ++ chunk.expand blockSize) (chunks ++ [chunk]) := by
  refine ⟨?_, ?_⟩
  · simpa [or_imp, forall_and] using ⟨expands.plain, plain⟩
  · rw [List.flatMap_append, expands.expand, List.flatMap_singleton]

/-- The last chunk with one more block. -/
theorem Expands.extend (expands : Expands blockSize image (chunks ++ [old]))
    (plain : new.Plain blockSize) (expand : new.expand blockSize = old.expand blockSize ++ block) :
    Expands blockSize (image ++ block) (chunks ++ [new]) := by
  have front : ∀ chunk ∈ chunks, chunk ∈ chunks ++ [old] := fun _ => List.mem_append_left _
  refine ⟨?_, ?_⟩
  · simpa [or_imp, forall_and] using
      ⟨fun chunk member => expands.plain _ (front chunk member), plain⟩
  · have := expands.expand
    rw [List.flatMap_append, List.flatMap_singleton] at this ⊢
    rw [expand, ← List.append_assoc, this]

end Expands

/-! ### The blocks -/

/-- The blocks of the open chunk. -/
def openBlocks (blockSize : Nat) (current : Option Chunk) : Nat :=
  current.elim 0 (Chunk.blocks blockSize)

/-- **The invariant**: what is written expands to `image`. -/
structure Emitting (blockSize : UInt32) (head image : List UInt8) (chunks : List Chunk)
    (current : Option Chunk) (loop : BlockLoop) (bytes : List UInt8) : Prop where
  progress : Progress blockSize.toNat (head ++ chunks.flatMap (Chunk.serialize blockSize.toNat)) loop
    bytes current
  expands : Expands blockSize.toNat image (chunks ++ current.toList)
  inputChunks : loop.inputChunks = UInt32.ofNat (chunks ++ current.toList).length

/-- One block more, in a new chunk or in the open one. -/
def Emitted (blockSize : UInt32) (head image : List UInt8) (current : Option Chunk)
    (loop : BlockLoop) (bytes : List UInt8) (result : BlockLoop) (world : World) : Prop :=
  (∃ chunks' current' bytes', Wrote world bytes' ∧
    Emitting blockSize head image chunks' current' result bytes' ∧
    bytes'.length ≤ bytes.length + (blockSize.toNat + 12) ∧
    openBlocks blockSize.toNat current' ≤ openBlocks blockSize.toNat current + 1) ∧
    result.size = loop.size ∧ result.inPos = loop.inPos ∧ result.crc = loop.crc

section Blocks

variable {os : Os} {fault : Prop} {world : World} {blockSize : UInt32}
  {head image block bytes : List UInt8} {chunks : List Chunk} {current : Option Chunk}
  {loop : BlockLoop}

theorem BlockSize.le (shape : BlockSize blockSize) : blockSize.toNat + 512 ≤ 2 ^ 32 := by
  obtain ⟨blocks, size⟩ := shape.dvd
  have := blockSize.toNat_lt
  omega

theorem BlockSize.ge (shape : BlockSize blockSize) : 512 ≤ blockSize.toNat := by
  have := Nat.le_of_dvd (Nat.pos_of_ne_zero fun zero =>
    shape.nonzero (UInt32.toNat_inj.mp zero)) shape.dvd
  exact this

/-- A block of equal words repeats its first one. -/
theorem isFill_eq (shape : BlockSize blockSize) (length : block.length = blockSize.toNat)
    (fill : isFill block = true) :
    block = (List.replicate (blockSize.toNat / 4) (block.take 4)).flatten := by
  obtain ⟨blocks, size⟩ := shape.dvd
  refine eq_replicate_of_field (by omega) fun i inside => ?_
  by_cases first : i = 0
  · rw [first]
  · have equal := List.all_eq_true.mp fill i (List.mem_range'_1.mpr ⟨by omega, by omega⟩)
    exact of_decide_eq_true equal

/-- The numbers of a chunk that begins. -/
theorem ofNat_length_succ {chunks : List Chunk} {chunk : Chunk} {counter : UInt32}
    (counts : counter = UInt32.ofNat chunks.length) :
    counter + 1 = UInt32.ofNat (chunks ++ [chunk]).length := by
  rw [counts, List.length_append, List.length_singleton, UInt32.ofNat_add]
  rfl

/-- Only the fields of the chunk count. -/
theorem Emitting.frame (emitting : Emitting blockSize head image chunks current loop bytes)
    {result : BlockLoop} (header : result.header = loop.header) (pos : result.pos = loop.pos)
    (value : result.fillValue = loop.fillValue) (counts : result.inputChunks = loop.inputChunks) :
    Emitting blockSize head image chunks current result bytes := by
  refine ⟨?_, emitting.expands, counts.trans emitting.inputChunks⟩
  have progress := emitting.progress
  cases current with
  | none => exact ⟨by rw [header]; exact progress.1, progress.2⟩
  | some chunk =>
    exact ⟨header.trans progress.header, pos.trans progress.pos, progress.kind,
      fun fill => (progress.value fill).trans value.symm, progress.bytes⟩

/-- **A new chunk** for the next block, behind a placeholder. -/
theorem Emitting.begun {closed placeholder : List UInt8} {result : BlockLoop}
    (emitting : Emitting blockSize head image chunks current loop bytes) (fresh : Chunk)
    (at_closed : closed = (head ++ chunks.flatMap (Chunk.serialize blockSize.toNat)) ++
      current.toList.flatMap (Chunk.serialize blockSize.toNat))
    (size : placeholder.length = 12)
    (fits : fresh.Fits blockSize.toNat) (needed : fresh.Needed blockSize.toNat)
    (kind : fresh.type = sparseRaw ∨ fresh.type = sparseFill)
    (expand : fresh.expand blockSize.toNat = block)
    (header : result.header = fresh.header blockSize.toNat) (pos : result.pos = closed.length)
    (value : fresh.type = sparseFill → leValue fresh.payload = result.fillValue)
    (counts : result.inputChunks = loop.inputChunks + 1) :
    Emitting blockSize head (image ++ block) (chunks ++ current.toList) (some fresh) result
      (closed ++ placeholder ++ fresh.payload) := by
  have front : closed = head ++
      (chunks ++ current.toList).flatMap (Chunk.serialize blockSize.toNat) := by
    rw [at_closed, List.flatMap_append, List.append_assoc]
  have plain : fresh.type ≠ sparseCrc32 := by
    rcases kind with kind | kind <;> rw [kind] <;> decide
  refine ⟨?_, ?_, ?_⟩
  · rw [← front]
    exact ⟨header, pos, kind, value, placeholder, size, rfl⟩
  · have pushed := emitting.expands.push ⟨fits, plain, needed⟩
    rwa [expand] at pushed
  · rw [counts]
    exact ofNat_length_succ emitting.inputChunks

/-- **The open chunk** takes the next block. -/
theorem Emitting.extended {old : Chunk} {result : BlockLoop}
    (emitting : Emitting blockSize head image chunks (some old) loop bytes) (new : Chunk)
    (added : List UInt8) (payload : new.payload = old.payload ++ added)
    (type : new.type = old.type)
    (fits : new.Fits blockSize.toNat) (needed : new.Needed blockSize.toNat)
    (expand : new.expand blockSize.toNat = old.expand blockSize.toNat ++ block)
    (header : result.header = new.header blockSize.toNat) (pos : result.pos = loop.pos)
    (value : new.type = sparseFill → leValue new.payload = result.fillValue)
    (counts : result.inputChunks = loop.inputChunks) :
    Emitting blockSize head (image ++ block) chunks (some new) result (bytes ++ added) := by
  have opened : Opened _ _ old loop bytes := emitting.progress
  obtain ⟨placeholder, twelve, same⟩ := opened.bytes
  have plain : new.type ≠ sparseCrc32 := by
    rw [type]
    rcases opened.kind with kind | kind <;> rw [kind] <;> decide
  refine ⟨?_, ?_, ?_⟩
  · refine ⟨header, pos.trans opened.pos, type ▸ opened.kind, value, placeholder, twelve, ?_⟩
    rw [same, payload, List.append_assoc]
  · exact emitting.expands.extend ⟨fits, plain, needed⟩ expand
  · rw [counts, emitting.inputChunks]
    simp

/-- **A fill block.** -/
theorem Emitting.addFill (emitting : Emitting blockSize head image chunks current loop bytes)
    (wrote : Wrote world bytes) (shape : BlockSize blockSize)
    (length : block.length = blockSize.toNat) (fill : isFill block = true)
    (few : openBlocks blockSize.toNat current + 1 < 2 ^ 32) (small : bytes.length < 2 ^ 64)
    (safe : Safe fault os (bytes.length + (blockSize.toNat + 12))) :
    Ensures fault (Genimage.addFill os loop block) world
      (Emitted blockSize head (image ++ block) current loop bytes) := by
  have progress := emitting.progress
  have ge := shape.ge
  have repeated := isFill_eq shape length fill
  have four : (block.take 4).length = 4 := by
    rw [List.length_take]
    omega
  have word : leValue (block.take 4) = field block 0 4 := rfl
  -- the open chunk of `blocks` blocks of this word
  have fits : ∀ blocks, 1 ≤ blocks → blocks < 2 ^ 32 →
      (Chunk.fill (block.take 4) blocks).Fits blockSize.toNat := by
    intro blocks positive below
    obtain ⟨sectors, whole⟩ := shape.dvd
    refine ⟨fun _ => positive, below, ?_, ?_, fun _ => four⟩
    · show 12 + (block.take 4).length < 2 ^ 32
      omega
    · show ((List.replicate (blocks * (blockSize.toNat / 4)) (block.take 4)).flatten).length = _
      rw [List.length_flatten, List.map_replicate, List.sum_replicate, four, smul_eq_mul,
        Nat.mul_assoc, Nat.div_mul_cancel (by omega)]
      rfl
  rw [Genimage.addFill]
  by_cases begins : loop.header.chunkType ≠ sparseFill ∨ loop.fillValue ≠ field block 0 4
  · simp only [if_pos begins, pure_bind]
    refine (progress.begin wrote small (by decide) (safe.mono (by omega))).bind
      fun result middle ⟨written, same⟩ => ?_
    subst same
    have closed_length := progress.length
    generalize at_closed : (head ++ chunks.flatMap (Chunk.serialize blockSize.toNat)) ++
      current.toList.flatMap (Chunk.serialize blockSize.toNat) = closed at *
    refine (writeData_append written (safe.mono (by simp [four]; omega))).bind
      fun _ next written => ?_
    rw [ensures_pure]
    refine ⟨⟨_, _, _, written, emitting.begun (.fill (block.take 4) 1) at_closed.symm
      (ChunkHeader.length_bytes _) (fits 1 le_rfl (by decide)) trivial (Or.inr rfl) ?_ ?_ rfl
      (fun _ => word) rfl, ?_, Nat.le_add_left 1 _⟩, rfl, rfl, rfl⟩
    · show (List.replicate (1 * (blockSize.toNat / 4)) (block.take 4)).flatten = block
      rw [one_mul, ← repeated]
    · show (⟨sparseFill, 0 + 1, 12 + 4⟩ : ChunkHeader) = ⟨sparseFill, UInt32.ofNat 1,
        UInt32.ofNat (12 + (block.take 4).length)⟩
      rw [four]
      rfl
    · rw [List.length_append, List.length_append, ChunkHeader.length_bytes, four, closed_length]
      omega
  · simp only [if_neg begins, pure_bind]
    rw [not_or, not_not, not_not] at begins
    obtain ⟨is_fill, same_value⟩ := begins
    rw [ensures_pure]
    cases current with
    | none => exact absurd (progress.1.symm.trans is_fill) (by decide)
    | some old =>
      have opened : Opened _ _ old loop bytes := progress
      have type : old.type = sparseFill := by
        rw [opened.header] at is_fill
        exact is_fill
      obtain ⟨value, blocks, rfl⟩ := Chunk.eq_fill type
      have member : Chunk.fill value blocks ∈ chunks ++ (some (Chunk.fill value blocks)).toList := by
        simp
      have old_four : value.length = 4 := (emitting.expands.plain _ member).fits.value rfl
      have same : value = block.take 4 := by
        refine leValue_inj (by rw [old_four, four]) ?_
        exact (opened.value rfl).trans same_value
      subst same
      refine ⟨⟨_, _, _, by rw [List.append_nil]; exact wrote,
        emitting.extended (.fill (block.take 4) (blocks + 1)) [] (List.append_nil _).symm rfl
          (fits _ (Nat.le_add_left 1 _) few) trivial ?_ ?_ rfl (fun _ => opened.value rfl) rfl,
        by rw [List.append_nil]; exact Nat.le_add_right _ _, le_rfl⟩, rfl, rfl, rfl⟩
      · show (List.replicate ((blocks + 1) * (blockSize.toNat / 4)) (block.take 4)).flatten =
          (List.replicate (blocks * (blockSize.toNat / 4)) (block.take 4)).flatten ++ block
        rw [Nat.add_mul, one_mul, List.replicate_add, List.flatten_append, ← repeated]
      · rw [opened.header]
        show (⟨sparseFill, UInt32.ofNat blocks + 1, UInt32.ofNat _⟩ : ChunkHeader) =
          ⟨sparseFill, UInt32.ofNat (blocks + 1), UInt32.ofNat _⟩
        rw [UInt32.ofNat_add blocks]
        rfl

/-- **A raw block.** -/
theorem Emitting.addRaw (emitting : Emitting blockSize head image chunks current loop bytes)
    (wrote : Wrote world bytes) (shape : BlockSize blockSize)
    (length : block.length = blockSize.toNat) (mixed : isFill block = false)
    (few : openBlocks blockSize.toNat current + 1 < 2 ^ 32) (small : bytes.length < 2 ^ 64)
    (safe : Safe fault os (bytes.length + (blockSize.toNat + 12))) :
    Ensures fault (Genimage.addRaw os blockSize loop block) world
      (Emitted blockSize head (image ++ block) current loop bytes) := by
  have progress := emitting.progress
  have ge := shape.ge
  have le := shape.le
  have positive : 0 < blockSize.toNat := by omega
  have most : (maxRawBlocks blockSize).toNat = (2 ^ 32 - 1 - 12) / blockSize.toNat :=
    UInt32.toNat_ofNat_of_lt' ((Nat.div_le_self _ _).trans_lt (by decide))
  -- a raw chunk of `blocks` blocks, at most `max_raw_blocks`
  have fits : ∀ (data : List UInt8) (blocks : Nat), data.length = blocks * blockSize.toNat →
      1 ≤ blocks → blocks < 2 ^ 32 → blocks ≤ (maxRawBlocks blockSize).toNat →
      (Chunk.raw data).Fits blockSize.toNat := by
    intro data blocks length positive' below few'
    have quotient : data.length / blockSize.toNat = blocks := by
      rw [length, Nat.mul_div_cancel _ positive]
    have room : blocks * blockSize.toNat ≤ 2 ^ 32 - 1 - 12 := by
      rw [most] at few'
      exact (Nat.mul_le_mul_right _ few').trans (Nat.div_mul_le_self _ _)
    refine ⟨fun _ => ?_, ?_, ?_, ?_, nofun⟩
    · show 1 ≤ data.length / blockSize.toNat
      omega
    · show data.length / blockSize.toNat < 2 ^ 32
      omega
    · show 12 + data.length < 2 ^ 32
      omega
    · show data.length = data.length / blockSize.toNat * blockSize.toNat
      rw [quotient, length]
  have header : ∀ (data : List UInt8) (blocks : Nat), data.length = blocks * blockSize.toNat →
      (Chunk.raw data).header blockSize.toNat =
        ⟨sparseRaw, UInt32.ofNat blocks, UInt32.ofNat (12 + data.length)⟩ := by
    intro data blocks length
    have quotient : data.length / blockSize.toNat = blocks := by
      rw [length, Nat.mul_div_cancel _ positive]
    show (⟨sparseRaw, UInt32.ofNat (data.length / blockSize.toNat), _⟩ : ChunkHeader) = _
    rw [quotient]
    rfl
  rw [Genimage.addRaw]
  by_cases begins : loop.header.chunkType ≠ sparseRaw ∨ loop.header.blocks ≥ maxRawBlocks blockSize
  · simp only [if_pos begins]
    refine (progress.begin wrote small (by decide) (safe.mono (by omega))).bind
      fun result middle ⟨written, same⟩ => ?_
    subst same
    have closed_length := progress.length
    generalize at_closed : (head ++ chunks.flatMap (Chunk.serialize blockSize.toNat)) ++
      current.toList.flatMap (Chunk.serialize blockSize.toNat) = closed at *
    refine (writeData_append written (safe.mono (by simp; omega))).bind fun _ next written => ?_
    rw [ensures_pure]
    have at_least : 1 ≤ (maxRawBlocks blockSize).toNat := by
      rw [most]
      exact Nat.div_pos (by omega) positive
    have one : block.length = 1 * blockSize.toNat := by rw [length, one_mul]
    have single : (Chunk.raw block).blocks blockSize.toNat = 1 := by
      show block.length / blockSize.toNat = 1
      rw [length, Nat.div_self positive]
    refine ⟨⟨_, _, _, written, emitting.begun (.raw block) at_closed.symm
      (ChunkHeader.length_bytes _) (fits block 1 one le_rfl (by decide) at_least) ?_ (Or.inl rfl)
      rfl ?_ rfl nofun rfl, ?_, ?_⟩, rfl, rfl, rfl⟩
    · intro i inside
      have first : i = 0 := by
        rw [length, Nat.div_self positive] at inside
        omega
      rw [first, Nat.zero_mul, List.drop_zero, ← length, List.take_length]
      exact mixed
    · rw [header block 1 one, length, UInt32.ofNat_add, UInt32.ofNat_toNat]
      rfl
    · rw [List.length_append, List.length_append, ChunkHeader.length_bytes, closed_length, length]
      omega
    · exact single.trans_le (Nat.le_add_left 1 _)
  · simp only [if_neg begins]
    rw [not_or, not_not, ge_iff_le, UInt32.not_le] at begins
    obtain ⟨is_raw, room⟩ := begins
    cases current with
    | none => exact absurd (progress.1.symm.trans is_raw) (by decide)
    | some old =>
      have opened : Opened _ _ old loop bytes := progress
      have type : old.type = sparseRaw := by
        rw [opened.header] at is_raw
        exact is_raw
      obtain ⟨data, rfl⟩ := Chunk.eq_raw type
      have member : Chunk.raw data ∈ chunks ++ (some (Chunk.raw data)).toList := by simp
      obtain ⟨blocks, at_blocks⟩ : ∃ blocks, data.length / blockSize.toNat = blocks := ⟨_, rfl⟩
      have few : blocks + 1 < 2 ^ 32 := by
        rw [← at_blocks]
        exact few
      have old_length : data.length = blocks * blockSize.toNat := by
        rw [← at_blocks]
        exact (emitting.expands.plain _ member).fits.whole
      have below : blocks < (maxRawBlocks blockSize).toNat := by
        rw [opened.header, header data blocks old_length, UInt32.lt_iff_toNat_lt] at room
        rwa [UInt32.toNat_ofNat_of_lt' (by show blocks < 2 ^ 32; omega)] at room
      have new_length : (data ++ block).length = (blocks + 1) * blockSize.toNat := by
        rw [List.length_append, old_length, length, Nat.succ_mul]
      refine (writeData_append wrote (safe.mono (by omega))).bind fun _ next written => ?_
      rw [ensures_pure]
      refine ⟨⟨_, _, _, written, emitting.extended (.raw (data ++ block)) block rfl rfl
        (fits _ (blocks + 1) new_length (by omega) few (by omega)) ?_ rfl ?_ rfl nofun rfl, ?_, ?_⟩,
        rfl, rfl, rfl⟩
      · intro i inside
        rw [new_length, Nat.mul_div_cancel _ positive] at inside
        by_cases last : i = blocks
        · rw [last, ← old_length, List.drop_left, ← length, List.take_length]
          exact mixed
        · have room : i * blockSize.toNat + blockSize.toNat ≤ data.length := by
            rw [old_length, ← Nat.succ_mul]
            exact Nat.mul_le_mul_right _ (by omega)
          rw [List.drop_append_of_le_length (by omega),
            List.take_append_of_le_length (by rw [List.length_drop]; omega)]
          exact (emitting.expands.plain _ member).needed i (by omega)
      · rw [opened.header, header data blocks old_length, header _ (blocks + 1) new_length,
          List.length_append, length, ← Nat.add_assoc, UInt32.ofNat_add (12 + data.length),
          UInt32.ofNat_toNat, UInt32.ofNat_add blocks]
        rfl
      · rw [List.length_append, length]
        omega
      · show (data ++ block).length / blockSize.toNat ≤ data.length / blockSize.toNat + 1
        rw [new_length, Nat.mul_div_cancel _ positive, at_blocks]

/-- **A block.** -/
theorem Emitting.addBlock (emitting : Emitting blockSize head image chunks current loop bytes)
    (wrote : Wrote world bytes) (shape : BlockSize blockSize)
    (length : block.length = blockSize.toNat)
    (few : openBlocks blockSize.toNat current + 1 < 2 ^ 32) (small : bytes.length < 2 ^ 64)
    (safe : Safe fault os (bytes.length + (blockSize.toNat + 12))) :
    Ensures fault (if isFill block then Genimage.addFill os loop block
      else Genimage.addRaw os blockSize loop block) world
      (Emitted blockSize head (image ++ block) current loop bytes) := by
  split
  next fill => exact emitting.addFill wrote shape length fill few small safe
  next mixed => exact emitting.addRaw wrote shape length (by simpa using mixed) few small safe

end Blocks

end Genimage
