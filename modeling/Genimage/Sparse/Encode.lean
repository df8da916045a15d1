/-
**The bytes `android_sparse_generate` writes.**

`Wrote world bytes` says that the output file holds `bytes` and the descriptor stands at their end.
The lemmas `*_ensures` say what every function of the generator adds to them. `Stands` relates a list
of chunks with the input: the chunks fit the format and stand for the first blocks. While an extent is
written the last chunk is open (`Opened`): its header is in the file as a placeholder, at the place
`pos` remembers, and is patched when the chunk is complete.

All of it is proved with a `fault`: the run may stop with an error only where `fault` holds, so the
statements cover both every way the calls can fail and the run of a reliable system that has to
return.
-/

import Genimage.Sparse.Format
import Genimage.Sparse.Merge

namespace Genimage

open Library Effect

/-! ### Writing at the end -/

/-- The output file holds `bytes`, and the descriptor stands at their end. -/
def Wrote (world : World) (bytes : List UInt8) : Prop :=
  world.contents.toList = bytes ∧ world.position = bytes.length

section Write

variable {os : Os} {fault : Prop} {world : World} {bytes data : List UInt8} {bound : Nat}

theorem Wrote.length (wrote : Wrote world bytes) : world.contents.length = bytes.length := by
  rw [← File.length_toList, wrote.1]

theorem Wrote.frame (wrote : Wrote world bytes) {next : World} (file : next.file = world.file)
    (position : next.position = world.position) : Wrote next bytes :=
  ⟨(congrArg File.toList (World.contents_congr file)).trans wrote.1, position.trans wrote.2⟩

theorem writeData_ensures (safe : Safe fault os (world.position + data.length)) :
    Ensures fault (writeData os data) world fun _ next =>
      next.contents = world.contents.pwrite world.position data ∧
        next.position = world.position + data.length := by
  rw [writeData]
  refine Sys.write_ensures.bind fun ret middle written => ?_
  rcases written with ⟨rfl, _, _, failed⟩ | ⟨count, rfl, small, _, whole, position, file⟩
  · rw [if_pos (by decide), Sys.throwErrno_ensures]
    exact safe.allowed failed
  · rw [if_neg (by omega)]
    split
    next differs =>
      rw [ensures_throw]
      refine safe.allowed fun both => differs ?_
      rw [whole both.1.whole]
    next same =>
      have count_eq : count = data.length := by omega
      rw [ensures_pure, World.contents, file, position, count_eq, List.take_length]
      exact ⟨rfl, rfl⟩

theorem writeData_append (wrote : Wrote world bytes)
    (safe : Safe fault os (bytes.length + data.length)) :
    Ensures fault (writeData os data) world fun _ next => Wrote next (bytes ++ data) := by
  rw [← wrote.2] at safe
  refine (writeData_ensures safe).mono fun _ next ⟨contents, position⟩ => ⟨?_, ?_⟩
  · rw [contents, wrote.2, ← wrote.length, File.toList_append, wrote.1]
  · rw [position, wrote.2, List.length_append]

/-- **A header at the end.** -/
theorem flushHeader_append {header : ChunkHeader} (some : header.chunkType ≠ 0)
    (wrote : Wrote world bytes) (safe : Safe fault os (bytes.length + 12)) :
    Ensures fault (flushHeader os header (-1)) world fun _ next =>
      Wrote next (bytes ++ header.bytes) := by
  rw [← header.length_bytes] at safe
  rw [flushHeader, if_neg some]
  simp only [show ¬ ((-1 : Int) ≥ 0) by decide, if_false]
  refine (writeData_append wrote safe).bind fun _ _ wrote => ?_
  rw [ensures_pure]
  exact wrote

/-- **A placeholder is patched.** -/
theorem flushHeader_patch {header : ChunkHeader} {front block rest : List UInt8}
    (some : header.chunkType ≠ 0) (size : block.length = 12)
    (wrote : Wrote world (front ++ block ++ rest))
    (small : front.length < 2 ^ 64) (safe : Safe fault os (front ++ block ++ rest).length) :
    Ensures fault (flushHeader os header front.length) world fun _ next =>
      Wrote next (front ++ header.bytes ++ rest) := by
  have total : (front ++ block ++ rest).length = front.length + 12 + rest.length := by
    rw [List.length_append, List.length_append, size]
  rw [total] at safe
  have length : header.bytes.length = block.length := by rw [size, header.length_bytes]
  rw [flushHeader, if_neg some]
  simp only [Int.natCast_nonneg, ge_iff_le, if_true, Int.toNat_natCast]
  have offset : (UInt64.ofNat front.length).toNat = front.length := UInt64.toNat_ofNat_of_lt' small
  refine Sys.lseekSet_ensures.bind fun ret middle facts => ?_
  obtain ⟨file, moved⟩ := facts
  rw [offset] at moved
  rcases moved with ⟨rfl, failed⟩ | ⟨rfl, position, _⟩
  · rw [if_pos (by decide), ensures_bind, Sys.throwErrno_ensures]
    exact (safe.mono (by omega)).allowed failed
  rw [if_neg (by omega)]
  have within : Safe fault os (middle.position + header.bytes.length) := by
    refine safe.mono ?_
    rw [position, header.length_bytes]
    omega
  refine (writeData_ensures within).bind fun _ later facts => ?_
  obtain ⟨contents, _⟩ := facts
  have patched : later.contents.toList = front ++ header.bytes ++ rest := by
    rw [contents, position, World.contents, file]
    exact File.toList_patch wrote.1 length
  refine Sys.lseekEnd_ensures.bind fun ret last facts => ?_
  obtain ⟨kept, moved⟩ := facts
  have length_eq : later.contents.length = front.length + 12 + rest.length := by
    rw [← File.length_toList, patched, List.length_append, List.length_append,
      header.length_bytes]
  rcases moved with ⟨rfl, failed⟩ | ⟨rfl, atEnd, _⟩
  · rw [if_pos (by decide), Sys.throwErrno_ensures]
    exact safe.allowed fun both => failed ⟨both.1, length_eq ▸ both.2⟩
  rw [if_neg (by omega), ensures_pure]
  refine ⟨?_, ?_⟩
  · rw [World.contents, kept]
    exact patched
  · rw [atEnd, ← File.length_toList, patched]

end Write

/-! ### Chunks that stand for the input -/

/-- A block size the format can hold. -/
structure BlockSize (blockSize : UInt32) : Prop where
  nonzero : blockSize ≠ 0
  dvd : 512 ∣ blockSize.toNat

/-- No block of a raw chunk is a repeated word. -/
def Chunk.Needed (blockSize : Nat) : Chunk → Prop
  | .raw data => ∀ i < data.length / blockSize,
    isFill ((data.drop (i * blockSize)).take blockSize) = false
  | _ => True

/-- A chunk of data: not a checksum, and raw only where it has to be. -/
structure Chunk.Plain (blockSize : Nat) (chunk : Chunk) : Prop where
  fits : chunk.Fits blockSize
  type : chunk.type ≠ sparseCrc32
  needed : chunk.Needed blockSize

/-- **The chunks stand for the first `count` blocks of the input.** -/
structure Stands (blockSize : Nat) (input : File) (count : Nat) (chunks : List Chunk) : Prop where
  plain : ∀ chunk ∈ chunks, chunk.Plain blockSize
  blocks : (chunks.map (Chunk.blocks blockSize)).sum = count
  expand : chunks.flatMap (Chunk.expand blockSize) = input.slice 0 (count * blockSize)

section Stands

variable {blockSize : Nat} {input : File} {count : Nat} {chunks : List Chunk} {chunk : Chunk}

theorem Stands.nil : Stands blockSize input 0 [] := by
  refine ⟨nofun, rfl, ?_⟩
  rw [Nat.zero_mul]
  rfl

/-- Another chunk for the next blocks. -/
theorem Stands.push (stands : Stands blockSize input count chunks) (plain : chunk.Plain blockSize)
    (expand : chunk.expand blockSize =
      input.slice (count * blockSize) (chunk.blocks blockSize * blockSize)) :
    Stands blockSize input (count + chunk.blocks blockSize) (chunks ++ [chunk]) := by
  refine ⟨?_, ?_, ?_⟩
  · simpa [or_imp, forall_and] using ⟨stands.plain, plain⟩
  · rw [List.map_append, List.sum_append, stands.blocks]
    simp
  · rw [List.flatMap_append, stands.expand, List.flatMap_singleton, expand, Nat.add_mul]
    simpa using input.slice_append 0 (count * blockSize) _

theorem Stands.blocks_le (stands : Stands blockSize input count chunks) (member : chunk ∈ chunks) :
    chunk.blocks blockSize ≤ count := by
  rw [← stands.blocks]
  exact List.le_sum_of_mem (List.mem_map_of_mem member)

/-- There are at most as many chunks as blocks. -/
theorem Stands.length_le (stands : Stands blockSize input count chunks) : chunks.length ≤ count := by
  have := List.length_le_sum_of_one_le (chunks.map (Chunk.blocks blockSize)) fun blocks member => by
    obtain ⟨chunk, inside, rfl⟩ := List.mem_map.mp member
    exact (stands.plain chunk inside).fits.blocks_pos (stands.plain chunk inside).type
  rwa [List.length_map, stands.blocks] at this

/-- Whole chunks expand to whole blocks. -/
theorem length_expand (whole : ∀ chunk ∈ chunks, chunk.Plain blockSize) :
    (chunks.flatMap (Chunk.expand blockSize)).length =
      (chunks.map (Chunk.blocks blockSize)).sum * blockSize := by
  induction chunks with
  | nil => simp
  | cons chunk chunks ih =>
    have rest := ih fun other member => whole other (List.mem_cons_of_mem _ member)
    rw [List.flatMap_cons, List.length_append, rest, List.map_cons, List.sum_cons, Nat.add_mul,
      (whole chunk List.mem_cons_self).fits.whole]

/-- **A chunk stands for its blocks**, the ones behind the chunks before it. -/
theorem Stands.expand_at {before after : List Chunk}
    (stands : Stands blockSize input count (before ++ chunk :: after)) :
    chunk.expand blockSize = input.slice ((before.map (Chunk.blocks blockSize)).sum * blockSize)
      (chunk.blocks blockSize * blockSize) := by
  have plain := stands.plain
  have blocks := stands.blocks
  have expand := stands.expand
  rw [List.map_append, List.map_cons, List.sum_append, List.sum_cons] at blocks
  rw [List.flatMap_append, List.flatMap_cons, ← blocks, Nat.add_mul, Nat.add_mul,
    ← input.slice_append, Nat.zero_add, ← input.slice_append] at expand
  have front : ∀ other ∈ before, other.Plain blockSize := fun other member =>
    plain other (List.mem_append_left _ member)
  have whole := (plain chunk (List.mem_append_right _ List.mem_cons_self)).fits.whole
  have rest := (List.append_inj expand (by rw [length_expand front, File.length_slice])).2
  exact (List.append_inj rest (by rw [whole, File.length_slice])).1

end Stands

/-! ### The open chunk -/

theorem Chunk.eq_raw {chunk : Chunk} (type : chunk.type = sparseRaw) : ∃ data, chunk = .raw data := by
  cases chunk <;> simp_all [Chunk.type, sparseRaw, sparseFill, sparseDontCare, sparseCrc32]

theorem Chunk.eq_fill {chunk : Chunk} (type : chunk.type = sparseFill) :
    ∃ value blocks, chunk = .fill value blocks := by
  cases chunk <;> simp_all [Chunk.type, sparseRaw, sparseFill, sparseDontCare, sparseCrc32]

theorem Chunk.type_ne_zero (chunk : Chunk) : chunk.type ≠ 0 := by
  cases chunk <;> simp [Chunk.type, sparseRaw, sparseFill, sparseDontCare, sparseCrc32]

/-- **The open chunk** behind `front`: its header is a placeholder at `pos`. -/
structure Opened (blockSize : Nat) (front : List UInt8) (chunk : Chunk) (loop : BlockLoop)
    (bytes : List UInt8) : Prop where
  header : loop.header = chunk.header blockSize
  pos : loop.pos = front.length
  kind : chunk.type = sparseRaw ∨ chunk.type = sparseFill
  value : chunk.type = sparseFill → leValue chunk.payload = loop.fillValue
  bytes : ∃ placeholder : List UInt8, placeholder.length = 12 ∧
    bytes = front ++ placeholder ++ chunk.payload

/-- The file behind `front` has an open chunk, or none yet. -/
def Progress (blockSize : Nat) (front : List UInt8) (loop : BlockLoop) (bytes : List UInt8) :
    Option Chunk → Prop
  | none => loop.header.chunkType = 0 ∧ bytes = front
  | some chunk => Opened blockSize front chunk loop bytes

section Progress

variable {os : Os} {fault : Prop} {world : World} {blockSize bound : Nat} {loop : BlockLoop}
  {front bytes : List UInt8} {current : Option Chunk}

/-- A placeholder is as long as a header. -/
theorem Progress.length (progress : Progress blockSize front loop bytes current) :
    bytes.length = (front ++ current.toList.flatMap (Chunk.serialize blockSize)).length := by
  cases current with
  | none =>
    rw [progress.2]
    simp
  | some chunk =>
    obtain ⟨placeholder, size, same⟩ := progress.bytes
    rw [same]
    simp [Chunk.serialize, size]

/-- **The open chunk is completed.** -/
theorem Progress.close (progress : Progress blockSize front loop bytes current)
    (wrote : Wrote world bytes) (small : bytes.length < 2 ^ 64) (safe : Safe fault os bytes.length) :
    Ensures fault (flushHeader os loop.header loop.pos) world fun _ next =>
      Wrote next (front ++ current.toList.flatMap (Chunk.serialize blockSize)) := by
  cases current with
  | none =>
    obtain ⟨no, rfl⟩ := progress
    rw [flushHeader, if_pos no, ensures_pure]
    simpa using wrote
  | some chunk =>
    obtain ⟨placeholder, size, rfl⟩ := progress.bytes
    have some : loop.header.chunkType ≠ 0 := by
      rw [progress.header]
      exact chunk.type_ne_zero
    have short : front.length < 2 ^ 64 := by
      simp only [List.length_append] at small
      omega
    rw [progress.pos]
    refine (flushHeader_patch some size wrote short safe).mono fun _ next wrote => ?_
    rw [progress.header] at wrote
    simpa [Chunk.serialize] using wrote

/-- **Another chunk begins.** -/
theorem Progress.begin (progress : Progress blockSize front loop bytes current)
    (wrote : Wrote world bytes) (small : bytes.length < 2 ^ 64) {header : ChunkHeader}
    (some : header.chunkType ≠ 0) (safe : Safe fault os (bytes.length + 12)) :
    Ensures fault (beginChunk os loop header) world fun result next =>
      let closed := front ++ current.toList.flatMap (Chunk.serialize blockSize)
      Wrote next (closed ++ header.bytes) ∧
      result = { loop with inputChunks := loop.inputChunks + 1, pos := closed.length, header } := by
  rw [beginChunk]
  refine (progress.close wrote small (safe.mono (Nat.le_add_right _ _))).bind
    fun _ middle wrote => ?_
  rw [progress.length] at safe
  generalize front ++ current.toList.flatMap (Chunk.serialize blockSize) = closed at *
  rw [ensures_bind, Sys.lseekCur_ensures]
  refine (flushHeader_append some wrote safe).bind fun _ next later => ?_
  rw [ensures_pure, wrote.2]
  exact ⟨later, rfl⟩

end Progress

end Genimage
