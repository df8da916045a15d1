/-
**The divisors that come from the configuration.**

`flash_setup` divides by `pebsize`, the android-sparse handler by `block-size`. Both are read as 64-bit
numbers and kept in fields of 32 bits, `pebsize` without any check and `block-size` with one for a
multiple of 512, which `0` is. The two functions are repeated here with their divisions in view
(`Checked`); `divisions_safe_iff` says which values let them run into a division by zero.
-/

import Genimage.Flash.Setup
import Genimage.Library.Trap
import Genimage.Sparse.Generate
import Genimage.Util.Suffix
import Mathlib.Data.UInt

namespace Genimage

open Library

/-! ### The sections -/

/-- A `flash` section, with the defaults of `flashchip_opts`. -/
structure FlashSection where
  pebsize : Option String := some ""
  lebsize : Option String := some ""
  numpebs : Option String := some ""
  minimumIoUnitSize : Option String := some ""
  vidHeaderOffset : Option String := some ""
  subPageSize : Option String := some ""

/-- The body of the loop in `parse_flashes`; `none` is the exit for an invalid suffix. -/
def parseFlash (flashsec : FlashSection) : Option FlashType := do
  let pebsize ← cfgGetintSuffix flashsec.pebsize
  let _ ← cfgGetintSuffix flashsec.lebsize
  let numpebs ← cfgGetintSuffix flashsec.numpebs
  let _ ← cfgGetintSuffix flashsec.minimumIoUnitSize
  let _ ← cfgGetintSuffix flashsec.vidHeaderOffset
  let _ ← cfgGetintSuffix flashsec.subPageSize
  return { pebsize := pebsize.toUInt32.toInt32, numpebs := numpebs.toUInt32.toInt32 }

/-- An `android-sparse` section, with the defaults of `android_sparse_opts`. -/
structure SparseSection where
  blockSize : Option String := some "4k"
  fillHoles : Bool := false
  addCrc : Bool := false

/-- `android_sparse_setup` -/
def androidSparseSetup (cfg : SparseSection) : Option (Except Int SparseOptions) := do
  let blockSize := (← cfgGetintSuffix cfg.blockSize).toUInt32
  if blockSize % 512 ≠ 0 then return .error einval
  return .ok { blockSize := blockSize, fillHoles := cfg.fillHoles, addCrc := cfg.addCrc }

/-- The value of an option is `0` in a field of 32 bits. -/
def ReadsZero (option : Option String) : Prop :=
  ∃ value, cfgGetintSuffix option = some value ∧ value.toNat % 2 ^ 32 = 0

/-! ### `flash_setup` with its divisions -/

/-- The body of the loop in `flash_setup`. -/
def setupFlashPartChecked (imageGet : String → Option FlashChild) (flash : FlashType)
    (scan : FlashScan) (part : Partition) : OptionT (Except FlashError) FlashScan := do
  OptionT.lift (failIf (scan.last = true) .onlyLast)
  let last := part.size = 0
  let part ← OptionT.lift (takeRest flash.flashsize scan.partsize part)
  let rest ← dividing flash.pebsize (part.size % wordOfInt flash.pebsize)
  OptionT.lift (failIf (rest ≠ 0) (.sizeMultiple part.name part.size flash.pebsize))
  let rest ← dividing flash.pebsize (part.offset % wordOfInt flash.pebsize)
  OptionT.lift (failIf (rest ≠ 0) (.offsetMultiple part.name part.offset flash.pebsize))
  let part ← OptionT.lift (placeFlash scan.partsize part)
  OptionT.lift (checkChild imageGet part)
  return { last := last, partsize := part.partitionEnd, done := scan.done ++ [part] }

/-- `flash_setup` -/
def flashSetupChecked (imageGet : String → Option FlashChild) (config : FlashConfig) :
    OptionT (Except FlashError) FlashImage :=
  match config.flashType with
  | none => OptionT.lift (.error .noFlashType)
  | some flash => do
    let scan ← (parsePartitions config.partitions).foldlM (setupFlashPartChecked imageGet flash) {}
    OptionT.lift (failIf (scan.partsize > flash.flashsize) (.exceeds scan.partsize flash.flashsize))
    return {
      size := if config.size = 0 then scan.partsize else config.size
      partitions := scan.done }

/-- The run is stopped by a division by zero. -/
def FlashTraps (imageGet : String → Option FlashChild) (config : FlashConfig) : Prop :=
  (flashSetupChecked imageGet config).run = .ok none

section Flash

variable {imageGet : String → Option FlashChild} {flash : FlashType} {config : FlashConfig}

theorem setupFlashPartChecked_eq (nonzero : flash.pebsize ≠ 0) (scan : FlashScan)
    (part : Partition) : setupFlashPartChecked imageGet flash scan part =
      OptionT.lift (setupFlashPart imageGet flash scan part) := by
  simp only [setupFlashPartChecked, setupFlashPart, dividing_of_ne nonzero, pure_bind, lift_bind,
    lift_pure]

/-- **With an erase block size it is `flash_setup`.** -/
theorem flashSetupChecked_eq (given : config.flashType = some flash) (nonzero : flash.pebsize ≠ 0) :
    flashSetupChecked imageGet config = OptionT.lift (flashSetup imageGet config) := by
  rw [flashSetupChecked, flashSetup, given]
  simp only [lift_bind, lift_pure, foldlM_lift (setupFlashPartChecked_eq nonzero)]

/-- Without one the first partition is the last. -/
theorem setupFlashPartChecked_traps (zero : flash.pebsize = 0) (part : Partition) :
    setupFlashPartChecked imageGet flash {} part = failure := by
  have rest : ∃ sized, takeRest flash.flashsize 0 part = .ok sized := by
    unfold takeRest
    split_ifs with given exceeds
    · exact ⟨part, rfl⟩
    · exact absurd exceeds (UInt64.not_lt.mpr UInt64.zero_le)
    · exact ⟨_, rfl⟩
  obtain ⟨sized, taken⟩ := rest
  rw [setupFlashPartChecked]
  show (OptionT.lift (pure ()) >>= fun _ => OptionT.lift (takeRest flash.flashsize 0 part) >>= _) = _
  rw [lift_pure, pure_bind, show takeRest flash.flashsize 0 part = pure sized from taken, lift_pure,
    pure_bind, dividing_of_eq zero, failure_bind]

theorem not_trap_lift {ε α : Type} (plain : Except ε α) :
    (OptionT.lift plain : OptionT (Except ε) α).run ≠ .ok none := by
  cases plain <;> exact nofun

/-- **`flash_setup` divides by zero exactly** with partitions on a flash without an erase block
size. -/
theorem flashTraps_iff (given : config.flashType = some flash) :
    FlashTraps imageGet config ↔ flash.pebsize = 0 ∧ config.partitions ≠ [] := by
  unfold FlashTraps
  by_cases zero : flash.pebsize = 0
  · rw [flashSetupChecked, given]
    simp only
    cases config.partitions with
    | nil =>
      refine iff_of_false ?_ fun both => both.2 rfl
      simp only [parsePartitions, List.map_nil, List.foldlM_nil, pure_bind, ← lift_pure, ← lift_bind]
      exact not_trap_lift _
    | cons head rest =>
      refine iff_of_true ?_ ⟨zero, fun wrong => by cases wrong⟩
      rw [parsePartitions, List.map_cons, List.foldlM_cons, setupFlashPartChecked_traps zero,
        failure_bind, failure_bind]
      rfl
  · rw [flashSetupChecked_eq given zero]
    exact iff_of_false (not_trap_lift _) fun both => zero both.1

end Flash

/-! ### `android_sparse_generate` with its divisions -/

/-- The body of the loop that aligns and merges the extents. -/
def mergeStepChecked (blockSize size : UInt64) (extents : List Extent) (extent : Nat) :
    OptionT Sys (List Extent) := do
  let given := extents.getD extent ⟨0, 0⟩
  let start ← dividing blockSize (given.start / blockSize * blockSize)
  let stop ← dividing blockSize ((given.stop - 1 + blockSize) / blockSize * blockSize)
  let aligned : Extent := ⟨start, minSize stop size⟩
  let extents := extents.set extent aligned
  let j := searchBack extents extent
  return if j ≥ 0 ∧ aligned.start ≤ (extents.getD j.toNat ⟨0, 0⟩).stop then
    (extents.set j.toNat ⟨(extents.getD j.toNat ⟨0, 0⟩).start, aligned.stop⟩).set extent ⟨0, 0⟩
  else extents

section Sparse

variable (os : Os)

/-- The body of the loop over the extents. -/
def extentStepChecked (blockSize : UInt32) (input : File) (loop : ExtentLoop) (extent : Extent) :
    OptionT Sys ExtentLoop := do
  let startBlock ← dividing blockSize.toUInt64 (extent.start / blockSize.toUInt64).toUInt32
  let size := extent.stop - extent.start
  if size = 0 then return loop
  let loop ← OptionT.lift (skipTo os blockSize loop startBlock.toUInt64)
  if (← OptionT.lift (Sys.lseekIn os extent.start)) < 0 then OptionT.lift Sys.throwErrno
  let pos ← OptionT.lift Sys.lseekCur
  let inner ← OptionT.lift (blockLoop os blockSize input size.toNat {
    size := size
    inPos := extent.start.toNat
    header := ⟨0, 0, 0⟩
    fillValue := 0
    pos := pos
    inputChunks := loop.inputChunks
    crc := loop.crc })
  OptionT.lift (flushHeader os inner.header inner.pos)
  let block ← dividing blockSize.toUInt64
    ((extent.stop - 1 + blockSize.toUInt64) / blockSize.toUInt64)
  return { block := block, inputChunks := inner.inputChunks, crc := inner.crc }

/-- `android_sparse_generate`. The first division is the one of `max_raw_blocks`, in its
declaration. -/
def androidSparseGenerateChecked (options : SparseOptions) (input : File)
    (mapped : Except Int (List Extent)) : OptionT Sys Unit := do
  dividing options.blockSize ()
  let size := UInt64.ofNat input.length
  let blockCount ← dividing options.blockSize (blockCount options.blockSize size)
  let extents ← OptionT.lift (inputExtents options size mapped)
  let extents ← (List.range extents.length).foldlM
    (mergeStepChecked options.blockSize.toUInt64 size) extents
  OptionT.lift (openFile os true)
  let header : SparseHeader := ⟨options.blockSize, blockCount.toUInt32, 0⟩
  OptionT.lift (writeData os header.bytes)
  let loop ← extents.foldlM (extentStepChecked os options.blockSize input) ⟨0, 0, 0⟩
  let loop ← OptionT.lift (skipTo os options.blockSize loop blockCount)
  let inputChunks ← OptionT.lift (addChecksum os options loop)
  OptionT.lift (rewriteHeader os { header with inputChunks := inputChunks })

/-- The run is stopped by a division by zero. -/
def SparseTraps (options : SparseOptions) (input : File) (mapped : Except Int (List Extent))
    (world : World) : Prop :=
  ∃ final, Effect.Returns (androidSparseGenerateChecked os options input mapped).run world none final

variable {os} {options : SparseOptions} {input : File} {mapped : Except Int (List Extent)}
  {world : World} {blockSize : UInt32}

theorem mergeStepChecked_eq {blockSize size : UInt64} (nonzero : blockSize ≠ 0)
    (extents : List Extent) (extent : Nat) : mergeStepChecked blockSize size extents extent =
      OptionT.lift (pure (mergeStep blockSize size extents extent)) := by
  rw [mergeStepChecked, dividing_of_ne nonzero, pure_bind, dividing_of_ne nonzero, pure_bind,
    lift_pure]
  rfl

theorem extentStepChecked_eq (nonzero : blockSize.toUInt64 ≠ 0) (loop : ExtentLoop)
    (extent : Extent) : extentStepChecked os blockSize input loop extent =
      OptionT.lift (extentStep os blockSize input loop extent) := by
  rw [extentStepChecked, extentStep, dividing_of_ne nonzero, pure_bind]
  simp only
  split_ifs with empty
  · exact (lift_pure loop).symm
  · rw [lift_bind]
    refine bind_congr fun loop => ?_
    rw [lift_bind]
    refine bind_congr fun sought => ?_
    split_ifs
    · simp only [lift_bind, dividing_of_ne nonzero, pure_bind, lift_pure]
    · simp only [lift_bind, dividing_of_ne nonzero, pure_bind, lift_pure]

/-- **With a block size it is `android_sparse_generate`.** -/
theorem androidSparseGenerateChecked_eq (nonzero : options.blockSize ≠ 0) :
    androidSparseGenerateChecked os options input mapped =
      OptionT.lift (androidSparseGenerate os options input mapped) := by
  have wide : options.blockSize.toUInt64 ≠ 0 := by
    intro zero
    apply nonzero
    rw [← UInt32.toNat_inj, ← UInt32.toNat_toUInt64, zero]
    rfl
  rw [androidSparseGenerateChecked, androidSparseGenerate]
  simp only [dividing_of_ne nonzero, pure_bind, lift_bind, foldlM_lift (mergeStepChecked_eq wide),
    foldlM_lift (extentStepChecked_eq wide), List.foldlM_pure, lift_pure]
  rfl

/-- **`android_sparse_generate` divides by zero exactly** without a block size, on any input. -/
theorem sparseTraps_iff : SparseTraps os options input mapped world ↔ options.blockSize = 0 := by
  constructor
  · rintro ⟨final, stopped⟩
    by_contra nonzero
    have lifted : Effect.Ensures True (androidSparseGenerateChecked os options input mapped).run world
        fun value _ => value ≠ none := by
      rw [androidSparseGenerateChecked_eq nonzero, OptionT.run_lift]
      refine (Effect.Ensures.of_forall fun _ _ => trivial).bind fun value next _ => ?_
      exact Effect.ensures_pure.mpr nofun
    exact lifted.of_returns stopped rfl
  · intro zero
    refine ⟨world, ?_⟩
    rw [androidSparseGenerateChecked, dividing_of_eq zero, failure_bind]
    rfl

end Sparse

/-! ### From the options to the divisors -/

theorem toUInt32_eq_zero {value : UInt64} : value.toUInt32 = 0 ↔ value.toNat % 2 ^ 32 = 0 := by
  rw [← UInt32.toNat_inj, UInt64.toNat_toUInt32]
  rfl

theorem readsZero_of_eq {option : Option String} {value : UInt64}
    (same : cfgGetintSuffix option = some value) : ReadsZero option ↔ value.toUInt32 = 0 := by
  rw [toUInt32_eq_zero]
  constructor
  · rintro ⟨other, found, zero⟩
    rw [same, Option.some_inj] at found
    rwa [found]
  · exact fun zero => ⟨value, same, zero⟩

theorem parseFlash_pebsize {flashsec : FlashSection} {flash : FlashType}
    (parsed : parseFlash flashsec = some flash) :
    flash.pebsize = 0 ↔ ReadsZero flashsec.pebsize := by
  simp only [parseFlash, Option.bind_eq_bind, Option.pure_def, Option.bind_eq_some_iff,
    Option.some_inj] at parsed
  obtain ⟨pebsize, read, -, -, numpebs, -, -, -, -, -, -, -, rfl⟩ := parsed
  rw [readsZero_of_eq read]
  exact ⟨fun zero => congrArg Int32.toUInt32 zero, fun zero => congrArg UInt32.toInt32 zero⟩

theorem androidSparseSetup_blockSize {cfg : SparseSection} {options : SparseOptions}
    (accepted : androidSparseSetup cfg = some (.ok options)) :
    options.blockSize = 0 ↔ ReadsZero cfg.blockSize := by
  simp only [androidSparseSetup, Option.bind_eq_bind, Option.pure_def,
    Option.bind_eq_some_iff] at accepted
  obtain ⟨blockSize, read, accepted⟩ := accepted
  rw [readsZero_of_eq read]
  split_ifs at accepted
  · cases accepted
  · rw [Option.some_inj, Except.ok.injEq] at accepted
    rw [← accepted]

/-- **Where a division by zero is possible.** `flash_setup` runs into one exactly with a partition on
a flash whose `pebsize` is `0` in 32 bits, `android_sparse_generate` exactly if `block-size` is. -/
theorem divisions_safe_iff {flashsec : FlashSection} {flash : FlashType} {cfg : SparseSection}
    {options : SparseOptions} (parsed : parseFlash flashsec = some flash)
    (accepted : androidSparseSetup cfg = some (.ok options))
    (imageGet : String → Option FlashChild) (config : FlashConfig) (os : Os) (input : File)
    (mapped : Except Int (List Extent)) (world : World) :
    (config.flashType = none → ¬FlashTraps imageGet config) ∧
      (config.flashType = some flash → (¬FlashTraps imageGet config ↔
        ¬ReadsZero flashsec.pebsize ∨ config.partitions = [])) ∧
      (¬SparseTraps os options input mapped world ↔ ¬ReadsZero cfg.blockSize) := by
  refine ⟨fun missing trapped => ?_, fun given => ?_, ?_⟩
  · rw [FlashTraps, flashSetupChecked, missing] at trapped
    exact not_trap_lift _ trapped
  · rw [flashTraps_iff given, parseFlash_pebsize parsed, not_and_or, not_not]
  · rw [sparseTraps_iff, androidSparseSetup_blockSize accepted]

/-- A flash with an erase block size of 128 KiB, and the default block size. -/
theorem divisions_safe_given :
    (∀ imageGet config, config.flashType = some ⟨131072, 64⟩ → ¬FlashTraps imageGet config) ∧
      ∀ os input mapped world, ¬SparseTraps os ⟨4096, false, false⟩ input mapped world := by
  have safe := @divisions_safe_iff { pebsize := some "128k", numpebs := some "64" } ⟨131072, 64⟩ {}
    ⟨4096, false, false⟩ (by decide +kernel) rfl
  have pebsize : ¬ReadsZero (some "128k") := by
    rw [readsZero_of_eq (show cfgGetintSuffix (some "128k") = some 131072 by decide +kernel)]
    decide
  have blockSize : ¬ReadsZero (some "4k") := by
    rw [readsZero_of_eq (show cfgGetintSuffix (some "4k") = some 4096 by decide +kernel)]
    decide
  constructor
  · intro imageGet config given
    exact ((safe imageGet config ⟨fun _ => .full, false⟩ .empty (.ok []) { file := none }).2.1
      given).mpr (.inl pebsize)
  · intro os input mapped world
    exact (safe (fun _ => none) {} os input mapped world).2.2.mpr blockSize

/-- A flash with no options and a block size of `4G` are accepted, and divide by zero. -/
theorem defaultFlash_divides_by_zero :
    parseFlash {} = some ⟨0, 0⟩ ∧
      FlashTraps (fun _ => none) { flashType := some ⟨0, 0⟩, partitions := [{ title := "boot" }] } ∧
      androidSparseSetup { blockSize := some "4G" } = some (.ok ⟨0, false, false⟩) ∧
      SparseTraps ⟨fun _ => .full, false⟩ ⟨0, false, false⟩ .empty (.ok []) { file := none } := by
  refine ⟨by decide +kernel, ?_, rfl, { file := none }, rfl⟩
  rw [FlashTraps]
  rfl

end Genimage
