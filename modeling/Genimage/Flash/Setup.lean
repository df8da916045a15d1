/-
**The flash handler (`image-flash.c`).**

A flash image is its partitions one behind the other, with `0xFF` wherever no child has put a byte.
`flashSetup` gives every partition its place and checks it against the erase blocks of the flash;
`flashGenerate` writes the file. `pebsize` and `numpebs` are `int` in `struct flash_type` and become
64-bit words where they meet a size, so a negative value is a large one there. A `pebsize` of `0` is
a division by zero in C; here the remainder by `0` is the number itself.

`image_get` finds the same child in both functions: `FlashChild` has what setup knows of it and what
its own generation has left behind.
-/

import Genimage.Library.Run
import Genimage.Util.FileOps

namespace Genimage

open Library

/-- The fields of `struct flash_type` that the handler reads. -/
structure FlashType where
  pebsize : Int32
  numpebs : Int32
deriving DecidableEq, Repr

/-- The value of an `int` as `unsigned long long`. -/
def wordOfInt (value : Int32) : UInt64 := UInt64.ofInt value.toInt

/-- `flashsize` -/
def FlashType.flashsize (flash : FlashType) : UInt64 :=
  wordOfInt flash.pebsize * wordOfInt flash.numpebs

/-- A flash section of the configuration. -/
structure FlashConfig where
  size : UInt64 := 0
  flashType : Option FlashType := none
  partitions : List PartitionSection := []

/-- A child as `image_get` finds it: in setup, and when its file has been generated. -/
structure FlashChild where
  setup : Child
  output : ChildOutput

/-- The errors of `flash_setup`. -/
inductive FlashError where
  | noFlashType
  | onlyLast
  | sizeMultiple (name : String) (size : UInt64) (pebsize : Int32)
  | offsetMultiple (name : String) (offset : UInt64) (pebsize : Int32)
  | overlaps (name : String)
  | noImage (image : String)
  | tooSmall (name : String) (size : UInt64) (file : String) (childSize : UInt64)
  | exceeds (partsize flashsize : UInt64)

namespace FlashError

/-- Every error returns `-EINVAL`. -/
def code (_ : FlashError) : Int := einval

/-- The message of `image_error`. -/
def text : FlashError → String
  | .noFlashType => "no flash type given"
  | .onlyLast => "only last partition may have size 0"
  | .sizeMultiple name size pebsize => s!"part {name} size ({toLongLong size}) must be a " ++
    s!"multiple of erase block size ({pebsize.toInt} bytes)"
  | .offsetMultiple name offset pebsize => s!"part {name} offset ({toLongLong offset}) must be a " ++
    s!"multiple of erase block size ({pebsize.toInt} bytes)"
  | .overlaps name => s!"part {name} overlaps with previous partition"
  | .noImage image => s!"could not find {image}"
  | .tooSmall name size file childSize => s!"part {name} size ({toLongLong size}) too small for " ++
    s!"{file} ({toLongLong childSize})"
  | .exceeds partsize flashsize => s!"size of partitions ({toLongLong partsize}) exceeds flash " ++
    s!"size ({toLongLong flashsize})"

end FlashError

/-! ### `flash_setup` -/

/-- The local variables of the loop, and the elements it has passed. -/
structure FlashScan where
  last : Bool := false
  partsize : UInt64 := 0
  done : List Partition := []

/-- A partition of size `0` takes the rest of the flash. -/
def takeRest (flashsize partsize : UInt64) (part : Partition) : Except FlashError Partition :=
  if part.size ≠ 0 then .ok part
  else if partsize > flashsize then .error (.exceeds partsize flashsize)
  else .ok (part.withSize (flashsize - partsize))

/-- The offset of a partition: the given one, or the end of the previous partition. -/
def placeFlash (partsize : UInt64) (part : Partition) : Except FlashError Partition :=
  if part.offset = 0 then .ok (part.withOffset partsize)
  else if partsize > part.offset then .error (.overlaps part.name)
  else .ok part

/-- The check of the child, as far as its size is known. -/
def checkChild (imageGet : String → Option FlashChild) (part : Partition) : Except FlashError Unit :=
  match part.image with
  | none => .ok ()
  | some image =>
    match imageGet image with
    | none => .error (.noImage image)
    | some child => failIf (child.setup.size > part.size)
        (.tooSmall part.name part.size child.setup.file child.setup.size)

/-- The body of the loop in `flash_setup`. -/
def setupFlashPart (imageGet : String → Option FlashChild) (flash : FlashType) (scan : FlashScan)
    (part : Partition) : Except FlashError FlashScan := do
  failIf (scan.last = true) .onlyLast
  let last := part.size = 0
  let part ← takeRest flash.flashsize scan.partsize part
  failIf (part.size % wordOfInt flash.pebsize ≠ 0) (.sizeMultiple part.name part.size flash.pebsize)
  failIf (part.offset % wordOfInt flash.pebsize ≠ 0)
    (.offsetMultiple part.name part.offset flash.pebsize)
  let part ← placeFlash scan.partsize part
  checkChild imageGet part
  return { last := last, partsize := part.partitionEnd, done := scan.done ++ [part] }

/-- What `flash_setup` leaves behind. -/
structure FlashImage where
  size : UInt64
  partitions : List Partition

/-- `flash_setup` -/
def flashSetup (imageGet : String → Option FlashChild) (config : FlashConfig) :
    Except FlashError FlashImage :=
  match config.flashType with
  | none => .error .noFlashType
  | some flash => do
    let scan ← (parsePartitions config.partitions).foldlM (setupFlashPart imageGet flash) {}
    failIf (scan.partsize > flash.flashsize) (.exceeds scan.partsize flash.flashsize)
    return {
      size := if config.size = 0 then scan.partsize else config.size
      partitions := scan.done }

/-! ### `flash_generate` -/

/-- The value of an erased byte. -/
def erased : UInt8 := 0xFF

/-- Padding from `stop` up to `target`, when there is room. -/
def padTo (os : Os) (stop target : UInt64) : Sys Unit :=
  if target > stop then insertImage os none (target - stop) stop 0 erased false else return

/-- The body of the loop in `flash_generate`; the variable is `end`. -/
def generateFlashPart (os : Os) (imageGet : String → Option FlashChild) (stop : UInt64)
    (part : Partition) : Sys UInt64 := do
  padTo os stop part.offset
  insertImage os ((part.image.bind imageGet).map (·.output)) part.size part.offset 0 erased false
  return part.partitionEnd

/-- `flash_generate` -/
def flashGenerate (os : Os) (imageGet : String → Option FlashChild) (image : FlashImage) :
    Sys Unit := do
  prepareImage os image.size
  let stop ← image.partitions.foldlM (generateFlashPart os imageGet) 0
  padTo os stop image.size

/-! ### An accepted configuration -/

/-- **Each partition starts where the ones in front of it have ended, or behind.** -/
def FollowsEnd : UInt64 → List Partition → Prop
  | _, [] => True
  | stop, part :: rest => stop ≤ part.offset ∧ FollowsEnd part.partitionEnd rest

theorem FollowsEnd.snoc {parts : List Partition} {part : Partition} : ∀ {stop : UInt64},
    FollowsEnd stop parts → (parts.getLast?.elim stop Partition.partitionEnd) ≤ part.offset →
    FollowsEnd stop (parts ++ [part]) := by
  induction parts with
  | nil => exact fun _ behind => ⟨behind, trivial⟩
  | cons head rest ih =>
    intro stop ordered behind
    refine ⟨ordered.1, ih ordered.2 ?_⟩
    cases rest with
    | nil => exact behind
    | cons =>
      rw [List.getLast?_cons_cons] at behind
      cases last : (List.cons _ _).getLast? with
      | none => simp at last
      | some =>
        rw [last] at behind
        exact behind

section Accepted

variable {imageGet : String → Option FlashChild} {flash : FlashType} {scan next : FlashScan}
  {part : Partition}

theorem placeFlash_ok {partsize : UInt64} {placed : Partition}
    (run : placeFlash partsize part = .ok placed) : partsize ≤ placed.offset := by
  unfold placeFlash at run
  split_ifs at run with automatic overlaps
  · rw [← Except.ok.inj run]
    exact UInt64.le_refl _
  · rw [← Except.ok.inj run]
    exact UInt64.not_lt.mp overlaps

theorem checkChild_ok {result : Unit} (run : checkChild imageGet part = .ok result) :
    ∀ image, part.image = some image → ∃ child, imageGet image = some child := by
  intro image named
  rw [checkChild, named] at run
  simp only at run
  split at run
  · cases run
  · exact ⟨_, ‹_›⟩

/-- **The invariant of the loop.** -/
structure FlashScan.Sound (imageGet : String → Option FlashChild) (scan : FlashScan) : Prop where
  partsize_eq : scan.partsize = scan.done.getLast?.elim 0 Partition.partitionEnd
  ordered : FollowsEnd 0 scan.done
  found : ∀ part ∈ scan.done, ∀ name, part.image = some name → ∃ child, imageGet name = some child

theorem FlashScan.Sound.step (sound : scan.Sound imageGet)
    (taken : setupFlashPart imageGet flash scan part = .ok next) : next.Sound imageGet := by
  simp only [setupFlashPart, do_eq_ok, failIf_ok, pure_eq_ok] at taken
  obtain ⟨_, _, sized, _, _, _, _, _, placed, place, _, child, rfl⟩ := taken
  have behind := placeFlash_ok place
  rw [sound.partsize_eq] at behind
  refine ⟨by simp, sound.ordered.snoc behind, ?_⟩
  simp only [List.mem_append, List.mem_singleton]
  rintro part (old | rfl) name named
  · exact sound.found part old name named
  · exact checkChild_ok child name named

/-- **The partitions of an accepted flash image** follow each other, and their children exist. -/
theorem flashSetup_ok {config : FlashConfig} {image : FlashImage}
    (accepted : flashSetup imageGet config = .ok image) :
    FollowsEnd 0 image.partitions ∧ ∀ part ∈ image.partitions, ∀ name, part.image = some name →
      ∃ child, imageGet name = some child := by
  unfold flashSetup at accepted
  split at accepted
  next => cases accepted
  next flash =>
    simp only [do_eq_ok, failIf_ok, pure_eq_ok] at accepted
    obtain ⟨scan, loop, _, _, rfl⟩ := accepted
    have start : FlashScan.Sound imageGet {} := ⟨rfl, trivial, by simp⟩
    have sound : scan.Sound imageGet :=
      foldlM_invariant (fun _ scan => scan.Sound imageGet) start
        (fun _ _ _ _ _ _ sound taken => sound.step taken) loop
    exact ⟨sound.ordered, sound.found⟩

end Accepted

end Genimage
