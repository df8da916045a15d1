/-
**Flash images and sparse images are up to date.**

`flash_generate` and `android_sparse_generate` as generate handlers of images in a workspace. At the end
of a run a flash image that is done holds its children as they are then (`runPasses_flash`), and a sparse
image that is done decodes to what its child shows then (`runPasses_sparse`), which may be a disk image
with disk images in it.

Any call may fail or be cut short: an image is done only when its handler has returned `0`, and the files
behind such a run of the handler are known.
-/

import Genimage.Flash.Contents
import Genimage.Image.Nested
import Genimage.Sparse.Lossless

namespace Genimage

open Library Library.Walk Effect

/-! ### The file of a flash image -/

section Flash

variable {imageGet : String → Option FlashChild} {image : FlashImage}

/-- **The partition holds its child**, up to a position behind which the child has zeros only; there the
bytes are erased ones. -/
def HoldsErased (input : File) (part : Partition) (out : File) : Prop :=
  ∃ stop, ∀ i < part.size.toNat,
    (i < stop → out.byte (part.offset.toNat + i) = input.byte i) ∧
    (stop ≤ i → out.byte (part.offset.toNat + i) = erased ∧ input.byte i = 0)

/-- **A flash image holds its children**, and only erased bytes where there are none. -/
structure FlashHolds (imageGet : String → Option FlashChild) (image : FlashImage) (out : File) :
    Prop where
  length : image.size.toNat ≤ out.length
  inside : ∀ part ∈ image.partitions, part.span.stop ≤ out.length
  child : ∀ part ∈ image.partitions, ∀ child, part.image.bind imageGet = some child →
    ∃ input, child.output.contents = some input ∧ HoldsErased input part out
  rest : ∀ j < out.length, (∀ part ∈ image.partitions, part.span.start ≤ j → j < part.span.stop →
    part.image.bind imageGet = none) → out.byte j = erased

/-- **The file that `flash_generate` leaves** holds the children. -/
theorem FlashDone.holds {stop : Nat} {final : World} (done : FlashDone imageGet image stop final)
    (promise : ∀ name child, imageGet name = some child → child.output.Mapped) :
    FlashHolds imageGet image final.contents := by
  have length := done.inv.length
  refine ⟨by omega, fun part member => ?_, fun part member child found => ?_, fun j below none => ?_⟩
  · have := done.inv.below part member
    omega
  · obtain ⟨input, extents, contents, _, map, bytes⟩ := done.child_byte promise member found
    refine ⟨input, contents, copiedUpTo input.length extents 0, fun i inside => ?_⟩
    rw [bytes i inside]
    refine ⟨fun copied => if_pos copied, fun behind => ?_⟩
    exact ⟨if_neg (not_lt.mpr behind), map.zero_behind 0 behind inside⟩
  · by_cases among : ∃ part ∈ image.partitions, part.span.start ≤ j ∧ j < part.span.stop
    · obtain ⟨part, member, above, before⟩ := among
      have start : part.span.start = part.offset.toNat := rfl
      have stop : part.span.stop = part.offset.toNat + part.size.toNat := rfl
      have blank := none part member above before
      obtain ⟨i, rfl⟩ := Nat.exists_eq_add_of_le above
      exact done.blank_byte member blank (by omega)
    · push Not at among
      exact done.inv.rest j (by omega) fun part member inside =>
        absurd inside.2 (not_lt.mpr (among part member inside.1))

theorem FlashHolds.congr {imageGet' : String → Option FlashChild} {out : File}
    (same : ∀ part ∈ image.partitions, part.image.bind imageGet' = part.image.bind imageGet)
    (holds : FlashHolds imageGet image out) : FlashHolds imageGet' image out where
  length := holds.length
  inside := holds.inside
  child part member child found := holds.child part member child (by rw [← same part member, found])
  rest j below none := holds.rest j below fun part member above before => by
    rw [← same part member, none part member above before]

theorem takeRest_image {flashsize partsize : UInt64} {part sized : Partition}
    (taken : takeRest flashsize partsize part = .ok sized) : sized.image = part.image := by
  unfold takeRest at taken
  split_ifs at taken
  all_goals cases taken
  all_goals rfl

theorem placeFlash_image {partsize : UInt64} {part placed : Partition}
    (taken : placeFlash partsize part = .ok placed) : placed.image = part.image := by
  unfold placeFlash at taken
  split_ifs at taken
  all_goals cases taken
  all_goals rfl

theorem setupFlashPart_image {flash : FlashType} {scan next : FlashScan} {part : Partition}
    (taken : setupFlashPart imageGet flash scan part = .ok next) :
    ∃ placed, next.done = scan.done ++ [placed] ∧ placed.image = part.image := by
  simp only [setupFlashPart, do_eq_ok, failIf_ok, pure_eq_ok] at taken
  obtain ⟨_, _, sized, take, _, _, _, _, placed, place, _, _, rfl⟩ := taken
  exact ⟨placed, rfl, (placeFlash_image place).trans (takeRest_image take)⟩

/-- The image of a partition is that of its section; by induction on the loop. -/
theorem flashSetup_image {config : FlashConfig} (accepted : flashSetup imageGet config = .ok image) :
    ∀ part ∈ image.partitions, ∃ partsec ∈ config.partitions, part.image = partsec.image := by
  unfold flashSetup at accepted
  split at accepted
  next => cases accepted
  next flash =>
    simp only [do_eq_ok, failIf_ok, pure_eq_ok] at accepted
    obtain ⟨scan, loop, _, _, rfl⟩ := accepted
    have images : ∀ part ∈ scan.done, ∃ given ∈ parsePartitions config.partitions,
        part.image = given.image := by
      refine foldlM_invariant (fun passed scan => ∀ part ∈ scan.done, ∃ given ∈ passed,
        part.image = given.image) (by simp) (fun done item rest scan next _ inv taken => ?_) loop
      obtain ⟨placed, added, same⟩ := setupFlashPart_image taken
      intro part member
      rw [added] at member
      rcases List.mem_append.mp member with old | new
      · obtain ⟨given, among, equal⟩ := inv part old
        exact ⟨given, List.mem_append_left _ among, equal⟩
      · rw [List.mem_singleton.mp new]
        exact ⟨item, List.mem_append_right _ (List.mem_singleton_self _), same⟩
    intro part member
    obtain ⟨given, among, same⟩ := images part member
    obtain ⟨partsec, listed, rfl⟩ := List.mem_map.mp among
    exact ⟨partsec, listed, same⟩

end Flash

/-! ### The file of a sparse image -/

/-- **A sparse file of the input can be read**: its chunks can be counted, and its extents. -/
structure SparseFits (mapper : ExtentMapper) (options : SparseOptions) (input : File) : Prop where
  shape : BlockSize options.blockSize
  blocks : countBlocks options.blockSize.toNat input.length + (if options.addCrc then 1 else 0) < 2 ^ 32
  length : input.length + options.blockSize.toNat ≤ 2 ^ 63
  few : ∀ extents, mapper.answer input (UInt64.ofNat input.length) = .ok extents →
    extents.length ≤ 2 ^ 31 + 1

theorem SparseFits.covers {mapper : ExtentMapper} {options : SparseOptions} {input : File}
    (fits : SparseFits mapper options input) {extents : List Extent}
    (mapped : mapper.answer input (UInt64.ofNat input.length) = .ok extents) :
    Covers input extents := by
  have small : input.length < 2 ^ 64 := by
    have := fits.length
    omega
  have map := mapper.promise input _ extents mapped
  rw [UInt64.toNat_ofNat_of_lt' small] at map
  refine ⟨map.sorted, map.ordered, map.inside, fun i nonzero => map.data i ?_ nonzero⟩
  exact not_le.mp fun beyond => nonzero (input.beyond i beyond)

/-- **The file behind `android_sparse_generate`**, whichever calls fail. -/
theorem androidSparseGenerate_decodes {os : Os} {mapper : ExtentMapper} {options : SparseOptions}
    {input : File} {world final : World} (regular : os.blockDevice = false)
    (fits : SparseFits mapper options input)
    (run : Returns (androidSparseGenerate os options input
      (mapper.answer input (UInt64.ofNat input.length))) world () final) :
    decodeFile final.contents.toList = some (padded options.blockSize.toNat input) := by
  have blocks := fits.blocks
  have promise : Mapped options input (mapper.answer input (UInt64.ofNat input.length)) := by
    intro holes
    cases mapped : mapper.answer input (UInt64.ofNat input.length) with
    | ok extents => exact ⟨extents, rfl, fits.covers mapped, fits.few extents mapped⟩
    | error ret =>
      -- the handler stops with the error of the mapping
      have stops : Ensures True (androidSparseGenerate os options input (.error ret)) world
          fun _ _ => False := by
        have failed : Ensures True (inputExtents options (UInt64.ofNat input.length) (.error ret))
            world fun _ _ => False := by
          rw [inputExtents, holes]
          trivial
        exact failed.bind fun _ _ => False.elim
      rw [mapped] at run
      exact (stops.of_returns run).elim
  obtain ⟨body, file⟩ := (androidSparseGenerate_ensures regular fits.shape (by omega) fits.length
    promise (Or.inl trivial)).of_returns run
  have few : chunkCount options body < 2 ^ 32 :=
    (Nat.add_le_add_right file.stands.length_le _).trans_lt blocks
  exact file.decodes fits.shape (by omega) few

namespace Workspace

variable {images : List Image} {workspace : Workspace images} {image child : Fin images.length}
  {start files : Files images.length} {ret : Int} {final : Marks images}

/-- **What a handler makes of its children** is so at the end of a run, and the children are done. -/
theorem runPasses_kept {holds : Files images.length → Prop}
    (contract : Contract workspace image holds)
    (run : runPasses images (workspace.outside start) = some (ret, final))
    (done : Done generatePass final image) (post : (images.get image).execPost = false) :
    (∀ child, Refers (refs images) image child → Done generatePass final child) ∧
      holds (workspace.filesAt start final.world) := by
  -- nothing is said of the other images
  have contracts : ∀ other, Contract workspace other fun files => other = image → holds files := by
    intro other
    refine ⟨fun files alone zero same => ?_, fun files next own children known same => ?_⟩
    · subst same
      exact contract.builds files alone zero
    · subst same
      exact contract.stays files next own children (known rfl)
  obtain ⟨_, upToDate⟩ := runPasses_tasks (contract_tasks contracts start) run
  obtain ⟨children, fresh⟩ := upToDate image done
  exact ⟨children, fresh post rfl⟩

/-- The outputs of the children of an image are not touched when it is generated. -/
theorem perform_children (alone : ¬ Refers (refs images) image image) {inner : Fin images.length}
    (refers : Refers (refs images) image inner) :
    workspace.SameOutput inner files (workspace.perform (.generate image) files).2 := by
  refine perform_other _ fun same => alone ?_
  rwa [show inner = image from same] at refers

/-- The same workspace with another handler of one image. -/
def withHandler (workspace : Workspace images) (image : Fin images.length)
    (handler : Files images.length → Int × Files images.length)
    (file : ∀ files path, path ≠ workspace.outfile image →
      (handler files).2.file path = files.file path)
    (size : ∀ files, (handler files).2.size = files.size) : Workspace images :=
  { workspace with
    tool := fun event files =>
      match event with
      | .generate target => if target = image then handler files else workspace.tool event files
      | event => workspace.tool event files
    tool_file := by
      intro event files path other
      cases event with
      | generate target =>
        simp only
        split
        next same =>
          subst same
          exact file files path other
        next => exact workspace.tool_file _ files path other
      | setup | setenv | execPre | remove | execPost => exact workspace.tool_file _ files path other
    tool_size := by
      intro event files inner other
      cases event with
      | generate target =>
        simp only
        split
        next => rw [size]
        next => exact workspace.tool_size _ files inner other
      | setup | setenv | execPre | remove | execPost => exact workspace.tool_size _ files inner other }

theorem withHandler_perform {handler : Files images.length → Int × Files images.length}
    {file : ∀ files path, path ≠ workspace.outfile image →
      (handler files).2.file path = files.file path}
    {size : ∀ files, (handler files).2.size = files.size} (other : workspace.disk image = none)
    (files : Files images.length) :
    (workspace.withHandler image handler file size).perform (.generate image) files =
      handler files := by
  simp only [perform, withHandler, other, if_true]

/-! ### Flash images -/

/-- The children of a flash image: what setup knows of them, and their outputs. -/
def flashChildren (workspace : Workspace images) (known : Fin images.length → Child)
    (files : Files images.length) (name : String) : Option FlashChild :=
  (imageGet images name).map fun found => ⟨known found, workspace.childOutput files name⟩

theorem flashChildren_mapped {known : Fin images.length → Child} (name : String) (child : FlashChild)
    (found : workspace.flashChildren known files name = some child) : child.output.Mapped := by
  obtain ⟨_, _, rfl⟩ := Option.map_eq_some_iff.mp found
  exact childOutput_mapped name

theorem flashChildren_reported {known : Fin images.length → Child} (name : String)
    (child : FlashChild) (found : child ∈ workspace.flashChildren known files name) :
    child.output.Reported := by
  obtain ⟨_, _, rfl⟩ := Option.map_eq_some_iff.mp found
  exact childOutput_reported name

/-- **A flash image that `flash_setup` has accepted**, with its children as they were `before`. -/
structure AcceptedFlash (workspace : Workspace images) (image : Fin images.length) where
  config : FlashConfig
  known : Fin images.length → Child
  before : Files images.length
  layout : FlashImage
  accepted : flashSetup (workspace.flashChildren known before) config = .ok layout
  listed : ∀ partsec ∈ config.partitions, partsec.image ∈ (images.get image).partitions
  nonzero : layout.size ≠ 0
  regular : (workspace.os image).blockDevice = false

/-- The handler of the image is `flash_generate`. -/
def GeneratesFlash (flash : AcceptedFlash workspace image) : Prop :=
  ∀ files, workspace.perform (.generate image) files = workspace.fileRun image
    (flashGenerate (workspace.os image) (workspace.flashChildren flash.known files) flash.layout) files

/-- **The flash image holds its children**, as they are in `files`. -/
def HoldsFlash (flash : AcceptedFlash workspace image) (files : Files images.length) : Prop :=
  FlashHolds (workspace.flashChildren flash.known files) flash.layout
    ((files.file (workspace.outfile image)).getD .empty)

theorem flashChildren_congr (flash : AcceptedFlash workspace image) {next : Files images.length}
    (same : ∀ child, Refers (refs images) image child → workspace.SameOutput child files next) :
    ∀ part ∈ flash.layout.partitions, part.image.bind (workspace.flashChildren flash.known next) =
      part.image.bind (workspace.flashChildren flash.known files) := by
  intro part member
  cases given : part.image with
  | none => rfl
  | some name =>
    obtain ⟨partsec, among, equal⟩ := flashSetup_image flash.accepted part member
    have listed := flash.listed partsec among
    rw [← equal, given] at listed
    have output : workspace.childOutput next name = workspace.childOutput files name := by
      refine childOutput_congr fun found known => same found ?_
      exact List.mem_filterMap.mpr ⟨some name, listed, by rw [Option.map_some, known]⟩
    simp only [Option.bind_some, flashChildren, output]

theorem flashContract {flash : AcceptedFlash workspace image}
    (generates : GeneratesFlash flash) : Contract workspace image (HoldsFlash flash) where
  builds files alone zero := by
    refine FlashHolds.congr (flashChildren_congr flash fun _ => perform_children alone) ?_
    rw [generates files] at zero ⊢
    obtain ⟨world, run, left⟩ := fileRun_returns
      (fun _ => flashGenerate_reports flashChildren_reported _ _ False.elim) zero
    obtain ⟨stop, finished⟩ := (flashGenerate_ensures flash.regular flashChildren_mapped
      (flashSetup_ok flash.accepted).1 (Or.inr flash.nonzero)).of_returns run
    rw [left]
    simp only [Function.update_self]
    exact finished.holds flashChildren_mapped
  stays files next own children holds := by
    rw [HoldsFlash, own.1]
    exact FlashHolds.congr (flashChildren_congr flash children) holds

end Workspace

/-- Images that are no disk images have three bytes. -/
def threeBytes (images : List Image)
    (apart : Function.Injective fun image : Fin images.length => (images.get image).file)
    (disk : Fin images.length → Option DiskImage)
    (listed : ∀ image disk', disk image = some disk' → ∀ partsec ∈ disk'.config.partitions,
      partsec.image ∈ (images.get image).partitions) : Workspace images where
  outfile image := (images.get image).file
  apart := apart
  disk := disk
  listed := listed
  os _ := .calm
  mapper := wholeFiles
  tool
    | .generate image, files => (0, {
        file := Function.update files.file (images.get image).file (some (.ofList [1, 2, 3]))
        size := Function.update files.size image 3 })
    | _, files => (0, files)
  tool_file event files path other := by
    cases event with
    | generate image => exact Function.update_of_ne other _ _
    | setup | setenv | execPre | remove | execPost => rfl
  tool_size event files image other := by
    cases event with
    | generate target => exact Function.update_of_ne other _ _
    | setup | setenv | execPre | remove | execPost => rfl

/-- A flash image, and the images of its partitions. -/
def flashImages : List Image := [
  { file := "flash.img", partitions := [some "barebox.bin", some "root.jffs2"] },
  { file := "barebox.bin", hasSetup := false },
  { file := "root.jffs2", hasSetup := false }]

/-- Before a handler is `flash_generate`. -/
def flashFiles : Workspace flashImages := threeBytes flashImages (by decide) (fun _ => none)
  fun _ _ known => by cases known

/-- No file is there. -/
def noFlashFiles : Files flashImages.length := ⟨fun _ => none, fun _ => 0⟩

/-- The children as setup knows them. -/
def flashKnown (image : Fin flashImages.length) : Child :=
  ⟨(flashImages.get image).file, (flashImages.get image).file, 0, []⟩

theorem flashAccepted :
    (flashSetup (flashFiles.flashChildren flashKnown noFlashFiles) flashConfig).toOption.isSome =
      true := by
  decide +kernel

/-- What `flash_setup` has made of the configuration. -/
def flashLayoutOf : FlashImage :=
  (flashSetup (flashFiles.flashChildren flashKnown noFlashFiles) flashConfig).toOption.get flashAccepted

/-- The first handler is `flash_generate`. -/
def flashWorkspace : Workspace flashImages :=
  flashFiles.withHandler ⟨0, by decide⟩ (fun files => flashFiles.fileRun ⟨0, by decide⟩
    (flashGenerate .calm (flashFiles.flashChildren flashKnown files) flashLayoutOf) files)
    (fun _ _ => Workspace.fileRun_file _) fun _ => Workspace.fileRun_size _ _

def flashDisk : Workspace.AcceptedFlash flashWorkspace ⟨0, by decide⟩ where
  config := flashConfig
  known := flashKnown
  before := noFlashFiles
  layout := flashLayoutOf
  accepted := eq_ok_get flashAccepted
  listed := by decide
  nonzero := by decide +kernel
  regular := rfl

namespace Workspace

variable {images : List Image} {workspace : Workspace images} {image child : Fin images.length}
  {start files : Files images.length} {ret : Int} {final : Marks images}

/-- `android_sparse_generate` on the files of an image and its child. -/
def generateSparse (workspace : Workspace images) (image child : Fin images.length)
    (options : SparseOptions) (files : Files images.length) : Int × Files images.length :=
  match files.file (workspace.outfile child) with
  | none => (-Errno.noent.1, files)
  | some input => workspace.fileRun image (androidSparseGenerate (workspace.os image) options input
      (workspace.mapper.answer input (UInt64.ofNat input.length))) files

theorem generateSparse_file {options : SparseOptions} {path : String}
    (other : path ≠ workspace.outfile image) :
    (workspace.generateSparse image child options files).2.file path = files.file path := by
  unfold generateSparse
  split
  next => rfl
  next => exact fileRun_file _ other

theorem generateSparse_size {options : SparseOptions} :
    (workspace.generateSparse image child options files).2.size = files.size := by
  unfold generateSparse
  split
  next => rfl
  next => exact fileRun_size _ _

/-- The handler of the image is `android_sparse_generate`, for the child in its first partition. -/
structure GeneratesSparse (workspace : Workspace images) (image child : Fin images.length)
    (options : SparseOptions) : Prop where
  first : ∃ name, (images.get image).partitions.head? = some (some name) ∧
    imageGet images name = some child
  regular : (workspace.os image).blockDevice = false
  runs : ∀ files, workspace.perform (.generate image) files =
    workspace.generateSparse image child options files

theorem GeneratesSparse.refers {options : SparseOptions}
    (generates : GeneratesSparse workspace image child options) : Refers (refs images) image child := by
  obtain ⟨name, first, found⟩ := generates.first
  exact List.mem_filterMap.mpr ⟨some name, List.mem_of_mem_head? first, by rw [Option.map_some, found]⟩

/-- **The sparse image decodes to its child**, as it is in `files`. -/
def HoldsSparse (workspace : Workspace images) (image child : Fin images.length)
    (options : SparseOptions) (files : Files images.length) : Prop :=
  ∃ input, files.file (workspace.outfile child) = some input ∧
    (SparseFits workspace.mapper options input →
      decodeFile ((files.file (workspace.outfile image)).getD .empty).toList =
        some (padded options.blockSize.toNat input))

theorem sparseContract {options : SparseOptions}
    (generates : GeneratesSparse workspace image child options) :
    Contract workspace image (HoldsSparse workspace image child options) where
  builds files alone zero := by
    have same : workspace.SameOutput child files (workspace.perform (.generate image) files).2 :=
      perform_children alone generates.refers
    rw [HoldsSparse, same.1]
    rw [generates.runs files] at zero ⊢
    unfold generateSparse at zero ⊢
    split at zero
    next =>
      have failed : -(Errno.noent.1 : Int) ≠ 0 := by decide
      exact absurd zero failed
    next input found =>
      refine ⟨input, found, fun fits => ?_⟩
      obtain ⟨world, run, left⟩ := fileRun_returns
        (fun _ => androidSparseGenerate_reports (workspace.mapper.reported input _) _ _ _ False.elim) zero
      rw [left]
      simp only [Function.update_self]
      exact androidSparseGenerate_decodes generates.regular fits run
  stays files next own children holds := by
    rw [HoldsSparse, own.1, (children child generates.refers).1]
    exact holds

end Workspace

/-- A sparse image of a disk image, and the image in that. -/
def sparseImages : List Image := [
  { file := "disk.simg", partitions := [some "disk.img"], hasSetup := false },
  { file := "disk.img", partitions := [some "root.img"] },
  { file := "root.img", hasSetup := false }]

/-- The disk image among them. -/
def sparseDisk (image : Fin sparseImages.length) : Option DiskImage :=
  if image.val = 1 then some rootDisk else none

/-- Before a handler is `android_sparse_generate`. -/
def sparseFiles : Workspace sparseImages :=
  threeBytes sparseImages (by decide) sparseDisk (by
    intro image disk known partsec member
    unfold sparseDisk at known
    split_ifs at known with second
    obtain rfl := Option.some.inj known
    obtain rfl : image = ⟨1, by decide⟩ := Fin.ext second
    rw [List.mem_singleton.mp (show partsec ∈ [_] from member)]
    exact List.mem_singleton_self _)

/-- No file is there. -/
def noSparseFiles : Files sparseImages.length := ⟨fun _ => none, fun _ => 0⟩

/-- Blocks of a sector, and a checksum. -/
def sectorBlocks : SparseOptions := ⟨512, true, true⟩

/-- The first handler is `android_sparse_generate`. -/
def sparseWorkspace : Workspace sparseImages :=
  sparseFiles.withHandler ⟨0, by decide⟩
    (sparseFiles.generateSparse ⟨0, by decide⟩ ⟨1, by decide⟩ sectorBlocks)
    (fun _ _ other => Workspace.generateSparse_file other) fun _ => Workspace.generateSparse_size

theorem sparseWorkspace_generates :
    Workspace.GeneratesSparse sparseWorkspace ⟨0, by decide⟩ ⟨1, by decide⟩ sectorBlocks where
  first := ⟨"disk.img", rfl, by decide⟩
  regular := rfl
  runs files := Workspace.withHandler_perform rfl files

end Genimage
