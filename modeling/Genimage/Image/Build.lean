/-
**Disk images are up to date.**

The generate pass over a directory of output files. A disk image is generated by `hdimage_generate` on
its own file, out of the files and sizes that its children have at that moment; all other handlers and
commands are `tool`, which may do anything to the file of their image and to no other (`Workspace`).
`generateAll_upToDate` is the purpose of the passes: whatever the images refer to, and also when the
pass fails, the disk images that are done hold their children as they are now.
-/

import Genimage.Hdimage.Contents
import Genimage.Hdimage.HoleSafety
import Genimage.Image.Calls
import Genimage.Image.ExitCodes
import Genimage.Image.Verity
import Genimage.Library.UpToDate

namespace Genimage

open Library Library.Walk

/-! ### Parts of a workspace -/

/-- `map_file_extents` on a file system that answers with the extents of the file or with an error. -/
structure ExtentMapper where
  answer : File → UInt64 → Except Int (List Extent)
  promise : ∀ input size extents, answer input size = .ok extents →
    ExtentMap input size.toNat extents
  reported : ∀ input size, answer input size ≠ .error 0

/-- The output of an image, as `insert_image` gets it. -/
def ExtentMapper.output (mapper : ExtentMapper) (size : UInt64) (contents : Option File) :
    ChildOutput where
  size := size
  contents := contents
  mapped := mapper.answer (contents.getD .empty)

theorem ExtentMapper.output_mapped (mapper : ExtentMapper) (size : UInt64) (contents : Option File) :
    (mapper.output size contents).Mapped := by
  intro input given size extents mapped
  refine mapper.promise input size extents ?_
  rw [← mapped]
  show _ = mapper.answer (contents.getD .empty) size
  rw [show contents = some input from given]
  rfl

theorem ExtentMapper.output_reported (mapper : ExtentMapper) (size : UInt64)
    (contents : Option File) : (mapper.output size contents).Reported :=
  fun size => mapper.reported _ size

/-- **A disk image that `hdimage_setup` has accepted.** -/
structure DiskImage where
  env : Env
  config : HdimageConfig
  layout : Layout
  accepted : hdimageSetup env config = .ok layout
  holeless : env.Holeless
  noWrap : NoWrap env config
  filled : ∀ part ∈ layout.partitions, part.fill = true →
    part.imageoffset.toNat + part.size.toNat < 2 ^ 64

/-- The image of a partition is that of its section. -/
theorem DiskImage.exists_section (disk : DiskImage) {part : Partition}
    (member : part ∈ disk.layout.partitions) {name : String} (given : part.image = some name) :
    ∃ partsec ∈ disk.config.partitions, partsec.image = some name := by
  obtain ⟨size, entered, origin, entry⟩ := setup_entered disk.accepted member
  have image : part.image = entered.image := by
    rw [origin.kept]
    rfl
  rw [image] at given
  rcases entry with ⟨partsec, among, logical, rfl⟩ | ⟨_, first, rfl⟩ | area
  · exact ⟨partsec, among, given⟩
  · cases given
  · rw [image_of_mem_tableAreas area] at given
    cases given

/-- The output files, and `image->size` of the images. -/
structure Files (count : Nat) where
  file : String → Option File
  size : Fin count → UInt64

/-- **The images with everything their generation depends on.** -/
structure Workspace (images : List Image) where
  /-- `imageoutfile` -/
  outfile : Fin images.length → String
  apart : Function.Injective outfile
  disk : Fin images.length → Option DiskImage
  listed : ∀ image disk', disk image = some disk' → ∀ partsec ∈ disk'.config.partitions,
    partsec.image ∈ (images.get image).partitions
  os : Fin images.length → Os
  mapper : ExtentMapper
  /-- The other handlers and the commands. -/
  tool : Call (Fin images.length) → Files images.length → Int × Files images.length
  tool_file : ∀ event files path, path ≠ outfile event.image →
    (tool event files).2.file path = files.file path
  tool_size : ∀ event files image, image ≠ event.image →
    (tool event files).2.size image = files.size image

namespace Workspace

variable {images : List Image} (workspace : Workspace images)

/-- The output of the image that `image_get` finds. -/
def childOutput (files : Files images.length) (name : String) : ChildOutput :=
  match imageGet images name with
  | none => workspace.mapper.output 0 none
  | some child => workspace.mapper.output (files.size child) (files.file (workspace.outfile child))

/-- A handler that writes the file of its image. -/
def fileRun (image : Fin images.length) (run : Sys Unit) (files : Files images.length) :
    Int × Files images.length :=
  let file := workspace.outfile image
  match Effect.outcome run ⟨files.file file, 0, 0, 0⟩ with
  | (.ok _, world) => (0, { files with file := Function.update files.file file world.file })
  | (.error ret, world) => (ret, { files with file := Function.update files.file file world.file })

/-- `hdimage_generate` on the file of the image. -/
def generateDisk (image : Fin images.length) (layout : Layout) (files : Files images.length) :
    Int × Files images.length :=
  let file := workspace.outfile image
  match Effect.outcome (hdimageGenerate (workspace.os image) (workspace.childOutput files) layout)
    ⟨files.file file, 0, 0, 0⟩ with
  | (.ok _, world) => (0, { files with file := Function.update files.file file world.file })
  | (.error ret, world) => (ret, { files with file := Function.update files.file file world.file })

/-- What a call does to the files. -/
def perform (event : Call (Fin images.length)) (files : Files images.length) :
    Int × Files images.length :=
  match event with
  | .generate image =>
    match workspace.disk image with
    | some disk => workspace.generateDisk image disk.layout files
    | none => workspace.tool (.generate image) files
  | event => workspace.tool event files

/-- The files behind calls. -/
def filesAt (start : Files images.length) (log : List (Call (Fin images.length))) :
    Files images.length :=
  log.foldl (fun files event => (workspace.perform event files).2) start

/-- **The calls work on the files.** A failed image leaves a file that can be removed when there is one;
on a block device there is nothing to remove. -/
def outside (start : Files images.length) : Outside (Fin images.length) where
  reply log event := (workspace.perform event (workspace.filesAt start log)).1
  removable _ image := !(workspace.os image).blockDevice

/-! ### What the calls change -/

/-- Two states have the same output of an image. -/
def SameOutput (image : Fin images.length) (files next : Files images.length) : Prop :=
  next.file (workspace.outfile image) = files.file (workspace.outfile image) ∧
    next.size image = files.size image

variable {workspace} {files : Files images.length}

theorem fileRun_size (image : Fin images.length) (run : Sys Unit) :
    (workspace.fileRun image run files).2.size = files.size := by
  unfold fileRun
  simp only
  split <;> rfl

theorem fileRun_file {image : Fin images.length} (run : Sys Unit) {path : String}
    (other : path ≠ workspace.outfile image) :
    (workspace.fileRun image run files).2.file path = files.file path := by
  unfold fileRun
  simp only
  split <;> exact Function.update_of_ne other _ _

/-- `hdimage_generate` is one of these handlers. -/
theorem generateDisk_eq (image : Fin images.length) (layout : Layout) :
    workspace.generateDisk image layout files = workspace.fileRun image
      (hdimageGenerate (workspace.os image) (workspace.childOutput files) layout) files := rfl

/-- **A call changes the output of its image only.** -/
theorem perform_other (event : Call (Fin images.length)) {image : Fin images.length}
    (other : image ≠ event.image) :
    workspace.SameOutput image files (workspace.perform event files).2 := by
  have file : workspace.outfile image ≠ workspace.outfile event.image :=
    fun same => other (workspace.apart same)
  have tools : workspace.SameOutput image files (workspace.tool event files).2 :=
    ⟨workspace.tool_file event files _ file, workspace.tool_size event files image other⟩
  cases event with
  | generate target =>
    unfold perform
    simp only
    split
    next disk _ =>
      rw [generateDisk_eq]
      exact ⟨fileRun_file _ file, by rw [fileRun_size]⟩
    next => exact tools
  | setup | setenv | execPre | remove | execPost => exact tools

theorem filesAt_append (start : Files images.length) (log more : List (Call (Fin images.length))) :
    workspace.filesAt start (log ++ more) = workspace.filesAt (workspace.filesAt start log) more :=
  List.foldl_append

/-- Calls for other images leave an output alone; by induction on the calls. -/
theorem filesAt_other {image : Fin images.length} (calls : List (Call (Fin images.length)))
    (others : ∀ event ∈ calls, image ≠ event.image) (files : Files images.length) :
    workspace.SameOutput image files (workspace.filesAt files calls) := by
  induction calls generalizing files with
  | nil => exact ⟨rfl, rfl⟩
  | cons event rest ih =>
    rw [List.forall_mem_cons] at others
    have first : workspace.SameOutput image files (workspace.perform event files).2 :=
      perform_other event others.1
    have later : workspace.SameOutput image (workspace.perform event files).2 _ := ih others.2 _
    exact ⟨later.1.trans first.1, later.2.trans first.2⟩

/-- The output of a child is that of the image with its name. -/
theorem childOutput_congr {name : String} {next : Files images.length}
    (same : ∀ child, imageGet images name = some child → workspace.SameOutput child files next) :
    workspace.childOutput next name = workspace.childOutput files name := by
  unfold childOutput
  split
  next => rfl
  next child found => rw [(same child found).1, (same child found).2]

/-! ### Disk images -/

/-- **The disk image holds its children**, as they are in `files`. -/
def Holds (workspace : Workspace images) (image : Fin images.length) (disk : DiskImage)
    (files : Files images.length) : Prop :=
  ∀ part ∈ disk.layout.partitions, ∀ name, part.image = some name →
    HoldsChild (workspace.childOutput files name) part
      ((files.file (workspace.outfile image)).getD .empty)

/-- A partition with an image is one of the references that the passes follow. -/
theorem refers_of_partition {image : Fin images.length} {disk : DiskImage}
    (known : workspace.disk image = some disk) {part : Partition}
    (member : part ∈ disk.layout.partitions) {name : String} (given : part.image = some name)
    {child : Fin images.length} (found : imageGet images name = some child) :
    Refers (refs images) image child := by
  obtain ⟨partsec, among, same⟩ := disk.exists_section member given
  have listed := workspace.listed image disk known partsec among
  rw [same] at listed
  exact List.mem_filterMap.mpr ⟨some name, listed, by rw [Option.map_some, found]⟩

theorem childOutput_mapped (name : String) : (workspace.childOutput files name).Mapped := by
  unfold childOutput
  split <;> exact workspace.mapper.output_mapped _ _

theorem childOutput_reported (name : String) : (workspace.childOutput files name).Reported := by
  unfold childOutput
  split <;> exact workspace.mapper.output_reported _ _

/-- **A handler that returns `0`** has run to its end, unless it stops early with `0`. -/
theorem fileRun_returns {image : Fin images.length} {run : Sys Unit}
    (reports : ∀ world, Effect.Ends run world fun result _ => result ≠ .error 0)
    (zero : (workspace.fileRun image run files).1 = 0) :
    ∃ world, Effect.Returns run ⟨files.file (workspace.outfile image), 0, 0, 0⟩ () world ∧
      (workspace.fileRun image run files).2 = { files with
        file := Function.update files.file (workspace.outfile image) world.file } := by
  have exit := reports ⟨files.file (workspace.outfile image), 0, 0, 0⟩
  unfold Effect.Ends at exit
  unfold fileRun at zero ⊢
  simp only at zero ⊢
  split at zero
  next value world returned => exact ⟨world, returned, rfl⟩
  next ret world stopped =>
    rw [stopped] at exit
    exact absurd (congrArg Except.error (show ret = 0 from zero)) exit

theorem generateDisk_run {image : Fin images.length} {disk : DiskImage}
    (known : workspace.disk image = some disk)
    (zero : (workspace.perform (.generate image) files).1 = 0) :
    ∃ world, Effect.Returns (hdimageGenerate (workspace.os image) (workspace.childOutput files)
        disk.layout) ⟨files.file (workspace.outfile image), 0, 0, 0⟩ () world ∧
      (workspace.perform (.generate image) files).2 = { files with
        file := Function.update files.file (workspace.outfile image) world.file } := by
  have performed : workspace.perform (.generate image) files = workspace.fileRun image
      (hdimageGenerate (workspace.os image) (workspace.childOutput files) disk.layout) files := by
    simp only [perform, known, generateDisk_eq]
  rw [performed] at zero ⊢
  exact fileRun_returns (fun _ => hdimageGenerate_reports childOutput_reported _ False.elim) zero

/-- The outputs of the children of a disk image are not touched when it is generated. -/
theorem childOutput_generate {image : Fin images.length} {disk : DiskImage}
    (known : workspace.disk image = some disk) (alone : ¬ Refers (refs images) image image)
    {part : Partition} (member : part ∈ disk.layout.partitions) {name : String}
    (given : part.image = some name) :
    workspace.childOutput (workspace.perform (.generate image) files).2 name =
      workspace.childOutput files name := by
  refine childOutput_congr fun child found => perform_other _ fun same => alone ?_
  have refers : Refers (refs images) image child := refers_of_partition known member given found
  rwa [show child = image from same] at refers

/-- **A handler that returns `0` leaves an image that holds its children.** -/
theorem generateDisk_holds {image : Fin images.length} {disk : DiskImage}
    (known : workspace.disk image = some disk) (alone : ¬ Refers (refs images) image image)
    (zero : (workspace.perform (.generate image) files).1 = 0) :
    Holds workspace image disk (workspace.perform (.generate image) files).2 := by
  intro part member name given
  obtain ⟨world, run, left⟩ := generateDisk_run known zero
  rw [childOutput_generate known alone member given, left]
  simp only [Function.update_self]
  exact (child_left disk.holeless disk.noWrap disk.accepted childOutput_mapped disk.filled run member
    given).1

/-- A disk image holds its children behind calls, unless a command follows its handler. -/
def Fresh (workspace : Workspace images) (start : Files images.length) (image : Fin images.length)
    (log : List (Call (Fin images.length))) : Prop :=
  ∀ disk, workspace.disk image = some disk → (images.get image).execPost = false →
    Holds workspace image disk (workspace.filesAt start log)

/-- **The body of `image_generate` changes the output of its image only.** -/
theorem body_others {start : Files images.length} {image other : Fin images.length}
    {log : List (Call (Fin images.length))} (different : other ≠ image) :
    workspace.SameOutput other (workspace.filesAt start log) (workspace.filesAt start
      (generateBody images (workspace.outside start) image log).2) := by
  obtain ⟨⟨runs, same, own, _⟩, _⟩ : BodyCalls (workspace.outside start) image log _ :=
    generateBody_calls
  rw [same, filesAt_append]
  refine filesAt_other _ (fun event member equal => different ?_) _
  rcases List.mem_cons.mp member with rfl | later
  · exact equal
  · exact equal.trans (own event later).2

/-- **A body that succeeds**: its handler works on the outputs of the other images as they are at the
beginning, and the last command on what the handler has left. -/
theorem body_success {start : Files images.length} {image : Fin images.length}
    {log : List (Call (Fin images.length))}
    (zero : (generateBody images (workspace.outside start) image log).1 = 0) :
    ∃ files, (∀ other, other ≠ image →
        workspace.SameOutput other (workspace.filesAt start log) files) ∧
      (workspace.perform (.generate image) files).1 = 0 ∧
      (((images.get image).execPost = false ∧
        workspace.filesAt start (generateBody images (workspace.outside start) image log).2 =
          (workspace.perform (.generate image) files).2) ∨
      ((images.get image).execPost = true ∧
        (workspace.tool (.execPost image) (workspace.perform (.generate image) files).2).1 = 0 ∧
        workspace.filesAt start (generateBody images (workspace.outside start) image log).2 =
          (workspace.tool (.execPost image) (workspace.perform (.generate image) files).2).2)) := by
  obtain ⟨_, success⟩ : BodyCalls (workspace.outside start) image log _ := generateBody_calls
  obtain ⟨before, after, same, ⟨runs, rfl⟩, own, answer, last⟩ := success zero
  rw [List.drop_left] at own
  refine ⟨workspace.filesAt start (log ++ runs), fun other different => ?_, answer, ?_⟩
  · rw [filesAt_append]
    exact filesAt_other _ (fun event member equal => different (equal.trans (own event member))) _
  · have behind : workspace.filesAt start (log ++ runs ++ [.generate image]) =
        (workspace.perform (.generate image) (workspace.filesAt start (log ++ runs))).2 := by
      rw [filesAt_append]
      rfl
    rcases last with ⟨none, rfl⟩ | ⟨post, rfl, answered⟩
    · exact Or.inl ⟨none, by rw [same, behind]⟩
    · refine Or.inr ⟨post, by rw [← behind]; exact answered, ?_⟩
      rw [same, ← behind, ← List.singleton_append, ← List.append_assoc, filesAt_append]
      rfl

/-- **What a handler makes of the outputs that its image refers to**, and says about them and its own one
only. -/
structure Contract (workspace : Workspace images) (image : Fin images.length)
    (holds : Files images.length → Prop) : Prop where
  builds : ∀ files, ¬ Refers (refs images) image image →
    (workspace.perform (.generate image) files).1 = 0 →
    holds (workspace.perform (.generate image) files).2
  stays : ∀ files next, workspace.SameOutput image files next →
    (∀ child, Refers (refs images) image child → workspace.SameOutput child files next) →
    holds files → holds next

theorem diskContract (workspace : Workspace images) (image : Fin images.length) :
    Contract workspace image fun files =>
      ∀ disk, workspace.disk image = some disk → Holds workspace image disk files where
  builds _ alone zero _ known := generateDisk_holds known alone zero
  stays files next own children fresh disk known part member name given := by
    have child : workspace.childOutput next name = workspace.childOutput files name :=
      childOutput_congr fun child found =>
        children child (refers_of_partition known member given found)
    rw [child, own.1]
    exact fresh disk known part member name given

/-- **The body of `image_generate` builds the output of its image**, out of those that the image refers
to. -/
theorem contract_tasks {holds : Fin images.length → Files images.length → Prop}
    (contract : ∀ image, Contract workspace image (holds image)) (start : Files images.length) :
    Tasks (refs images) (generateBody images (workspace.outside start))
      (fun image log next => workspace.SameOutput image (workspace.filesAt start log)
        (workspace.filesAt start next))
      (fun image log => (images.get image).execPost = false →
        holds image (workspace.filesAt start log)) where
  others _ _ _ different := body_others different
  builds image log alone zero post := by
    obtain ⟨files, _, answer, last⟩ := body_success zero
    obtain ⟨_, same⟩ := last.resolve_right fun given => absurd given.1 (by rw [post]; decide)
    rw [same]
    exact (contract image).builds files alone answer
  stays image log next own children fresh post :=
    (contract image).stays _ _ own children (fresh post)

theorem tasks (workspace : Workspace images) (start : Files images.length) :
    Tasks (refs images) (generateBody images (workspace.outside start))
      (fun image log next => workspace.SameOutput image (workspace.filesAt start log)
        (workspace.filesAt start next)) (workspace.Fresh start) where
  others := (contract_tasks (diskContract workspace) start).others
  builds image log alone zero disk known post :=
    (contract_tasks (diskContract workspace) start).builds image log alone zero post disk known
  stays image log next own children fresh disk known post :=
    (contract_tasks (diskContract workspace) start).stays image log next own children
      (fun post disk known => fresh disk known post) post disk known

end Workspace

/-! ### An example -/

/-- `map_file_extents` on a file system without extent maps. -/
def wholeFiles : ExtentMapper where
  answer _ size := .ok (wholeFileExtent size)
  promise input size extents mapped := by
    rw [← Except.ok.inj mapped]
    refine ⟨List.pairwise_singleton _ _, ?_, ?_, ?_⟩
    · simp [wholeFileExtent]
    · simp [wholeFileExtent]
    · exact fun i below _ => ⟨_, List.mem_singleton_self _, Nat.zero_le _, below⟩
  reported _ _ := nofun

theorem eq_ok_get {ε α : Type} {result : Except ε α} (accepted : result.toOption.isSome = true) :
    result = .ok (result.toOption.get accepted) := by
  cases result with
  | ok value => rfl
  | error error => cases accepted

theorem rootAccepted : (hdimageSetup rootEnv (rootConfig false)).toOption.isSome = true := by
  decide +kernel

def rootDisk : DiskImage where
  env := rootEnv
  config := rootConfig false
  layout := (hdimageSetup rootEnv (rootConfig false)).toOption.get rootAccepted
  accepted := eq_ok_get rootAccepted
  holeless := rootEnv_holeless
  noWrap := by decide +kernel
  filled := by decide +kernel

/-- A disk image, and the image of its partition. -/
def rootImages : List Image := [
  { file := "disk.img", partitions := [some "root.img"] },
  { file := "root.img", hasSetup := false }]

/-- The handler of the second image writes three bytes. -/
def rootWorkspace : Workspace rootImages where
  outfile image := (rootImages.get image).file
  apart := by decide
  disk image := if image.val = 0 then some rootDisk else none
  listed := by
    intro image disk known partsec member
    split_ifs at known with first
    obtain rfl := Option.some.inj known
    obtain rfl : image = ⟨0, by decide⟩ := Fin.ext first
    rw [List.mem_singleton.mp (show partsec ∈ [_] from member)]
    exact List.mem_singleton_self _
  os _ := .calm
  mapper := wholeFiles
  tool
    | .generate image, files => (0, {
        file := Function.update files.file (rootImages.get image).file
          (some (.ofList [1, 2, 3]))
        size := Function.update files.size image 3 })
    | _, files => (0, files)
  tool_file event files path other := by
    cases event with
    | generate image => exact Function.update_of_ne other _ _
    | setup | setenv | execPre | remove | execPost => rfl
  tool_size event files image other := by
    cases event with
    | generate target => exact Function.update_of_ne other _ _
    | setup | setenv | execPre | remove | execPost => rfl

/-- No file is there. -/
def noFiles : Files rootImages.length := ⟨fun _ => none, fun _ => 0⟩

end Genimage
