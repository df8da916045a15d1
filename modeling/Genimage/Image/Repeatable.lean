/-
**Builds are reproducible.**

Two runs over the same images, with different output directories and on different systems. The disk
images are those of `hdimage_generate`; of the other handlers and the commands it is asked that what
they make is a function of the outputs that the image refers to (`Follows`). When both runs succeed,
every output file has the same bytes in both (`runPasses_reproducible`), whatever was in the directories
before and wherever the file systems put the extents.

What holds of all images at the end of a run says what each of them is made of (`Built`), so that equal
children make equal parents; the graph has no cycle when a run has succeeded.
-/

import Genimage.Hdimage.Reproducible
import Genimage.Image.Nested

namespace Genimage

open Library Library.Walk

/-- The bytes of an output file, and `image->size`. -/
abbrev Output := File × UInt64

/-- **What the handlers and commands make**: `make` of the outputs that the image refers to, and `finish`
of the file that the handler has left. -/
structure Recipe (images : List Image) where
  make : Fin images.length → (Fin images.length → Output) → Output
  finish : Fin images.length → (Fin images.length → Output) → File → File
  reads : ∀ image outputs outputs',
    (∀ child, Refers (refs images) image child → outputs child = outputs' child) →
    make image outputs = make image outputs' ∧ finish image outputs = finish image outputs'

namespace Workspace

variable {images : List Image}

/-- The output of an image. -/
def output (workspace : Workspace images) (files : Files images.length)
    (image : Fin images.length) : Output :=
  ((files.file (workspace.outfile image)).getD .empty, files.size image)

/-- **The calls of a workspace follow a recipe.** The systems make no short transfers; the setup function
of a disk image leaves the size that `hdimage_setup` has computed, and no command changes a size. -/
structure Follows (workspace : Workspace images) (recipe : Recipe images) : Prop where
  regular : ∀ image, (workspace.os image).blockDevice = false
  whole : ∀ image, (workspace.os image).Whole
  setup : ∀ image disk, workspace.disk image = some disk → (images.get image).hasSetup = true ∧
    ∀ files, (workspace.tool (.setup image) files).2.size image = disk.layout.size
  made : ∀ image files, workspace.disk image = none →
    (workspace.tool (.generate image) files).1 = 0 →
    workspace.output (workspace.tool (.generate image) files).2 image =
      recipe.make image (workspace.output files)
  finished : ∀ image files, (workspace.tool (.execPost image) files).1 = 0 →
    (workspace.output (workspace.tool (.execPost image) files).2 image).1 =
      recipe.finish image (workspace.output files) (workspace.output files image).1
  sizes : ∀ event files, event ≠ .setup event.image → event ≠ .generate event.image →
    (workspace.tool event files).2.size = files.size

/-- The file of an image with an `exec-post` command, when the handler has left `file`. -/
def finishFile (recipe : Recipe images) (image : Fin images.length)
    (outputs : Fin images.length → Output) (file : File) : File :=
  if (images.get image).execPost then recipe.finish image outputs file else file

/-- **What an image is made of**, behind calls. -/
structure Built (workspace : Workspace images) (recipe : Recipe images) (start : Files images.length)
    (image : Fin images.length) (log : List (Call (Fin images.length))) : Prop where
  disk : ∀ disk, workspace.disk image = some disk →
    (workspace.output (workspace.filesAt start log) image).1 =
      finishFile recipe image (workspace.output (workspace.filesAt start log))
        (imageOf (workspace.childOutput (workspace.filesAt start log)) disk.layout)
  tool : workspace.disk image = none →
    workspace.output (workspace.filesAt start log) image =
      (finishFile recipe image (workspace.output (workspace.filesAt start log))
          (recipe.make image (workspace.output (workspace.filesAt start log))).1,
        (recipe.make image (workspace.output (workspace.filesAt start log))).2)

variable {workspace : Workspace images} {recipe : Recipe images} {files next : Files images.length}

theorem SameOutput.output {image : Fin images.length}
    (same : workspace.SameOutput image files next) :
    workspace.output next image = workspace.output files image := by
  rw [Workspace.output, same.1, same.2, Workspace.output]

theorem finishFile_congr {image : Fin images.length} {outputs outputs' : Fin images.length → Output}
    (same : ∀ child, Refers (refs images) image child → outputs child = outputs' child) :
    finishFile recipe image outputs = finishFile recipe image outputs' := by
  funext file
  rw [finishFile, (recipe.reads image outputs outputs' same).2, finishFile]

/-! ### The handlers -/

/-- The children of a disk image are those of the partitions. -/
theorem imageOf_same {image : Fin images.length} {disk : DiskImage}
    (known : workspace.disk image = some disk)
    (children : ∀ child, Refers (refs images) image child → workspace.SameOutput child files next) :
    imageOf (workspace.childOutput next) disk.layout =
      imageOf (workspace.childOutput files) disk.layout := by
  refine imageOf_congr fun part member name given => ?_
  have same : workspace.childOutput next name = workspace.childOutput files name :=
    childOutput_congr fun child found => children child (refers_of_partition known member given found)
  rw [same]
  exact ⟨rfl, rfl⟩

/-- **What the handler of a disk image leaves.** -/
theorem perform_disk (follows : workspace.Follows recipe) {image : Fin images.length}
    {disk : DiskImage} (known : workspace.disk image = some disk)
    (zero : (workspace.perform (.generate image) files).1 = 0) :
    (workspace.output (workspace.perform (.generate image) files).2 image).1 =
      imageOf (workspace.childOutput files) disk.layout := by
  obtain ⟨world, run, left⟩ := generateDisk_run known zero
  rw [left]
  show ((Function.update files.file (workspace.outfile image) world.file)
    (workspace.outfile image)).getD .empty = _
  rw [Function.update_self]
  exact hdimageGenerate_image disk.noWrap disk.accepted (follows.regular image) (follows.whole image)
    childOutput_mapped disk.filled run

theorem perform_tool (follows : workspace.Follows recipe) {image : Fin images.length}
    (known : workspace.disk image = none)
    (zero : (workspace.perform (.generate image) files).1 = 0) :
    workspace.output (workspace.perform (.generate image) files).2 image =
      recipe.make image (workspace.output files) := by
  have performed : workspace.perform (.generate image) files =
      workspace.tool (.generate image) files := by
    simp only [perform, known]
  rw [performed] at zero ⊢
  exact follows.made image files known zero

/-- **What a body that succeeds leaves**: the contents are finished by the last command, which does not
change the size. -/
theorem body_output (follows : workspace.Follows recipe) {start : Files images.length}
    {image : Fin images.length} {log : List (Call (Fin images.length))}
    (alone : ¬ Refers (refs images) image image)
    (zero : (generateBody images (workspace.outside start) image log).1 = 0) :
    ∃ files, (∀ child, Refers (refs images) image child → workspace.SameOutput child files
        (workspace.filesAt start (generateBody images (workspace.outside start) image log).2)) ∧
      (workspace.perform (.generate image) files).1 = 0 ∧
      workspace.output (workspace.filesAt start
          (generateBody images (workspace.outside start) image log).2) image =
        (finishFile recipe image (workspace.output files)
          (workspace.output (workspace.perform (.generate image) files).2 image).1,
          (workspace.output (workspace.perform (.generate image) files).2 image).2) := by
  obtain ⟨files, others, answer, last⟩ := body_success zero
  have apart : ∀ child, Refers (refs images) image child → child ≠ image :=
    fun child refers same => alone (same ▸ refers)
  refine ⟨files, fun child refers => ?_, answer, ?_⟩
  · have before := others child (apart child refers)
    have whole : workspace.SameOutput child (workspace.filesAt start log) (workspace.filesAt start
        (generateBody images (workspace.outside start) image log).2) := body_others (apart child refers)
    exact ⟨whole.1.trans before.1.symm, whole.2.trans before.2.symm⟩
  · rcases last with ⟨none, same⟩ | ⟨post, answered, same⟩
    · rw [same, finishFile, if_neg (by rw [none]; decide)]
    · have handled : ∀ child, Refers (refs images) image child →
          workspace.output (workspace.perform (.generate image) files).2 child =
            workspace.output files child :=
        fun child refers => (perform_other (.generate image) (apart child refers)).output
      rw [same, finishFile, if_pos post]
      refine Prod.ext ?_ ?_
      · rw [follows.finished image _ answered, (recipe.reads image _ _ handled).2]
      · exact congrFun (follows.sizes (.execPost image) _ (by simp [Call.image]) (by simp [Call.image]))
          image

/-- **Bodies that succeed build.** -/
theorem built_tasks (follows : workspace.Follows recipe) (start : Files images.length) :
    Tasks (refs images) (generateBody images (workspace.outside start))
      (fun image log next => workspace.SameOutput image (workspace.filesAt start log)
        (workspace.filesAt start next)) (workspace.Built recipe start) where
  others _ _ _ different := body_others different
  builds image log alone zero := by
    obtain ⟨files, children, answer, same⟩ := body_output follows alone zero
    have outputs : ∀ child, Refers (refs images) image child → workspace.output files child =
        workspace.output (workspace.filesAt start
          (generateBody images (workspace.outside start) image log).2) child :=
      fun child refers => (children child refers).output.symm
    refine ⟨fun disk known => ?_, fun known => ?_⟩
    · rw [same, perform_disk follows known answer, imageOf_same known children,
        finishFile_congr outputs]
    · rw [same, perform_tool follows known answer, finishFile_congr outputs,
        (recipe.reads image _ _ outputs).1]
  stays image log next own children built := by
    have outputs : ∀ child, Refers (refs images) image child →
        workspace.output (workspace.filesAt start log) child =
          workspace.output (workspace.filesAt start next) child :=
      fun child refers => (children child refers).output.symm
    have mine : workspace.output (workspace.filesAt start next) image =
        workspace.output (workspace.filesAt start log) image := SameOutput.output own
    refine ⟨fun disk known => ?_, fun known => ?_⟩
    · rw [mine, built.disk disk known, imageOf_same known children, finishFile_congr outputs]
    · rw [mine, built.tool known, finishFile_congr outputs, (recipe.reads image _ _ outputs).1]

/-! ### Sizes of disk images -/

/-- A call keeps the size of a disk image that has been set up. -/
theorem perform_size (follows : workspace.Follows recipe) {image : Fin images.length}
    {disk : DiskImage} (known : workspace.disk image = some disk)
    (event : Call (Fin images.length)) :
    (event = .setup image → (workspace.perform event files).2.size image = disk.layout.size) ∧
      (event ≠ .setup image → (workspace.perform event files).2.size image = files.size image) := by
  refine ⟨fun same => ?_, fun different => ?_⟩
  · rw [same]
    exact (follows.setup image disk known).2 files
  · by_cases own : image = event.image
    · cases event with
      | setup target => exact absurd (congrArg Call.setup own.symm) different
      | generate target =>
        obtain rfl : image = target := own
        have performed : workspace.perform (.generate image) files =
            workspace.generateDisk image disk.layout files := by
          simp only [perform, known]
        rw [performed, generateDisk_eq, fileRun_size]
      | setenv | execPre | remove | execPost =>
        exact congrFun (follows.sizes _ files (by simp) (by simp)) image
    · exact (perform_other event own).2

/-- The size of a disk image behind calls; by induction on the calls. -/
theorem filesAt_size (follows : workspace.Follows recipe) {image : Fin images.length}
    {disk : DiskImage} (known : workspace.disk image = some disk)
    (log : List (Call (Fin images.length))) (files : Files images.length)
    (set : .setup image ∈ log ∨ files.size image = disk.layout.size) :
    (workspace.filesAt files log).size image = disk.layout.size := by
  induction log generalizing files with
  | nil => exact set.resolve_left List.not_mem_nil
  | cons event rest ih =>
    refine ih _ ?_
    by_cases same : event = .setup image
    · exact Or.inr ((perform_size follows known event).1 same)
    · rcases set with member | before
      · exact Or.inl ((List.mem_cons.mp member).resolve_left (Ne.symm same))
      · exact Or.inr (((perform_size follows known event).2 same).trans before)

/-! ### Two runs -/

/-- **A run that succeeds has set up the disk images.** -/
theorem runPasses_size (follows : workspace.Follows recipe) {start : Files images.length}
    {final : Marks images} (run : runPasses images (workspace.outside start) = some (0, final))
    {image : Fin images.length} {disk : DiskImage} (known : workspace.disk image = some disk) :
    (workspace.output (workspace.filesAt start final.world) image).2 = disk.layout.size :=
  filesAt_size follows known final.world start
    (Or.inl (runPasses_setup run (follows.setup image disk known).1))

/-- The children of a disk image in two workspaces. -/
theorem imageOf_agree {workspace workspace' : Workspace images} {image : Fin images.length}
    {disk : DiskImage} (known : workspace.disk image = some disk) {files files' : Files images.length}
    (children : ∀ child, Refers (refs images) image child →
      workspace.output files child = workspace'.output files' child) :
    imageOf (workspace.childOutput files) disk.layout =
      imageOf (workspace'.childOutput files') disk.layout := by
  refine imageOf_congr fun part member name given => ?_
  unfold childOutput
  split
  next => exact ⟨rfl, rfl⟩
  next child found =>
    obtain ⟨bytes, size⟩ :=
      Prod.mk.inj (children child (refers_of_partition known member given found))
    exact ⟨size, congrArg File.byte bytes⟩

end Workspace

/-! ### An example -/

/-- The last image has three bytes. -/
def nestedRecipe : Recipe nestedImages where
  make _ _ := (.ofList [1, 2, 3], 3)
  finish _ _ file := file
  reads _ _ _ _ := ⟨rfl, rfl⟩

theorem nestedWorkspace_follows : nestedWorkspace.Follows nestedRecipe where
  regular _ := rfl
  whole _ := Os.calm_reliable.whole
  setup image disk known := by
    refine ⟨?_, fun files => ?_⟩
    · change nestedDisk image = some disk at known
      unfold nestedDisk at known
      split_ifs at known with first second
      · rw [show image = ⟨0, by decide⟩ from Fin.ext first]
        rfl
      · rw [show image = ⟨1, by decide⟩ from Fin.ext second]
        rfl
    · show Function.update files.size image (((nestedDisk image).map (·.layout.size)).getD 0) image = _
      rw [Function.update_self, show nestedDisk image = some disk from known]
      rfl
  made image files _ _ := by
    show ((Function.update files.file (nestedImages.get image).file (some (.ofList [1, 2, 3]))
      (nestedImages.get image).file).getD .empty, Function.update files.size image 3 image) = _
    rw [Function.update_self, Function.update_self]
    rfl
  finished _ _ _ := rfl
  sizes event files setup generate := by
    cases event with
    | setup image => exact absurd rfl setup
    | generate image => exact absurd rfl generate
    | setenv | execPre | remove | execPost => rfl

/-- A directory with old files. -/
def oldFiles : Files nestedImages.length := ⟨fun _ => some (.ofList [7, 7, 7, 7]), fun _ => 0⟩

end Genimage
