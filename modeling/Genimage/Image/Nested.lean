/-
**Disk images within disk images.**

`Shows` follows the partitions from a byte of a disk image to the image that it comes from, which may be
a disk image itself. At the end of a run such bytes are equal (`runPasses_shows`), however deep they
are: the bytes were copied at the moments of a recursive walk, and no later step has touched any of the
files between.
-/

import Genimage.Image.Build

namespace Genimage

open Library Library.Walk

namespace Workspace

variable {images : List Image} (workspace : Workspace images)

/-- **Position `i` of an image is position `j` of an inner one**, by the layouts and the sizes. -/
inductive Shows (files : Files images.length) :
    Fin images.length → Nat → Fin images.length → Nat → Prop
  | here (image : Fin images.length) (i : Nat) : Shows files image i image i
  | inside {image child inner : Fin images.length} {disk : DiskImage} {part : Partition}
      {name : String} {i j : Nat} :
      workspace.disk image = some disk → (images.get image).execPost = false →
      part ∈ disk.layout.partitions → part.image = some name → imageGet images name = some child →
      i < copiedSize (workspace.childOutput files name) part →
      Shows files child (part.imageoffset.toNat + i) inner j →
      Shows files image (part.offset.toNat + i) inner j

variable {workspace} {files : Files images.length}

theorem Shows.trans {first second third : Fin images.length} {i j k : Nat}
    (outer : workspace.Shows files first i second j)
    (inner : workspace.Shows files second j third k) : workspace.Shows files first i third k := by
  induction outer with
  | here => exact inner
  | inside known post member given found copied _ ih =>
    exact .inside known post member given found copied (ih inner)

/-- The byte at a position of the output of an image. -/
def byteAt (workspace : Workspace images) (files : Files images.length)
    (image : Fin images.length) (i : Nat) : UInt8 :=
  ((files.file (workspace.outfile image)).getD .empty).byte i

/-- The bytes of a child are those of the image with its name. -/
theorem byte_childOutput {name : String} {child : Fin images.length}
    (found : imageGet images name = some child) (i : Nat) :
    ((workspace.childOutput files name).contents.getD .empty).byte i =
      workspace.byteAt files child i := by
  simp only [childOutput, found]
  rfl

/-- **What an image shows it has**, and what it is made of is done; by induction on the partitions that
are passed. -/
theorem Shows.bytes {start : Files images.length} {final : Marks images}
    (upToDate : UpToDate generatePass (refs images) (workspace.Fresh start) final)
    {outer inner : Fin images.length} {i j : Nat}
    (shows : workspace.Shows (workspace.filesAt start final.world) outer i inner j)
    (done : Done generatePass final outer) :
    Done generatePass final inner ∧
      workspace.byteAt (workspace.filesAt start final.world) outer i =
        workspace.byteAt (workspace.filesAt start final.world) inner j := by
  induction shows with
  | here => exact ⟨done, rfl⟩
  | @inside image child inner disk part name i j known post member given found copied _ ih =>
    obtain ⟨children, fresh⟩ := upToDate image done
    obtain ⟨finished, same⟩ := ih (children child (refers_of_partition known member given found))
    refine ⟨finished, Eq.trans ?_ same⟩
    rw [← byte_childOutput found]
    exact (fresh disk known post part member name given).bytes i copied

end Workspace

/-! ### An example -/

/-- The inner disk image as `image_get` finds it when the outer one is set up. -/
def outerEnv : Env :=
  { Env.bare with imageGet := fun image =>
      if image = "disk.img" then some ⟨"disk.img", "disk", 1536, []⟩ else none }

/-- One partition of four sectors with the inner disk image. -/
def outerConfig : HdimageConfig where
  partitions := [{ title := "disk", size := 2048, image := "disk.img" }]

theorem outerAccepted : (hdimageSetup outerEnv outerConfig).toOption.isSome = true := by
  decide +kernel

def outerDisk : DiskImage where
  env := outerEnv
  config := outerConfig
  layout := (hdimageSetup outerEnv outerConfig).toOption.get outerAccepted
  accepted := eq_ok_get outerAccepted
  holeless := by
    intro file child found
    simp only [outerEnv] at found
    split_ifs at found
    rw [← Option.some.inj found]
  noWrap := by decide +kernel
  filled := by decide +kernel

/-- A disk image in a disk image. -/
def nestedImages : List Image := [
  { file := "outer.img", partitions := [some "disk.img"] },
  { file := "disk.img", partitions := [some "root.img"] },
  { file := "root.img", hasSetup := false }]

/-- The disk images among them. -/
def nestedDisk (image : Fin nestedImages.length) : Option DiskImage :=
  if image.val = 0 then some outerDisk else if image.val = 1 then some rootDisk else none

/-- The setup functions set the sizes of the disk images, and the last image has three bytes. -/
def nestedWorkspace : Workspace nestedImages where
  outfile image := (nestedImages.get image).file
  apart := by decide
  disk := nestedDisk
  listed := by
    intro image disk known partsec member
    unfold nestedDisk at known
    split_ifs at known with first second
    · obtain rfl := Option.some.inj known
      obtain rfl : image = ⟨0, by decide⟩ := Fin.ext first
      rw [List.mem_singleton.mp (show partsec ∈ [_] from member)]
      exact List.mem_singleton_self _
    · obtain rfl := Option.some.inj known
      obtain rfl : image = ⟨1, by decide⟩ := Fin.ext second
      rw [List.mem_singleton.mp (show partsec ∈ [_] from member)]
      exact List.mem_singleton_self _
  os _ := .calm
  mapper := wholeFiles
  tool
    | .setup image, files => (0, { files with
        size := Function.update files.size image (((nestedDisk image).map (·.layout.size)).getD 0) })
    | .generate image, files => (0, {
        file := Function.update files.file (nestedImages.get image).file
          (some (.ofList [1, 2, 3]))
        size := Function.update files.size image 3 })
    | _, files => (0, files)
  tool_file event files path other := by
    cases event with
    | generate image => exact Function.update_of_ne other _ _
    | setup | setenv | execPre | remove | execPost => rfl
  tool_size event files image other := by
    cases event with
    | generate target | setup target => exact Function.update_of_ne other _ _
    | setenv | execPre | remove | execPost => rfl

/-- No file is there. -/
def emptyFiles : Files nestedImages.length := ⟨fun _ => none, fun _ => 0⟩

theorem outerDisk_length : 0 < outerDisk.layout.partitions.length := by decide +kernel

theorem rootDisk_length : 0 < rootDisk.layout.partitions.length := by decide +kernel

/-- The partition of the outer disk image. -/
def outerPart : Partition := outerDisk.layout.partitions.get ⟨0, outerDisk_length⟩

/-- The partition of the inner disk image. -/
def innerPart : Partition := rootDisk.layout.partitions.get ⟨0, rootDisk_length⟩

end Genimage
