/-
**A disk image does not depend on where it is made.**

Between its first call and its last one `hdimage_generate` looks at what the system answers, at the
extents of the children and at the file that is there already. None of this is left in the result:
`Leaves` says of a step that what it leaves is a function of the contents in front of it, and
`hdimageGenerate_reproducible` that two runs for one layout and children with the same bytes end with
the same bytes. A call may fail in one run and be repeated in the other, a hole may be punched or
filled, a child may be sparse or not.

A transfer that is cut short may end a run of `insert_data` early, so there are none here.
-/

import Genimage.Hdimage.Contents

namespace Genimage

open Library Effect

/-- **What `x` leaves is a function of what it found**, if it returns. -/
def Leaves {α : Type} (f : File → File) (x : Sys α) : Prop :=
  ∀ world, Ensures True x world fun _ next => next.contents = f world.contents

section Steps

variable {os : Os} {α β : Type} {f g : File → File} {layout : Layout} {hd : Hdimage} {size : UInt64}
  {outputs : String → ChildOutput} {partitions rest : List Partition}

theorem leaves_pure (value : α) : Leaves id (pure value : Sys α) := by
  intro world
  rw [ensures_pure]
  rfl

theorem Leaves.bind {x : Sys α} {y : α → Sys β} (first : Leaves f x) (second : ∀ value, Leaves g (y value)) :
    Leaves (g ∘ f) (x >>= y) := by
  intro world
  refine (first world).bind fun value middle same => (second value middle).mono fun _ next same' => ?_
  rw [same', same]
  rfl

theorem extendFile_leaves (size : UInt64) :
    Leaves (·.truncate size.toNat) (extendFile os size) := by
  intro world
  exact (extendFile_ensures rfl (Or.inl trivial)).mono fun _ next ⟨_, holds⟩ => holds.contents

/-! ### The partitions -/

theorem insertEbr_leaves (whole : os.Whole) (part : Partition) :
    Leaves (·.writes (ebrWrites layout part rest)) (insertEbr os layout part rest) := by
  intro world
  exact (insertEbr_ensures whole rfl (Or.inl trivial)).mono fun _ next both => both.1

/-- **The loop makes all its writes**; by induction on the list. -/
theorem generateParts_leaves (whole : os.Whole) (fits : ∀ part ∈ rest, part.Fits)
    (promise : ∀ image, (outputs image).Mapped)
    (filled : ∀ part ∈ rest, part.fill = true → part.imageoffset.toNat + part.size.toNat < 2 ^ 64) :
    Leaves (·.writes (partsWrites outputs layout rest)) (generateParts os outputs layout rest) := by
  induction rest with
  | nil => exact leaves_pure ()
  | cons part rest ih =>
    rw [List.forall_mem_cons] at fits filled
    have part_leaves : Leaves ((·.writes (childWrites outputs part)) ∘
        (·.writes (ebrWrites layout part rest))) (generatePart os outputs layout part rest) := by
      refine (insertEbr_leaves whole part).bind fun _ => ?_
      unfold childWrites
      cases part.image with
      | none => exact leaves_pure ()
      | some image =>
        exact fun world => (insertChild_writes (promise image) fun _ holds =>
          holds.sumsFit fits.1 filled.1).mono fun _ _ => And.right
    have steps := part_leaves.bind fun _ => ih fits.2 filled.2
    intro world
    refine (steps world).mono fun _ next same => ?_
    rw [same]
    simp only [Function.comp_apply, partsWrites, File.writes_append]

/-! ### The tables -/

/-- The file with the MBR. -/
def withMbr (hd : Hdimage) (partitions : List Partition) (file : File) : File :=
  file.pwrite 440 (mbrTail hd.disksig ((mbrEntries hd partitions).toOption.getD []))

/-- The file with the tables. -/
def withTables (layout : Layout) (file : File) : File :=
  if layout.hd.tableType = .none then file
  else if layout.hd.tableType.hasGpt then
    gptFile layout.hd layout.size layout.partitions ((gptTable layout.partitions).toOption.getD [])
      ((mbrEntries layout.hd (frontPartitions layout.hd layout.size layout.partitions)).toOption.getD [])
      file
  else withMbr layout.hd layout.partitions file

theorem insertTables_leaves (whole : os.Whole) :
    Leaves (withTables layout) (insertTables os layout) := by
  intro world
  unfold insertTables withTables
  split_ifs
  · rw [ensures_pure]
  · refine (hdimageInsertGpt_carried whole rfl (Or.inl trivial)).mono ?_
    rintro _ next ⟨entries, front, written, holds⟩
    rw [holds.contents, written.table, written.front]
    rfl
  · refine (hdimageInsertMbr_ensures whole rfl (Or.inl trivial)).mono ?_
    rintro _ next ⟨entries, stored, holds⟩
    rw [holds.contents, withMbr, stored]
    rfl

/-! ### The whole image -/

/-- **The image**, on a file that is there. -/
def imageOn (outputs : String → ChildOutput) (layout : Layout) (file : File) : File :=
  let tabled := withTables layout (file.writes (partsWrites outputs layout layout.partitions))
  if layout.hd.fill then tabled.truncate layout.size.toNat else tabled

theorem writeImage_leaves (whole : os.Whole) (fits : ∀ part ∈ layout.partitions, part.Fits)
    (promise : ∀ image, (outputs image).Mapped)
    (filled : ∀ part ∈ layout.partitions, part.fill = true →
      part.imageoffset.toNat + part.size.toNat < 2 ^ 64) :
    Leaves (imageOn outputs layout) (writeImage os outputs layout) := by
  have parts : Leaves (·.writes (partsWrites outputs layout layout.partitions))
      (generateParts os outputs layout layout.partitions) :=
    generateParts_leaves whole fits promise filled
  have tables : Leaves (withTables layout) (insertTables os layout) := insertTables_leaves whole
  have last : Leaves (fun file => if layout.hd.fill then file.truncate layout.size.toNat else file)
      (if layout.hd.fill then extendFile os layout.size else pure () : Sys Unit) := by
    split_ifs
    · exact extendFile_leaves layout.size
    · exact leaves_pure ()
  exact parts.bind fun _ => tables.bind fun _ => last

end Steps

/-- Children with the same bytes and the same size; their extents may differ. -/
def SameBytes (child other : ChildOutput) : Prop :=
  child.size = other.size ∧ (child.contents.getD .empty).byte = (other.contents.getD .empty).byte

theorem SameBytes.childData {child other : ChildOutput} (same : SameBytes child other)
    (part : Partition) : childData child part = childData other part := by
  rw [Genimage.childData, Genimage.childData, insertSize, insertSize, same.1, File.slice, same.2,
    File.slice]

section Run

variable {env : Env} {config : HdimageConfig} {layout : Layout} {os os' : Os} {world world' : World}
  {outputs outputs' : String → ChildOutput} {final final' : World}

/-- The writes depend on the bytes of the children only. -/
theorem partsWrites_congr {rest : List Partition} (same : ∀ part ∈ rest, ∀ image,
      part.image = some image → SameBytes (outputs image) (outputs' image)) :
    partsWrites outputs layout rest = partsWrites outputs' layout rest := by
  induction rest with
  | nil => rfl
  | cons part rest ih =>
    rw [List.forall_mem_cons] at same
    have child : childWrites outputs part = childWrites outputs' part := by
      unfold childWrites
      cases given : part.image with
      | none => rfl
      | some image =>
        have bytes := same.1 image given
        have skips : Skips (outputs image) part ↔ Skips (outputs' image) part := by
          rw [Skips, bytes.1, Skips]
        simp only [skips, bytes.childData part]
    rw [partsWrites, partsWrites, child, ih same.2]

/-- The image of a layout, made of its children. -/
def imageOf (outputs : String → ChildOutput) (layout : Layout) : File :=
  if layout.fileSize = 0 then .empty
  else imageOn outputs layout (File.empty.truncate layout.fileSize.toNat)

/-- **A run that returns leaves the image.** -/
theorem hdimageGenerate_image (noWrap : NoWrap env config)
    (accepted : hdimageSetup env config = .ok layout) (regular : os.blockDevice = false)
    (whole : os.Whole) (promise : ∀ image, (outputs image).Mapped)
    (filled : ∀ part ∈ layout.partitions, part.fill = true →
      part.imageoffset.toNat + part.size.toNat < 2 ^ 64)
    (run : Returns (hdimageGenerate os outputs layout) world () final) :
    final.contents = imageOf outputs layout := by
  have fits := (hdimageSetup_overlaps noWrap accepted).fits
  obtain ⟨before, same, zeros, length⟩ := (hdimageGenerate_leaves
    (fun before after => after = imageOn outputs layout before)
    (writeImage_leaves whole fits promise filled) world).of_returns run
  unfold imageOf
  split_ifs with empty
  · have none : final.contents.length = 0 := by
      rw [length regular, empty, UInt64.toNat_zero]
    exact File.ext none (funext fun i => final.contents.beyond i (by omega))
  · rw [same, zeros regular empty]

theorem imageOf_congr (same : ∀ part ∈ layout.partitions, ∀ image, part.image = some image →
      SameBytes (outputs image) (outputs' image)) : imageOf outputs layout = imageOf outputs' layout := by
  simp only [imageOf, imageOn, partsWrites_congr same]

/-- **Two runs for one layout leave the same bytes**: it does not matter what the output file was, which
calls fail and are repeated, and where the children have holes. -/
theorem hdimageGenerate_reproducible (noWrap : NoWrap env config)
    (accepted : hdimageSetup env config = .ok layout)
    (promise : ∀ image, (outputs image).Mapped ∧ (outputs' image).Mapped)
    (same : ∀ image, SameBytes (outputs image) (outputs' image))
    (filled : ∀ part ∈ layout.partitions, part.fill = true →
      part.imageoffset.toNat + part.size.toNat < 2 ^ 64)
    (regular : os.blockDevice = false ∧ os'.blockDevice = false) (whole : os.Whole ∧ os'.Whole)
    (run : Returns (hdimageGenerate os outputs layout) world () final)
    (run' : Returns (hdimageGenerate os' outputs' layout) world' () final') :
    final.contents = final'.contents := by
  rw [hdimageGenerate_image noWrap accepted regular.1 whole.1 (fun image => (promise image).1) filled run,
    hdimageGenerate_image noWrap accepted regular.2 whole.2 (fun image => (promise image).2) filled run',
    imageOf_congr fun _ _ image _ => same image]

end Run

/-- The file of `rootOutput` in two extents. -/
def splitOutput : ChildOutput :=
  { rootOutput with mapped := fun size => .ok (if size = 0 then [] else [⟨0, 1⟩, ⟨1, size⟩]) }

theorem splitOutput_mapped : splitOutput.Mapped := by
  intro input _ size extents mapped
  rw [← Except.ok.inj mapped]
  split_ifs with empty
  · rw [empty]
    exact ⟨.nil, by simp, by simp, fun i below => absurd below (Nat.not_lt_zero i)⟩
  · have positive : 1 ≤ size.toNat := toNat_pos.mpr empty
    refine ⟨by simp, by simp [positive], by simp [positive], fun i below _ => ?_⟩
    by_cases first : i < 1
    · exact ⟨⟨0, 1⟩, by simp, Nat.zero_le _, first⟩
    · exact ⟨⟨1, size⟩, by simp, not_lt.mp first, below⟩

/-- A first run without an output file, and one over an old file with the child in two extents. -/
theorem hdimageGenerate_reproducible_root : ∃ final final' : World,
    final.contents = final'.contents ∧ final.contents.length = 515 := by
  obtain ⟨layout, accepted, facts⟩ := exists_layout rootEnv (rootConfig false)
    (fun layout => (layout.partitions.all (fun part => !part.fill) &&
      returnsWith (hdimageGenerate .calm (fun _ => rootOutput) layout) ⟨none, 0, 0, 0⟩
        fun _ final => final.contents.length = 515) &&
      returnsWith (hdimageGenerate .calm (fun _ => splitOutput) layout)
        ⟨some (File.ofList (List.replicate 600 9)), 0, 0, 0⟩ fun _ _ => true) (by decide +kernel)
  simp only [Bool.and_eq_true, List.all_eq_true, Bool.not_eq_true'] at facts
  obtain ⟨⟨empty, returns⟩, returns'⟩ := facts
  obtain ⟨_, final, run, length⟩ := exists_returns returns
  obtain ⟨_, final', run', _⟩ := exists_returns returns'
  refine ⟨final, final', ?_, of_decide_eq_true length⟩
  exact hdimageGenerate_reproducible (by decide +kernel) accepted
    (fun image => ⟨rootOutput_mapped image, splitOutput_mapped⟩) (fun _ => ⟨rfl, rfl⟩)
    (fun part member fill => by simp [empty part member] at fill) ⟨rfl, rfl⟩
    ⟨Os.calm_reliable.whole, Os.calm_reliable.whole⟩ run run'

end Genimage
