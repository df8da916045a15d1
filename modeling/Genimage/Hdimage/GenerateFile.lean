/-
**The file that `hdimage_generate` leaves.**

On a system that carries every call out, the loop over the partitions is a list of writes
(`partsWrites`), one for each extended boot record and one for each child that is not skipped, and so
are the tables. `generateParts_ensures` says so, and when the loop does not stop.
-/

import Genimage.Hdimage.Generate
import Genimage.Library.Writes

namespace Genimage

open Library Effect

/-! ### The writes -/

/-- The child has no bytes and the partition is not filled: nothing is written. -/
def Skips (child : ChildOutput) (part : Partition) : Prop := child.size = 0 ∧ part.fill = false

instance (child : ChildOutput) (part : Partition) : Decidable (Skips child part) :=
  inferInstanceAs (Decidable (_ ∧ _))

/-- **The child fits its partition**, with the size that it has now. -/
structure ChildHolds (child : ChildOutput) (part : Partition) : Prop where
  offset : part.imageoffset ≤ child.size
  data : child.size - part.imageoffset ≤ part.size

/-- The bytes of the child that are wanted; zeros behind its end. -/
def childData (child : ChildOutput) (part : Partition) : List UInt8 :=
  (child.contents.getD .empty).slice part.imageoffset.toNat (insertSize child part).toNat

section Writes

variable (outputs : String → ChildOutput) (layout : Layout)

/-- The write of the extended boot record. -/
def ebrWrites (part : Partition) (rest : List Partition) : List Write :=
  if part.logical then
    [⟨(part.offset - layout.hd.align + 446).toNat,
      entryTable (ebrEntries layout.hd (extendedOffset layout.partitions) part rest)⟩]
  else []

/-- The write of the child. -/
def childWrites (part : Partition) : List Write :=
  match part.image with
  | none => []
  | some image =>
    if Skips (outputs image) part then []
    else [⟨part.offset.toNat, childData (outputs image) part⟩]

/-- The writes of the loop in `hdimage_generate`. -/
def partsWrites : List Partition → List Write
  | [] => []
  | part :: rest => ebrWrites layout part rest ++ childWrites outputs part ++ partsWrites rest

end Writes

/-- The output file is opened for a partition. -/
def Opens (outputs : String → ChildOutput) (part : Partition) : Prop :=
  part.logical = true ∨ ∃ image, part.image = some image ∧ ¬ Skips (outputs image) part

/-- **The calls for a child can be carried out**: it can be read, its extents are those of its file, and
both ranges are ranges of files. -/
structure Insertable (child : ChildOutput) (part : Partition) : Prop where
  readable : child.Readable
  promise : child.Mapped
  input : part.imageoffset.toNat + (insertSize child part).toNat ≤ offLimit
  output : part.offset.toNat + (insertSize child part).toNat < offLimit

/-- **The calls for a partition can be carried out.** -/
structure Writable (outputs : String → ChildOutput) (hd : Hdimage) (part : Partition) : Prop where
  ebr : part.logical = true → (part.offset - hd.align + 446).toNat + 66 < offLimit
  child : ∀ image, part.image = some image → ¬ Skips (outputs image) part →
    Insertable (outputs image) part

/-! ### One partition -/

section Ensures

variable {os : Os} {fault : Prop} {world : World} {contents : File} {layout : Layout}
  {outputs : String → ChildOutput}

theorem insertEbr_ensures (whole : os.Whole) (same : world.contents = contents)
    {part : Partition} {rest : List Partition}
    (safe : fault ∨ (os.Reliable ∧ (part.logical = true →
      (part.offset - layout.hd.align + 446).toNat + 66 < offLimit))) :
    Ensures fault (insertEbr os layout part rest) world fun _ next =>
      next.contents = contents.writes (ebrWrites layout part rest) ∧ (os.blockDevice = false →
        (next.file.isSome ↔ world.file.isSome ∨ part.logical = true)) := by
  unfold insertEbr ebrWrites
  split_ifs with logical
  · have length := length_entryTable ((length_ebrEntries layout.hd (extendedOffset layout.partitions)
      part rest).trans (by decide))
    refine (insertData_whole whole same ?_).mono ?_
    · rw [length]
      exact safe.imp_right fun both => ⟨both.1, both.2 logical⟩
    · intro _ next both
      exact ⟨both.2.contents, fun regular => iff_of_true (both.2.present regular) (Or.inr logical)⟩
  · rw [ensures_pure]
    exact ⟨same, by simp [logical]⟩

/-- `insert_image` for a child that fits. -/
theorem insertChild_ensures (reliable : os.Reliable) (same : world.contents = contents)
    {child : ChildOutput} {part : Partition} (small : contents.length < offLimit)
    (insertable : ¬ Skips child part → Insertable child part)
    (safe : fault ∨ (¬ Skips child part → ChildHolds child part)) :
    Ensures fault (insertChild os child part) world fun _ next =>
      next.contents = contents.writes
          (if Skips child part then [] else [⟨part.offset.toNat, childData child part⟩]) ∧
        (next.file.isSome ↔ world.file.isSome ∨ ¬ Skips child part) := by
  have limit : offLimit = 2 ^ 63 := rfl
  by_cases skips : Skips child part
  · rw [insertChild, if_pos (show child.size = 0 ∧ part.fill = false from skips), if_pos skips,
      ensures_pure]
    exact ⟨same, by simp [skips]⟩
  obtain ⟨readable, promise, input, output⟩ := insertable skips
  rw [insertChild, if_neg (show ¬ (child.size = 0 ∧ part.fill = false) from skips), if_neg skips]
  split_ifs with past large
  · rw [ensures_throw]
    exact safe.resolve_right fun holds => absurd past (UInt64.not_lt.mpr (holds skips).offset)
  · rw [ensures_throw]
    exact safe.resolve_right fun holds => absurd large (UInt64.not_lt.mpr (holds skips).data)
  · refine (insertImage_ensures same (by omega) (by omega) promise ?_ ?_).mono ?_
    · exact Or.inr ⟨reliable, max_lt small output⟩
    · exact Or.inr ⟨readable, input⟩
    · rintro _ next ⟨file, extents, given, mapped, holds⟩
      have map := promise file given _ _ mapped
      have wanted : part.imageoffset.toNat + (insertSize child part).toNat ≤
          (insertSize child part + part.imageoffset).toNat := by
        rw [toNat_add_of_lt (by omega), Nat.add_comm]
      rw [imageBytes_zero map wanted] at holds
      refine ⟨?_, iff_of_true (holds.present reliable.2) (Or.inr skips)⟩
      rw [holds.contents, childData, given]
      rfl

/-- An extended boot record has its entries and the signature at the end of a sector. -/
theorem ebrWrites_span {part : Partition} {rest : List Partition} {write : Write}
    (member : write ∈ ebrWrites layout part rest) :
    part.logical = true ∧ write.span = ⟨(part.offset - layout.hd.align + 446).toNat,
      (part.offset - layout.hd.align + 446).toNat + 66⟩ := by
  unfold ebrWrites at member
  split_ifs at member with logical
  · have length := length_entryTable ((length_ebrEntries layout.hd
      (extendedOffset layout.partitions) part rest).trans (by decide))
    rw [List.mem_singleton.mp member, Write.span, length]
    exact ⟨logical, rfl⟩
  · cases member

/-- The writes of one partition end at file offsets. -/
theorem Writable.stop_lt {part : Partition} {rest : List Partition}
    (writable : Writable outputs layout.hd part) :
    ∀ write ∈ ebrWrites layout part rest ++ childWrites outputs part, write.span.stop < offLimit := by
  intro write member
  rcases List.mem_append.mp member with ebr | child
  · obtain ⟨logical, span⟩ := ebrWrites_span ebr
    rw [span]
    exact writable.ebr logical
  · unfold childWrites at child
    split at child
    next => cases child
    next image given =>
      split_ifs at child with skips
      · cases child
      · rw [List.mem_singleton.mp child, Write.span, childData, File.length_slice]
        exact (writable.child image given skips).output

/-- Behind the writes of one partition the file still ends at a file offset. -/
theorem Writable.length_lt {part : Partition} {rest : List Partition}
    (writable : Writable outputs layout.hd part) (small : contents.length < offLimit) :
    (contents.writes (ebrWrites layout part rest ++ childWrites outputs part)).length < offLimit := by
  have ends : ∀ write ∈ ebrWrites layout part rest ++ childWrites outputs part,
      write.span.stop < offLimit := writable.stop_lt
  refine Nat.lt_of_le_pred (by decide) (File.length_writes_le_iff.mpr ⟨Nat.le_pred_of_lt small, ?_⟩)
  exact fun write member _ => Nat.le_pred_of_lt (ends write member)

/-- **One partition.** -/
theorem generatePart_ensures (reliable : os.Reliable) (same : world.contents = contents)
    {part : Partition} {rest : List Partition} (small : contents.length < offLimit)
    (writable : Writable outputs layout.hd part)
    (safe : fault ∨ ∀ image, part.image = some image → ¬ Skips (outputs image) part →
      ChildHolds (outputs image) part) :
    Ensures fault (generatePart os outputs layout part rest) world fun _ next =>
      next.contents = contents.writes (ebrWrites layout part rest ++ childWrites outputs part) ∧
        (next.file.isSome ↔ world.file.isSome ∨ Opens outputs part) := by
  have room : (contents.writes (ebrWrites layout part rest)).length < offLimit := by
    have all : (contents.writes
        (ebrWrites layout part rest ++ childWrites outputs part)).length < offLimit :=
      writable.length_lt small
    rw [File.writes_append] at all
    exact (File.length_le_writes _ _).trans_lt all
  refine (insertEbr_ensures reliable.whole same (Or.inr ⟨reliable, writable.ebr⟩)).bind ?_
  intro _ middle both
  obtain ⟨ebr, present⟩ := both
  have present := present reliable.2
  rw [File.writes_append]
  unfold Opens childWrites
  cases given : part.image with
  | none =>
    simp only [ensures_pure]
    exact ⟨ebr, present.trans (by simp)⟩
  | some image =>
    refine (insertChild_ensures reliable ebr room (writable.child image given) ?_).mono ?_
    · exact safe.imp_right fun holds => holds image given
    · rintro _ next ⟨written, present'⟩
      refine ⟨written, ?_⟩
      rw [present', present, or_assoc]
      simp

/-- **The loop over the partitions**; by induction on the list. -/
theorem generateParts_ensures (reliable : os.Reliable) {rest : List Partition} :
    ∀ {world : World} {contents : File}, world.contents = contents → contents.length < offLimit →
      (∀ part ∈ rest, Writable outputs layout.hd part) →
      (fault ∨ ∀ part ∈ rest, ∀ image, part.image = some image → ¬ Skips (outputs image) part →
        ChildHolds (outputs image) part) →
      Ensures fault (generateParts os outputs layout rest) world fun _ next =>
        next.contents = contents.writes (partsWrites outputs layout rest) ∧
          (next.file.isSome ↔ world.file.isSome ∨ ∃ part ∈ rest, Opens outputs part) := by
  induction rest with
  | nil =>
    intro world contents same _ _ _
    rw [generateParts, ensures_pure]
    exact ⟨same, by simp⟩
  | cons part rest ih =>
    intro world contents same small writable safe
    rw [List.forall_mem_cons] at writable
    simp only [List.forall_mem_cons] at safe
    rw [generateParts, partsWrites, File.writes_append]
    refine (generatePart_ensures reliable same small writable.1 (safe.imp_right And.left)).bind ?_
    rintro _ middle ⟨written, present⟩
    refine (ih written (writable.1.length_lt small) writable.2 (safe.imp_right And.right)).mono ?_
    rintro _ next ⟨written', present'⟩
    refine ⟨written', present'.trans ?_⟩
    rw [present, or_assoc, List.exists_mem_cons_iff]

end Ensures

end Genimage
