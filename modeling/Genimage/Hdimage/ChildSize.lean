/-
**Children that are longer than their recorded size.**

`hdimage_generate` copies as much of a child as `child->size` says. Some handlers set it to the length of
the file that they have written, others never, and a child whose size is `0` is passed over.
`hdimageGenerate_keeps_iff` says when no byte of a child is lost: behind the recorded size there are only
zeros, with room for them in the file, and nothing else is written where the bytes of a child belong.
The latter is what the overlap checks of the setup are for (`contentAlone_of_setup`).
-/

import Genimage.Hdimage.Contents

namespace Genimage

open Library Effect

variable {os : Os} {env : Env} {config : HdimageConfig} {layout : Layout}
  {outputs : String → ChildOutput} {child : ChildOutput} {part : Partition} {out : File}

/-! ### The property and the condition -/

/-- **No byte of the child is lost**: from `imageoffset` on its file is in the output. -/
def KeepsContent (child : ChildOutput) (part : Partition) (out : File) : Prop :=
  ∀ i, part.imageoffset.toNat ≤ i → i < (child.contents.getD .empty).length →
    part.offset.toNat + (i - part.imageoffset.toNat) < out.length ∧
      out.byte (part.offset.toNat + (i - part.imageoffset.toNat)) =
        (child.contents.getD .empty).byte i

/-- No partition loses a byte of its child. -/
def ContentKept (outputs : String → ChildOutput) (layout : Layout) (out : File) : Prop :=
  ∀ part ∈ layout.partitions, ∀ image, part.image = some image →
    KeepsContent (outputs image) part out

/-- **What is not copied is zero**, and lies in a regular file. -/
def OnlyZerosLeft (os : Os) (layout : Layout) (child : ChildOutput) (part : Partition) : Prop :=
  ∀ i, copiedSize child part ≤ i →
    part.imageoffset.toNat + i < (child.contents.getD .empty).length →
    os.blockDevice = false ∧ part.offset.toNat + i < layout.fileSize.toNat ∧
      (child.contents.getD .empty).byte (part.imageoffset.toNat + i) = 0

/-- **No other write falls on a place of `part`**: not that of another partition, of its own boot record
or of a table. -/
structure WrittenAlone (outputs : String → ChildOutput) (layout : Layout)
    (others : List Partition) (part : Partition) (place : Span Nat) : Prop where
  others : ∀ other ∈ others, PartAside outputs layout other place
  record : part.logical = true → (recordSpan layout part).Apart place
  tables : TablesAside layout place

/-- **The places of the children's bytes are their own**, and the sums of the children that are written
are words. Neither asks anything of what is not written. -/
structure ContentAlone (outputs : String → ChildOutput) (layout : Layout) : Prop where
  sums : ∀ part ∈ layout.partitions, ChildSums outputs part
  alone : ∀ before part after, layout.partitions = before ++ part :: after →
    ∀ image, part.image = some image →
      ∀ i, part.imageoffset.toNat + i < ((outputs image).contents.getD .empty).length →
        WrittenAlone outputs layout (before ++ after) part
          ⟨part.offset.toNat + i, part.offset.toNat + i + 1⟩

/-- **The sizes cover the children.** -/
structure SizesCover (os : Os) (outputs : String → ChildOutput) (layout : Layout) : Prop where
  alone : ContentAlone outputs layout
  left : ∀ part ∈ layout.partitions, ∀ image, part.image = some image →
    OnlyZerosLeft os layout (outputs image) part

/-! ### One partition -/

/-- Nothing is left of a child whose recorded size is not less than the length of its file. -/
theorem OnlyZerosLeft.of_recorded (fits : Skips child part ∨ ChildHolds child part)
    (recorded : (child.contents.getD .empty).length ≤ child.size.toNat) :
    OnlyZerosLeft os layout child part := by
  intro i behind below
  by_cases skips : Skips child part
  · rw [skips.1, UInt64.toNat_zero] at recorded
    omega
  · have holds := fits.resolve_left skips
    have offset := UInt64.le_iff_toNat_le.mp holds.offset
    have data := UInt64.le_iff_toNat_le.mp holds.data
    rw [copiedSize, if_neg skips, insertSize] at behind
    rw [toNat_sub_of_le offset] at data
    split_ifs at behind
    · omega
    · rw [toNat_sub_of_le offset] at behind
      omega

/-- **A place that is written alone**: the copied byte is there, or in a regular file a zero. -/
structure PlaceLeft (os : Os) (layout : Layout) (child : ChildOutput) (part : Partition) (i : Nat)
    (out : File) : Prop where
  copied : i < copiedSize child part → part.offset.toNat + i < out.length ∧
    out.byte (part.offset.toNat + i) = (child.contents.getD .empty).byte (part.imageoffset.toNat + i)
  zero : copiedSize child part ≤ i → os.blockDevice = false → out.byte (part.offset.toNat + i) = 0

/-- What is left at a place of a partition. -/
theorem RangeLeft.placeLeft {image : String} {i : Nat} (given : part.image = some image)
    (left : RangeLeft os layout ⟨part.offset.toNat + i, part.offset.toNat + i + 1⟩
      (childWrites outputs part) out) : PlaceLeft os layout (outputs image) part i out := by
  constructor
  case copied =>
    intro copied
    obtain ⟨before, kept⟩ := left.kept
    have room := left.copied_le given (Nat.ne_zero_of_lt copied)
    have same := kept.byte (part.offset.toNat + i) le_rfl (Nat.lt_succ_self _)
    rw [byte_writes_child given, if_pos copied] at same
    exact ⟨by omega, same⟩
  case zero =>
    intro behind regular
    have same := (left.zeros regular).byte (part.offset.toNat + i) le_rfl (Nat.lt_succ_self _)
    rw [same, byte_writes_child given, if_neg (not_lt.mpr behind)]
    exact ite_self 0

/-! ### The image -/

/-- **The run leaves at each place of a child what belongs there**, when the places are its own. -/
theorem ContentAlone.placeLeft {world final : World} (alone : ContentAlone outputs layout)
    (promise : ∀ image, (outputs image).Mapped)
    (run : Returns (hdimageGenerate os outputs layout) world () final)
    (member : part ∈ layout.partitions) {image : String} (given : part.image = some image) {i : Nat}
    (below : part.imageoffset.toNat + i < ((outputs image).contents.getD .empty).length) :
    PlaceLeft os layout (outputs image) part i final.contents ∧
      (os.blockDevice = false → final.contents.length = layout.fileSize.toNat) := by
  obtain ⟨before, after, split⟩ := List.append_of_mem member
  obtain ⟨others, record, tables⟩ := alone.alone before part after split image given i below
  have parts : Makes _ (childWrites outputs part)
      (generateParts os outputs layout (before ++ part :: after)) :=
    generateParts_own (fun other among _ => generatePart_makes promise
        (alone.sums other (mem_of_others split among)) (others other among))
      (generatePart_own promise (alone.sums part member) record)
  rw [← split] at parts
  have left := (hdimageGenerate_range (writeImage_makes tables parts) world).of_returns run
  exact ⟨left.placeLeft given, left.length⟩

/-- **The layout of an accepted configuration gives each child its own places**, where no sum wraps and
the files are not longer than the partitions. -/
theorem contentAlone_of_setup (holeless : env.Holeless) (noWrap : NoWrap env config)
    (accepted : hdimageSetup env config = .ok layout) (promise : ∀ image, (outputs image).Mapped)
    (filled : ∀ part ∈ layout.partitions, part.fill = true →
      part.imageoffset.toNat + part.size.toNat < 2 ^ 64)
    (room : ∀ part ∈ layout.partitions, ∀ image, part.image = some image →
      ((outputs image).contents.getD .empty).length ≤ part.imageoffset.toNat + part.size.toNat) :
    ContentAlone outputs layout := by
  have laid := laid_of_setup holeless noWrap accepted promise filled
  refine ⟨fun part member => laid.sums member, fun before part after split image given i below => ?_⟩
  have member : part ∈ layout.partitions := by simp [split]
  have inside := room part member image given
  have parsed := laid.parsed part member (Or.inr (by rw [given]; rfl))
  have own := (laid.mem_regions member).2 (Or.inr (by rw [given]; rfl))
  have within : Span.Within ⟨part.offset.toNat + i, part.offset.toNat + i + 1⟩ part.span :=
    ⟨Nat.le_add_right _ _, by simp only [Partition.span]; omega⟩
  have others : ∀ other ∈ before ++ after, ∀ region ∈ other.regions layout.hd,
      region.Apart ⟨part.offset.toNat + i, part.offset.toNat + i + 1⟩ :=
    fun other among region listed => (laid.others_aside split own other among region listed).mono within
  constructor
  case others => exact fun other among => laid.aside (mem_of_others split among) (others other among)
  case record =>
    intro logical
    exact ((laid.ebr_apart member logical).mono_left (laid.record_within member logical)).mono within
  case tables =>
    refine tablesAside noWrap accepted fun area among fake => others area ?_
    rw [split, List.mem_append, List.mem_cons] at among
    rcases among with early | rfl | late
    · exact List.mem_append_left _ early
    · exact absurd parsed fake
    · exact List.mem_append_right _ late

/-- **Recorded sizes are enough**: no content is lost of children whose handlers have set their sizes. -/
theorem sizesCover_of_recorded {world final : World} (holeless : env.Holeless) (noWrap : NoWrap env config)
    (accepted : hdimageSetup env config = .ok layout) (promise : ∀ image, (outputs image).Mapped)
    (filled : ∀ part ∈ layout.partitions, part.fill = true →
      part.imageoffset.toNat + part.size.toNat < 2 ^ 64)
    (run : Returns (hdimageGenerate os outputs layout) world () final)
    (recorded : ∀ part ∈ layout.partitions, ∀ image, part.image = some image →
      ((outputs image).contents.getD .empty).length ≤ (outputs image).size.toNat) :
    SizesCover os outputs layout := by
  have fits : ∀ part ∈ layout.partitions, ∀ image, part.image = some image →
      Skips (outputs image) part ∨ ChildHolds (outputs image) part := fun part member image given =>
    child_fits holeless noWrap accepted promise filled run member given
  refine ⟨contentAlone_of_setup holeless noWrap accepted promise filled ?_,
    fun part member image given =>
      .of_recorded (fits part member image given) (recorded part member image given)⟩
  intro part member image given
  have length := recorded part member image given
  rcases fits part member image given with skips | holds
  · rw [skips.1, UInt64.toNat_zero] at length
    omega
  · have offset := UInt64.le_iff_toNat_le.mp holds.offset
    have data := UInt64.le_iff_toNat_le.mp holds.data
    rw [toNat_sub_of_le offset] at data
    omega

/-- **No content of a child is lost when the sizes cover the children.** In a regular file, where no other
write falls on their places, it is lost otherwise. -/
theorem hdimageGenerate_keeps_iff {world final : World} (promise : ∀ image, (outputs image).Mapped)
    (run : Returns (hdimageGenerate os outputs layout) world () final) :
    (SizesCover os outputs layout → ContentKept outputs layout final.contents) ∧
    (os.blockDevice = false → ContentAlone outputs layout →
      (ContentKept outputs layout final.contents ↔ SizesCover os outputs layout)) := by
  have kept : SizesCover os outputs layout → ContentKept outputs layout final.contents := by
    intro ⟨alone, left⟩ part member image given i above below
    obtain ⟨j, rfl⟩ := Nat.exists_eq_add_of_le above
    rw [Nat.add_sub_cancel_left]
    obtain ⟨place, length⟩ := alone.placeLeft promise run member given below
    by_cases copied : j < copiedSize (outputs image) part
    · exact place.copied copied
    · obtain ⟨regular, stored, zero⟩ := left part member image given j (not_lt.mp copied) below
      rw [place.zero (not_lt.mp copied) regular, zero, length regular]
      exact ⟨stored, rfl⟩
  refine ⟨kept, fun regular alone => ⟨fun keeps => ⟨alone, ?_⟩, kept⟩⟩
  intro part member image given i behind below
  obtain ⟨place, length⟩ := alone.placeLeft promise run member given below
  obtain ⟨stored, same⟩ := keeps part member image given (part.imageoffset.toNat + i)
    (Nat.le_add_right _ _) below
  rw [Nat.add_sub_cancel_left] at stored same
  rw [place.zero behind regular] at same
  exact ⟨regular, length regular ▸ stored, same.symm⟩

theorem hdimageGenerate_keeps_iff_root : ∃ (layout : Layout) (final : World),
    hdimageSetup rootEnv (rootConfig false) = .ok layout ∧
      ContentKept (fun _ => rootOutput) layout final.contents := by
  obtain ⟨layout, final, accepted, filled, _, run⟩ := exists_root_run
  -- all three bytes are recorded
  have covered : SizesCover .calm (fun _ => rootOutput) layout :=
    sizesCover_of_recorded rootEnv_holeless (by decide +kernel) accepted rootOutput_mapped filled run
      fun _ _ _ _ => by decide
  exact ⟨layout, final, accepted, (hdimageGenerate_keeps_iff rootOutput_mapped run).1 covered⟩

/-! ### A child without a size -/

/-- The image as its handler leaves it in setup. -/
def unsizedEnv : Env :=
  { Env.bare with imageGet := fun image =>
      if image = "root.img" then some ⟨"root.img", "root", 0, []⟩ else none }

/-- The handler has written three bytes and recorded no size. -/
def unsizedOutput : ChildOutput := { ChildOutput.wholeFile [1, 2, 3] with size := 0 }

/-- The partition stays empty. -/
theorem hdimageGenerate_drops : ∃ (layout : Layout) (final : World),
    unsizedEnv.Holeless ∧ NoWrap unsizedEnv (rootConfig false) ∧ unsizedOutput.Mapped ∧
      hdimageSetup unsizedEnv (rootConfig false) = .ok layout ∧
      Returns (hdimageGenerate .calm (fun _ => unsizedOutput) layout) ⟨none, 0, 0, 0⟩ () final ∧
      ¬ ContentKept (fun _ => unsizedOutput) layout final.contents := by
  obtain ⟨layout, accepted, facts⟩ := exists_layout unsizedEnv (rootConfig false)
    (fun layout => returnsWith (hdimageGenerate .calm (fun _ => unsizedOutput) layout) ⟨none, 0, 0, 0⟩
      fun _ final => layout.partitions.any fun part => decide (part.image = some "root.img" ∧
        part.imageoffset = 0 ∧ final.contents.byte part.offset.toNat = 0)) (by decide +kernel)
  obtain ⟨_, final, run, facts⟩ := exists_returns facts
  obtain ⟨part, member, facts⟩ := List.any_eq_true.mp facts
  obtain ⟨given, offset, zero⟩ := of_decide_eq_true facts
  have promise : unsizedOutput.Mapped := ChildOutput.wholeFile_mapped [1, 2, 3]
  refine ⟨layout, final, ?_, by decide +kernel, promise, accepted, run, fun kept => ?_⟩
  · intro file child found
    simp only [unsizedEnv] at found
    split_ifs at found
    rw [← Option.some.inj found]
  · obtain ⟨_, same⟩ := kept part member _ given 0 (by rw [offset]; exact le_rfl) (by decide)
    rw [Nat.zero_sub, Nat.add_zero, zero] at same
    exact absurd same (by decide)

end Genimage
