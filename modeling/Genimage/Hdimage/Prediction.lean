/-
**The size that the setup predicts.**

`hd->file_size` is the largest end of the tables, of the extended boot records, and of the data that
images are known to have at setup (`fileSize_reaches`); an image that is filled or has a backup of its
GPT has the size of the image instead. `hdimageGenerate_size_iff` compares that with what
`hdimage_generate` writes: with the sizes that the children have then, and with whole partitions
where `fill` is set.
-/

import Genimage.Hdimage.FileSize
import Genimage.Hdimage.Overlap

namespace Genimage

open Library Effect

variable {env : Env} {os : Os} {world : World} {layout : Layout} {hd : Hdimage} {size : UInt64}
  {outputs : String → ChildOutput} {config : HdimageConfig}

/-! ### The prediction -/

/-- **The setup knows that an element reaches `stop`**: its boot record does, or the data of its
image. -/
def Partition.Reaches (env : Env) (hd : Hdimage) (part : Partition) (stop : Nat) : Prop :=
  (part.logical = true ∧ stop ≤ (part.offset - hd.align + 512).toNat) ∨
    ∃ child, part.image.bind env.imageGet = some child ∧
      stop ≤ (part.offset + child.dataSize part.imageoffset).toNat

/-- **The setup expects bytes up to `stop`**: the table reaches it, or an element. -/
def Expected (env : Env) (layout : Layout) (stop : Nat) : Prop :=
  stop ≤ (tableEnd layout.hd.tableType layout.hd.gptLocation).toNat ∨
    ∃ part ∈ layout.partitions, part.Reaches env layout.hd stop

/-- The file has the size of the image. -/
def Layout.Whole (layout : Layout) : Prop :=
  layout.hd.fill = true ∨ (layout.hd.tableType.hasGpt = true ∧ layout.hd.gptNoBackup = false)

/-- What one step adds to the prediction. -/
theorem Placed.fileSize_reaches {state next : SetupState} {part placed : Partition}
    (step : Placed env hd size state part placed next) (stop : Nat) :
    stop ≤ next.fileSize.toNat ↔ stop ≤ state.fileSize.toNat ∨ placed.Reaches env hd stop := by
  obtain ⟨imageEnd, fileSize, imageEq⟩ := step.file_eq
  have image : stop ≤ imageEnd.toNat ↔ stop ≤ state.fileSize.toNat ∨
      ∃ child, placed.image.bind env.imageGet = some child ∧
        stop ≤ (placed.offset + child.dataSize placed.imageoffset).toNat := by
    rw [imageEq]
    cases found : placed.image.bind env.imageGet with
    | none => simp
    | some child => simp [toNat_maxUll, or_comm]
  rw [fileSize, Partition.Reaches]
  cases logical : placed.logical with
  | false => simp [image]
  | true =>
    simp only [if_true, toNat_maxUll, le_max_iff, image, true_and]
    exact or_left_comm

/-- **The prediction is the largest of what is known**; by induction along the loop. -/
theorem fileSize_reaches (accepted : hdimageSetup env config = .ok layout)
    (part : ¬ layout.Whole) (stop : Nat) :
    stop ≤ layout.fileSize.toNat ↔ Expected env layout stop := by
  obtain ⟨prepared, state, _, _, loop, finished⟩ := hdimageSetup_ok accepted
  have known : stop ≤ state.fileSize.toNat ↔
      stop ≤ (tableEnd prepared.hd.tableType prepared.hd.gptLocation).toNat ∨
        ∃ part ∈ state.done, part.Reaches env prepared.hd stop := by
    refine loop_invariant (fun _ state => stop ≤ state.fileSize.toNat ↔
      stop ≤ (tableEnd prepared.hd.tableType prepared.hd.gptLocation).toNat ∨
        ∃ part ∈ state.done, part.Reaches env prepared.hd stop) ?_ ?_ loop
    · simp [Prepared.start]
    · intro done part rest state placed next _ inv step
      obtain ⟨keep, done, kept⟩ := step.done_cases
      -- growing an element changes nothing that the setup knows of it
      have same : ∀ other, (keep other).Reaches env prepared.hd stop ↔
          other.Reaches env prepared.hd stop := by
        intro other
        rcases kept with ⟨_, rfl⟩ | ⟨_, rfl⟩ <;> exact Iff.rfl
      rw [step.fileSize_reaches, inv, done, or_assoc]
      simp [or_and_right, exists_or, same]
  rw [finished.fileSize_eq, if_neg, Expected, finished.hd_eq, finished.partitions_eq, known]
  rw [← finished.hd_eq]
  exact fun whole => part (whole.imp_right fun both => ⟨both.1, by simpa using both.2⟩)

/-! ### The writes -/

/-- Every write is one of a partition. -/
theorem mem_partsWrites {write : Write} {parts : List Partition} :
    write ∈ partsWrites outputs layout parts → ∃ part ∈ parts, ∃ rest,
      write ∈ ebrWrites layout part rest ∨ write ∈ childWrites outputs part := by
  induction parts with
  | nil => exact fun member => absurd member List.not_mem_nil
  | cons part rest ih =>
    intro member
    rw [partsWrites, List.mem_append, List.mem_append] at member
    rcases member with own | later
    · exact ⟨part, List.mem_cons_self, rest, own⟩
    · obtain ⟨other, among, behind⟩ := ih later
      exact ⟨other, List.mem_cons_of_mem _ among, behind⟩

/-- The writes of the children are made. -/
theorem childWrites_subset {part : Partition} {parts : List Partition} (member : part ∈ parts) :
    ∀ write ∈ childWrites outputs part, write ∈ partsWrites outputs layout parts := by
  intro write listed
  induction parts with
  | nil => cases member
  | cons first rest ih =>
    rw [partsWrites, List.mem_append, List.mem_append]
    rcases List.mem_cons.mp member with rfl | member
    · exact Or.inl (Or.inr listed)
    · exact Or.inr (ih member)

/-- The number of bytes written for a child that fits is not larger than the partition. -/
theorem ChildHolds.insertSize_le {child : ChildOutput} {part : Partition}
    (holds : ChildHolds child part) : (insertSize child part).toNat ≤ part.size.toNat := by
  unfold insertSize
  split_ifs
  · exact le_rfl
  · exact UInt64.le_iff_toNat_le.mp holds.data

/-- The end of what is written for a child. -/
def childStop (child : ChildOutput) (part : Partition) : Nat :=
  part.offset.toNat + (insertSize child part).toNat

theorem mem_childWrites {write : Write} {part : Partition} :
    write ∈ childWrites outputs part ↔ ∃ image, part.image = some image ∧
      ¬ Skips (outputs image) part ∧
      write = ⟨part.offset.toNat, childData (outputs image) part⟩ := by
  unfold childWrites
  cases part.image with
  | none => simp
  | some image => by_cases skips : Skips (outputs image) part <;> simp [skips]

/-- The ends of what is written for the children are within `limit`. -/
theorem childWrites_stop {limit : Nat} {part : Partition} :
    (∀ write ∈ childWrites outputs part, write.data ≠ [] → write.span.stop ≤ limit) ↔
      ∀ image, part.image = some image → ¬ Skips (outputs image) part →
        insertSize (outputs image) part ≠ 0 → childStop (outputs image) part ≤ limit := by
  have length : ∀ child, (childData child part).length = (insertSize child part).toNat :=
    fun child => File.length_slice _ _ _
  have empty : ∀ child, childData child part ≠ [] ↔ insertSize child part ≠ 0 := fun child => by
    rw [← List.length_pos_iff_ne_nil, length]
    exact ⟨fun positive zero => by simp [zero] at positive, toNat_pos.mpr⟩
  simp only [mem_childWrites]
  constructor
  · intro ends image given skips nonempty
    have stop := ends _ ⟨image, given, skips, rfl⟩ ((empty _).mpr nonempty)
    rwa [Write.span, length] at stop
  · rintro ends _ ⟨image, given, skips, rfl⟩ nonempty
    rw [Write.span, length]
    exact ends image given skips ((empty _).mp nonempty)

/-! ### What ends within the prediction -/

/-- The boot record of a writable partition ends with its sector. -/
theorem Writable.ebr_stop {part : Partition} (writable : Writable outputs hd part)
    (logical : part.logical = true) :
    (part.offset - hd.align + 446).toNat + 66 = (part.offset - hd.align + 512).toNat := by
  have small : (part.offset - hd.align + 446).toNat + (66 : UInt64).toNat < 2 ^ 64 :=
    (writable.ebr logical).trans (show offLimit < 2 ^ 64 by decide)
  have sum : part.offset - hd.align + 512 = part.offset - hd.align + 446 + 66 := by
    rw [UInt64.add_assoc, show (446 : UInt64) + 66 = 512 from rfl]
  rw [sum, toNat_add_of_lt small]
  rfl

/-- What the tables write ends within `limit` if their areas do. -/
theorem tableStops_le {limit : Nat} (mbr : layout.hd.tableType ≠ .none → 512 ≤ limit)
    (gpt : layout.hd.tableType.hasGpt = true →
      604 ≤ limit ∧ layout.hd.gptLocation.toNat + 16384 ≤ limit)
    (backup : layout.hd.tableType.hasGpt = true → layout.hd.gptNoBackup = false →
      layout.size.toNat ≤ limit) : ∀ stop ∈ tableStops layout, stop ≤ limit := by
  unfold tableStops
  split_ifs with none isGpt noBackup
  · exact fun stop member => absurd member List.not_mem_nil
  · simpa using ⟨mbr none, gpt isGpt⟩
  · simpa using ⟨mbr none, (gpt isGpt).1, (gpt isGpt).2, backup isGpt (by simpa using noBackup)⟩
  · simpa using mbr none

/-- In a file of the size of the image everything ends within it. -/
theorem whole_within (noWrap : NoWrap env config) (accepted : hdimageSetup env config = .ok layout)
    (possible : Possible outputs layout) (holds : ChildrenFit outputs layout)
    (whole : layout.Whole) :
    (∀ write ∈ partsWrites outputs layout layout.partitions,
      write.data ≠ [] → write.span.stop ≤ layout.fileSize.toNat) ∧
    ∀ stop ∈ tableStops layout, stop ≤ layout.fileSize.toNat := by
  have sound := hdimageSetup_overlaps noWrap accepted
  obtain ⟨mbr, gpt⟩ := setup_areas accepted
  rw [fileSize_image accepted whole]
  constructor
  · intro write member
    obtain ⟨part, among, rest, ebr | child⟩ := mem_partsWrites member
    · intro _
      obtain ⟨logical, span⟩ := ebrWrites_span ebr
      obtain ⟨room, inside⟩ := sound.ebr part among logical
      have stop := sound.stops part among
      have offset := part.offset.toNat_lt
      have front : (part.offset - layout.hd.align).toNat + 512 ≤ part.offset.toNat := inside
      have start : part.offset.toNat ≤ part.span.stop := Nat.le_add_right _ _
      have sum : (part.offset - layout.hd.align + 512).toNat ≤ part.offset.toNat := by
        rw [toNat_add_of_lt (front.trans_lt offset)]
        exact front
      rw [span, (possible.parts part among).ebr_stop logical]
      exact sum.trans (start.trans stop)
    · refine childWrites_stop.mpr (fun image given skips _ => ?_) write child
      have fits := (holds part among image given skips).insertSize_le
      exact (Nat.add_le_add_left fits _).trans (sound.stops part among)
  · refine tableStops_le (fun table => sound.stops _ (mbr table)) (fun isGpt => ?_)
      fun _ _ => le_rfl
    obtain ⟨header, array, _⟩ := gpt isGpt
    exact ⟨(show 604 ≤ 1024 by decide).trans (sound.stops _ header), sound.stops _ array⟩

/-- In another file the tables end within the prediction. -/
theorem partial_tables (accepted : hdimageSetup env config = .ok layout)
    (possible : Possible outputs layout) (part : ¬ layout.Whole) :
    ∀ stop ∈ tableStops layout, stop ≤ layout.fileSize.toNat := by
  have reached : (tableEnd layout.hd.tableType layout.hd.gptLocation).toNat ≤
      layout.fileSize.toNat := (fileSize_reaches accepted part _).mpr (Or.inl le_rfl)
  have array : layout.hd.tableType.hasGpt = true →
      layout.hd.gptLocation.toNat + 16384 ≤ layout.fileSize.toNat := by
    intro isGpt
    have addressed := (possible.array isGpt).trans (show offLimit < 2 ^ 64 by decide)
    have stop : (tableEnd layout.hd.tableType layout.hd.gptLocation).toNat =
        layout.hd.gptLocation.toNat + 16384 := by
      rw [tableEnd, if_neg (by intro none; rw [none] at isGpt; cases isGpt), if_pos isGpt]
      exact toNat_add_of_lt addressed
    exact stop ▸ reached
  refine tableStops_le (fun table => ?_) (fun isGpt => ⟨?_, array isGpt⟩)
    fun isGpt kept => absurd (Or.inr ⟨isGpt, kept⟩) part
  · by_cases isGpt : layout.hd.tableType.hasGpt = true
    · have := array isGpt
      omega
    · rw [tableEnd, if_neg table, if_neg isGpt] at reached
      exact reached
  · have := array isGpt
    omega

/-! ### When the prediction is right -/

/-- **What has to hold for the prediction to be right**: there is a file, the entries fit, and, unless
the file has the size of the image, no child is written beyond what the setup expects. -/
structure Predicted (env : Env) (outputs : String → ChildOutput) (layout : Layout) : Prop where
  created : Expected env layout 1 ∨ (∃ part ∈ layout.partitions, Opens outputs part) ∨
    layout.hd.tableType ≠ .none ∨ layout.hd.fill = true
  parts : layout.Whole ∨ ∀ part ∈ layout.partitions, ∀ image, part.image = some image →
    ¬ Skips (outputs image) part → insertSize (outputs image) part ≠ 0 →
    Expected env layout (childStop (outputs image) part)
  entries : EntriesFit layout

/-- The children of a file that has not the size of the image. -/
theorem partial_parts (accepted : hdimageSetup env config = .ok layout)
    (possible : Possible outputs layout) (part : ¬ layout.Whole) :
    (∀ write ∈ partsWrites outputs layout layout.partitions,
      write.data ≠ [] → write.span.stop ≤ layout.fileSize.toNat) ↔
    ∀ part ∈ layout.partitions, ∀ image, part.image = some image →
      ¬ Skips (outputs image) part → insertSize (outputs image) part ≠ 0 →
      Expected env layout (childStop (outputs image) part) := by
  simp only [← fileSize_reaches accepted part]
  constructor
  · intro ends part member
    exact childWrites_stop.mp fun write listed => ends write (childWrites_subset member write listed)
  · intro ends write member
    obtain ⟨part, among, rest, ebr | child⟩ := mem_partsWrites member
    · intro _
      obtain ⟨logical, span⟩ := ebrWrites_span ebr
      rw [span, (possible.parts part among).ebr_stop logical]
      exact (fileSize_reaches accepted ‹_› _).mpr (Or.inr ⟨part, among, Or.inl ⟨logical, le_rfl⟩⟩)
    · exact childWrites_stop.mpr (ends part among) write child

theorem within_iff (noWrap : NoWrap env config) (accepted : hdimageSetup env config = .ok layout)
    (possible : Possible outputs layout) (holds : ChildrenFit outputs layout) :
    Within outputs layout ↔ Predicted env outputs layout := by
  have table : layout.Whole → layout.hd.tableType ≠ .none ∨ layout.hd.fill = true := by
    rintro (fill | ⟨gpt, _⟩)
    · exact Or.inr fill
    · refine Or.inl fun none => ?_
      rw [none] at gpt
      cases gpt
  by_cases whole : layout.Whole
  · obtain ⟨parts, tables⟩ := whole_within noWrap accepted possible holds whole
    constructor
    · intro within
      exact ⟨Or.inr (Or.inr (table whole)), Or.inl whole, within.entries⟩
    · intro predicted
      exact ⟨Or.inr (Or.inr (table whole)), parts, tables, predicted.entries⟩
  · have tables := partial_tables accepted possible whole
    have parts := partial_parts accepted possible whole
    have nonempty : layout.fileSize ≠ 0 ↔ Expected env layout 1 :=
      toNat_pos.symm.trans (fileSize_reaches accepted whole 1)
    constructor
    · rintro ⟨created, written, _, entries⟩
      exact ⟨created.imp_left nonempty.mp, Or.inr (parts.mp written), entries⟩
    · rintro ⟨created, expected, entries⟩
      exact ⟨created.imp_left nonempty.mpr, parts.mpr (expected.resolve_left whole), tables, entries⟩

/-- **The size of the file is the predicted one exactly when** every write ends within it, which,
where no sum wraps, is when the setup could expect what is written. -/
theorem hdimageGenerate_size_iff (accepted : hdimageSetup env config = .ok layout)
    (reliable : os.Reliable) (possible : Possible outputs layout)
    (holds : ChildrenFit outputs layout) :
    (SizeAgrees os outputs layout world ↔ Within outputs layout) ∧
    (NoWrap env config →
      (SizeAgrees os outputs layout world ↔ Predicted env outputs layout)) := by
  have within : SizeAgrees os outputs layout world ↔ Within outputs layout :=
    sizeAgrees_iff accepted reliable possible holds
  exact ⟨within, fun noWrap => within.trans (within_iff noWrap accepted possible holds)⟩

/-- A file of three bytes, known at setup. -/
def rootEnv : Env :=
  { Env.bare with imageGet := fun image =>
      if image = "root.img" then some ⟨"root.img", "root", 3, []⟩ else none }

/-- The same file when it is written. -/
def rootOutput : ChildOutput := { ChildOutput.wholeFile [1, 2, 3] with size := 3 }

/-- One partition of two sectors with that image. -/
def rootConfig (fill : Bool) : HdimageConfig where
  partitions := [{ title := "root", size := 1024, fill := fill, image := "root.img" }]

/-- The elements that `rootConfig` leaves: the partition, and the area of the table. -/
def IsRoot (fill : Bool) (part : Partition) : Prop :=
  part.logical = false ∧ (part.image = none ∨ part.image = some "root.img" ∧ part.offset = 512 ∧
    part.size = 1024 ∧ part.imageoffset = 0 ∧ part.fill = fill)

instance (fill : Bool) (part : Partition) : Decidable (IsRoot fill part) :=
  inferInstanceAs (Decidable (_ ∧ _))

theorem exists_root (fill : Bool) : ∃ layout, hdimageSetup rootEnv (rootConfig fill) = .ok layout ∧
    (layout.hd.tableType = .mbr ∧ layout.fileSize = 515) ∧
    (∀ part ∈ layout.partitions, IsRoot fill part) ∧
    ∃ part ∈ layout.partitions, part.image = some "root.img" := by
  obtain ⟨layout, accepted, facts⟩ := exists_layout rootEnv (rootConfig fill)
    (fun layout => decide (layout.hd.tableType = .mbr ∧ layout.fileSize = 515) &&
      decide (∀ part ∈ layout.partitions, IsRoot fill part) &&
      layout.partitions.any fun part => part.image = some "root.img")
    (by revert fill; decide +kernel)
  simp only [Bool.and_eq_true, decide_eq_true_eq, List.any_eq_true] at facts
  exact ⟨layout, accepted, facts.1.1, facts.1.2, facts.2⟩

namespace IsRoot

variable {fill : Bool} {part : Partition}

theorem given_fields (root : IsRoot fill part) {image : String} (given : part.image = some image) :
    part.image = some "root.img" ∧ part.offset = 512 ∧ part.size = 1024 ∧
      part.imageoffset = 0 ∧ part.fill = fill := by
  obtain ⟨_, none | fields⟩ := root
  · rw [none] at given
    cases given
  · exact fields

theorem image_eq (root : IsRoot fill part) {image : String} (given : part.image = some image) :
    part.image = some "root.img" := (root.given_fields given).1

theorem fields (root : IsRoot fill part) {image : String} (given : part.image = some image) :
    part.offset = 512 ∧ part.size = 1024 ∧ part.imageoffset = 0 ∧ part.fill = fill :=
  (root.given_fields given).2

theorem insertSize_eq (root : IsRoot fill part) {image : String} (given : part.image = some image) :
    insertSize rootOutput part = if fill then 1024 else 3 := by
  obtain ⟨_, size, imageoffset, filled⟩ := root.fields given
  rw [insertSize, filled, size, imageoffset]
  rfl

theorem childHolds (root : IsRoot fill part) {image : String} (given : part.image = some image) :
    ChildHolds rootOutput part := by
  obtain ⟨_, size, imageoffset, _⟩ := root.fields given
  constructor
  · rw [imageoffset]
    decide
  · rw [imageoffset, size]
    decide

theorem writable (root : IsRoot fill part) : Writable (fun _ => rootOutput) hd part := by
  refine ⟨fun logical => ?_, fun image given _ => ⟨⟨rfl, fun size => ⟨_, rfl⟩⟩,
    ChildOutput.wholeFile_mapped [1, 2, 3], ?_, ?_⟩⟩
  · rw [root.1] at logical
    cases logical
  · rw [root.insertSize_eq given, (root.fields given).2.2.1]
    cases fill <;> decide
  · rw [root.insertSize_eq given, (root.fields given).1]
    cases fill <;> decide

end IsRoot

theorem exists_root_possible (fill : Bool) : ∃ layout,
    hdimageSetup rootEnv (rootConfig fill) = .ok layout ∧
    Possible (fun _ => rootOutput) layout ∧ ChildrenFit (fun _ => rootOutput) layout ∧
    (layout.hd.tableType = .mbr ∧ layout.fileSize = 515) ∧
    (∀ part ∈ layout.partitions, IsRoot fill part) ∧
    ∃ part ∈ layout.partitions, part.image = some "root.img" := by
  obtain ⟨layout, accepted, ⟨mbr, size⟩, roots, part, member, given⟩ := exists_root fill
  refine ⟨layout, accepted, ⟨fun part member => (roots part member).writable, ?_, fun gpt => ?_⟩,
    fun part member image given _ => (roots part member).childHolds given, ⟨mbr, size⟩,
    roots, part, member, given⟩
  · rw [size]
    decide
  · rw [mbr] at gpt
    cases gpt

/-- The setup predicts the three bytes of the image, but the whole partition is written. -/
theorem hdimageGenerate_size_filled : ∃ layout,
    hdimageSetup rootEnv (rootConfig true) = .ok layout ∧ Os.calm.Reliable ∧
      Possible (fun _ => rootOutput) layout ∧ ChildrenFit (fun _ => rootOutput) layout ∧
      ¬ SizeAgrees .calm (fun _ => rootOutput) layout ⟨none, 0, 0, 0⟩ := by
  obtain ⟨layout, accepted, possible, holds, ⟨_, size⟩, roots, part, member, given⟩ :=
    exists_root_possible true
  have root := roots part member
  refine ⟨layout, accepted, Os.calm_reliable, possible, holds, fun agrees => ?_⟩
  have within := (sizeAgrees_iff accepted Os.calm_reliable possible holds).mp agrees
  have stop := childWrites_stop.mp
    (fun write listed => within.parts write (childWrites_subset member write listed)) _ given
    (fun skips => absurd skips.1 (by decide)) (by rw [root.insertSize_eq given]; decide)
  rw [childStop, root.insertSize_eq given, (root.fields given).1, size] at stop
  exact absurd stop (by decide)

theorem hdimageGenerate_size_iff_root : ∃ layout,
    hdimageSetup rootEnv (rootConfig false) = .ok layout ∧
      SizeAgrees .calm (fun _ => rootOutput) layout ⟨none, 0, 0, 0⟩ := by
  obtain ⟨layout, accepted, possible, holds, ⟨mbr, _⟩, roots, _⟩ := exists_root_possible false
  refine ⟨layout, accepted, ((hdimageGenerate_size_iff accepted Os.calm_reliable possible holds).2
    (by decide +kernel)).mpr ⟨?_, Or.inr ?_, fun gpt => ?_⟩⟩
  · exact Or.inr (Or.inr (Or.inl (by rw [mbr]; decide)))
  · intro part member image given _ _
    have root := roots part member
    obtain ⟨offset, _, imageoffset, _⟩ := root.fields given
    refine Or.inr ⟨part, member, Or.inr ⟨⟨"root.img", "root", 3, []⟩, ?_, ?_⟩⟩
    · rw [root.image_eq given]
      rfl
    · rw [childStop, root.insertSize_eq given, offset, imageoffset]
      decide
  · rw [mbr] at gpt
    cases gpt

end Genimage
