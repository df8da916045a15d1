/-
**Setup and generate on the size of the file.**

The output file is created with `hd->file_size` bytes, and every write can only make it longer, so the
comparison at the end of `hdimage_generate` is one of each write with the prediction of the setup.
-/

import Genimage.Hdimage.GenerateFile
import Genimage.Hdimage.Tables

namespace Genimage

open Library Effect

variable {env : Env} {os : Os} {fault : Prop} {world : World} {contents : File} {layout : Layout}
  {outputs : String → ChildOutput} {config : HdimageConfig}

/-! ### The tables -/

/-- Where the writes of the tables end; a GPT with a backup also extends the file to the image. -/
def tableStops (layout : Layout) : List Nat :=
  if layout.hd.tableType = .none then []
  else if layout.hd.tableType.hasGpt then
    512 :: 604 :: (layout.hd.gptLocation.toNat + 16384) ::
      (if layout.hd.gptNoBackup then [] else [layout.size.toNat])
  else [512]

/-- The entries fit into the table of a GPT. -/
def EntriesFit (layout : Layout) : Prop :=
  layout.hd.tableType.hasGpt = true →
    layout.partitions.countP (·.inPartitionTable) ≤ gptEntries

/-- The file ends within `limit` exactly when it did and the tables do. -/
def EndsBehind (stops : List Nat) (before after : File) : Prop :=
  ∀ limit, after.length ≤ limit ↔ before.length ≤ limit ∧ ∀ stop ∈ stops, stop ≤ limit

/-- The MBR holds its entries. -/
theorem mbrEntries_accepted (accepted : hdimageSetup env config = .ok layout)
    (mbr : layout.hd.tableType.hasMbr = true) :
    ∃ entries, mbrEntries layout.hd layout.partitions = .ok entries := by
  refine mbrEntries_exists ?_
  cases type : layout.hd.tableType with
  | none =>
    rw [type] at mbr
    cases mbr
  | gpt =>
    rw [type] at mbr
    cases mbr
  | mbr => exact countP_mbr accepted type
  | hybrid => exact Nat.add_le_add_right (countP_hybrid accepted type) 1

/-- The MBR in front of a GPT holds its entries. -/
theorem frontEntries_accepted (accepted : hdimageSetup env config = .ok layout) :
    ∃ entries, mbrEntries layout.hd
      (frontPartitions layout.hd layout.size layout.partitions) = .ok entries := by
  unfold frontPartitions
  split
  next hybrid => exact mbrEntries_accepted accepted (by rw [hybrid]; rfl)
  next other =>
    refine mbrEntries_exists ?_
    rw [if_neg other]
    exact List.countP_le_length.trans (show 1 ≤ 4 by decide)

/-- **The length behind a GPT.** -/
theorem length_gptFile {entries : List GptPartitionEntry} {front : List MbrPartitionEntry}
    (separate : GptSeparate layout.hd layout.size)
    (written : GptWritten layout.hd layout.size layout.partitions contents entries front)
    (gpt : layout.hd.tableType.hasGpt = true) :
    EndsBehind (tableStops layout) contents
      (gptFile layout.hd layout.size layout.partitions entries front contents) := by
  have behind := separate.header
  have array : (withArray layout.hd layout.size layout.partitions entries contents).length =
      max (max contents.length 604) (layout.hd.gptLocation.toNat + 16384) :=
    length_withArray written.table
  have table : layout.hd.tableType ≠ .none := by
    intro none
    rw [none] at gpt
    cases gpt
  have tail : (mbrTail layout.hd.disksig front).length = 72 :=
    length_mbrTail (mbrEntries_ok.mp written.front).2
  intro limit
  cases kept : layout.hd.gptNoBackup with
  | false =>
    have inside := (written.backup kept).1
    rw [(gptFile_backup separate written kept).2.2, tableStops, if_neg table, if_pos gpt, kept]
    simp
    omega
  | true =>
    rw [gptFile, backedUp, if_pos kept, File.length_pwrite (by intro none; rw [none] at tail; cases tail),
      tail, array, tableStops, if_neg table, if_pos gpt, kept]
    simp
    omega

/-- **The tables**: what they need is that the entries fit and that they end within the image. -/
theorem insertTables_ensures (accepted : hdimageSetup env config = .ok layout)
    (reliable : os.Reliable) (same : world.contents = contents)
    (array : layout.hd.tableType.hasGpt = true →
      layout.hd.gptLocation.toNat + 16384 < offLimit)
    (safe : fault ∨ (EntriesFit layout ∧ (layout.hd.tableType.hasGpt = true →
      layout.hd.gptNoBackup = false → layout.size.toNat < offLimit ∧
        contents.length ≤ layout.size.toNat ∧
        layout.hd.gptLocation.toNat + 16384 ≤ layout.size.toNat))) :
    Ensures fault (insertTables os layout) world fun _ next =>
      EntriesFit layout ∧ EndsBehind (tableStops layout) contents next.contents ∧
        (next.file.isSome ↔ world.file.isSome ∨ layout.hd.tableType ≠ .none) := by
  unfold insertTables
  split_ifs with none gpt
  · rw [ensures_pure]
    refine ⟨fun gpt => ?_, fun limit => ?_, by simp [none]⟩
    · rw [none] at gpt
      cases gpt
    · rw [tableStops, if_pos none, same]
      simp
  · obtain ⟨_, _, _, _, areas⟩ := gptAreas accepted gpt
    have addressed := array gpt
    have behind := areas.location_ge (addressed.trans (by decide))
    refine (hdimageInsertGpt_carried reliable.whole same (safe.imp_right fun both => ?_)).mono ?_
    · obtain ⟨fit, room⟩ := both
      refine ⟨reliable, ⟨_, gptTable_ok.mpr ⟨rfl, ?_⟩⟩, frontEntries_accepted accepted, addressed, ?_⟩
      · rw [List.length_map, ← List.countP_eq_length_filter]
        exact fit gpt
      · intro kept
        obtain ⟨small, file, inside⟩ := room gpt kept
        refine ⟨by omega, small, fun entries stored => ?_⟩
        rw [length_withArray stored]
        omega
    · rintro _ next ⟨entries, front, written, holds⟩
      obtain ⟨separate, _⟩ := areas.separate written
      refine ⟨fun _ => ?_, ?_, iff_of_true (holds.present reliable.2) (Or.inr none)⟩
      · obtain ⟨listed, few⟩ := gptTable_ok.mp written.table
        rwa [listed, List.length_map, ← List.countP_eq_length_filter] at few
      · rw [holds.contents]
        exact length_gptFile separate written gpt
  · have mbr : layout.hd.tableType.hasMbr = true := by
      cases type : layout.hd.tableType with
      | none => exact absurd type none
      | mbr => rfl
      | gpt | hybrid =>
        rw [type] at gpt
        exact absurd rfl gpt
    refine (hdimageInsertMbr_ensures reliable.whole same
      (Or.inr ⟨reliable, mbrEntries_accepted accepted mbr⟩)).mono ?_
    rintro _ next ⟨entries, stored, holds⟩
    refine ⟨fun given => absurd given gpt, fun limit => ?_,
      iff_of_true (holds.present reliable.2) (Or.inr none)⟩
    have tail : (mbrTail layout.hd.disksig entries).length = 72 :=
      length_mbrTail (mbrEntries_ok.mp stored).2
    rw [holds.contents, tableStops, if_neg none, if_neg gpt,
      File.length_pwrite (by intro none; rw [none] at tail; cases tail), tail]
    simp

/-! ### The whole run -/

/-- The check at the end of a regular file. -/
theorem checkFileSize_ensures {fileSize : UInt64} (reliable : os.Reliable)
    (safe : fault ∨ (world.file.isSome ∧ world.contents.length = fileSize.toNat ∧
      fileSize.toNat < offLimit)) :
    Ensures fault (checkFileSize os fileSize) world fun _ next =>
      next.file = world.file ∧ world.file.isSome ∧ world.contents.length = fileSize.toNat := by
  have limit : offLimit = 2 ^ 63 := rfl
  unfold checkFileSize
  rw [reliable.2, if_neg Bool.false_ne_true]
  refine Sys.statOut_ensures.bind fun length next answer => ?_
  obtain ⟨kept, found⟩ := answer
  rcases found with ⟨rfl, failed⟩ | ⟨rfl, present, small⟩
  · simp only [Sys.throwErrno_ensures]
    refine safe.resolve_right fun all => ?_
    obtain ⟨present, same, small⟩ := all
    refine failed ⟨reliable.willing, present, ?_⟩
    rwa [same]
  · have word : (UInt64.ofNat world.contents.length).toNat = world.contents.length :=
      UInt64.toNat_ofNat_of_lt' (small.trans (by decide))
    simp only
    split
    next other =>
      rw [ensures_throw]
      refine safe.resolve_right fun all => other ?_
      rw [← UInt64.toNat_inj, word, all.2.1]
    next same =>
      rw [ensures_pure]
      refine ⟨kept, present, ?_⟩
      rw [not_not.mp same, word]

/-- The end of `hdimage_generate` on a regular file. -/
theorem closing_ensures {fileSize : UInt64} {tableType : TableType} (reliable : os.Reliable)
    (safe : fault ∨ (world.file.isSome ∧ world.contents.length = fileSize.toNat ∧
      fileSize.toNat < offLimit)) :
    Ensures fault (do
      checkFileSize os fileSize
      if tableType ≠ .none then reloadPartitions os) world fun _ next =>
      (∃ out, next.file = some out ∧ out.length = fileSize.toNat) ∧ world.file.isSome ∧
        world.contents.length = fileSize.toNat := by
  refine (checkFileSize_ensures reliable safe).bind fun _ checked ⟨kept, present, exact⟩ => ?_
  obtain ⟨out, found⟩ := Option.isSome_iff_exists.mp present
  have result : ∃ out, checked.file = some out ∧ out.length = fileSize.toNat := by
    refine ⟨out, kept.trans found, ?_⟩
    rw [← exact, World.contents, found, Option.getD_some]
  have reload : reloadPartitions os = pure () := by
    rw [reloadPartitions, reliable.2, if_neg Bool.false_ne_true]
  rw [reload, ite_self, ensures_pure]
  exact ⟨result, present, exact⟩

/-- **The calls that `hdimage_generate` makes can be carried out.** -/
structure Possible (outputs : String → ChildOutput) (layout : Layout) : Prop where
  parts : ∀ part ∈ layout.partitions, Writable outputs layout.hd part
  file : layout.fileSize.toNat < offLimit
  array : layout.hd.tableType.hasGpt = true → layout.hd.gptLocation.toNat + 16384 < offLimit

/-- **Every child fits its partition** with the size that it has when it is written. -/
def ChildrenFit (outputs : String → ChildOutput) (layout : Layout) : Prop :=
  ∀ part ∈ layout.partitions, ∀ image, part.image = some image →
    ¬ Skips (outputs image) part → ChildHolds (outputs image) part

/-- **Every write ends within the predicted size**, there is a file, and the entries fit. -/
structure Within (outputs : String → ChildOutput) (layout : Layout) : Prop where
  created : layout.fileSize ≠ 0 ∨ (∃ part ∈ layout.partitions, Opens outputs part) ∨
    layout.hd.tableType ≠ .none ∨ layout.hd.fill = true
  parts : ∀ write ∈ partsWrites outputs layout layout.partitions,
    write.data ≠ [] → write.span.stop ≤ layout.fileSize.toNat
  tables : ∀ stop ∈ tableStops layout, stop ≤ layout.fileSize.toNat
  entries : EntriesFit layout

/-- **The run ends with the predicted size**: `hdimage_generate` returns, and the file has
`hd->file_size` bytes. -/
def SizeAgrees (os : Os) (outputs : String → ChildOutput) (layout : Layout) (world : World) : Prop :=
  ∃ final, Returns (hdimageGenerate os outputs layout) world () final ∧
    ∃ out, final.file = some out ∧ out.length = layout.fileSize.toNat

/-- The predicted size is the size of the image when it is filled or has a backup. -/
theorem fileSize_image (accepted : hdimageSetup env config = .ok layout)
    (whole : layout.hd.fill = true ∨
      (layout.hd.tableType.hasGpt = true ∧ layout.hd.gptNoBackup = false)) :
    layout.fileSize = layout.size := by
  obtain ⟨_, _, _, _, _, finished⟩ := hdimageSetup_ok accepted
  rw [finished.fileSize_eq, ← finished.hd_eq]
  exact if_pos (whole.imp_right fun both => ⟨both.1, by rw [both.2]; decide⟩)

/-- **The file behind the tables**: how far it reaches, and when it is there. -/
structure Tabled (outputs : String → ChildOutput) (layout : Layout) (world : World) : Prop where
  ends : ∀ limit, world.contents.length ≤ limit ↔ (layout.fileSize.toNat ≤ limit ∧
    (∀ write ∈ partsWrites outputs layout layout.partitions,
      write.data ≠ [] → write.span.stop ≤ limit)) ∧ ∀ stop ∈ tableStops layout, stop ≤ limit
  created : world.file.isSome ↔ (layout.fileSize ≠ 0 ∨
    ∃ part ∈ layout.partitions, Opens outputs part) ∨ layout.hd.tableType ≠ .none
  entries : EntriesFit layout

namespace Tabled

variable {tabled filled : World}

theorem reached (state : Tabled outputs layout tabled) :
    layout.fileSize.toNat ≤ tabled.contents.length := ((state.ends _).mp le_rfl).1.1

/-- Where everything ends within the predicted size, the file has it. -/
theorem length_eq (state : Tabled outputs layout tabled) (within : Within outputs layout) :
    tabled.contents.length = layout.fileSize.toNat :=
  le_antisymm ((state.ends _).mpr ⟨⟨le_rfl, within.parts⟩, within.tables⟩) state.reached

/-- A file of the right size has everything within it. -/
theorem within (state : Tabled outputs layout tabled)
    (longer : tabled.contents.length ≤ filled.contents.length)
    (there : filled.file.isSome → tabled.file.isSome ∨ layout.hd.fill = true)
    (found : filled.file.isSome) (exact : filled.contents.length = layout.fileSize.toNat) :
    Within outputs layout := by
  have inside := (state.ends layout.fileSize.toNat).mp (longer.trans exact.le)
  refine ⟨?_, inside.1.2, inside.2, state.entries⟩
  rcases there found with present | fill
  · rcases state.created.mp present with (nonempty | opened) | table
    · exact Or.inl nonempty
    · exact Or.inr (Or.inl opened)
    · exact Or.inr (Or.inr (Or.inl table))
  · exact Or.inr (Or.inr (Or.inr fill))

end Tabled

/-- **The run up to the tables.** -/
theorem tables_ensures (accepted : hdimageSetup env config = .ok layout)
    (reliable : os.Reliable) (possible : Possible outputs layout)
    (holds : ChildrenFit outputs layout) (safe : fault ∨ Within outputs layout) :
    Ensures fault (do
      prepareImage os layout.fileSize
      generateParts os outputs layout layout.partitions
      insertTables os layout) world fun _ tabled => Tabled outputs layout tabled := by
  have file := possible.file
  refine (prepareImage_ensures reliable.2 (Or.inr ⟨reliable, file⟩)).bind fun _ fresh prepared => ?_
  have prepared := prepared (Or.inl reliable)
  have length : fresh.contents.length = layout.fileSize.toNat := by
    rw [World.contents, prepared]
    split_ifs with zero
    · rw [zero]
      rfl
    · rfl
  have present : fresh.file.isSome ↔ layout.fileSize ≠ 0 := by
    rw [prepared]
    split_ifs with zero
    · simp [zero]
    · simp [zero]
  refine (generateParts_ensures reliable rfl (by omega) possible.parts (Or.inr holds)).bind ?_
  rintro _ middle ⟨written, opened⟩
  have parts : ∀ limit, middle.contents.length ≤ limit ↔ layout.fileSize.toNat ≤ limit ∧
      ∀ write ∈ partsWrites outputs layout layout.partitions,
        write.data ≠ [] → write.span.stop ≤ limit := by
    intro limit
    rw [written, File.length_writes_le_iff, length]
  refine (insertTables_ensures accepted reliable rfl possible.array (safe.imp_right ?_)).mono ?_
  · intro within
    refine ⟨within.entries, fun gpt kept => ?_⟩
    have same := fileSize_image accepted (Or.inr ⟨gpt, kept⟩)
    have stops := within.tables
    rw [← same]
    refine ⟨file, (parts _).mpr ⟨le_rfl, within.parts⟩, stops _ ?_⟩
    rw [tableStops, if_neg (by intro none; rw [none] at gpt; cases gpt), if_pos gpt]
    simp
  · rintro _ tabled ⟨entries, ends, opened'⟩
    refine ⟨fun limit => ?_, ?_, entries⟩
    · rw [ends limit, parts limit]
    · rw [opened', opened, present]

/-- **What `hdimage_generate` ensures**: it returns when everything ends within the predicted size, and
then only. -/
theorem hdimageGenerate_ensures (accepted : hdimageSetup env config = .ok layout)
    (reliable : os.Reliable) (possible : Possible outputs layout)
    (holds : ChildrenFit outputs layout) (safe : fault ∨ Within outputs layout) :
    Ensures fault (hdimageGenerate os outputs layout) world fun _ final =>
      Within outputs layout ∧ ∃ out, final.file = some out ∧ out.length = layout.fileSize.toNat := by
  have steps : hdimageGenerate os outputs layout = (do
      (do
        prepareImage os layout.fileSize
        generateParts os outputs layout layout.partitions
        insertTables os layout)
      if layout.hd.fill then extendFile os layout.size
      (do
        checkFileSize os layout.fileSize
        if layout.hd.tableType ≠ .none then reloadPartitions os)) := by
    simp only [hdimageGenerate, bind_assoc]
  rw [steps]
  refine (tables_ensures accepted reliable possible holds safe).bind fun _ tabled state => ?_
  have file := possible.file
  cases fill : layout.hd.fill with
  | false =>
    have safe' : fault ∨ (tabled.file.isSome ∧ tabled.contents.length = layout.fileSize.toNat ∧
        layout.fileSize.toNat < offLimit) := by
      refine safe.imp_right fun within => ⟨?_, state.length_eq within, file⟩
      refine state.created.mpr ?_
      rcases within.created with nonempty | opened | table | filled
      · exact Or.inl (Or.inl nonempty)
      · exact Or.inl (Or.inr opened)
      · exact Or.inr table
      · rw [fill] at filled
        cases filled
    refine (closing_ensures reliable safe').mono ?_
    rintro _ final ⟨result, found, exact⟩
    exact ⟨state.within le_rfl Or.inl found exact, result⟩
  | true =>
    have same := fileSize_image accepted (Or.inl fill)
    have room : fault ∨ (os.Reliable ∧ layout.size.toNat < offLimit ∧
        tabled.contents.length ≤ layout.size.toNat) := by
      refine safe.imp_right fun within => ⟨reliable, ?_, ?_⟩
      · rwa [← same]
      · rw [← same]
        exact (state.length_eq within).le
    refine (extendFile_ensures rfl room).bind fun _ filled ⟨le, extended⟩ => ?_
    have length : filled.contents.length = layout.fileSize.toNat := by
      rw [extended.contents, File.length_truncate, same]
    refine (closing_ensures reliable (Or.inr ⟨extended.present reliable.2, length, file⟩)).mono ?_
    rintro _ final ⟨result, found, exact⟩
    refine ⟨state.within ?_ (fun _ => Or.inr fill) found exact, result⟩
    rw [length, same]
    exact le

/-- **The sizes agree exactly when** every write ends within the predicted size. -/
theorem sizeAgrees_iff (accepted : hdimageSetup env config = .ok layout) (reliable : os.Reliable)
    (possible : Possible outputs layout) (holds : ChildrenFit outputs layout) :
    SizeAgrees os outputs layout world ↔ Within outputs layout := by
  constructor
  · rintro ⟨final, run, _⟩
    exact ((hdimageGenerate_ensures accepted reliable possible holds (Or.inl trivial)).of_returns
      run).1
  · intro within
    obtain ⟨_, final, run, _, result⟩ :=
      (hdimageGenerate_ensures accepted reliable possible holds (Or.inr within)).returns
    exact ⟨final, run, result⟩

end Genimage
