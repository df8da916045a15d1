/-
**The GPT headers point at what is written.**

The writers use byte offsets, the headers say sectors, and nothing rounds one to the other:
`gpt-location` and the image size are compared with sectors nowhere, or without stopping.
`GptPointers` says of a file that its headers lead to the arrays and to the backup, and
`hdimageInsertGpt_pointers_iff` when they do.
-/

import Genimage.Hdimage.GptFile

namespace Genimage

open Library Effect

/-! ### The property and the condition -/

/-- **The backup is where the headers say.** -/
structure BackupPointers (layout : Layout) (entries : List GptPartitionEntry) (file : File) :
    Prop where
  place : 512 * backupLbaAt file 512 = layout.size.toNat - 512
  header : file.slice (512 * backupLbaAt file 512) 92 =
    (backupHeader layout.hd layout.size layout.partitions entries).bytes
  own : currentLbaAt file (512 * backupLbaAt file 512) = backupLbaAt file 512
  array : 512 * startingLbaAt file (512 * backupLbaAt file 512) = layout.size.toNat - 16896
  table : file.slice (512 * startingLbaAt file (512 * backupLbaAt file 512)) 16384 =
    tableBytes entries
  crc : tableCrcAt file (512 * backupLbaAt file 512) = tableCrcAt file 512
  ends : file.length = layout.size.toNat

/-- **The array and the backup are where the headers say**: the array has been written at
`gpt-location`, the backup up to the end of the image. -/
structure GptPointers (layout : Layout) (entries : List GptPartitionEntry) (file : File) : Prop where
  array : 512 * startingLbaAt file 512 = layout.hd.gptLocation.toNat
  table : file.slice (512 * startingLbaAt file 512) 16384 = tableBytes entries
  backup : layout.hd.gptNoBackup = false → BackupPointers layout entries file

/-- **`gpt-location` and the image size are whole sectors**, the size where there is a backup. -/
structure WholeGpt (env : Env) (config : HdimageConfig) : Prop where
  location : 512 ∣ config.options.gptLocation.toNat
  size : config.options.gptNoBackup = false →
    ∀ size, outputSize env config.size = .ok size → 512 ∣ size.toNat

/-! ### The numbers -/

section Places

variable {layout : Layout} {entries : List GptPartitionEntry} {front : List MbrPartitionEntry}
  {contents : File}

variable (separate : GptSeparate layout.hd layout.size)
  (written : GptWritten layout.hd layout.size layout.partitions contents entries front)

include separate written

/-- **The backup is found exactly when** the image is whole sectors. -/
theorem backupPointers_iff (kept : layout.hd.gptNoBackup = false) :
    BackupPointers layout entries
        (gptFile layout.hd layout.size layout.partitions entries front contents) ↔
      512 ∣ layout.size.toNat := by
  have room := separate.backup kept
  obtain ⟨table, header, length⟩ := gptFile_backup separate written kept
  have primary := gptFile_primary separate written
  generalize gptFile layout.hd layout.size layout.partitions entries front contents = file at *
  obtain ⟨_, backup, _, _, _, crc⟩ := headerFields primary
  have backupLba : backupLbaAt file 512 = layout.size.toNat / 512 - 1 := by
    rw [backup]
    show (if layout.hd.gptNoBackup then (1 : UInt64) else layout.size / 512 - 1).toNat = _
    rw [kept, if_neg Bool.false_ne_true]
    exact toNat_sector_sub (show 512 * 1 ≤ layout.size.toNat by omega)
  constructor
  · intro pointers
    have place := pointers.place
    rw [backupLba] at place
    omega
  · intro whole
    have place : 512 * backupLbaAt file 512 = layout.size.toNat - 512 := by
      rw [backupLba]
      omega
    rw [← place] at header
    obtain ⟨current, _, _, _, starting, crc'⟩ := headerFields header
    have array : 512 * startingLbaAt file (512 * backupLbaAt file 512) =
        layout.size.toNat - 16896 := by
      rw [starting]
      have behind : (layout.size / 512 - gptSectors).toNat = layout.size.toNat / 512 - 33 :=
        toNat_sector_sub (show 512 * 33 ≤ layout.size.toNat by omega)
      show 512 * (layout.size / 512 - gptSectors).toNat = _
      rw [behind]
      omega
    refine ⟨place, header, ?_, array, ?_, ?_, length⟩
    · rw [current, backupLba]
      exact toNat_sector_sub (show 512 * 1 ≤ layout.size.toNat by omega)
    · rw [array]
      exact table
    · rw [crc, crc']
      rfl

/-- **The headers lead to the arrays and to the backup exactly when** the places are whole sectors. -/
theorem gptPointers_iff : GptPointers layout entries
      (gptFile layout.hd layout.size layout.partitions entries front contents) ↔
    512 ∣ layout.hd.gptLocation.toNat ∧
      (layout.hd.gptNoBackup = false → 512 ∣ layout.size.toNat) := by
  obtain ⟨_, _, _, _, starting, _⟩ := headerFields (gptFile_primary separate written)
  have array := gptFile_array separate written
  have location : 512 * startingLbaAt
      (gptFile layout.hd layout.size layout.partitions entries front contents) 512 =
      layout.hd.gptLocation.toNat ↔ 512 ∣ layout.hd.gptLocation.toNat := by
    rw [starting]
    show 512 * (layout.hd.gptLocation / 512).toNat = _ ↔ _
    rw [toNat_sector]
    omega
  constructor
  · intro pointers
    exact ⟨location.mp pointers.array,
      fun kept => (backupPointers_iff separate written kept).mp (pointers.backup kept)⟩
  · rintro ⟨whole, size⟩
    have place := location.mpr whole
    refine ⟨place, ?_, fun kept => (backupPointers_iff separate written kept).mpr (size kept)⟩
    rw [place]
    exact array

end Places

/-! ### The run -/

/-- **The GPT headers point at what is written exactly when** `gpt-location` is whole sectors and, if a
backup is written, the image size is. -/
theorem hdimageInsertGpt_pointers_iff {env : Env} {config : HdimageConfig} {layout : Layout}
    {os : Os} {fault : Prop} {world : World} (accepted : hdimageSetup env config = .ok layout)
    (gpt : layout.hd.tableType.hasGpt = true) (whole : os.Whole)
    (safe : fault ∨ GptUnhindered layout.hd layout.size layout.partitions os world.contents) :
    Ensures fault (hdimageInsertGpt os layout.hd layout.size layout.partitions) world
      fun _ next => ∃ entries, gptTable layout.partitions = .ok entries ∧
        (GptPointers layout entries next.contents ↔ WholeGpt env config) := by
  obtain ⟨given, listed, backup, sized, areas⟩ := gptAreas accepted gpt
  obtain ⟨prepared, _, _, ready, _, finished⟩ := hdimageSetup_ok accepted
  refine (hdimageInsertGpt_ensures whole rfl safe).mono ?_
  rintro _ next ⟨entries, front, written, holds⟩
  obtain ⟨separate, size⟩ := areas.separate written
  have location : 512 ∣ layout.hd.gptLocation.toNat ↔ 512 ∣ config.options.gptLocation.toNat := by
    rw [finished.hd_eq, ready.gptLocation_eq]
    split_ifs with zero
    · rw [zero]
      decide
    · rfl
  refine ⟨entries, written.table, ?_⟩
  rw [holds.contents, gptPointers_iff separate written, location]
  have same : layout.hd.gptNoBackup = config.options.gptNoBackup := by
    rw [finished.hd_eq, ready.gptNoBackup_eq]
  rw [same] at size ⊢
  constructor
  · rintro ⟨location, image⟩
    refine ⟨location, fun kept other sized' => ?_⟩
    rw [sized, Except.ok.injEq] at sized'
    rw [← sized']
    exact (size kept).mp (image kept)
  · intro condition
    exact ⟨condition.location, fun kept => (size kept).mpr (condition.size kept given sized)⟩

/-- A GPT array that does not begin at a sector. -/
def shiftedConfig : HdimageConfig where
  size := 1048576
  options := { partitionTableType := "gpt", gptLocation := 4000 }
  partitions := [{ title := "root", size := 65536 }]

theorem exists_shifted : ∃ layout, hdimageSetup .bare shiftedConfig = .ok layout ∧
    layout.hd.tableType.hasGpt = true ∧ layout.hd.gptLocation = 4000 ∧
    GptUnhindered layout.hd layout.size layout.partitions .calm .empty := by
  obtain ⟨layout, accepted, facts⟩ := exists_layout .bare shiftedConfig
    (fun layout => layout.hd.tableType.hasGpt && layout.hd.gptLocation = 4000 && layout.roomForGpt)
    (by decide +kernel)
  simp only [Bool.and_eq_true, decide_eq_true_eq] at facts
  exact ⟨layout, accepted, facts.1.1, facts.1.2, Layout.unhindered facts.2⟩

/-- The header says sector 7, and the array begins 416 bytes behind it. -/
theorem hdimageInsertGpt_misses : ∃ layout next entries,
    hdimageSetup .bare shiftedConfig = .ok layout ∧
      Returns (hdimageInsertGpt .calm layout.hd layout.size layout.partitions)
        ⟨some .empty, 0, 0, 0⟩ () next ∧
      gptTable layout.partitions = .ok entries ∧ ¬ GptPointers layout entries next.contents := by
  obtain ⟨layout, accepted, gpt, location, free⟩ := exists_shifted
  obtain ⟨_, _, _, _, areas⟩ := gptAreas accepted gpt
  have run : Ensures False (hdimageInsertGpt .calm layout.hd layout.size layout.partitions)
      ⟨some .empty, 0, 0, 0⟩ _ :=
    hdimageInsertGpt_ensures Os.calm_reliable.whole rfl (Or.inr free)
  obtain ⟨_, next, returned, entries, front, written, holds⟩ := run.returns
  refine ⟨layout, next, entries, accepted, returned, written.table, fun pointers => ?_⟩
  rw [holds.contents, gptPointers_iff (areas.separate written).1 written, location] at pointers
  exact absurd pointers.1 (by decide)

theorem hdimageInsertGpt_pointers_iff_shifted : ∃ layout,
    hdimageSetup .bare shiftedConfig = .ok layout ∧
      Ensures False (hdimageInsertGpt .calm layout.hd layout.size layout.partitions)
        ⟨some .empty, 0, 0, 0⟩ fun _ next => ∃ entries, gptTable layout.partitions = .ok entries ∧
          (GptPointers layout entries next.contents ↔ WholeGpt .bare shiftedConfig) := by
  obtain ⟨layout, accepted, gpt, _, free⟩ := exists_shifted
  exact ⟨layout, accepted, hdimageInsertGpt_pointers_iff accepted gpt Os.calm_reliable.whole
    (Or.inr free)⟩

end Genimage
