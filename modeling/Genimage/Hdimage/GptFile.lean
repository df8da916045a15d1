/-
**The file behind `hdimage_insert_gpt`.**

`gptFile` is the file that the writes leave, one after the other, and `hdimageInsertGpt_ensures` says
that they leave it. `GptSeparate` says that none of them touches what another has written, so that each
header and each array can be read back from its place (`gptFile_primary`, `gptFile_array`,
`gptFile_backup`); an accepted configuration has its areas so (`GptAreas.separate`).
-/

import Genimage.Hdimage.Areas
import Genimage.Hdimage.Tables
import Genimage.Util.FileSpecs

namespace Genimage

open Library Effect

/-! ### The numbers of a header -/

/-- **The numbers of a header are read from their places.** -/
theorem GptHeader.fields (header : GptHeader) :
    field header.bytes 24 8 = header.currentLba.toNat ∧
    field header.bytes 32 8 = header.backupLba.toNat ∧
    field header.bytes 40 8 = header.firstUsableLba.toNat ∧
    field header.bytes 48 8 = header.lastUsableLba.toNat ∧
    field header.bytes 72 8 = header.startingLba.toNat ∧
    field header.bytes 88 4 = header.tableCrc.toNat := by
  rw [← List.append_nil header.bytes]
  have uuid := header.diskUuid.2
  refine ⟨?_, ?_, ?_, ?_, ?_, ?_⟩
  · exact (field_block [_, _, _, _, _] (by simp) (length_leBytes 8 _)).trans
      (leValue_leBytes_uint64 _)
  · exact (field_block [_, _, _, _, _, _] (by simp) (length_leBytes 8 _)).trans
      (leValue_leBytes_uint64 _)
  · exact (field_block [_, _, _, _, _, _, _] (by simp) (length_leBytes 8 _)).trans
      (leValue_leBytes_uint64 _)
  · exact (field_block [_, _, _, _, _, _, _, _] (by simp) (length_leBytes 8 _)).trans
      (leValue_leBytes_uint64 _)
  · exact (field_block [_, _, _, _, _, _, _, _, _, _] (by simp [uuid]) (length_leBytes 8 _)).trans
      (leValue_leBytes_uint64 _)
  · exact (field_block [_, _, _, _, _, _, _, _, _, _, _, _, _] (by simp [uuid])
      (length_leBytes 4 _)).trans (leValue_leBytes_uint32 _)

/-- A number of the GPT header that begins at `place`. -/
def headerField (file : File) (place offset width : Nat) : Nat :=
  field (file.slice place 92) offset width

/-- `current_lba` of the header at `place`. -/
def currentLbaAt (file : File) (place : Nat) : Nat := headerField file place 24 8

/-- `backup_lba` of the header at `place`. -/
def backupLbaAt (file : File) (place : Nat) : Nat := headerField file place 32 8

/-- `first_usable_lba` of the header at `place`. -/
def firstUsableLbaAt (file : File) (place : Nat) : Nat := headerField file place 40 8

/-- `last_usable_lba` of the header at `place`. -/
def lastUsableLbaAt (file : File) (place : Nat) : Nat := headerField file place 48 8

/-- `starting_lba` of the header at `place`. -/
def startingLbaAt (file : File) (place : Nat) : Nat := headerField file place 72 8

/-- `table_crc` of the header at `place`. -/
def tableCrcAt (file : File) (place : Nat) : Nat := headerField file place 88 4

/-- **A header that is in the file, read number by number.** -/
theorem headerFields {file : File} {place : Nat} {header : GptHeader}
    (written : file.slice place 92 = header.bytes) :
    currentLbaAt file place = header.currentLba.toNat ∧
    backupLbaAt file place = header.backupLba.toNat ∧
    firstUsableLbaAt file place = header.firstUsableLba.toNat ∧
    lastUsableLbaAt file place = header.lastUsableLba.toNat ∧
    startingLbaAt file place = header.startingLba.toNat ∧
    tableCrcAt file place = header.tableCrc.toNat := by
  simp only [currentLbaAt, backupLbaAt, firstUsableLbaAt, lastUsableLbaAt, startingLbaAt, tableCrcAt,
    headerField, written]
  exact header.fields

/-- The sector number of a byte offset. -/
theorem toNat_sector (offset : UInt64) : (offset / 512).toNat = offset.toNat / 512 :=
  UInt64.toNat_div _ _

/-- A sector number from the end of the image. -/
theorem toNat_sector_sub {size count : UInt64} (room : 512 * count.toNat ≤ size.toNat) :
    (size / 512 - count).toNat = size.toNat / 512 - count.toNat := by
  rw [toNat_sub_of_le (by rw [toNat_sector]; omega), toNat_sector]

/-! ### The writes -/

section Writes

variable (hd : Hdimage) (size : UInt64) (partitions : List Partition)

/-- The list that the entries of the MBR in front of a GPT come from. -/
def frontPartitions : List Partition :=
  if hd.tableType = .hybrid then partitions else [protectivePartition size]

/-- The file with the backup. -/
def backedUp (entries : List GptPartitionEntry) (contents : File) : File :=
  if hd.gptNoBackup then contents
  else ((contents.truncate size.toNat).pwrite (size - backupSize).toNat (tableBytes entries)).pwrite
    (size - 512).toNat (backupHeader hd size partitions entries).bytes

/-- The file with the header and the array. -/
def withArray (entries : List GptPartitionEntry) (contents : File) : File :=
  (contents.pwrite 512 (primaryHeader hd size partitions entries).bytes).pwrite
    hd.gptLocation.toNat (tableBytes entries)

/-- **The file that `hdimage_insert_gpt` leaves.** -/
def gptFile (entries : List GptPartitionEntry) (front : List MbrPartitionEntry) (contents : File) :
    File :=
  (backedUp hd size partitions entries (withArray hd size partitions entries contents)).pwrite 440
    (mbrTail hd.disksig front)

/-- **What holds when `hdimage_insert_gpt` has returned.** -/
structure GptWritten (contents : File) (entries : List GptPartitionEntry)
    (front : List MbrPartitionEntry) : Prop where
  table : gptTable partitions = .ok entries
  front : mbrEntries hd (frontPartitions hd size partitions) = .ok front
  array : hd.gptLocation.toNat < offLimit
  backup : hd.gptNoBackup = false →
    (withArray hd size partitions entries contents).length ≤ size.toNat ∧
      (size - backupSize).toNat < offLimit

/-- **Every step of `hdimage_insert_gpt` can be carried out**: no call fails, the entries fit into their
tables, the array ends at a file offset, and the file can be extended to the image. -/
structure GptCarried (os : Os) (contents : File) : Prop where
  reliable : os.Reliable
  table : ∃ entries, gptTable partitions = .ok entries
  front : ∃ entries, mbrEntries hd (frontPartitions hd size partitions) = .ok entries
  array : hd.gptLocation.toNat + 16384 < offLimit
  backup : hd.gptNoBackup = false → 16896 ≤ size.toNat ∧ size.toNat < offLimit ∧
    ∀ entries, gptTable partitions = .ok entries →
      (withArray hd size partitions entries contents).length ≤ size.toNat

/-- **Nothing stops `hdimage_insert_gpt`**: no call fails, the entries fit into their tables, the array
lies behind the header, and the file and the array end inside the image. -/
structure GptUnhindered (os : Os) (contents : File) : Prop where
  reliable : os.Reliable
  table : ∃ entries, gptTable partitions = .ok entries
  front : ∃ entries, mbrEntries hd (frontPartitions hd size partitions) = .ok entries
  header : 1024 ≤ hd.gptLocation.toNat
  array : hd.gptLocation.toNat + 16384 ≤ size.toNat
  file : contents.length ≤ size.toNat
  small : size.toNat < offLimit

end Writes

section Ensures

variable {os : Os} {fault : Prop} {world : World} {contents : File} {hd : Hdimage} {size : UInt64}
  {partitions : List Partition}

theorem hdimageInsertMbr_ensures (whole : os.Whole) (same : world.contents = contents)
    (safe : fault ∨ (os.Reliable ∧ ∃ entries, mbrEntries hd partitions = .ok entries)) :
    Ensures fault (hdimageInsertMbr os hd partitions) world fun _ next => ∃ entries,
      mbrEntries hd partitions = .ok entries ∧
        Holds os next (contents.pwrite 440 (mbrTail hd.disksig entries)) := by
  unfold hdimageInsertMbr
  split
  next error stored =>
    rw [ensures_throw]
    refine safe.resolve_right fun both => ?_
    obtain ⟨_, entries, stored'⟩ := both
    rw [stored] at stored'
    cases stored'
  next entries stored =>
    have length : (mbrTail hd.disksig entries).length = 72 := length_mbrTail (mbrEntries_ok.mp stored).2
    refine (insertData_whole whole same (safe.imp_right fun both => ⟨both.1, ?_⟩)).mono ?_
    · rw [length]
      decide
    · intro _ next both
      exact ⟨entries, stored, both.2⟩

theorem insertFrontMbr_ensures (whole : os.Whole) (same : world.contents = contents)
    (safe : fault ∨ (os.Reliable ∧
      ∃ entries, mbrEntries hd (frontPartitions hd size partitions) = .ok entries)) :
    Ensures fault (insertFrontMbr os hd size partitions) world fun _ next => ∃ entries,
      mbrEntries hd (frontPartitions hd size partitions) = .ok entries ∧
        Holds os next (contents.pwrite 440 (mbrTail hd.disksig entries)) := by
  unfold insertFrontMbr frontPartitions at *
  split_ifs at safe ⊢
  · exact hdimageInsertMbr_ensures whole same safe
  · exact hdimageInsertMbr_ensures whole same safe

/-- The backup is written behind the end of the file. -/
theorem insertBackup_ensures {entries : List GptPartitionEntry} (few : entries.length ≤ gptEntries)
    (whole : os.Whole) (same : world.contents = contents)
    (safe : fault ∨ (os.Reliable ∧ 16896 ≤ size.toNat ∧ size.toNat < offLimit ∧
      contents.length ≤ size.toNat)) :
    Ensures fault (insertBackup os hd size partitions entries) world fun _ next =>
      contents.length ≤ size.toNat ∧ (size - backupSize).toNat < offLimit ∧
      Holds os next (((contents.truncate size.toNat).pwrite (size - backupSize).toNat
        (tableBytes entries)).pwrite (size - 512).toNat
          (backupHeader hd size partitions entries).bytes) := by
  have array : 16896 ≤ size.toNat → (size - backupSize).toNat = size.toNat - 16896 :=
    fun room => toNat_sub_of_le room
  have header : 16896 ≤ size.toNat → (size - 512).toNat = size.toNat - 512 :=
    fun room => toNat_sub_of_le ((show (512 : UInt64).toNat ≤ 16896 by decide).trans room)
  refine (extendFile_ensures same (safe.imp_right fun all => ⟨all.1, all.2.2.1, all.2.2.2⟩)).bind ?_
  intro _ extended both
  refine (insertData_whole whole both.2.contents ?_).bind ?_
  · refine safe.imp_right fun ⟨reliable, room, small, _⟩ => ⟨reliable, ?_⟩
    rw [length_tableBytes few]
    have := array room
    unfold backupSize at this
    omega
  · intro _ middle stored
    refine (insertData_whole whole stored.2.contents ?_).mono ?_
    · refine safe.imp_right fun ⟨reliable, room, small, _⟩ => ⟨reliable, ?_⟩
      rw [GptHeader.length_bytes, header room]
      omega
    · intro _ next written
      exact ⟨both.1, stored.1, written.2⟩

/-- The file with the header and the array ends with the array, or where it did. -/
theorem length_withArray {entries : List GptPartitionEntry} (stored : gptTable partitions = .ok entries) :
    (withArray hd size partitions entries contents).length =
      max (max contents.length 604) (hd.gptLocation.toNat + 16384) := by
  have table := length_tableBytes (gptTable_ok.mp stored).2
  have header := GptHeader.length_bytes (primaryHeader hd size partitions entries)
  rw [withArray, File.length_pwrite (by intro none; rw [none] at table; cases table), table,
    File.length_pwrite (by intro none; rw [none] at header; cases header), header]

theorem GptUnhindered.carried (free : GptUnhindered hd size partitions os contents) :
    GptCarried hd size partitions os contents := by
  have header := free.header
  have array := free.array
  have file := free.file
  have small := free.small
  refine ⟨free.reliable, free.table, free.front, array.trans_lt small, fun _ => ⟨by omega, small, ?_⟩⟩
  intro entries stored
  rw [length_withArray stored]
  omega

/-- **What `hdimage_insert_gpt` leaves when it returns**, and when it returns. -/
theorem hdimageInsertGpt_carried (whole : os.Whole) (same : world.contents = contents)
    (safe : fault ∨ GptCarried hd size partitions os contents) :
    Ensures fault (hdimageInsertGpt os hd size partitions) world fun _ next => ∃ entries front,
      GptWritten hd size partitions contents entries front ∧
        Holds os next (gptFile hd size partitions entries front contents) := by
  unfold hdimageInsertGpt
  split
  next error stored =>
    rw [ensures_throw]
    refine safe.resolve_right fun free => ?_
    obtain ⟨entries, stored'⟩ := free.table
    rw [stored] at stored'
    cases stored'
  next entries stored =>
    have few := (gptTable_ok.mp stored).2
    have table := length_tableBytes few
    refine (insertData_whole whole same ?_).bind ?_
    · refine safe.imp_right fun free => ⟨free.reliable, ?_⟩
      rw [GptHeader.length_bytes]
      decide
    intro _ first header
    refine (insertData_whole whole header.2.contents ?_).bind ?_
    · refine safe.imp_right fun free => ⟨free.reliable, ?_⟩
      rw [table]
      exact free.array
    intro _ second array
    have front : fault ∨ (os.Reliable ∧
        ∃ entries, mbrEntries hd (frontPartitions hd size partitions) = .ok entries) :=
      safe.imp_right fun free => ⟨free.reliable, free.front⟩
    split
    next without =>
      refine (insertFrontMbr_ensures whole array.2.contents front).mono ?_
      rintro _ next ⟨entries', stored', holds⟩
      refine ⟨entries, entries', ⟨stored, stored', array.1, fun kept => ?_⟩, ?_⟩
      · rw [without] at kept
        cases kept
      · rw [gptFile, backedUp, if_pos without]
        exact holds
    next kept =>
      have safe' : fault ∨ (os.Reliable ∧ 16896 ≤ size.toNat ∧ size.toNat < offLimit ∧
          (withArray hd size partitions entries contents).length ≤ size.toNat) := by
        refine safe.imp_right fun free => ?_
        obtain ⟨room, small, file⟩ := free.backup (Bool.not_eq_true _ ▸ kept)
        exact ⟨free.reliable, room, small, file entries stored⟩
      refine (insertBackup_ensures few whole array.2.contents safe').bind ?_
      intro _ third backed
      refine (insertFrontMbr_ensures whole backed.2.2.contents front).mono ?_
      rintro _ next ⟨entries', stored', holds⟩
      refine ⟨entries, entries', ⟨stored, stored', array.1, fun _ => ⟨backed.1, backed.2.1⟩⟩, ?_⟩
      rw [gptFile, backedUp, if_neg kept]
      exact holds

theorem hdimageInsertGpt_ensures (whole : os.Whole) (same : world.contents = contents)
    (safe : fault ∨ GptUnhindered hd size partitions os contents) :
    Ensures fault (hdimageInsertGpt os hd size partitions) world fun _ next => ∃ entries front,
      GptWritten hd size partitions contents entries front ∧
        Holds os next (gptFile hd size partitions entries front contents) :=
  hdimageInsertGpt_carried whole same (safe.imp_right GptUnhindered.carried)

end Ensures

/-- The part of `GptUnhindered` that looks at the layout alone. -/
def Layout.roomForGpt (layout : Layout) : Bool :=
  layout.partitions.countP (·.inPartitionTable) ≤ gptEntries &&
  (frontPartitions layout.hd layout.size layout.partitions).countP (inMbr layout.hd) +
    (if layout.hd.tableType = .hybrid then 1 else 0) ≤ 4 &&
  1024 ≤ layout.hd.gptLocation.toNat &&
  layout.hd.gptLocation.toNat + 16384 ≤ layout.size.toNat && layout.size.toNat < offLimit

/-- An empty file on a calm system. -/
theorem Layout.unhindered {layout : Layout} (room : layout.roomForGpt = true) :
    GptUnhindered layout.hd layout.size layout.partitions .calm .empty := by
  simp only [Layout.roomForGpt, Bool.and_eq_true, decide_eq_true_eq] at room
  obtain ⟨⟨⟨⟨few, front⟩, header⟩, array⟩, small⟩ := room
  refine ⟨Os.calm_reliable, ⟨_, gptTable_ok.mpr ⟨rfl, ?_⟩⟩, mbrEntries_exists front, header, array,
    Nat.zero_le _, small⟩
  rwa [List.length_map, ← List.countP_eq_length_filter]

/-! ### What is read back -/

section Read

variable {hd : Hdimage} {size : UInt64} {partitions : List Partition}
  {entries : List GptPartitionEntry} {front : List MbrPartitionEntry} {contents : File}

/-- **The places that are written are apart**: in front of them the MBR and the header, then the array,
and the backup ends with the image. -/
structure GptSeparate (hd : Hdimage) (size : UInt64) : Prop where
  header : 1024 ≤ hd.gptLocation.toNat
  backup : hd.gptNoBackup = false → hd.gptLocation.toNat + 16384 + 16896 ≤ size.toNat

namespace GptSeparate

theorem array_offset (separate : GptSeparate hd size) (kept : hd.gptNoBackup = false) :
    (size - backupSize).toNat = size.toNat - 16896 := by
  have := separate.backup kept
  exact toNat_sub_of_le (show 16896 ≤ size.toNat by omega)

theorem header_offset (separate : GptSeparate hd size) (kept : hd.gptNoBackup = false) :
    (size - 512).toNat = size.toNat - 512 := by
  have := separate.backup kept
  exact toNat_sub_of_le (show 512 ≤ size.toNat by omega)

end GptSeparate

/-- Making a file longer leaves its bytes. -/
theorem slice_truncate {file : File} {length start count : Nat} (longer : file.length ≤ length) :
    (file.truncate length).slice start count = file.slice start count := by
  rw [File.slice, File.truncate_byte longer, File.slice]

section Written

variable (separate : GptSeparate hd size)
  (written : GptWritten hd size partitions contents entries front)

include separate written

/-- The backup and the MBR leave what lies in front of the backup and behind the MBR. -/
theorem gptFile_slice {start count : Nat} (behind : 512 ≤ start)
    (before : start + count ≤ hd.gptLocation.toNat + 16384) :
    (gptFile hd size partitions entries front contents).slice start count =
      (withArray hd size partitions entries contents).slice start count := by
  have tail : (mbrTail hd.disksig front).length = 72 :=
    length_mbrTail (mbrEntries_ok.mp written.front).2
  rw [gptFile, File.slice_pwrite_apart (by omega), backedUp]
  split
  next => rfl
  next kept =>
    have kept := Bool.not_eq_true _ ▸ kept
    have room := separate.backup kept
    have array := separate.array_offset kept
    have header := separate.header_offset kept
    rw [File.slice_pwrite_apart (by omega), File.slice_pwrite_apart (by omega),
      slice_truncate (written.backup kept).1]

theorem gptFile_array :
    (gptFile hd size partitions entries front contents).slice hd.gptLocation.toNat 16384 =
      tableBytes entries := by
  have := separate.header
  rw [gptFile_slice separate written (by omega) le_rfl, withArray,
    ← length_tableBytes (gptTable_ok.mp written.table).2, File.slice_pwrite_self]

theorem gptFile_primary :
    (gptFile hd size partitions entries front contents).slice 512 92 =
      (primaryHeader hd size partitions entries).bytes := by
  have := separate.header
  rw [gptFile_slice separate written le_rfl (by omega), withArray,
    File.slice_pwrite_apart (by omega), ← GptHeader.length_bytes, File.slice_pwrite_self]

/-- **The backup is at the end of the image.** -/
theorem gptFile_backup (kept : hd.gptNoBackup = false) :
    (gptFile hd size partitions entries front contents).slice (size.toNat - 16896) 16384 =
        tableBytes entries ∧
      (gptFile hd size partitions entries front contents).slice (size.toNat - 512) 92 =
        (backupHeader hd size partitions entries).bytes ∧
      (gptFile hd size partitions entries front contents).length = size.toNat := by
  have room := separate.backup kept
  have table := length_tableBytes (gptTable_ok.mp written.table).2
  have tail : (mbrTail hd.disksig front).length = 72 :=
    length_mbrTail (mbrEntries_ok.mp written.front).2
  rw [gptFile, backedUp, if_neg (by simp [kept]), separate.array_offset kept,
    separate.header_offset kept]
  refine ⟨?_, ?_, ?_⟩
  · rw [File.slice_pwrite_apart (by omega), File.slice_pwrite_apart (by omega), ← table,
      File.slice_pwrite_self]
  · rw [File.slice_pwrite_apart (by omega), ← GptHeader.length_bytes, File.slice_pwrite_self]
  · rw [File.length_pwrite (by intro none; rw [none] at tail; cases tail), tail,
      File.length_pwrite (by intro none; simpa using congrArg List.length none),
      GptHeader.length_bytes,
      File.length_pwrite (by intro none; rw [none] at table; cases table), table,
      File.length_truncate]
    omega

end Written

/-- **What has been written is apart.** The file is no longer than the image, so the sums do not
wrap, and `check_overlap` has compared the areas. -/
theorem GptAreas.separate {layout : Layout} {given : UInt64} {listed : List Partition}
    {backup : Partition} (areas : GptAreas given layout listed backup)
    (written : GptWritten layout.hd layout.size layout.partitions contents entries front) :
    GptSeparate layout.hd layout.size ∧ (layout.hd.gptNoBackup = false →
      (512 ∣ layout.size.toNat ↔ 512 ∣ given.toNat)) := by
  have limit : offLimit = 2 ^ 63 := rfl
  have location := written.array
  have behind := areas.location_ge (by omega)
  have table := length_tableBytes (gptTable_ok.mp written.table).2
  have nonempty : tableBytes entries ≠ [] := by
    intro none
    rw [none] at table
    cases table
  have room : layout.hd.gptNoBackup = false →
      layout.hd.gptLocation.toNat + 16384 ≤ layout.size.toNat := by
    intro kept
    have inside := (written.backup kept).1
    rw [withArray, File.length_pwrite nonempty, table] at inside
    exact (le_max_right _ _).trans inside
  have ends : layout.hd.gptNoBackup = false → backup.partitionEnd = layout.size ∧
      (512 ∣ layout.size.toNat ↔ 512 ∣ given.toNat) := by
    intro kept
    have inside := room kept
    have small := (written.backup kept).2
    have whole : (layout.size - backupSize).toNat = layout.size.toNat - 16896 :=
      toNat_sub_of_le (show 16896 ≤ layout.size.toNat by omega)
    have other : given ≠ backupSize := by
      intro same
      rw [areas.size_given (by rw [same]; decide), same,
        show backupSize.toNat = 16896 from rfl] at inside
      omega
    exact areas.backup_end other
      (areas.backup_end_ne_zero other (toNat_pos.mp (by omega)) (by omega))
  refine ⟨⟨behind, fun kept => ?_⟩, fun kept => (ends kept).2⟩
  have inside := room kept
  have size := (ends kept).1
  have fits : layout.hd.gptLocation.toNat + 16384 < 2 ^ 64 := by omega
  have stop : (gptArrayArea layout.hd.gptLocation).partitionEnd.toNat =
      layout.hd.gptLocation.toNat + 16384 := toNat_add_of_lt fits
  have offset : backup.offset.toNat = layout.size.toNat - 16896 := by
    have : backup.offset = layout.size - backupSize := by
      rw [← size, Partition.partitionEnd, areas.backup_size, UInt64.add_sub_cancel]
    rw [this]
    exact toNat_sub_of_le (show 16896 ≤ layout.size.toNat by omega)
  rcases areas.backup_apart with after | before
  · have := UInt64.le_iff_toNat_le.mp after
    rw [stop, offset] at this
    omega
  · have := UInt64.le_iff_toNat_le.mp before
    rw [size] at this
    omega

end Read

end Genimage
