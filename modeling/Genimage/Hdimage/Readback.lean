/-
**A finished disk, read through its partition table.**

The tables are written behind the partitions, the extended boot records between them, so a reader of
the finished disk meets the tables and the children as they have been written only if none of the
writes hits another one. `hdimageGenerate_mbr_reads` and `hdimageGenerate_gpt_reads` go the way of a
reader: from the first sector to the boot records, from a GPT header to its array, and from an entry
to the bytes of the partition.
-/

import Genimage.Hdimage.Contents
import Genimage.Hdimage.EbrChain
import Genimage.Hdimage.GptEntries
import Genimage.Hdimage.GptPointers

namespace Genimage

open Library Effect

/-- **The range of the disk is the partition**: what is copied from its image, and zeros behind it. -/
structure RangeIs (child : ChildOutput) (part : Partition) (file : File) (start stop : Nat) : Prop where
  stop : stop = start + part.size.toNat
  byte : ∀ i < part.size.toNat, file.byte (start + i) = if i < copiedSize child part
    then (child.contents.getD .empty).byte (part.imageoffset.toNat + i) else 0

/-- A partition that holds its child and has zeros behind it. -/
theorem HoldsChild.rangeIs {child : ChildOutput} {part : Partition} {file : File}
    (holds : HoldsChild child part file) (zeros : ZerosBehind child part file) {start stop : Nat}
    (first : start = part.offset.toNat) (last : stop = part.span.stop) :
    RangeIs child part file start stop := by
  subst first
  refine ⟨last, fun i inside => ?_⟩
  split_ifs with copied
  · exact holds.bytes i copied
  · exact zeros i (not_lt.mp copied) inside

/-! ### Readers of two files -/

section Congr

variable {file other : File}

/-- **A chain is read in every file that has the same boot records**; by induction on the chain. -/
theorem EbrChain.congr {base sector : ℕ} {parts : List SeenPartition}
    (same : ∀ sector, Signed file sector → sectorTable other sector = sectorTable file sector)
    (chain : EbrChain file base sector parts) : EbrChain other base sector parts := by
  have entry : ∀ {sector}, Signed file sector → ∀ i,
      sectorEntry other sector i = sectorEntry file sector i := by
    intro sector signed i
    rw [sectorEntry, same sector signed, sectorEntry]
  have record : ∀ {sector}, Signed file sector → Signed other sector := by
    intro sector signed
    rwa [Signed, same sector signed]
  induction chain with
  | last signed none =>
    rw [← entry signed] at none ⊢
    exact .last (record signed) none
  | next signed more _ ih =>
    rw [← entry signed] at more ih ⊢
    exact .next (record signed) more ih

/-- **A disk is read in every file with the same first sector and boot records.** -/
theorem DiskReads.congr {primary logical : List SeenPartition}
    (first : sectorTable other 0 = sectorTable file 0)
    (same : ∀ sector, Signed file sector → sectorTable other sector = sectorTable file sector)
    (reads : DiskReads file primary logical) : DiskReads other primary logical := by
  have used : usedEntries other = usedEntries file := by
    refine congrArg (List.filter _) (List.map_congr_left fun i _ => ?_)
    rw [sectorEntry, first, sectorEntry]
  refine ⟨?_, ?_, fun entry found => ?_⟩
  · rw [used]
    exact reads.primary
  · rw [used]
    exact reads.without
  · rw [used] at found
    exact (reads.chain entry found).congr same

/-- The fields of a header are bytes of the file. -/
theorem headerField_congr (same : other.byte = file.byte) (place offset width : Nat) :
    headerField other place offset width = headerField file place offset width := by
  rw [headerField, File.slice, same, headerField, File.slice]

theorem TableDecodes.congr {partitions : List Partition} {header array : Nat}
    (same : other.byte = file.byte) (decodes : TableDecodes partitions file header array) :
    TableDecodes partitions other header array := by
  have slice : ∀ start count, other.slice start count = file.slice start count := by
    intro start count
    rw [File.slice, same, File.slice]
  refine ⟨?_, ?_, ?_⟩
  · rw [slice]
    exact decodes.entries
  · rw [tableCrcAt, headerField_congr same, slice]
    exact decodes.tableCrc
  · rw [headerCrcAt, headerField_congr same, withoutCrc, slice, slice]
    exact decodes.headerCrc

end Congr

/-! ### The boot records -/

variable {env : Env} {os : Os} {world final : World} {layout : Layout} {config : HdimageConfig}
  {outputs : String → ChildOutput} {ext : Partition}

/-- What is left where one write has been made. -/
theorem RangeLeft.slice {span : Span Nat} {file : File} {offset : Nat} {data : List UInt8}
    (left : RangeLeft os layout span [⟨offset, data⟩] file)
    (within : Span.Within ⟨offset, offset + data.length⟩ span) (skip width : Nat)
    (inside : skip + width ≤ data.length) :
    file.slice (offset + skip) width = (data.drop skip).take width := by
  obtain ⟨before, kept⟩ := left.kept
  have cut := (before.pwrite offset data).slice_drop_take offset inside
  rw [File.slice_pwrite_self] at cut
  rw [cut]
  refine List.map_congr_left fun i member => kept.byte _ ?_ ?_
  · exact within.1.trans (show offset ≤ offset + skip + i by omega)
  · have small := List.mem_range.mp member
    exact (show offset + skip + i < offset + data.length by omega).trans_le within.2

/-- Without short transfers a write is made as it is. -/
theorem insertData_makes_whole {span : Span Nat} (whole : os.Whole) (data : List UInt8)
    (offset : UInt64) : Makes span [⟨offset.toNat, data⟩] (insertData os data offset) := by
  intro world
  refine (insertData_whole whole rfl (Or.inl trivial)).mono fun _ next ⟨_, holds⟩ => ?_
  rw [holds.contents]
  exact .refl _

/-- **A boot record is written into its sector**, and the data of its partition is not. -/
theorem Laid.record_own (laid : Laid outputs layout) (whole : os.Whole) {part : Partition}
    {rest : List Partition} (member : part ∈ layout.partitions) (logical : part.logical = true) :
    Makes (part.ebrSpan layout.hd) (ebrWrites layout part rest)
      (generatePart os outputs layout part rest) := by
  have record : Makes (part.ebrSpan layout.hd) (ebrWrites layout part rest)
      (insertEbr os layout part rest) := by
    unfold insertEbr ebrWrites
    rw [if_pos logical, if_pos logical]
    exact insertData_makes_whole whole _ _
  unfold generatePart
  refine record.after fun _ => ?_
  split
  next => exact makes_pure ()
  next image given => exact laid.child_aside member given (laid.ebr_apart member logical).symm

/-- **The MBR is written into its place**, and the partitions are not. -/
theorem Laid.writeImage_mbr (laid : Laid outputs layout) (whole : os.Whole)
    (mbr : layout.hd.tableType = .mbr) (area : mbrArea ∈ layout.partitions)
    {entries : List MbrPartitionEntry}
    (stored : mbrEntries layout.hd layout.partitions = .ok entries) :
    Makes ⟨440, 512⟩ [⟨440, mbrTail layout.hd.disksig entries⟩] (writeImage os outputs layout) := by
  obtain ⟨before, after, split⟩ := List.append_of_mem area
  have regions : mbrArea.regions layout.hd = [⟨440, 512⟩] := regions_fakePartition (by decide) _ _ _
  have nothing : Makes ⟨440, 512⟩ [] (generatePart os outputs layout mbrArea after) := by
    show Makes _ _ (do
      insertEbr os layout mbrArea after
      pure ())
    rw [insertEbr, if_neg (by decide)]
    exact makes_pure ()
  have listed : (⟨440, 512⟩ : Span Nat) ∈ mbrArea.regions layout.hd := by
    rw [regions]
    exact List.mem_singleton_self _
  refine (laid.parts_own split listed nothing).before fun _ => Makes.after ?_ fun _ => ?_
  · unfold insertTables hdimageInsertMbr
    rw [mbr, if_neg (by decide), if_neg (by decide), stored]
    exact insertData_makes_whole whole _ _
  · split_ifs
    · exact extendFile_makes layout.size
    · exact makes_pure ()

/-- The entries behind the signature of the disk. -/
theorem mbrTail_table (disksig : UInt32) {entries : List MbrPartitionEntry} (few : entries.length ≤ 4) :
    ((mbrTail disksig entries).drop 6).take 66 = entryTable entries := by
  rw [mbrTail, List.drop_left' (by simp), List.take_of_length_le (length_entryTable few).le]

/-- Without an `[Extended]` element there is no logical partition. -/
theorem logical_of_not_extended (accepted : hdimageSetup env config = .ok layout)
    (none : ∀ part ∈ layout.partitions, part.node ≠ .extended) :
    ∀ part ∈ layout.partitions, part.logical = false := by
  intro part member
  obtain ⟨prepared, run, _, origins⟩ := setup_origins accepted
  obtain ⟨entered, among, origin⟩ := Related.exists_left origins member
  rw [origin.logical_eq]
  by_contra logical
  obtain ⟨front, back, split⟩ := List.append_of_mem among
  obtain ⟨_, outer, early, extended⟩ := (prepare_ok run).preceded split (by simpa using logical)
  obtain ⟨placed, inside, origin'⟩ := Related.exists_right origins
    (show outer ∈ prepared.partitions by simp [split, early])
  exact none placed inside (origin'.node_eq.trans extended)

/-- **A disk without logical partitions is read from its MBR.** -/
theorem plain_reads (accepted : hdimageSetup env config = .ok layout)
    (mbr : layout.hd.tableType = .mbr) (small : layout.size.toNat < 2 ^ 41)
    (stops : ∀ part ∈ layout.partitions, part.span.stop ≤ layout.size.toNat)
    (plain : ∀ part ∈ layout.partitions, part.node ≠ .extended) (linked : Linked layout)
    {entries : List MbrPartitionEntry} {file : File}
    (stored : mbrEntries layout.hd layout.partitions = .ok entries)
    (table : sectorTable file 0 = entryTable entries) : RecordsDecode layout file := by
  have logical := logical_of_not_extended accepted plain
  obtain ⟨listed, few⟩ := mbrEntries_ok.mp stored
  rw [if_neg (by rw [mbr]; decide), List.append_nil] at listed
  have own : layout.partitions.filter (inMbr layout.hd) = primaryPartitions layout := by
    refine List.filter_congr fun part member => ?_
    simp [plain part member]
  have seen : ∀ part ∈ primaryPartitions layout, (mbrEntry part).raw.count ≠ 0 ∧
      (mbrEntry part).raw.type ≠ partitionTypeExtended ∧ (mbrEntry part).raw.seen 0 = part.seen := by
    intro part primary
    obtain ⟨member, inside⟩ := List.mem_filter.mp (own ▸ primary)
    have inTable : part.inPartitionTable = true := by
      simp only [inMbr, Bool.and_eq_true, Bool.not_eq_true', Bool.or_eq_false_iff] at inside
      simpa using inside.1.1
    obtain ⟨_, _, origin, _⟩ := setup_entered accepted member
    obtain ⟨_, nonempty, sectors, _⟩ := origin.sized (plain part member)
    have stop : part.offset.toNat + part.size.toNat ≤ layout.size.toNat := stops part member
    have positive := toNat_pos.mpr nonempty
    have size := (sectors_exact_iff part.size).mpr ⟨sectors inTable, by omega⟩
    have offset := (sectors_exact_iff part.offset).mpr ⟨linked.sectors part member inTable, by omega⟩
    refine ⟨?_, linked.types part primary, ?_⟩
    · show (part.size / 512).toUInt32.toNat ≠ 0
      omega
    · show SeenPartition.mk (512 * (0 + (part.offset / 512).toUInt32.toNat))
        (512 * (part.size / 512).toUInt32.toNat) part.partitionType = part.seen
      rw [Nat.zero_add, Nat.mul_comm 512, offset, Nat.mul_comm 512, size]
      rfl
  have used : usedEntries file = (primaryPartitions layout).map fun part => (mbrEntry part).raw := by
    rw [usedEntries_written table few, listed, own, List.map_map, List.filter_eq_self.mpr]
    · rfl
    · intro entry member
      obtain ⟨part, primary, rfl⟩ := List.mem_map.mp member
      exact decide_eq_true (seen part primary).1
  have types : ∀ entry ∈ usedEntries file, entry.type ≠ partitionTypeExtended := by
    rw [used]
    intro entry member
    obtain ⟨part, primary, rfl⟩ := List.mem_map.mp member
    exact (seen part primary).2.1
  refine ⟨?_, fun _ => ?_, fun entry found => ?_⟩
  · rw [List.filter_eq_self.mpr fun entry member => decide_eq_true (types entry member), used,
      List.map_map]
    exact List.map_congr_left fun part primary => (seen part primary).2.2
  · rw [logicalPartitions, List.filter_eq_nil_iff.mpr fun part member => by
      simp [logical part member]]
    rfl
  · exact absurd (by simpa using List.find?_some found)
      (types entry (List.mem_of_find?_eq_some found))

/-! ### The GPT -/

/-- **The bytes that `hdimage_insert_gpt` has left**, and the length where it writes a backup. -/
structure GptLeft (layout : Layout) (file : File) : Prop where
  left : ∃ middle entries front, GptWritten layout.hd layout.size layout.partitions middle entries front ∧
    file.byte = (gptFile layout.hd layout.size layout.partitions entries front middle).byte ∧
    (layout.hd.gptNoBackup = false → file.length =
      (gptFile layout.hd layout.size layout.partitions entries front middle).length)

/-- **Nothing that comes behind `hdimage_insert_gpt` changes what it leaves.** -/
theorem writeImage_gpt (accepted : hdimageSetup env config = .ok layout) (whole : os.Whole)
    (gpt : layout.hd.tableType.hasGpt = true) (world : World) :
    Ensures True (writeImage os outputs layout) world fun _ next => GptLeft layout next.contents := by
  have table : layout.hd.tableType ≠ .none := by
    intro none
    rw [none] at gpt
    cases gpt
  obtain ⟨_, _, _, _, areas⟩ := gptAreas accepted gpt
  refine Ensures.bind (.of_forall fun _ _ => trivial) fun _ middle _ => ?_
  have insert : insertTables os layout =
      hdimageInsertGpt os layout.hd layout.size layout.partitions := by
    rw [insertTables, if_neg table, if_pos gpt]
  rw [insert]
  refine (hdimageInsertGpt_carried whole rfl (Or.inl trivial)).bind fun _ inserted found => ?_
  obtain ⟨entries, front, written, holds⟩ := found
  split_ifs with fill
  · refine (extendFile_ensures rfl (Or.inl trivial)).mono fun _ next ⟨longer, extended⟩ => ?_
    rw [holds.contents] at longer extended
    refine ⟨middle.contents, entries, front, written, ?_, fun kept => ?_⟩
    · rw [extended.contents, File.truncate_byte longer]
    · rw [extended.contents, File.length_truncate]
      exact (gptFile_backup (areas.separate written).1 written kept).2.2.symm
  · rw [ensures_pure, holds.contents]
    exact ⟨middle.contents, entries, front, written, rfl, fun _ => rfl⟩

namespace GptLeft

variable {file : File} (left : GptLeft layout file) (accepted : hdimageSetup env config = .ok layout)
  (gpt : layout.hd.tableType.hasGpt = true)

include left accepted gpt

/-- **The headers lead to the arrays**, and the last sector of the file is the backup header. -/
theorem pointers (location : 512 ∣ layout.hd.gptLocation.toNat)
    (size : layout.hd.gptNoBackup = false → 512 ∣ layout.size.toNat) :
    512 * startingLbaAt file 512 = layout.hd.gptLocation.toNat ∧
      (layout.hd.gptNoBackup = false → file.length = layout.size.toNat ∧
        512 * backupLbaAt file 512 = layout.size.toNat - 512 ∧
        512 * startingLbaAt file (layout.size.toNat - 512) = layout.size.toNat - 16896) := by
  obtain ⟨_, _, _, _, areas⟩ := gptAreas accepted gpt
  obtain ⟨middle, entries, front, written, same, length⟩ := left.left
  have pointers := (gptPointers_iff (areas.separate written).1 written).mpr ⟨location, size⟩
  rw [startingLbaAt, backupLbaAt, startingLbaAt, headerField_congr same, headerField_congr same,
    headerField_congr same]
  refine ⟨pointers.array, fun kept => ?_⟩
  have backup := pointers.backup kept
  have array := backup.array
  rw [backup.place] at array
  exact ⟨(length kept).trans backup.ends, backup.place, array⟩

/-- **The tables decode to the partitions.** -/
theorem decodes (exact_ : ∀ part ∈ layout.partitions, part.inPartitionTable = true → EntryExact part) :
    GptDecodes layout file := by
  obtain ⟨_, _, _, _, areas⟩ := gptAreas accepted gpt
  obtain ⟨middle, entries, front, written, same, _⟩ := left.left
  obtain ⟨separate, _⟩ := areas.separate written
  have ready : ∀ part ∈ layout.partitions, part.inPartitionTable = true → GptReady part :=
    fun part member inTable => (gptReady accepted gpt member inTable).2
  refine ⟨TableDecodes.congr same ?_, fun kept => TableDecodes.congr same ?_⟩
  · exact (tableDecodes_iff written.table ready (gptFile_array separate written)
      (gptFile_primary separate written) rfl).mpr exact_
  · obtain ⟨table, header, _⟩ := gptFile_backup separate written kept
    exact (tableDecodes_iff written.table ready table header rfl).mpr exact_

end GptLeft

/-! ### The finished disk -/

/-- A partition as a reader finds it on the disk, and what is there. -/
structure SeenHolds (outputs : String → ChildOutput) (file : File) (part : Partition)
    (seen : SeenPartition) : Prop where
  type : seen.type = part.partitionType
  offset : seen.offset = part.offset.toNat
  holds : ∀ image, part.image = some image →
    RangeIs (outputs image) part file seen.offset (seen.offset + seen.size)

/-- **What a reader obtains from a disk, and finds there.** -/
def DiskHolds (outputs : String → ChildOutput) (layout : Layout) (file : File) : Prop :=
  ∃ primary logical, DiskReads file primary logical ∧
    List.Forall₂ (SeenHolds outputs file) (primaryPartitions layout) primary ∧
    List.Forall₂ (SeenHolds outputs file) (logicalPartitions layout) logical

/-- An entry of a GPT, and what is on the disk from its first sector to its last one. -/
structure EntryHolds (outputs : String → ChildOutput) (file : File) (part : Partition)
    (entry : GptEntryRead) : Prop extends EntryOf part entry where
  holds : ∀ image, part.image = some image →
    RangeIs (outputs image) part file (512 * entry.firstLba) (512 * (entry.lastLba + 1))

/-- **What a reader obtains from the header at `header`, and finds there**: the table that it points at
has the partitions, and the checksums are right. -/
structure GptHolds (outputs : String → ChildOutput) (layout : Layout) (file : File) (header : Nat) :
    Prop where
  entries : List.Forall₂ (EntryHolds outputs file) (tablePartitions layout.partitions)
    (readGptTable (file.slice (512 * startingLbaAt file header) 16384))
  tableCrc : tableCrcAt file header =
    (crc32Bits (file.slice (512 * startingLbaAt file header) 16384)).toNat
  headerCrc : headerCrcAt file header = (crc32Bits (withoutCrc file header)).toNat

section Run

variable (holeless : env.Holeless) (noWrap : NoWrap env config)
  (accepted : hdimageSetup env config = .ok layout) (promise : ∀ image, (outputs image).Mapped)
  (filled : ∀ part ∈ layout.partitions, part.fill = true →
    part.imageoffset.toNat + part.size.toNat < 2 ^ 64)
  (run : Returns (hdimageGenerate os outputs layout) world () final)

include holeless noWrap accepted promise filled run

/-- **The tables of the finished disk decode to the partition list.** -/
theorem recordsDecode_final (whole : os.Whole) (mbr : layout.hd.tableType = .mbr)
    (small : layout.size.toNat < 2 ^ 41) (linked : Linked layout) :
    RecordsDecode layout final.contents := by
  have laid := laid_of_setup holeless noWrap accepted promise filled
  have stops := (hdimageSetup_overlaps noWrap accepted).stops
  obtain ⟨entries, stored⟩ := mbrEntries_accepted accepted (by rw [mbr]; rfl)
  obtain ⟨listed, few⟩ := mbrEntries_ok.mp stored
  have area := (setup_areas accepted).1 (by rw [mbr]; decide)
  have tail : (mbrTail layout.hd.disksig entries).length = 72 := length_mbrTail few
  have front : RangeLeft os layout ⟨440, 512⟩ [⟨440, mbrTail layout.hd.disksig entries⟩]
      final.contents :=
    (hdimageGenerate_range (laid.writeImage_mbr whole mbr area stored) world).of_returns run
  have table : sectorTable final.contents 0 = entryTable entries := by
    rw [← mbrTail_table layout.hd.disksig few]
    refine front.slice ⟨le_rfl, ?_⟩ 6 66 (by rw [tail])
    rw [tail]
  by_cases extended : ∃ part ∈ layout.partitions, part.node = .extended
  · obtain ⟨ext, records⟩ := setup_ebrLayout accepted extended (setup_recordsInside accepted mbr le_rfl
      fun part member => Partition.limited_of_stop le_rfl ((stops part member).trans (by omega)))
    have sectors : ∀ part ∈ layout.partitions, part.logical = true → 512 ∣ part.offset.toNat :=
      fun part member logical => linked.sectors part member (records.table part member logical)
    have decodes := (records.recordsDecode_iff small stored
      (fun first found => setup_first records accepted found) (setup_offset_dvd accepted)).mpr linked
    have first : sectorTable final.contents 0 = sectorTable (recordFile layout entries) 0 := by
      rw [table, EbrLayout.mbr_written layout few]
    refine decodes.congr first fun sector signed => ?_
    rcases Nat.eq_zero_or_pos sector with rfl | positive
    · exact first
    obtain ⟨before, part, rest, split, logical, place⟩ :=
      records.signed_record few sectors positive signed
    have member : part ∈ layout.partitions := by simp [split]
    have offset : (part.offset.toNat - layout.hd.align.toNat) / 512 = sector := by omega
    have written := records.sector_written few split logical (sectors part member logical)
    have length := length_entryTable ((length_ebrEntries layout.hd
      (extendedOffset layout.partitions) part rest).trans (by decide))
    have own := rangeLeft_own holeless noWrap accepted promise filled run split
      (laid.parsed part member (Or.inl logical)) ((laid.mem_regions member).1 logical)
      (laid.record_own whole member logical)
    rw [ebrWrites, if_pos logical, records.record_place member logical] at own
    have room := (records.record_behind member logical).2
    have start : (part.offset - layout.hd.align).toNat =
        part.offset.toNat - layout.hd.align.toNat := toNat_sub_of_le room
    rw [offset] at written
    rw [written, sectorTable, show 512 * sector = part.offset.toNat - layout.hd.align.toNat by omega]
    refine (own.slice ⟨?_, ?_⟩ 0 66 (by rw [length])).trans ?_
    · show (part.offset - layout.hd.align).toNat ≤ _
      rw [start]
      exact Nat.le_add_right _ _
    · show _ ≤ (part.offset - layout.hd.align).toNat + 512
      rw [start, length]
    · rw [List.drop_zero, List.take_of_length_le length.le]
  · push Not at extended
    exact plain_reads accepted mbr small stops extended linked stored table

end Run

/-! ### Two disks -/

/-- What makes the run for a disk with the three bytes of `rootOutput` go through. -/
def RunsRoot (layout : Layout) : Prop :=
  (∀ part ∈ layout.partitions, part.logical = false ∧ part.fill = false ∧
    (part.image.isSome → part.imageoffset = 0 ∧ 3 ≤ part.size ∧
      part.offset.toNat + 3 ≤ layout.fileSize.toNat)) ∧
  (layout.fileSize ≠ 0 ∧ layout.fileSize.toNat < offLimit ∧
    layout.hd.gptLocation.toNat + 16384 < offLimit) ∧
  (∀ stop ∈ tableStops layout, stop ≤ layout.fileSize.toNat) ∧
  layout.partitions.countP (·.inPartitionTable) ≤ gptEntries

instance (layout : Layout) : Decidable (RunsRoot layout) :=
  inferInstanceAs (Decidable (_ ∧ _))

theorem RunsRoot.returns (runs : RunsRoot layout) (accepted : hdimageSetup env config = .ok layout) :
    ∃ final, Returns (hdimageGenerate .calm (fun _ => rootOutput) layout) ⟨none, 0, 0, 0⟩ () final := by
  obtain ⟨parts, ⟨nonempty, small, array⟩, tables, few⟩ := runs
  have size : ∀ part ∈ layout.partitions, ∀ image, part.image = some image →
      insertSize rootOutput part = 3 := by
    intro part member image given
    obtain ⟨_, fill, data⟩ := parts part member
    rw [insertSize, if_neg (by simp [fill]), (data (by rw [given]; rfl)).1]
    rfl
  have possible : Possible (fun _ => rootOutput) layout := by
    refine ⟨fun part member => ?_, small, fun _ => array⟩
    obtain ⟨primary, _, data⟩ := parts part member
    refine ⟨fun logical => ?_, fun image given _ => ?_⟩
    · rw [primary] at logical
      cases logical
    · obtain ⟨imageoffset, _, stop⟩ := data (by rw [given]; rfl)
      refine ⟨⟨rfl, fun size => ⟨_, rfl⟩⟩, ChildOutput.wholeFile_mapped [1, 2, 3], ?_, ?_⟩
      · rw [size part member image given, imageoffset]
        decide
      · rw [size part member image given]
        exact stop.trans_lt small
  have holds : ChildrenFit (fun _ => rootOutput) layout := by
    intro part member image given _
    obtain ⟨imageoffset, room, _⟩ := (parts part member).2.2 (by rw [given]; rfl)
    refine ⟨?_, ?_⟩
    · rw [imageoffset]
      exact show (0 : UInt64) ≤ 3 by decide
    · rw [imageoffset, UInt64.sub_zero]
      exact room
  have within : Within (fun _ => rootOutput) layout := by
    refine ⟨Or.inl nonempty, fun write among some => ?_, tables, fun _ => few⟩
    obtain ⟨part, member, rest, ebr | child⟩ := mem_partsWrites among
    · rw [ebrWrites, if_neg (by simp [(parts part member).1])] at ebr
      cases ebr
    · refine childWrites_stop.mpr (fun image given _ _ => ?_) write child some
      rw [childStop, size part member image given]
      exact ((parts part member).2.2 (by rw [given]; rfl)).2.2
  have agrees : SizeAgrees .calm (fun _ => rootOutput) layout ⟨none, 0, 0, 0⟩ :=
    (sizeAgrees_iff accepted Os.calm_reliable possible holds).mpr within
  obtain ⟨final, run, _⟩ := agrees
  exact ⟨final, run⟩

/-- Two logical partitions with one image. -/
def logicalDisk : HdimageConfig where
  options := { extendedPartition := 1 }
  partitions := ["root", "data"].map fun title =>
    { title := title, size := 1024, image := "root.img", partitionType := 0x83 }

/-- One partition of a GPT with that image. -/
def gptDisk : HdimageConfig where
  size := 1048576
  options := { partitionTableType := "gpt" }
  partitions := [{ title := "root", size := 65536, image := "root.img", partitionTypeUuid := "L" }]

end Genimage
