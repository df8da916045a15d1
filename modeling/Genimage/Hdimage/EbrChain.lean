/-
**The MBR and the extended boot records decode to the partitions.**

`insertRecords` writes the boot records without the children in between. What a reader of them obtains
is compared with the partition list (`RecordsDecode`). Three things can come in between: an offset that
is no multiple of a sector, a first logical partition that asks for an alignment of its own, so that its
record is not where the `[Extended]` entry says, and a primary partition of type `0x0F`. `Linked`
excludes them. A partition of the table that lies outside the image, because a sum of the setup has
wrapped, has numbers that are cut in its entry; `RecordsInside` excludes that.
`insertRecords_decodes_iff` says that nothing else can go wrong.
-/

import Genimage.Hdimage.FileSize
import Genimage.Hdimage.Inside
import Genimage.Hdimage.MbrReader
import Genimage.Hdimage.Sectors

namespace Genimage

open Library Effect

/-! ### The property and the condition -/

/-- A partition as a reader should find it. -/
def Partition.seen (part : Partition) : SeenPartition :=
  ⟨part.offset.toNat, part.size.toNat, part.partitionType⟩

/-- The partitions with an entry of their own in the MBR. -/
def primaryPartitions (layout : Layout) : List Partition :=
  layout.partitions.filter fun part => inMbr layout.hd part && part.node ≠ .extended

/-- The partitions with an extended boot record. -/
def logicalPartitions (layout : Layout) : List Partition :=
  layout.partitions.filter (·.logical)

/-- **The disk decodes to the partition list.** -/
def RecordsDecode (layout : Layout) (file : File) : Prop :=
  DiskReads file ((primaryPartitions layout).map Partition.seen)
    ((logicalPartitions layout).map Partition.seen)

/-- **The records are where a reader looks for them**, and only the `[Extended]` entry leads to them. -/
structure Linked (layout : Layout) : Prop where
  sectors : ∀ part ∈ layout.partitions, part.inPartitionTable = true → 512 ∣ part.offset.toNat
  first : ∀ first, layout.partitions.find? (·.logical) = some first → first.align.toNat ∣
    (extendedOffset layout.partitions).toNat + layout.hd.align.toNat
  types : ∀ part ∈ primaryPartitions layout, part.partitionType ≠ partitionTypeExtended

instance (layout : Layout) : Decidable (Linked layout) :=
  decidable_of_iff ((∀ part ∈ layout.partitions, part.inPartitionTable = true →
      512 ∣ part.offset.toNat) ∧
    (layout.partitions.find? (·.logical)).all (fun first => first.align.toNat ∣
      (extendedOffset layout.partitions).toNat + layout.hd.align.toNat) = true ∧
    ∀ part ∈ primaryPartitions layout, part.partitionType ≠ partitionTypeExtended)
    ⟨fun ⟨sectors, first, types⟩ => ⟨sectors, by simpa [Option.all_eq_true] using first, types⟩,
     fun linked => ⟨linked.sectors, by simpa [Option.all_eq_true] using linked.first, linked.types⟩⟩

/-- **The condition under which the disk decodes.** -/
structure Decodable (layout : Layout) : Prop where
  linked : Linked layout
  inside : RecordsInside layout

/-- **No end of the layout is near the end of the words**, where it is added to. -/
structure EndsSmall (layout : Layout) : Prop where
  ends : ∀ part ∈ layout.partitions, part.partitionEnd.toNat ≤ 2 ^ 62
  extended : ∀ part ∈ layout.partitions, part.node = .extended → part.offset.toNat ≤ 2 ^ 62

/-! ### The writes -/

section Writes

variable (os : Os) (layout : Layout)

/-- The extended boot records of a list. -/
def insertEbrs : List Partition → Sys Unit
  | [] => return
  | part :: rest => do
    insertEbr os layout part rest
    insertEbrs rest

/-- The boot records of an MBR disk. -/
def insertRecords : Sys Unit := do
  insertEbrs os layout layout.partitions
  hdimageInsertMbr os layout.hd layout.partitions

/-- The writes of `insertEbrs`. -/
def recordWrites : List Partition → List Write
  | [] => []
  | part :: rest => ebrWrites layout part rest ++ recordWrites rest

/-- **The file with the boot records and nothing else.** -/
def recordFile (entries : List MbrPartitionEntry) : File :=
  (File.empty.writes (recordWrites layout layout.partitions)).pwrite 440
    (mbrTail layout.hd.disksig entries)

end Writes

section Ensures

variable {os : Os} {fault : Prop} {world : World} {contents : File} {layout : Layout}

theorem insertEbrs_ensures (whole : os.Whole) {rest : List Partition} :
    ∀ {world : World} {contents : File}, world.contents = contents →
      (fault ∨ (os.Reliable ∧ ∀ part ∈ rest, part.logical = true →
        (part.offset - layout.hd.align + 446).toNat + 66 < offLimit)) →
      Ensures fault (insertEbrs os layout rest) world fun _ next =>
        next.contents = contents.writes (recordWrites layout rest) := by
  induction rest with
  | nil =>
    intro world contents same _
    rw [insertEbrs, ensures_pure]
    exact same
  | cons part rest ih =>
    intro world contents same safe
    simp only [List.forall_mem_cons] at safe
    rw [insertEbrs, recordWrites, File.writes_append]
    refine (insertEbr_ensures whole same (safe.imp_right fun all => ⟨all.1, all.2.1⟩)).bind ?_
    intro _ middle both
    exact ih both.1 (safe.imp_right fun all => ⟨all.1, all.2.2⟩)

end Ensures

/-! ### What is read back -/

theorem recordWrites_append (layout : Layout) (front rest : List Partition) :
    ∃ before, recordWrites layout (front ++ rest) = before ++ recordWrites layout rest := by
  induction front with
  | nil => exact ⟨[], rfl⟩
  | cons part front ih =>
    obtain ⟨before, same⟩ := ih
    refine ⟨ebrWrites layout part (front ++ rest) ++ before, ?_⟩
    rw [List.cons_append, recordWrites, same, List.append_assoc]

/-- Every write is one of a logical partition. -/
theorem recordWrites_mem {layout : Layout} {rest : List Partition} {write : Write}
    (member : write ∈ recordWrites layout rest) :
    ∃ front part back, rest = front ++ part :: back ∧ part.logical = true ∧
      write.span = ⟨(part.offset - layout.hd.align + 446).toNat,
        (part.offset - layout.hd.align + 446).toNat + 66⟩ := by
  induction rest with
  | nil => cases member
  | cons part rest ih =>
    rcases List.mem_append.mp member with here | later
    · obtain ⟨logical, span⟩ := ebrWrites_span here
      exact ⟨[], part, rest, rfl, logical, span⟩
    · obtain ⟨front, other, back, rfl, rest⟩ := ih later
      exact ⟨part :: front, other, back, rfl, rest⟩

namespace EbrLayout

variable {layout : Layout} {ext part : Partition} {front rest : List Partition}
  {entries : List MbrPartitionEntry}

/-- The place of a record, in unbounded numbers. -/
theorem record_place (records : EbrLayout layout ext) (member : part ∈ layout.partitions)
    (logical : part.logical = true) : (part.offset - layout.hd.align + 446).toNat =
      part.offset.toNat - layout.hd.align.toNat + 446 := by
  have room := (records.within part member logical).room
  have wide := records.wide
  have small := part.offset.toNat_lt
  have difference : (part.offset - layout.hd.align).toNat =
      part.offset.toNat - layout.hd.align.toNat := toNat_sub_of_le room
  rw [toNat_add_of_lt, difference]
  · rfl
  · rw [difference]
    show _ + 446 < _
    omega

/-- A record lies behind the MBR. -/
theorem record_behind (records : EbrLayout layout ext) (member : part ∈ layout.partitions)
    (logical : part.logical = true) :
    512 ≤ part.offset.toNat - layout.hd.align.toNat ∧
      layout.hd.align.toNat ≤ part.offset.toNat := by
  have within := records.within part member logical
  have positive := Nat.le_of_dvd records.positive records.sector
  exact ⟨positive.trans within.start, within.room⟩

/-- **The record of a logical partition is read back.** -/
theorem record_written (records : EbrLayout layout ext)
    (few : entries.length ≤ 4) (split : layout.partitions = front ++ part :: rest)
    (logical : part.logical = true) :
    (recordFile layout entries).slice (part.offset.toNat - layout.hd.align.toNat + 446) 66 =
      entryTable (ebrEntries layout.hd (extendedOffset layout.partitions) part rest) := by
  have member : part ∈ layout.partitions := by simp [split]
  obtain ⟨behind, room⟩ := records.record_behind member logical
  have tail : (mbrTail layout.hd.disksig entries).length = 72 := length_mbrTail few
  have length := length_entryTable ((length_ebrEntries layout.hd (extendedOffset layout.partitions)
    part rest).trans (by decide))
  have later : ∀ write ∈ recordWrites layout rest, write.span.Apart
      ⟨part.offset.toNat - layout.hd.align.toNat + 446,
        part.offset.toNat - layout.hd.align.toNat + 446 + 66⟩ := by
    intro write among
    obtain ⟨mid, other, back, same, logical', span⟩ := recordWrites_mem among
    have inside : other ∈ layout.partitions := by simp [split, same]
    have apart := records.apart
    rw [split] at apart
    have apart := List.rel_of_pairwise_cons (List.pairwise_append.mp apart).2.1 (by simp [same])
      logical logical'
    have room' := (records.record_behind inside logical').2
    rw [span, records.record_place inside logical']
    refine apart.symm.imp (fun front => ?_) fun back => ?_
    · show other.offset.toNat - layout.hd.align.toNat + 446 + 66 ≤
        part.offset.toNat - layout.hd.align.toNat + 446
      omega
    · show part.offset.toNat - layout.hd.align.toNat + 446 + 66 ≤
        other.offset.toNat - layout.hd.align.toNat + 446
      omega
  obtain ⟨before, cut⟩ := recordWrites_append layout front (part :: rest)
  rw [recordFile, File.slice_pwrite_apart (by omega), split, cut, recordWrites, ebrWrites,
    if_pos logical, ← split, List.singleton_append, ← length]
  rw [← records.record_place member logical] at later ⊢
  refine File.slice_writes_last fun write among => ?_
  have apart := later write among
  rw [← length] at apart
  exact apart

/-- **The MBR is read back.** -/
theorem mbr_written (layout : Layout) (few : entries.length ≤ 4) :
    sectorTable (recordFile layout entries) 0 = entryTable entries := by
  have tail : (mbrTail layout.hd.disksig entries).length = 72 := length_mbrTail few
  have whole : (recordFile layout entries).slice 440 72 = mbrTail layout.hd.disksig entries := by
    rw [recordFile, ← tail, File.slice_pwrite_self]
  have cut := (recordFile layout entries).slice_drop_take 440 (show 6 + 66 ≤ 72 by decide)
  rw [whole, mbrTail, List.drop_left' (by simp), List.take_of_length_le (length_entryTable few).le]
    at cut
  exact cut.symm

/-- **A sector with the signature** is the record of a logical partition. -/
theorem signed_record (records : EbrLayout layout ext) (few : entries.length ≤ 4)
    (sectors : ∀ part ∈ layout.partitions, part.logical = true → 512 ∣ part.offset.toNat)
    {sector : ℕ} (positive : 0 < sector) (signed : Signed (recordFile layout entries) sector) :
    ∃ front part rest, layout.partitions = front ++ part :: rest ∧ part.logical = true ∧
      part.offset.toNat = 512 * sector + layout.hd.align.toNat := by
  have tail : (mbrTail layout.hd.disksig entries).length = 72 := length_mbrTail few
  have byte : (recordFile layout entries).byte (512 * sector + 446 + 64) = 0x55 := by
    have first := congrArg (fun bytes : List UInt8 => bytes.getD 0 0) signed
    rw [sectorTable] at first
    simp only [List.getD_eq_getElem?_getD, List.getElem?_drop] at first
    rw [← List.getD_eq_getElem?_getD, File.slice_getD _ _ (by decide)] at first
    exact first
  rw [recordFile, File.pwrite_byte_of_not_mem (by omega)] at byte
  have covered : ∃ write ∈ recordWrites layout layout.partitions,
      write.Covers (512 * sector + 446 + 64) := by
    by_contra none
    rw [File.writes_byte_untouched fun write member covers => none ⟨write, member, covers⟩] at byte
    cases byte
  obtain ⟨write, among, covers⟩ := covered
  obtain ⟨front, part, rest, split, logical, span⟩ := recordWrites_mem among
  have member : part ∈ layout.partitions := by simp [split]
  obtain ⟨_, room⟩ := records.record_behind member logical
  rw [Write.Covers, span, records.record_place member logical] at covers
  have dvd := sectors part member logical
  have whole := records.whole
  refine ⟨front, part, rest, split, logical, ?_⟩
  simp only at covers
  omega

/-! ### The chain -/

section Chain

variable (records : EbrLayout layout ext) (few : entries.length ≤ 4)

include records few

/-- The record of a logical partition, by its sector. -/
theorem sector_written (split : layout.partitions = front ++ part :: rest)
    (logical : part.logical = true) (sectors : 512 ∣ part.offset.toNat) :
    sectorTable (recordFile layout entries) ((part.offset.toNat - layout.hd.align.toNat) / 512) =
      entryTable (ebrEntries layout.hd (extendedOffset layout.partitions) part rest) := by
  rw [sectorTable, Nat.mul_div_cancel' (Nat.dvd_sub sectors records.whole)]
  exact records.record_written few split logical

/-- **The last record** has no second entry. -/
theorem last_record (split : layout.partitions = front ++ part :: rest)
    (logical : part.logical = true) (sectors : 512 ∣ part.offset.toNat)
    (none : rest.find? (·.logical) = none) :
    (sectorEntry (recordFile layout entries)
      ((part.offset.toNat - layout.hd.align.toNat) / 512) 1).count = 0 := by
  have table := records.sector_written few split logical sectors
  rw [ebrEntries, none] at table
  rw [sectorEntry_written table (by simp)]
  rfl

variable (small : layout.size.toNat < 2 ^ 41)

omit few in
include small in
/-- A stored size of a partition. -/
theorem size_stored (member : part ∈ layout.partitions) (inTable : part.inPartitionTable = true)
    (other : part ≠ ext) : 512 * (part.size / 512).toUInt32.toNat = part.size.toNat := by
  have stop := records.stops part member inTable
  have room : part.size.toNat ≤ part.span.stop := Nat.le_add_left _ _
  rw [Nat.mul_comm]
  exact (sectors_exact_iff part.size).mpr
    ⟨(records.sizes part member inTable other).2, by omega⟩

include small

/-- **The first entry of a record is its partition.** -/
theorem first_seen (split : layout.partitions = front ++ part :: rest)
    (logical : part.logical = true) (sectors : 512 ∣ part.offset.toNat) :
    (sectorEntry (recordFile layout entries)
        ((part.offset.toNat - layout.hd.align.toNat) / 512) 0).seen
      ((part.offset.toNat - layout.hd.align.toNat) / 512) = part.seen := by
  have member : part ∈ layout.partitions := by simp [split]
  have other : part ≠ ext := fun wrong => by
    rw [wrong, records.entry.2.1] at logical
    cases logical
  have whole := Nat.dvd_sub sectors records.whole
  have stop : part.offset.toNat + part.size.toNat ≤ layout.size.toNat :=
    records.stops part member (records.table part member logical)
  have room := (records.within part member logical).room
  have place := (behind_exact_iff part.offset layout.hd.align).mpr ⟨room, records.whole, by omega⟩
  rw [toNat_sub_of_le room] at place
  have size := records.size_stored small member (records.table part member logical) other
  rw [sectorEntry_written (records.sector_written few split logical sectors) (by simp [ebrEntries])]
  show SeenPartition.mk (512 * ((part.offset.toNat - layout.hd.align.toNat) / 512 +
    (layout.hd.align / 512).toUInt32.toNat)) (512 * (part.size / 512).toUInt32.toNat)
      part.partitionType = part.seen
  rw [size, Nat.mul_add, Nat.mul_div_cancel' whole, Nat.mul_comm 512, place]
  rfl

/-- **The second entry of a record leads to the next one.** -/
theorem next_record {mid : List Partition} {next : Partition}
    (split : layout.partitions = front ++ part :: (mid ++ next :: rest))
    (logical : part.logical = true) (logical' : next.logical = true)
    (between : ∀ other ∈ mid, other.logical = false) (sectors : 512 ∣ part.offset.toNat)
    (sectors' : 512 ∣ next.offset.toNat) :
    (sectorEntry (recordFile layout entries)
      ((part.offset.toNat - layout.hd.align.toNat) / 512) 1).count ≠ 0 ∧
    ext.offset.toNat / 512 + (sectorEntry (recordFile layout entries)
      ((part.offset.toNat - layout.hd.align.toNat) / 512) 1).start =
        (next.offset.toNat - layout.hd.align.toNat) / 512 := by
  have member : next ∈ layout.partitions := by simp [split]
  have stop : next.offset.toNat + next.size.toNat ≤ layout.size.toNat :=
    records.stops next member (records.table next member logical')
  have room := (records.within next member logical').room
  have start := (records.within next member logical').start
  have wide := records.wide
  have base := records.sector
  have whole := records.whole
  have difference : (next.offset - layout.hd.align).toNat =
      next.offset.toNat - layout.hd.align.toNat := toNat_sub_of_le room
  have found : (mid ++ next :: rest).find? (·.logical) = some next := by
    rw [List.find?_append, List.find?_eq_none.mpr fun other among => by simp [between other among],
      Option.none_or, List.find?_cons_of_pos logical']
  have table := records.sector_written few split logical sectors
  rw [ebrEntries, found] at table
  rw [sectorEntry_written table (by simp)]
  show ((next.size + layout.hd.align) / 512).toUInt32.toNat ≠ 0 ∧ ext.offset.toNat / 512 +
    ((next.offset - layout.hd.align - extendedOffset layout.partitions) / 512).toUInt32.toNat = _
  rw [records.place, toNat_sectors, toNat_sectors, toNat_add_of_lt (by omega),
    toNat_sub_of_le (by rw [difference]; exact start), difference]
  omega

/-- **The reader goes from each record to the next**; by induction on the number of the partitions
behind the record. -/
theorem chain_written (sectors : ∀ part ∈ layout.partitions, part.logical = true →
      512 ∣ part.offset.toNat) (split : layout.partitions = front ++ part :: rest)
    (logical : part.logical = true) :
    EbrChain (recordFile layout entries) (ext.offset.toNat / 512)
      ((part.offset.toNat - layout.hd.align.toNat) / 512)
      (((part :: rest).filter (·.logical)).map Partition.seen) := by
  induction length : rest.length using Nat.strong_induction_on generalizing front part rest with
  | _ _ ih =>
    have whole := sectors part (by simp [split]) logical
    have signed := signed_written (records.sector_written few split logical whole)
      ((length_ebrEntries _ _ _ _).trans (by decide))
    rw [List.filter_cons_of_pos logical, List.map_cons,
      ← records.first_seen few small split logical whole]
    cases found : rest.find? (·.logical) with
    | none =>
      have primary : rest.filter (·.logical) = [] :=
        List.filter_eq_nil_iff.mpr (List.find?_eq_none.mp found)
      rw [primary]
      exact .last signed (records.last_record few split logical whole found)
    | some next =>
      obtain ⟨logical', mid, back, rfl, between⟩ := List.find?_eq_some_iff_append.mp found
      have between : ∀ other ∈ mid, other.logical = false :=
        fun other among => by simpa using between other among
      obtain ⟨more, place⟩ := records.next_record few small split logical logical' between whole
        (sectors next (by simp [split]) logical')
      have primary : mid.filter (·.logical) = [] :=
        List.filter_eq_nil_iff.mpr fun other among => by simp [between other among]
      rw [List.filter_append, primary, List.nil_append]
      refine .next signed more ?_
      have split' : layout.partitions = (front ++ part :: mid) ++ next :: back := by simp [split]
      rw [place]
      refine ih back.length ?_ split' logical' rfl
      rw [← length, List.length_append, List.length_cons]
      omega

end Chain

/-! ### The entries of the MBR -/

section Mbr

variable (records : EbrLayout layout ext) (small : layout.size.toNat < 2 ^ 41)

include records

theorem inMbr_eq (part : Partition) :
    inMbr layout.hd part = (part.inPartitionTable && !part.logical) := by
  simp [inMbr, records.mbr]

/-- `[Extended]` has sectors exactly when there are logical partitions. -/
theorem extended_count (small : layout.size.toNat < 2 ^ 41) :
    (mbrEntry ext).raw.count ≠ 0 ↔ ∃ part ∈ layout.partitions, part.logical = true := by
  show (ext.size / 512).toUInt32.toNat ≠ 0 ↔ _
  rw [toNat_sectors]
  constructor
  · intro some
    by_contra none
    have empty := records.empty fun part member => by
      by_contra logical
      exact none ⟨part, member, by simpa using logical⟩
    rw [empty] at some
    exact some rfl
  · rintro ⟨part, member, logical⟩
    have within := records.within part member logical
    have stop : ext.offset.toNat + ext.size.toNat ≤ layout.size.toNat :=
      records.stops ext records.mem records.entry.1
    have inside : part.offset.toNat + part.size.toNat ≤ ext.offset.toNat + ext.size.toNat :=
      within.stop
    have start := within.start
    have room := within.room
    have wide := records.wide
    omega

/-- A primary partition, by what the reader compares. -/
theorem mem_primaryPartitions : part ∈ primaryPartitions layout ↔
    part ∈ layout.partitions ∧ inMbr layout.hd part = true ∧ part ≠ ext := by
  rw [primaryPartitions, List.mem_filter, Bool.and_eq_true, decide_eq_true_eq]
  refine and_congr_right fun member => and_congr_right fun _ => not_congr ?_
  exact records.only part member

include small

/-- The `[Extended]` entry leads to the place of the element. -/
theorem extended_start : (mbrEntry ext).raw.start = ext.offset.toNat / 512 := by
  have stop : ext.offset.toNat + ext.size.toNat ≤ layout.size.toNat :=
    records.stops ext records.mem records.entry.1
  show (ext.offset / 512).toUInt32.toNat = _
  rw [toNat_sectors]
  omega

/-- Every other entry of the MBR has sectors. -/
theorem primary_count (member : part ∈ layout.partitions) (inTable : part.inPartitionTable = true)
    (other : part ≠ ext) : (mbrEntry part).raw.count ≠ 0 := by
  have stored : 512 * (mbrEntry part).raw.count = part.size.toNat :=
    records.size_stored small member inTable other
  have positive := (records.sizes part member inTable other).1
  omega

/-- The entry of a primary partition says where it is. -/
theorem primary_seen (member : part ∈ layout.partitions) (inTable : part.inPartitionTable = true)
    (other : part ≠ ext) (sectors : 512 ∣ part.offset.toNat) :
    (mbrEntry part).raw.seen 0 = part.seen := by
  have stop : part.offset.toNat + part.size.toNat ≤ layout.size.toNat :=
    records.stops part member inTable
  have place := (sectors_exact_iff part.offset).mpr ⟨sectors, by omega⟩
  show SeenPartition.mk (512 * (0 + (part.offset / 512).toUInt32.toNat))
    (512 * (part.size / 512).toUInt32.toNat) part.partitionType = part.seen
  rw [records.size_stored small member inTable other, Nat.zero_add, Nat.mul_comm 512, place]
  rfl

end Mbr

section Entries

variable (records : EbrLayout layout ext) (small : layout.size.toNat < 2 ^ 41)
  (stored : mbrEntries layout.hd layout.partitions = .ok entries)

include records stored

/-- The entries that a reader finds used. -/
theorem usedEntries_eq : usedEntries (recordFile layout entries) =
    (layout.partitions.filter fun part =>
      inMbr layout.hd part && (mbrEntry part).raw.count ≠ 0).map fun part => (mbrEntry part).raw := by
  obtain ⟨listed, few⟩ := mbrEntries_ok.mp stored
  rw [if_neg (by rw [records.mbr]; decide), List.append_nil] at listed
  rw [usedEntries_written (mbr_written layout few) few, listed, List.map_map, List.filter_map,
    List.filter_filter]
  refine congrArg _ (List.filter_congr fun part _ => ?_)
  exact Bool.and_comm _ _

theorem mem_usedEntries {entry : RawEntry} : entry ∈ usedEntries (recordFile layout entries) ↔
    ∃ part ∈ layout.partitions, inMbr layout.hd part = true ∧ (mbrEntry part).raw.count ≠ 0 ∧
      (mbrEntry part).raw = entry := by
  rw [records.usedEntries_eq stored, List.mem_map]
  simp only [List.mem_filter, Bool.and_eq_true, decide_eq_true_eq, and_assoc]

/-! ### What is obtained -/

include small

/-- **The primary partitions are obtained.** -/
theorem primary_read (linked : Linked layout) :
    ((usedEntries (recordFile layout entries)).filter
        (·.type ≠ partitionTypeExtended)).map (RawEntry.seen 0) =
      (primaryPartitions layout).map Partition.seen := by
  rw [records.usedEntries_eq stored, List.filter_map, List.filter_filter, List.map_map,
    primaryPartitions]
  have same : ∀ part ∈ layout.partitions,
      (((fun entry : RawEntry => decide (entry.type ≠ partitionTypeExtended)) ∘
        fun part => (mbrEntry part).raw) part && (inMbr layout.hd part &&
          decide ((mbrEntry part).raw.count ≠ 0))) =
      (inMbr layout.hd part && decide (part.node ≠ .extended)) := by
    intro part member
    by_cases used : inMbr layout.hd part = true
    · by_cases other : part = ext
      · have node := (records.only part member).mpr other
        have type : (mbrEntry part).raw.type = partitionTypeExtended := other ▸ records.entry.2.2
        simp [node, type]
      · have node : part.node ≠ .extended := fun same => other ((records.only part member).mp same)
        have type : (mbrEntry part).raw.type ≠ partitionTypeExtended :=
          linked.types part (records.mem_primaryPartitions.mpr ⟨member, used, other⟩)
        rw [records.inMbr_eq, Bool.and_eq_true] at used
        have count := records.primary_count small member used.1 other
        simp [node, type, count]
    · simp [used]
  rw [List.filter_congr same]
  refine List.map_congr_left fun part member => ?_
  obtain ⟨member, used, other⟩ := records.mem_primaryPartitions.mp member
  rw [records.inMbr_eq, Bool.and_eq_true] at used
  exact records.primary_seen small member used.1 other (linked.sectors part member used.1)

/-- **The entry of type `0x0F`** is that of `[Extended]`, where there are logical partitions. -/
theorem find_extended (types : ∀ part ∈ primaryPartitions layout,
    part.partitionType ≠ partitionTypeExtended) {entry : RawEntry} :
    (usedEntries (recordFile layout entries)).find? (·.type = partitionTypeExtended) = some entry ↔
      (∃ part ∈ layout.partitions, part.logical = true) ∧ entry = (mbrEntry ext).raw := by
  have used : inMbr layout.hd ext = true := by
    rw [records.inMbr_eq, records.entry.1, records.entry.2.1]
    rfl
  have only : ∀ entry ∈ usedEntries (recordFile layout entries),
      entry.type = partitionTypeExtended → entry = (mbrEntry ext).raw := by
    intro entry member type
    obtain ⟨part, among, inside, _, rfl⟩ := (records.mem_usedEntries stored).mp member
    by_cases other : part = ext
    · rw [other]
    · exact absurd type
        (types part (records.mem_primaryPartitions.mpr ⟨among, inside, other⟩))
  have listed : (mbrEntry ext).raw ∈ usedEntries (recordFile layout entries) ↔
      ∃ part ∈ layout.partitions, part.logical = true := by
    rw [← records.extended_count small, records.mem_usedEntries stored]
    constructor
    · rintro ⟨part, _, _, count, same⟩
      rwa [same] at count
    · exact fun count => ⟨ext, records.mem, used, count, rfl⟩
  constructor
  · intro found
    have same := only entry (List.mem_of_find?_eq_some found) (by simpa using List.find?_some found)
    exact ⟨listed.mp (same ▸ List.mem_of_find?_eq_some found), same⟩
  · rintro ⟨logical, rfl⟩
    have some : ((usedEntries (recordFile layout entries)).find?
        (·.type = partitionTypeExtended)).isSome := by
      rw [List.find?_isSome]
      exact ⟨_, listed.mpr logical, decide_eq_true records.entry.2.2⟩
    obtain ⟨other, found⟩ := Option.isSome_iff_exists.mp some
    rw [found, only other (List.mem_of_find?_eq_some found) (by simpa using List.find?_some found)]

/-- **The disk decodes to the partition list exactly when the records are linked.** -/
theorem recordsDecode_iff (head : ∀ first, layout.partitions.find? (·.logical) = some first →
      first.align.toNat ∣ (extendedOffset layout.partitions).toNat + layout.hd.align.toNat →
      (extendedOffset layout.partitions).toNat + layout.hd.align.toNat = first.offset.toNat)
    (aligned : ∀ part ∈ layout.partitions, part.align.toNat ∣ part.offset.toNat) :
    RecordsDecode layout (recordFile layout entries) ↔ Linked layout := by
  have few := (mbrEntries_ok.mp stored).2
  have sector := records.sector
  have start := records.extended_start small
  constructor
  · intro decodes
    have primary : ∀ part ∈ primaryPartitions layout, ∃ entry : RawEntry,
        entry.type ≠ partitionTypeExtended ∧ entry.seen 0 = part.seen := by
      intro part member
      have listed := List.mem_map_of_mem (f := Partition.seen) member
      rw [← decodes.primary] at listed
      obtain ⟨entry, among, same⟩ := List.mem_map.mp listed
      exact ⟨entry, by simpa using (List.mem_filter.mp among).2, same⟩
    have types : ∀ part ∈ primaryPartitions layout, part.partitionType ≠ partitionTypeExtended := by
      intro part member
      obtain ⟨entry, type, same⟩ := primary part member
      rwa [show part.partitionType = entry.type from congrArg SeenPartition.type same.symm]
    have chain : (∃ part ∈ layout.partitions, part.logical = true) →
        EbrChain (recordFile layout entries) (ext.offset.toNat / 512) (ext.offset.toNat / 512)
          ((logicalPartitions layout).map Partition.seen) := by
      intro logical
      have chain := decodes.chain _
        ((records.find_extended small stored types).mpr ⟨logical, rfl⟩)
      rwa [start] at chain
    have sectors : ∀ part ∈ layout.partitions, part.logical = true → 512 ∣ part.offset.toNat := by
      intro part member logical
      exact (chain ⟨part, member, logical⟩).dvd_offset part.seen
        (List.mem_map_of_mem (List.mem_filter.mpr ⟨member, logical⟩))
    refine ⟨fun part member inTable => ?_, fun first found => ?_, types⟩
    · cases logical : part.logical with
      | true => exact sectors part member logical
      | false =>
        by_cases other : part = ext
        · rw [other]
          exact sector
        · have used : inMbr layout.hd part = true := by
            rw [records.inMbr_eq, inTable, logical]
            rfl
          obtain ⟨entry, _, same⟩ :=
            primary part (records.mem_primaryPartitions.mpr ⟨member, used, other⟩)
          exact Dvd.intro _ (congrArg SeenPartition.offset same)
    · have logical : ∃ part ∈ layout.partitions, part.logical = true :=
        ⟨first, List.mem_of_find?_eq_some found, List.find?_some found⟩
      have links := chain logical
      have positive : 0 < ext.offset.toNat / 512 :=
        Nat.div_pos (Nat.le_of_dvd records.positive sector) (by decide)
      obtain ⟨front, part, rest, split, isLogical, place⟩ :=
        records.signed_record few sectors positive links.signed
      rw [Nat.mul_div_cancel' sector] at place
      have seen := records.first_seen few small split isLogical
        (sectors part (by simp [split]) isLogical)
      have same : part.seen = first.seen := by
        have here := links.head
        rw [logicalPartitions, List.head?_map, List.head?_filter, found, Option.map_some,
          Option.some.injEq] at here
        rw [place, Nat.add_sub_cancel] at seen
        rw [here, ← seen]
      have offset : part.offset.toNat = first.offset.toNat := congrArg SeenPartition.offset same
      rw [records.place, ← place, offset]
      exact aligned first (List.mem_of_find?_eq_some found)
  · intro linked
    have types := linked.types
    refine ⟨records.primary_read small stored linked, fun none => ?_, fun entry found => ?_⟩
    · have primary : logicalPartitions layout = [] := by
        by_contra some
        obtain ⟨part, member⟩ := List.exists_mem_of_ne_nil _ some
        obtain ⟨among, logical⟩ := List.mem_filter.mp member
        have found := (records.find_extended small stored types).mpr ⟨⟨part, among, logical⟩, rfl⟩
        exact none _ (List.mem_of_find?_eq_some found) (by simpa using List.find?_some found)
      rw [primary]
      rfl
    · obtain ⟨⟨part, member, logical⟩, rfl⟩ := (records.find_extended small stored types).mp found
      have some : (layout.partitions.find? (·.logical)).isSome := by
        rw [List.find?_isSome]
        exact ⟨part, member, logical⟩
      obtain ⟨first, found⟩ := Option.isSome_iff_exists.mp some
      have place := head first found (linked.first first found)
      obtain ⟨isLogical, front, rest, split, before⟩ := List.find?_eq_some_iff_append.mp found
      have primary : front.filter (·.logical) = [] :=
        List.filter_eq_nil_iff.mpr fun other among => by simpa using before other among
      have links := records.chain_written few small (fun part member logical =>
        linked.sectors part member (records.table part member logical)) split isLogical
      rw [records.place] at place
      rw [← place, Nat.add_sub_cancel, ← List.nil_append (List.filter _ _), ← primary,
        ← List.filter_append, ← split] at links
      rw [start]
      exact links

end Entries

end EbrLayout

/-! ### The run -/

section Run

variable {env : Env} {config : HdimageConfig} {layout : Layout} {os : Os} {fault : Prop}
  {world : World} {ext : Partition}

/-- Only an MBR table gets an `[Extended]` element. -/
theorem setup_extended_mbr (accepted : hdimageSetup env config = .ok layout)
    (extended : ∃ part ∈ layout.partitions, part.node = .extended) :
    layout.hd.tableType = .mbr := by
  obtain ⟨part, member, node⟩ := extended
  obtain ⟨_, entered, origin, ⟨_, _, _, rfl⟩ | ⟨mbr, _⟩ | area⟩ := setup_entered accepted member
  · cases origin.node_eq.symm.trans node
  · exact mbr
  · exact absurd (origin.node_eq.symm.trans node) (node_of_mem_tableAreas area).1

/-- The offset of an accepted partition is a multiple of its alignment. -/
theorem setup_offset_dvd (accepted : hdimageSetup env config = .ok layout) :
    ∀ part ∈ layout.partitions, part.align.toNat ∣ part.offset.toNat := by
  intro part member
  obtain ⟨_, _, origin, _⟩ := setup_entered accepted member
  exact origin.offset_dvd

/-- **The boot records on an empty disk.** -/
theorem insertRecords_ensures (accepted : hdimageSetup env config = .ok layout)
    (records : EbrLayout layout ext) (small : layout.size.toNat < 2 ^ 41) (whole : os.Whole)
    (blank : world.contents = .empty) (safe : fault ∨ os.Reliable) :
    Ensures fault (insertRecords os layout) world fun _ next => ∃ entries,
      mbrEntries layout.hd layout.partitions = .ok entries ∧
        next.contents = recordFile layout entries := by
  have stored := mbrEntries_accepted accepted (by rw [records.mbr]; rfl)
  refine (insertEbrs_ensures whole blank (safe.imp_right fun reliable => ⟨reliable, ?_⟩)).bind ?_
  · intro part member logical
    have stop : part.offset.toNat + part.size.toNat ≤ layout.size.toNat :=
      records.stops part member (records.table part member logical)
    rw [records.record_place member logical, show offLimit = 2 ^ 63 from rfl]
    omega
  · intro _ middle written
    refine (hdimageInsertMbr_ensures whole written
      (safe.imp_right fun reliable => ⟨reliable, stored⟩)).mono ?_
    rintro _ next ⟨entries, stored, holds⟩
    exact ⟨entries, stored, holds.contents⟩

/-- **A disk that decodes has its partitions in the image**, where no end is near the end of the words:
what a reader obtains has small numbers, so no partition of the table has wrapped. -/
theorem recordsInside_of_decode (accepted : hdimageSetup env config = .ok layout)
    (mbr : layout.hd.tableType = .mbr) (small : EndsSmall layout) {file : File}
    (decodes : RecordsDecode layout file) : RecordsInside layout := by
  have logical : ∀ part ∈ layout.partitions, part.logical = true →
      part.offset.toNat < 2 ^ 43 ∧ part.size.toNat < 2 ^ 41 := by
    intro part member logical
    exact decodes.bounds part.seen (List.mem_append_right _
      (List.mem_map_of_mem (List.mem_filter.mpr ⟨member, logical⟩)))
  have table : ∀ part ∈ layout.partitions, part.inPartitionTable = true ∨ part.logical = true →
      part.node ≠ .extended → part.offset.toNat < 2 ^ 43 ∧ part.size.toNat < 2 ^ 41 := by
    intro part member recorded other
    cases isLogical : part.logical with
    | true => exact logical part member isLogical
    | false =>
      have inTable := recorded.resolve_right (by simp [isLogical])
      refine decodes.bounds part.seen (List.mem_append_left _
        (List.mem_map_of_mem (List.mem_filter.mpr ⟨member, ?_⟩)))
      simp [inMbr, mbr, inTable, isLogical, other]
  refine setup_recordsInside accepted mbr le_rfl fun part member => ⟨small.ends part member, ?_, ?_⟩
  · rintro (isLogical | extended)
    · exact (logical part member isLogical).1.le.trans (by decide)
    · exact small.extended part member extended
  · intro recorded other
    obtain ⟨start, length⟩ := table part member recorded other
    rw [Partition.Fits]
    omega

/-- **When the boot records decode to the partitions.** -/
theorem insertRecords_decodes_iff (accepted : hdimageSetup env config = .ok layout)
    (extended : ∃ part ∈ layout.partitions, part.node = .extended)
    (small : layout.size.toNat / 512 < 2 ^ 32) (whole : os.Whole) (blank : world.contents = .empty) :
    (Decodable layout → fault ∨ os.Reliable →
      Ensures fault (insertRecords os layout) world fun _ next =>
        RecordsDecode layout next.contents) ∧
    (EndsSmall layout → ∀ next, Returns (insertRecords os layout) world () next →
      RecordsDecode layout next.contents → Decodable layout) := by
  have small : layout.size.toNat < 2 ^ 41 := by omega
  constructor
  · rintro ⟨linked, inside⟩ safe
    obtain ⟨ext, records⟩ := setup_ebrLayout accepted extended inside
    refine (insertRecords_ensures accepted records small whole blank safe).mono ?_
    rintro _ next ⟨entries, stored, written⟩
    rw [written]
    exact (records.recordsDecode_iff small stored (fun first found => setup_first records accepted found)
      (setup_offset_dvd accepted)).mpr linked
  · intro ends next returned decodes
    have inside := recordsInside_of_decode accepted (setup_extended_mbr accepted extended) ends decodes
    obtain ⟨ext, records⟩ := setup_ebrLayout accepted extended inside
    have run : Ensures True (insertRecords os layout) world _ :=
      insertRecords_ensures accepted records small whole blank (Or.inl trivial)
    obtain ⟨entries, stored, written⟩ := run.of_returns returned
    rw [written] at decodes
    exact ⟨(records.recordsDecode_iff small stored
      (fun first found => setup_first records accepted found) (setup_offset_dvd accepted)).mp decodes,
      inside⟩

end Run

/-- The only logical partition asks for an alignment of its own. -/
def roundedConfig : HdimageConfig where
  options := { extendedPartition := 1 }
  partitions := [{ title := "root", size := 65536, align := 1048576, partitionType := 0x83 }]

/-- The extended partition starts at the sector 1, the record is in front of `root`. -/
theorem insertRecords_loses : ∃ layout next, hdimageSetup .bare roundedConfig = .ok layout ∧
    layout.hd.tableType = .mbr ∧ (∃ part ∈ layout.partitions, part.node = .extended) ∧
    layout.size.toNat / 512 < 2 ^ 32 ∧
    Returns (insertRecords .calm layout) ⟨some .empty, 0, 0, 0⟩ () next ∧
    ¬ RecordsDecode layout next.contents := by
  obtain ⟨layout, accepted, facts⟩ := exists_layout .bare roundedConfig
    (fun layout => layout.partitions.any (·.node = .extended) && layout.size.toNat = 1114112 &&
      layout.partitions.all (fun part => part.span.stop ≤ layout.size.toNat) &&
      !decide (Linked layout)) (by decide +kernel)
  simp only [Bool.and_eq_true, List.any_eq_true, List.all_eq_true, decide_eq_true_eq,
    Bool.not_eq_true', decide_eq_false_iff_not] at facts
  obtain ⟨⟨⟨extended, size⟩, inside⟩, apart⟩ := facts
  have mbr := setup_extended_mbr accepted extended
  have small : layout.size.toNat < 2 ^ 41 := by rw [size]; decide
  obtain ⟨ext, records⟩ := setup_ebrLayout accepted extended (setup_recordsInside accepted mbr le_rfl
    fun part member => Partition.limited_of_stop le_rfl ((inside part member).trans (by omega)))
  have run : Ensures False (insertRecords .calm layout) ⟨some .empty, 0, 0, 0⟩ _ :=
    insertRecords_ensures accepted records small Os.calm_reliable.whole rfl
      (Or.inr Os.calm_reliable)
  obtain ⟨_, next, returned, entries, stored, written⟩ := run.returns
  refine ⟨layout, next, accepted, mbr, extended, by omega, returned, fun decodes => apart ?_⟩
  rw [written] at decodes
  exact (records.recordsDecode_iff small stored (fun first found => setup_first records accepted found)
    (setup_offset_dvd accepted)).mp decodes

theorem insertRecords_decodes_iff_logicalConfig : ∃ layout,
    hdimageSetup .bare logicalConfig = .ok layout ∧
      Ensures False (insertRecords .calm layout) ⟨some .empty, 0, 0, 0⟩ fun _ next =>
        RecordsDecode layout next.contents := by
  obtain ⟨layout, accepted, facts⟩ := exists_layout .bare logicalConfig
    (fun layout => layout.partitions.any (·.node = .extended) && layout.size.toNat / 512 < 2 ^ 32 &&
      layout.partitions.all (fun part => part.span.stop ≤ layout.size.toNat) &&
      decide (Linked layout)) (by decide +kernel)
  simp only [Bool.and_eq_true, List.any_eq_true, List.all_eq_true, decide_eq_true_eq] at facts
  obtain ⟨⟨⟨extended, small⟩, inside⟩, linked⟩ := facts
  have mbr := setup_extended_mbr accepted extended
  have within := setup_recordsInside accepted mbr le_rfl fun part member =>
    Partition.limited_of_stop le_rfl ((inside part member).trans (by omega))
  exact ⟨layout, accepted, (insertRecords_decodes_iff accepted extended small Os.calm_reliable.whole
    rfl).1 ⟨linked, within⟩ (Or.inr Os.calm_reliable)⟩

end Genimage
