/-
**Reading the partition tables of a disk.**

A reader of an MBR disk takes the entries in the first sector that have sectors. The one of type `0x0F`
leads to the first extended boot record. Such a record has a logical partition, which counts from the
record, and the place of the next record, which counts from the start of the extended partition.
-/

import Genimage.Hdimage.Chs
import Genimage.Library.File

namespace Genimage

open Library

/-! ### The reader -/

/-- The numbers of an entry. -/
structure RawEntry where
  type : UInt8
  start : ℕ
  count : ℕ

/-- What the 16 bytes of an entry say. -/
def rawEntry (slot : List UInt8) : RawEntry := ⟨slot.getD 4 0, field slot 8 4, field slot 12 4⟩

/-- A partition that a reader finds, in bytes. -/
structure SeenPartition where
  offset : ℕ
  size : ℕ
  type : UInt8

/-- The partition of an entry that counts from the sector `base`. -/
def RawEntry.seen (base : ℕ) (entry : RawEntry) : SeenPartition :=
  ⟨512 * (base + entry.start), 512 * entry.count, entry.type⟩

/-- The entries and the signature in a sector. -/
def sectorTable (file : File) (sector : ℕ) : List UInt8 := file.slice (512 * sector + 446) 66

/-- The entry `i` of a sector. -/
def sectorEntry (file : File) (sector i : ℕ) : RawEntry :=
  rawEntry (entrySlot (sectorTable file sector) i)

/-- The sector is a boot record. -/
def Signed (file : File) (sector : ℕ) : Prop := (sectorTable file sector).drop 64 = [0x55, 0xAA]

/-- The entries of the first sector that have sectors. -/
def usedEntries (file : File) : List RawEntry :=
  ((List.range 4).map (sectorEntry file 0)).filter (·.count ≠ 0)

/-- **The reader goes from record to record**, and finds these partitions until it stops; `base` is the
first sector of the extended partition. -/
inductive EbrChain (file : File) (base : ℕ) : ℕ → List SeenPartition → Prop where
  | last {sector : ℕ} (signed : Signed file sector) (none : (sectorEntry file sector 1).count = 0) :
    EbrChain file base sector [(sectorEntry file sector 0).seen sector]
  | next {sector : ℕ} {others : List SeenPartition} (signed : Signed file sector)
      (more : (sectorEntry file sector 1).count ≠ 0)
      (rest : EbrChain file base (base + (sectorEntry file sector 1).start) others) :
    EbrChain file base sector ((sectorEntry file sector 0).seen sector :: others)

/-- **What a reader obtains from a disk.** -/
structure DiskReads (file : File) (primary logical : List SeenPartition) : Prop where
  primary : ((usedEntries file).filter (·.type ≠ partitionTypeExtended)).map (RawEntry.seen 0) =
    primary
  without : (∀ entry ∈ usedEntries file, entry.type ≠ partitionTypeExtended) → logical = []
  chain : ∀ entry, (usedEntries file).find? (·.type = partitionTypeExtended) = some entry →
    EbrChain file entry.start entry.start logical

theorem rawEntry_start_lt (slot : List UInt8) : (rawEntry slot).start < 2 ^ 32 := field_lt slot 8 4

theorem rawEntry_count_lt (slot : List UInt8) : (rawEntry slot).count < 2 ^ 32 := field_lt slot 12 4

namespace EbrChain

variable {file : File} {base sector : ℕ} {parts : List SeenPartition}

theorem signed (chain : EbrChain file base sector parts) : Signed file sector := by
  cases chain <;> assumption

/-- The first partition of a chain is that of its first record. -/
theorem head (chain : EbrChain file base sector parts) :
    parts.head? = some ((sectorEntry file sector 0).seen sector) := by
  cases chain <;> rfl

/-- A reader only finds whole sectors. -/
theorem dvd_offset (chain : EbrChain file base sector parts) : ∀ part ∈ parts, 512 ∣ part.offset := by
  induction chain with
  | last _ _ =>
    intro part member
    rw [List.mem_singleton.mp member]
    exact Dvd.intro _ rfl
  | next _ _ _ ih =>
    rw [List.forall_mem_cons]
    exact ⟨Dvd.intro _ rfl, ih⟩

/-- A reader finds nothing far behind the start of the extended partition; by induction on the chain. -/
theorem bounds (chain : EbrChain file base sector parts) (small : base < 2 ^ 32)
    (near : sector < 2 ^ 33) : ∀ part ∈ parts, part.offset < 2 ^ 43 ∧ part.size < 2 ^ 41 := by
  induction chain with
  | @last sector _ _ =>
    intro part member
    have start : (sectorEntry file sector 0).start < 2 ^ 32 := rawEntry_start_lt _
    have count : (sectorEntry file sector 0).count < 2 ^ 32 := rawEntry_count_lt _
    rw [List.mem_singleton.mp member]
    simp only [RawEntry.seen]
    omega
  | @next sector _ _ _ _ ih =>
    have start : (sectorEntry file sector 0).start < 2 ^ 32 := rawEntry_start_lt _
    have count : (sectorEntry file sector 0).count < 2 ^ 32 := rawEntry_count_lt _
    have link : (sectorEntry file sector 1).start < 2 ^ 32 := rawEntry_start_lt _
    rw [List.forall_mem_cons]
    refine ⟨?_, ih (by omega)⟩
    simp only [RawEntry.seen]
    omega

/-- A disk has one answer. -/
theorem unique {others : List SeenPartition} (chain : EbrChain file base sector parts)
    (chain' : EbrChain file base sector others) : parts = others := by
  induction chain generalizing others with
  | last _ none =>
    cases chain' with
    | last _ _ => rfl
    | next _ more _ => exact absurd none more
  | next _ more _ ih =>
    cases chain' with
    | last _ none => exact absurd none more
    | next _ _ rest => rw [ih rest]

end EbrChain

/-- **What a reader obtains is small**: the fields of the entries have four bytes. -/
theorem DiskReads.bounds {file : File} {primary logical : List SeenPartition}
    (reads : DiskReads file primary logical) :
    ∀ part ∈ primary ++ logical, part.offset < 2 ^ 43 ∧ part.size < 2 ^ 41 := by
  have entries : ∀ entry ∈ usedEntries file, entry.start < 2 ^ 32 ∧ entry.count < 2 ^ 32 := by
    intro entry member
    obtain ⟨i, _, rfl⟩ := List.mem_map.mp (List.mem_filter.mp member).1
    exact ⟨rawEntry_start_lt _, rawEntry_count_lt _⟩
  intro part member
  rcases List.mem_append.mp member with member | member
  · rw [← reads.primary] at member
    obtain ⟨entry, among, rfl⟩ := List.mem_map.mp member
    obtain ⟨start, count⟩ := entries entry (List.mem_filter.mp among).1
    simp only [RawEntry.seen]
    omega
  · cases found : (usedEntries file).find? (·.type = partitionTypeExtended) with
    | none =>
      have none := reads.without fun entry among => by
        simpa using List.find?_eq_none.mp found entry among
      rw [none] at member
      cases member
    | some entry =>
      have start := (entries entry (List.mem_of_find?_eq_some found)).1
      exact (reads.chain entry found).bounds start (by omega) part member

/-! ### Reading what is written -/

/-- The numbers that an entry stores. -/
def MbrPartitionEntry.raw (entry : MbrPartitionEntry) : RawEntry :=
  ⟨entry.partitionType, entry.relativeSectors.toNat, entry.totalSectors.toNat⟩

theorem rawEntry_bytes (entry : MbrPartitionEntry) : rawEntry entry.bytes = entry.raw := by
  have start : field entry.bytes 8 4 = entry.relativeSectors.toNat := leValue_leBytes_uint32 _
  have count : field entry.bytes 12 4 = entry.totalSectors.toNat := leValue_leBytes_uint32 _
  rw [rawEntry, start, count]
  rfl

section Table

variable {file : File} {sector : ℕ} {entries : List MbrPartitionEntry}

/-- The entries of a table, with the empty ones behind them. -/
theorem sectorEntry_written (table : sectorTable file sector = entryTable entries) {i : ℕ}
    (inside : i < (entries ++ List.replicate (4 - entries.length) emptyEntry).length) :
    sectorEntry file sector i =
      (entries ++ List.replicate (4 - entries.length) emptyEntry)[i].raw := by
  rw [sectorEntry, table, entrySlot, entryTable,
    flatMap_block MbrPartitionEntry.length_bytes _ inside, rawEntry_bytes]

theorem signed_written (table : sectorTable file sector = entryTable entries)
    (few : entries.length ≤ 4) : Signed file sector := by
  have length : ((entries ++ List.replicate (4 - entries.length) emptyEntry).flatMap
      MbrPartitionEntry.bytes).length = 64 := by
    rw [length_flatMap_block MbrPartitionEntry.length_bytes, List.length_append,
      List.length_replicate, Nat.add_sub_cancel' few]
  rw [Signed, table, entryTable, List.drop_left' length]
  rfl

/-- **The entries with sectors** are those that were stored with some. -/
theorem usedEntries_written (table : sectorTable file 0 = entryTable entries)
    (few : entries.length ≤ 4) :
    usedEntries file = (entries.map MbrPartitionEntry.raw).filter (·.count ≠ 0) := by
  have four : (entries ++ List.replicate (4 - entries.length) emptyEntry).length = 4 := by
    rw [List.length_append, List.length_replicate, Nat.add_sub_cancel' few]
  have all : (List.range 4).map (sectorEntry file 0) =
      (entries ++ List.replicate (4 - entries.length) emptyEntry).map MbrPartitionEntry.raw := by
    refine List.ext_getElem (by rw [List.length_map, List.length_map, four]; rfl) ?_
    intro i inside inside'
    rw [List.length_map] at inside'
    rw [List.getElem_map, List.getElem_range, List.getElem_map, sectorEntry_written table inside']
  have none : ((List.replicate (4 - entries.length) emptyEntry).map MbrPartitionEntry.raw).filter
      (·.count ≠ 0) = [] := by
    rw [List.map_replicate]
    refine List.filter_eq_nil_iff.mpr fun entry member => ?_
    rw [List.eq_of_mem_replicate member]
    decide
  rw [usedEntries, all, List.map_append, List.filter_append, none, List.append_nil]

end Table

end Genimage
