/-
**The partition tables of the MBR (`image-hd.c`).**

`hdimage_insert_mbr`, `hdimage_insert_ebr` and `hdimage_insert_protective_mbr`. An entry is the packed
C struct on a little-endian host: sector counts are cut to 32 bits where they are stored. The C code
stores into `mbr.part_entry[4]` without looking at the index; the model stops there, with
`undefinedBehaviour`.
-/

import Genimage.Hdimage.Setup
import Genimage.Library.Bytes
import Genimage.Library.Store
import Genimage.Util.FileOps

namespace Genimage

open Library

/-- A head, sector and cylinder address. -/
structure Chs where
  head : UInt8 := 0
  sector : UInt8 := 0
  cylinder : UInt8 := 0
deriving DecidableEq, Repr

/-- `lba_to_chs` -/
def lbaToChs (lba : UInt32) : Chs :=
  let hpc := 255
  let spt := 63
  let c := lba / (spt * hpc)
  let s := if lba > 0 then lba % spt + 1 else 0
  { head := (lba / spt % hpc).toUInt8
    sector := (((c &&& 0x300) >>> 2) ||| (s &&& 0xff)).toUInt8
    cylinder := (c &&& 0xff).toUInt8 }

/-- `struct mbr_partition_entry` -/
structure MbrPartitionEntry where
  boot : UInt8 := 0
  firstChs : Chs := {}
  partitionType : UInt8 := 0
  lastChs : Chs := {}
  relativeSectors : UInt32 := 0
  totalSectors : UInt32 := 0
deriving DecidableEq, Repr

/-- The 16 bytes of an entry. -/
def MbrPartitionEntry.bytes (entry : MbrPartitionEntry) : List UInt8 :=
  [entry.boot, entry.firstChs.head, entry.firstChs.sector, entry.firstChs.cylinder,
    entry.partitionType, entry.lastChs.head, entry.lastChs.sector, entry.lastChs.cylinder] ++
    leBytes 4 entry.relativeSectors.toNat ++ leBytes 4 entry.totalSectors.toNat

/-- `hdimage_setup_chs` -/
def hdimageSetupChs (entry : MbrPartitionEntry) (offsetSectors : UInt64) : MbrPartitionEntry :=
  { entry with
    firstChs := lbaToChs (entry.relativeSectors.toUInt64 + offsetSectors).toUInt32
    lastChs := lbaToChs ((entry.relativeSectors + entry.totalSectors - 1).toUInt64 +
      offsetSectors).toUInt32 }

/-- An entry that nothing is stored into. -/
def emptyEntry : MbrPartitionEntry := {}

/-- The four entries and the boot signature at the end of a sector. -/
def entryTable (entries : List MbrPartitionEntry) : List UInt8 :=
  (entries ++ List.replicate (4 - entries.length) emptyEntry).flatMap MbrPartitionEntry.bytes ++
    leBytes 2 0xaa55

/-- The 72 bytes of `struct mbr_tail`. -/
def mbrTail (disksig : UInt32) (entries : List MbrPartitionEntry) : List UInt8 :=
  leBytes 4 disksig.toNat ++ leBytes 2 0 ++ entryTable entries

/-! ### `hdimage_insert_mbr` -/

/-- The entry of a primary partition. -/
def mbrEntry (part : Partition) : MbrPartitionEntry :=
  hdimageSetupChs {
    boot := if part.bootable then 0x80 else 0x00
    partitionType := part.partitionType
    relativeSectors := (part.offset / 512).toUInt32
    totalSectors := (part.size / 512).toUInt32 } 0

/-- A partition has an entry in the MBR. -/
def inMbr (hd : Hdimage) (part : Partition) : Bool :=
  !(!part.inPartitionTable || part.logical) && !(hd.tableType = .hybrid && part.partitionType = 0)

/-- The last entry of a hybrid MBR covers the GPT. -/
def hybridEntry (hd : Hdimage) : MbrPartitionEntry :=
  hdimageSetupChs {
    boot := 0x00
    partitionType := 0xee
    relativeSectors := 1
    totalSectors := (hd.gptLocation / 512 + gptSectors - 2).toUInt32 } 0

/-- The entries that are stored into `mbr.part_entry`. -/
def mbrEntries (hd : Hdimage) (partitions : List Partition) :
    Except OutOfRange (List MbrPartitionEntry) := do
  let entries ← partitions.foldlM (storeIf 4 (inMbr hd) mbrEntry) []
  if hd.tableType = .hybrid then store 4 entries (hybridEntry hd) else return entries

/-- `hdimage_insert_mbr` -/
def hdimageInsertMbr (os : Os) (hd : Hdimage) (partitions : List Partition) : Sys Unit :=
  match mbrEntries hd partitions with
  | .error _ => throw undefinedBehaviour
  | .ok entries => insertData os (mbrTail hd.disksig entries) 440

/-- The partition of the protective MBR: the whole image behind the first sector. -/
def protectivePartition (size : UInt64) : Partition :=
  { fakePartition .parsed "" 512 (size - 512) with
    align := 0
    inPartitionTable := true
    partitionType := 0xee }

/-- `hdimage_insert_protective_mbr` -/
def hdimageInsertProtectiveMbr (os : Os) (hd : Hdimage) (size : UInt64) : Sys Unit :=
  hdimageInsertMbr os hd [protectivePartition size]

/-! ### `hdimage_insert_ebr` -/

/-- `hd->extended_partition->offset` -/
def extendedOffset (partitions : List Partition) : UInt64 :=
  (partitions.find? fun part => part.node = .extended).elim 0 (·.offset)

/-- The first entry of an extended boot record: the logical partition behind it. -/
def ebrEntry (hd : Hdimage) (part : Partition) : MbrPartitionEntry :=
  hdimageSetupChs {
    boot := 0x00
    partitionType := part.partitionType
    relativeSectors := (hd.align / 512).toUInt32
    totalSectors := (part.size / 512).toUInt32 } ((part.offset - hd.align) / 512)

/-- The second entry: the next extended boot record with its partition. -/
def nextEbrEntry (hd : Hdimage) (extended : UInt64) (next : Partition) : MbrPartitionEntry :=
  hdimageSetupChs {
    boot := 0x00
    partitionType := partitionTypeExtended
    relativeSectors := ((next.offset - hd.align - extended) / 512).toUInt32
    totalSectors := ((next.size + hd.align) / 512).toUInt32 } (extended / 512)

/-- The entries of the extended boot record of `part`, where `rest` is the list behind it. -/
def ebrEntries (hd : Hdimage) (extended : UInt64) (part : Partition) (rest : List Partition) :
    List MbrPartitionEntry :=
  ebrEntry hd part :: ((rest.find? (·.logical)).map (nextEbrEntry hd extended)).toList

/-- `hdimage_insert_ebr` -/
def hdimageInsertEbr (os : Os) (hd : Hdimage) (extended : UInt64) (part : Partition)
    (rest : List Partition) : Sys Unit :=
  insertData os (entryTable (ebrEntries hd extended part rest)) (part.offset - hd.align + 446)

/-! ### Sizes -/

@[simp]
theorem MbrPartitionEntry.length_bytes (entry : MbrPartitionEntry) : entry.bytes.length = 16 := by
  simp [MbrPartitionEntry.bytes]

theorem length_entryTable {entries : List MbrPartitionEntry} (few : entries.length ≤ 4) :
    (entryTable entries).length = 66 := by
  rw [entryTable, List.length_append, length_flatMap_block MbrPartitionEntry.length_bytes,
    List.length_append, List.length_replicate, length_leBytes, Nat.add_sub_cancel' few]

theorem length_mbrTail {disksig : UInt32} {entries : List MbrPartitionEntry}
    (few : entries.length ≤ 4) : (mbrTail disksig entries).length = 72 := by
  rw [mbrTail, List.length_append, length_entryTable few, List.length_append, length_leBytes,
    length_leBytes]

theorem length_ebrEntries (hd : Hdimage) (extended : UInt64) (part : Partition)
    (rest : List Partition) : (ebrEntries hd extended part rest).length ≤ 2 := by
  unfold ebrEntries
  cases rest.find? (·.logical) <;> simp

/-- **What is stored into `mbr.part_entry`**, if nothing is stored past it. -/
theorem mbrEntries_ok {hd : Hdimage} {partitions : List Partition}
    {entries : List MbrPartitionEntry} : mbrEntries hd partitions = .ok entries ↔
      entries = (partitions.filter (inMbr hd)).map mbrEntry ++
        (if hd.tableType = .hybrid then [hybridEntry hd] else []) ∧ entries.length ≤ 4 := by
  rw [mbrEntries, do_eq_ok]
  simp only [foldlM_store (show ([] : List MbrPartitionEntry).length ≤ 4 by decide),
    List.nil_append]
  split
  next =>
    simp only [store_ok]
    constructor
    · rintro ⟨_, ⟨rfl, _⟩, rfl, few⟩
      exact ⟨rfl, few⟩
    · rintro ⟨rfl, few⟩
      exact ⟨_, ⟨rfl, (List.prefix_append _ _).length_le.trans few⟩, rfl, few⟩
  next =>
    simp only [pure_eq_ok, List.append_nil]
    constructor
    · rintro ⟨_, both, rfl⟩
      exact both
    · exact fun both => ⟨entries, both, rfl⟩

end Genimage
