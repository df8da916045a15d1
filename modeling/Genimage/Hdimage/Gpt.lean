/-
**The GPT (`image-hd.c`).**

`hdimage_insert_gpt`: the header, the array of 128 entries, their backup at the end of the image, and
the MBR in front. The two C structs are records with their packed little-endian bytes. Sector numbers
are quotients of byte offsets, while the places that are written are the byte offsets themselves.

A `char` of the name is widened to 16 bits with its sign. The C code stores into `table[128]` without
looking at the index; the model stops there.
-/

import Genimage.Hdimage.Mbr
import Genimage.Util.Crc32

namespace Genimage

open Library

/-- `struct gpt_header` -/
structure GptHeader where
  revision : UInt32
  headerSize : UInt32
  headerCrc : UInt32
  currentLba : UInt64
  backupLba : UInt64
  firstUsableLba : UInt64
  lastUsableLba : UInt64
  diskUuid : Guid
  startingLba : UInt64
  numberEntries : UInt32
  entrySize : UInt32
  tableCrc : UInt32
deriving DecidableEq, Repr

/-- The 92 bytes of the header. -/
def GptHeader.bytes (header : GptHeader) : List UInt8 :=
  List.flatten [[0x45, 0x46, 0x49, 0x20, 0x50, 0x41, 0x52, 0x54], leBytes 4 header.revision.toNat,
    leBytes 4 header.headerSize.toNat, leBytes 4 header.headerCrc.toNat, leBytes 4 0,
    leBytes 8 header.currentLba.toNat, leBytes 8 header.backupLba.toNat,
    leBytes 8 header.firstUsableLba.toNat, leBytes 8 header.lastUsableLba.toNat,
    header.diskUuid.1, leBytes 8 header.startingLba.toNat, leBytes 4 header.numberEntries.toNat,
    leBytes 4 header.entrySize.toNat, leBytes 4 header.tableCrc.toNat]

/-- The 36 code units of a partition name. -/
abbrev GptName := { units : List UInt16 // units.length = 36 }

/-- `struct gpt_partition_entry` -/
structure GptPartitionEntry where
  typeUuid : Guid
  uuid : Guid
  firstLba : UInt64
  lastLba : UInt64
  flags : UInt64
  name : GptName
deriving DecidableEq, Repr

/-- The 128 bytes of an entry. -/
def GptPartitionEntry.bytes (entry : GptPartitionEntry) : List UInt8 :=
  List.flatten [entry.typeUuid.1, entry.uuid.1, leBytes 8 entry.firstLba.toNat,
    leBytes 8 entry.lastLba.toNat, leBytes 8 entry.flags.toNat,
    entry.name.1.flatMap fun unit => leBytes 2 unit.toNat]

/-- Code units cut or padded with zeros to 36. -/
def padName (units : List UInt16) : GptName :=
  ⟨units.take 36 ++ List.replicate (36 - (units.take 36).length) 0, by
    rw [List.length_append, List.length_replicate, List.length_take]
    omega⟩

/-- The name of an entry. -/
def gptName (name : String) : GptName := padName ((cBytes name).map widenChar)

/-- `GPT_PE_FLAG_BOOTABLE` -/
def gptPeFlagBootable : UInt64 := UInt64.ofNat (2 ^ 2)

/-- `GPT_PE_FLAG_READ_ONLY` -/
def gptPeFlagReadOnly : UInt64 := UInt64.ofNat (2 ^ 60)

/-- `GPT_PE_FLAG_HIDDEN` -/
def gptPeFlagHidden : UInt64 := UInt64.ofNat (2 ^ 62)

/-- `GPT_PE_FLAG_NO_AUTO` -/
def gptPeFlagNoAuto : UInt64 := UInt64.ofNat (2 ^ 63)

/-- The attribute bits of a partition. -/
def gptFlags (part : Partition) : UInt64 :=
  (if part.bootable then gptPeFlagBootable else 0) |||
    (if part.readOnly then gptPeFlagReadOnly else 0) |||
    (if part.hidden then gptPeFlagHidden else 0) |||
    (if part.noAutomount then gptPeFlagNoAuto else 0)

/-- The entry of a partition. -/
def gptEntry (part : Partition) : GptPartitionEntry where
  typeUuid := guidOf (part.partitionTypeUuid.getD "")
  uuid := guidOf (part.partitionUuid.getD "")
  firstLba := part.offset / 512
  lastLba := part.partitionEnd / 512 - 1
  flags := gptFlags part
  name := gptName part.name

/-- The entries that are stored into `table`. -/
def gptTable (partitions : List Partition) : Except OutOfRange (List GptPartitionEntry) :=
  partitions.foldlM (storeIf gptEntries (·.inPartitionTable) gptEntry) []

/-- The bytes of `table`: behind the entries there are only zeros. -/
def tableBytes (entries : List GptPartitionEntry) : List UInt8 :=
  entries.flatMap GptPartitionEntry.bytes ++
    List.replicate (128 * (gptEntries - entries.length)) 0

/-- `smallest_offset` -/
def smallestOffset (partitions : List Partition) : UInt64 :=
  (partitions.filter (·.inPartitionTable)).foldl
    (fun smallest part => if part.offset < smallest then part.offset else smallest)
    (UInt64.ofNat (2 ^ 64 - 1))

/-- `first_usable_offset`: the last end of an area outside the table in front of the partitions. -/
def firstUsableOffset (partitions : List Partition) : UInt64 :=
  (partitions.filter fun part => !part.inPartitionTable && !strstr part.name "GPT backup").foldl
    (fun first part =>
      if part.partitionEnd ≤ smallestOffset partitions ∧ part.partitionEnd > first then
        part.partitionEnd
      else first) 0

/-- `header.header_crc` over the header with that field `0`. -/
def GptHeader.withCrc (header : GptHeader) : GptHeader :=
  { header with headerCrc := crc32 { header with headerCrc := 0 }.bytes }

/-- The header in the second sector. -/
def primaryHeader (hd : Hdimage) (size : UInt64) (partitions : List Partition)
    (entries : List GptPartitionEntry) : GptHeader :=
  GptHeader.withCrc {
    revision := 0x00010000
    headerSize := 92
    headerCrc := 0
    currentLba := 1
    backupLba := if hd.gptNoBackup then 1 else size / 512 - 1
    firstUsableLba := roundup (firstUsableOffset partitions) 512 / 512
    lastUsableLba := size / 512 - 1 - gptSectors
    diskUuid := guidOf hd.diskUuid
    startingLba := hd.gptLocation / 512
    numberEntries := UInt32.ofNat gptEntries
    entrySize := 128
    tableCrc := crc32 (tableBytes entries) }

/-- The header in the last sector. -/
def backupHeader (hd : Hdimage) (size : UInt64) (partitions : List Partition)
    (entries : List GptPartitionEntry) : GptHeader :=
  GptHeader.withCrc { primaryHeader hd size partitions entries with
    currentLba := size / 512 - 1
    backupLba := 1
    startingLba := size / 512 - gptSectors }

/-- The backup: array and header at the end of the image. -/
def insertBackup (os : Os) (hd : Hdimage) (size : UInt64) (partitions : List Partition)
    (entries : List GptPartitionEntry) : Sys Unit := do
  extendFile os size
  insertData os (tableBytes entries) (size - gptSectors * 512)
  insertData os (backupHeader hd size partitions entries).bytes (size - 512)

/-- The MBR in front of a GPT. -/
def insertFrontMbr (os : Os) (hd : Hdimage) (size : UInt64) (partitions : List Partition) :
    Sys Unit :=
  if hd.tableType = .hybrid then hdimageInsertMbr os hd partitions
  else hdimageInsertProtectiveMbr os hd size

/-- `hdimage_insert_gpt` -/
def hdimageInsertGpt (os : Os) (hd : Hdimage) (size : UInt64) (partitions : List Partition) :
    Sys Unit :=
  match gptTable partitions with
  | .error _ => throw undefinedBehaviour
  | .ok entries => do
    insertData os (primaryHeader hd size partitions entries).bytes 512
    insertData os (tableBytes entries) hd.gptLocation
    if hd.gptNoBackup then insertFrontMbr os hd size partitions
    else do
      insertBackup os hd size partitions entries
      insertFrontMbr os hd size partitions

/-! ### Sizes -/

@[simp]
theorem GptHeader.length_bytes (header : GptHeader) : header.bytes.length = 92 := by
  simp [GptHeader.bytes, header.diskUuid.2]

@[simp]
theorem GptPartitionEntry.length_bytes (entry : GptPartitionEntry) : entry.bytes.length = 128 := by
  simp [GptPartitionEntry.bytes, entry.typeUuid.2, entry.uuid.2, entry.name.2,
    length_flatMap_block (f := fun unit : UInt16 => leBytes 2 unit.toNat) fun _ => length_leBytes _ _]

theorem length_tableBytes {entries : List GptPartitionEntry} (few : entries.length ≤ gptEntries) :
    (tableBytes entries).length = 16384 := by
  rw [tableBytes, List.length_append, length_flatMap_block GptPartitionEntry.length_bytes,
    List.length_replicate, ← Nat.mul_add, Nat.add_sub_cancel' few]
  rfl

/-- **What is stored into `table`**, if nothing is stored past it. -/
theorem gptTable_ok {partitions : List Partition} {entries : List GptPartitionEntry} :
    gptTable partitions = .ok entries ↔
      entries = (partitions.filter (·.inPartitionTable)).map gptEntry ∧
        entries.length ≤ gptEntries := by
  rw [gptTable, foldlM_store (Nat.zero_le _), List.nil_append]

end Genimage
