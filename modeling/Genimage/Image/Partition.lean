/-
**Partitions and child images (`genimage.h`, `genimage.c`).**

`PartitionSection` is a `partition` section of an image after libconfuse has parsed it, with the
defaults of `partition_opts` and the sizes already converted by `cfg_getint_suffix`;
`parsePartitions` builds the partition list from the sections. A list element of the C program is a
pointer; `Node` tells apart the elements that the program compares by pointer.
-/

import Genimage.Library.Span
import Genimage.Library.Word
import Mathlib.Tactic.Simps.Basic

namespace Genimage

open Library

/-- `struct extent` -/
structure Extent where
  start : UInt64
  stop : UInt64
deriving DecidableEq, Repr

/-- The fields of a child `struct image` that its users read while they are set up. -/
structure Child where
  file : String
  name : String
  size : UInt64
  holes : List Extent
deriving DecidableEq, Repr

/-- A `partition` section, with the defaults of `partition_opts`. -/
structure PartitionSection where
  title : String
  offset : UInt64 := 0
  size : UInt64 := 0
  align : UInt64 := 0
  partitionType : Int := 0
  bootable : Bool := false
  forcedPrimary : Bool := false
  readOnly : Bool := false
  hidden : Bool := false
  noAutomount : Bool := false
  fill : Bool := false
  sparse : Bool := true
  image : Option String := none
  imageoffset : UInt64 := 0
  autoresize : Bool := false
  inPartitionTable : Bool := true
  partitionUuid : Option String := none
  partitionTypeUuid : Option String := none

/-- Which list element a partition is: one from the configuration, or one of the areas that
`hdimage_setup` adds. -/
inductive Node where
  | parsed
  | extended
  | mbr
  | gptHeader
  | gptArray
  | gptBackup
deriving DecidableEq, Repr

/-- `struct partition` -/
structure Partition where
  node : Node
  name : String
  offset : UInt64
  size : UInt64
  align : UInt64
  partitionType : UInt8
  bootable : Bool
  logical : Bool
  forcedPrimary : Bool
  readOnly : Bool
  hidden : Bool
  noAutomount : Bool
  fill : Bool
  sparse : Bool
  image : Option String
  imageoffset : UInt64
  autoresize : Bool
  inPartitionTable : Bool
  partitionUuid : Option String
  partitionTypeUuid : Option String

/-- The element that `parse_partitions` adds for one section. -/
def parsePartition (partsec : PartitionSection) : Partition where
  node := .parsed
  name := partsec.title
  offset := partsec.offset
  size := partsec.size
  align := partsec.align
  partitionType := UInt8.ofNat (partsec.partitionType % 256).toNat
  bootable := partsec.bootable
  logical := false
  forcedPrimary := partsec.forcedPrimary
  readOnly := partsec.readOnly
  hidden := partsec.hidden
  noAutomount := partsec.noAutomount
  fill := partsec.fill
  sparse := partsec.sparse
  image := partsec.image
  imageoffset := partsec.imageoffset
  autoresize := partsec.autoresize
  inPartitionTable := partsec.inPartitionTable
  partitionUuid := partsec.partitionUuid
  partitionTypeUuid := partsec.partitionTypeUuid

/-- `parse_partitions` -/
def parsePartitions (imagesec : List PartitionSection) : List Partition :=
  imagesec.map parsePartition

/-- `fake_partition` -/
def fakePartition (node : Node) (name : String) (offset size : UInt64) : Partition where
  node := node
  name := name
  offset := offset
  size := size
  align := 1
  partitionType := 0
  bootable := false
  logical := false
  forcedPrimary := false
  readOnly := false
  hidden := false
  noAutomount := false
  fill := false
  sparse := false
  image := none
  imageoffset := 0
  autoresize := false
  inPartitionTable := false
  partitionUuid := none
  partitionTypeUuid := none

namespace Partition

/-- The partition with another offset. -/
@[simps]
def withOffset (part : Partition) (offset : UInt64) : Partition := { part with offset := offset }

/-- The partition with another size. -/
@[simps]
def withSize (part : Partition) (size : UInt64) : Partition := { part with size := size }

/-- The partition with its UUIDs. -/
@[simps]
def withUuids (part : Partition) (uuid typeUuid : Option String) : Partition :=
  { part with partitionUuid := uuid, partitionTypeUuid := typeUuid }

/-- The partition as a logical one, or not. -/
@[simps]
def withLogical (part : Partition) (logical : Bool) : Partition := { part with logical := logical }

@[simp]
theorem withLogical_self (part : Partition) : part.withLogical part.logical = part := rfl

/-- `partition_end` -/
def partitionEnd (part : Partition) : UInt64 := part.offset + part.size

/-- The bytes of a partition. -/
def span (part : Partition) : Span Nat := ⟨part.offset.toNat, part.offset.toNat + part.size.toNat⟩

/-- The end of the partition is representable. -/
def Fits (part : Partition) : Prop := part.offset.toNat + part.size.toNat < 2 ^ 64

instance (part : Partition) : Decidable part.Fits := inferInstanceAs (Decidable (_ < _))

theorem toNat_partitionEnd {part : Partition} (fits : part.Fits) :
    part.partitionEnd.toNat = part.span.stop :=
  toNat_add_of_lt fits

end Partition

end Genimage
