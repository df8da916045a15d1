/-
**Primary and logical partitions (`setup_logical_partitions`).**

For an MBR table the partitions of the table from the extended partition index on become logical,
up to the first `forced-primary` one, and the element `[Extended]` goes in front of the first of
them. With index `0` an extended partition is used, as the fourth, when the table has more than four
partitions.
-/

import Genimage.Hdimage.Types
import Genimage.Library.Run

namespace Genimage

open Library

/-- `ensure_extended_partition_index`: the index the scan uses. -/
def ensureExtendedPartitionIndex (index : UInt32) (partitions : List Partition) : UInt32 :=
  if index ≠ 0 then index
  else if partitions.countP (·.inPartitionTable) > 4 then 4 else 0

/-- The `[Extended]` element in front of the first logical partition. -/
def extendedPartition (align : UInt64) (first : Partition) : Partition :=
  { fakePartition .extended "[Extended]" (if first.offset ≠ 0 then first.offset - align else 0) 0 with
    inPartitionTable := true
    partitionType := partitionTypeExtended
    align := align }

/-- The local variables of the loop in `setup_logical_partitions`, and the list elements it has
passed. -/
structure LogicalScan where
  inExtended : Bool := false
  foundExtended : Bool := false
  count : Nat := 0
  mbrEntries : Nat := 0
  done : List Partition := []

/-- The body of the loop in `setup_logical_partitions`. -/
def logicalStep (align : UInt64) (index : UInt32) (scan : LogicalScan) (part : Partition) :
    Except SetupError LogicalScan :=
  if !part.inPartitionTable then .ok { scan with done := scan.done ++ [part] }
  else do
    let count := scan.count + 1
    let opens := index.toNat = count
    let foundExtended := scan.foundExtended || opens
    let inExtended := (scan.inExtended || opens) && !part.forcedPrimary
    let mbrEntries := scan.mbrEntries + (if opens then 1 else 0) + (if inExtended then 0 else 1)
    failIf (part.forcedPrimary ∧ ¬ foundExtended) (.forcedPrimaryBefore part.name)
    failIf (¬ part.forcedPrimary ∧ ¬ inExtended ∧ foundExtended) (.nonPrimaryAfter part.name)
    failIf (mbrEntries > 4) .tooManyPrimaries
    return {
      inExtended := inExtended
      foundExtended := foundExtended
      count := count
      mbrEntries := mbrEntries
      done := scan.done ++ (if opens then [extendedPartition align part] else []) ++
        [part.withLogical (part.logical || inExtended)] }

/-- `setup_logical_partitions`: the index in use and the new partition list. -/
def setupLogicalPartitions (tableType : TableType) (align : UInt64) (index : UInt32)
    (partitions : List Partition) : Except SetupError (UInt32 × List Partition) := do
  failIf (index > 4) (.extendedIndex index)
  if tableType ≠ .mbr then return (index, partitions)
  let index := ensureExtendedPartitionIndex index partitions
  if index = 0 then return (index, partitions)
  let scan ← partitions.foldlM (logicalStep align index) {}
  return (index, scan.done)

end Genimage
