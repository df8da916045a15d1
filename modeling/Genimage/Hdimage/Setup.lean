/-
**`hdimage_setup` (`image-hd.c`).**

The function in its own order: `prepare` is everything in front of the loop over the partitions,
`setupPart` the body of the loop, `hdimageSetup` the whole. The loop state `SetupState` carries the
elements already passed (`done`), which is all that `check_overlap` and the extended partition
pointer look at. All sizes and offsets are 64-bit words, so every sum wraps as it does in C.

Two checks report an error and go on: the location of the GPT array in `prepare` and the alignment
of a partition in `setupPart`. Their messages are collected in `reports`.
-/

import Genimage.Hdimage.Logical
import Genimage.Hdimage.Shortcuts
import Genimage.Util.Round

namespace Genimage

open Library

/-! ### In front of the loop -/

/-- The table type, with the deprecated options `partition-table` and `gpt`. -/
def parseTableType (options : HdimageOptions) : Except SetupError TableType := do
  let name := options.partitionTableType
  let tableType ←
    if name = "none" then .ok .none
    else if name = "mbr" ∨ name = "dos" then .ok .mbr
    else if name = "gpt" then .ok .gpt
    else if name = "hybrid" then .ok .hybrid
    else .error (.invalidTableType name)
  let tableType := options.partitionTable.elim tableType fun table => if table then .mbr else .none
  return options.gpt.elim tableType fun gpt => if gpt then .gpt else .mbr

/-- The image size: the configured one, or the size of the block device. -/
def outputSize (env : Env) (size : UInt64) : Except SetupError UInt64 :=
  match env.blockDevice with
  | none => .ok size
  | some answer => do
    failIf (size ≠ 0) .sizeForBlockDevice
    match answer with
    | .ok size => return size
    | .error ret => .error (.blockDeviceSize ret)

/-- The image alignment: the option, or its default. -/
def effectiveAlign (tableType : TableType) (align : UInt64) : UInt64 :=
  if align ≠ 0 then align else if tableType = .none then 1 else 512

/-- The disk UUID of `setup_uuid`, and the number of random words used. -/
def setupDiskUuid (env : Env) (tableType : TableType) (options : HdimageOptions) :
    Except SetupError (String × Nat) :=
  match options.diskUuid with
  | some uuid => do
    failIf (¬ tableType.hasGpt) .diskUuidOnlyGpt
    failIf (uuidValidate uuid = -1) (.invalidDiskUuid uuid)
    return (uuid, 0)
  | none => .ok (uuidRandom env.random32, 8)

/-- The disk signature of `setup_uuid`, and the number of random words used. -/
def setupDiskSignature (env : Env) (tableType : TableType) (options : HdimageOptions)
    (drawn : Nat) : Except SetupError (UInt32 × Nat) :=
  match options.diskSignature with
  | none => .ok (0, drawn)
  | some signature =>
    if signature = "random" then .ok (env.random32 drawn, drawn + 1)
    else do
      failIf (¬ tableType.hasMbr) .diskSignatureOnlyMbr
      return ((strtoull (cBytes signature) 0).1.toUInt32, drawn)

/-- The `[MBR]` area: the last 72 bytes of the first sector. -/
def mbrArea : Partition := fakePartition .mbr "[MBR]" (512 - 72) 72

/-- The `[GPT header]` area. -/
def gptHeaderArea : Partition := fakePartition .gptHeader "[GPT header]" 512 512

/-- The `[GPT array]` area. -/
def gptArrayArea (gptLocation : UInt64) : Partition :=
  fakePartition .gptArray "[GPT array]" gptLocation ((gptSectors - 1) * 512)

/-- The `[GPT backup]` area: array and header. Without an image size it has no offset yet. -/
def gptBackupArea (size : UInt64) : Partition :=
  fakePartition .gptBackup "[GPT backup]" (if size ≠ 0 then size - gptSectors * 512 else 0)
    (gptSectors * 512)

/-- The elements appended to the partition list for the table itself. -/
def tableAreas (tableType : TableType) (gptLocation size : UInt64) : List Partition :=
  if tableType = .none then []
  else if tableType.hasGpt then
    [mbrArea, gptHeaderArea, gptArrayArea gptLocation, gptBackupArea size]
  else [mbrArea]

/-- Where automatic placement starts: behind the MBR or the GPT array. -/
def tableEnd (tableType : TableType) (gptLocation : UInt64) : UInt64 :=
  if tableType = .none then 0
  else if tableType.hasGpt then (gptArrayArea gptLocation).partitionEnd
  else mbrArea.partitionEnd

/-- The state of `hdimage_setup` in front of the loop. -/
structure Prepared where
  hd : Hdimage
  size : UInt64
  drawn : Nat
  partitions : List Partition
  reports : List SetupError

/-- The first part of `hdimage_setup`. -/
def prepare (env : Env) (config : HdimageConfig) : Except SetupError Prepared := do
  let options := config.options
  let size ← outputSize env config.size
  let tableType ← parseTableType options
  let align := effectiveAlign tableType options.align
  failIf (tableType ≠ .none ∧ (align % 512 ≠ 0 ∨ align = 0)) (.imageAlign align)
  let (index, partitions) ← setupLogicalPartitions tableType align
    (UInt32.ofNat (options.extendedPartition % 2 ^ 32).toNat) (parsePartitions config.partitions)
  let (diskUuid, drawn) ← setupDiskUuid env tableType options
  let (disksig, drawn) ← setupDiskSignature env tableType options drawn
  let gptLocation := if options.gptLocation = 0 then 2 * 512 else options.gptLocation
  -- A misplaced array is reported here, but setup goes on.
  let reports := if gptLocation % 512 ≠ 0 then [.gptLocation gptLocation] else []
  return {
    hd := {
      extendedPartitionIndex := index
      align := align
      disksig := disksig
      diskUuid := diskUuid
      tableType := tableType
      gptLocation := gptLocation
      gptNoBackup := options.gptNoBackup
      fill := options.fill }
    size := size
    drawn := drawn
    partitions := partitions ++ tableAreas tableType gptLocation size
    reports := reports }

/-! ### The loop -/

/-- The local variables of the loop, `hd->file_size`, and the elements it has passed. -/
structure SetupState where
  now : UInt64
  fileSize : UInt64
  hybridEntries : Nat
  resized : Bool
  drawn : Nat
  done : List Partition
  reports : List SetupError

/-- The state in front of the first partition. -/
def Prepared.start (prepared : Prepared) : SetupState where
  now := tableEnd prepared.hd.tableType prepared.hd.gptLocation
  fileSize := tableEnd prepared.hd.tableType prepared.hd.gptLocation
  hybridEntries := 0
  resized := false
  drawn := prepared.drawn
  done := []
  reports := prepared.reports

/-- The partition's own `align`, or its default; without a table no partition is in it. -/
def Partition.withAlign (hd : Hdimage) (part : Partition) : Partition :=
  let inPartitionTable := hd.tableType ≠ .none && part.inPartitionTable
  { part with
    inPartitionTable := inPartitionTable
    align := if part.align ≠ 0 then part.align
      else if inPartitionTable ∨ hd.tableType = .none then hd.align else 1 }

/-- The option checks that depend on the table type. -/
def checkTableOptions (tableType : TableType) (part : Partition) : Except SetupError Unit := do
  failIf (part.partitionTypeUuid.isSome ∧ ¬ tableType.hasGpt) (.typeUuidOnlyGpt part.name)
  failIf (part.partitionUuid.isSome ∧ ¬ tableType.hasGpt) (.partitionUuidOnlyGpt part.name)
  failIf (part.partitionType ≠ 0 ∧ ¬ tableType.hasMbr) (.partitionTypeOnlyMbr part.name)

/-- The partition type UUID: the option or `L`, looked up when it is not a UUID. -/
def resolveTypeUuid (env : Env) (part : Partition) : Except SetupError String := do
  let uuid := part.partitionTypeUuid.getD "L"
  let uuid ←
    if (cBytes uuid).length > 0 ∧ uuidValidate uuid ≠ 0 then
      match gptPartitionTypeLookup env uuid with
      | some guid => .ok guid
      | none => .error (.invalidTypeShortcut part.name uuid)
    else .ok uuid
  failIf (uuidValidate uuid = -1) (.invalidTypeUuid part.name uuid)
  return uuid

/-- The partition UUID: the option, or a random one. -/
def resolvePartitionUuid (env : Env) (drawn : Nat) (part : Partition) :
    Except SetupError (String × Nat) :=
  match part.partitionUuid with
  | some uuid => do
    failIf (uuidValidate uuid = -1) (.invalidPartitionUuid part.name uuid)
    return (uuid, drawn)
  | none => .ok (uuidRandom fun i => env.random32 (drawn + i), drawn + 8)

/-- The UUIDs of a GPT partition, and the number of random words used so far. -/
def setupPartUuids (env : Env) (hd : Hdimage) (drawn : Nat) (part : Partition) :
    Except SetupError (Partition × Nat) :=
  if hd.tableType.hasGpt && part.inPartitionTable then do
    let typeUuid ← resolveTypeUuid env part
    let (uuid, drawn) ← resolvePartitionUuid env drawn part
    return (part.withUuids (some uuid) (some typeUuid), drawn)
  else .ok (part, drawn)

/-- The running end behind the reservation for an extended boot record. -/
def reserveEbr (hd : Hdimage) (now : UInt64) (part : Partition) : UInt64 :=
  if part.logical then roundup (now + hd.align) part.align else now

/-- The GPT backup has no offset yet. -/
def Partition.isFloatingBackup (part : Partition) : Prop := part.node = .gptBackup ∧ part.offset = 0

instance (part : Partition) : Decidable part.isFloatingBackup := inferInstanceAs (Decidable (_ ∧ _))

/-- The running end and the backup once the backup has an offset: it ends at a 4K boundary. -/
def placeBackup (now : UInt64) (part : Partition) : UInt64 × Partition :=
  (if part.isFloatingBackup then now + part.size else now,
   part.withOffset <|
     if part.isFloatingBackup then roundup (now + part.size) 4096 - part.size else part.offset)

/-- The automatic offset. -/
def placePart (hd : Hdimage) (now : UInt64) (part : Partition) : Partition :=
  part.withOffset <|
    if part.offset = 0 ∧ (part.inPartitionTable ∨ hd.tableType = .none) then roundup now part.align
    else part.offset

/-- The space that `setup_part_autoresize` gives to a partition. -/
def autoresizeSpace (hd : Hdimage) (size : UInt64) (part : Partition) : UInt64 :=
  let partsize := size - part.offset
  let partsize := if hd.tableType.hasGpt then partsize - gptSectors * 512 else partsize
  rounddown partsize part.align

/-- `setup_part_autoresize` -/
def setupPartAutoresize (hd : Hdimage) (size : UInt64) (resized : Bool) (part : Partition) :
    Except SetupError (Partition × Bool) :=
  if !part.autoresize then .ok (part, resized)
  else do
    failIf (resized = true) .autoresizeTwice
    failIf (size = 0) .autoresizeNoSize
    let partsize := autoresizeSpace hd size part
    failIf (toLongLong partsize ≤ 0) .autoresizeNoSpace
    failIf (toLongLong partsize < toLongLong part.size)
      (.autoresizeTooSmall part.name (toLongLong partsize) part.size)
    return (part.withSize partsize, true)

/-- The data a child contributes to a partition, as far as its size is known. -/
def Child.dataSize (child : Child) (imageoffset : UInt64) : UInt64 :=
  if child.size ≠ 0 then child.size - imageoffset else 0

/-- The size of a partition whose image has `dataSize` bytes of data. -/
def imageSize (part : Partition) (dataSize : UInt64) : UInt64 :=
  if part.size ≠ 0 then part.size
  else if part.inPartitionTable then roundup dataSize part.align else dataSize

/-- `setup_part_image`: the partition with its size, and `hd->file_size`. -/
def setupPartImage (env : Env) (fileSize : UInt64) (part : Partition) :
    Except SetupError (Partition × UInt64) :=
  match part.image with
  | none => .ok (part, fileSize)
  | some image =>
    match env.imageGet image with
    | none => .error (.noImage image)
    | some child => do
      failIf (child.size ≠ 0 ∧ part.imageoffset > child.size)
        (.imageoffset child.size child.name part.imageoffset)
      let dataSize := child.dataSize part.imageoffset
      let part := part.withSize (imageSize part dataSize)
      failIf (dataSize > part.size) (.partitionTooSmall part.name part.size child.file dataSize)
      return (part, maxUll (part.offset + dataSize) fileSize)

/-- `image_has_hole_covering`. The image of a partition that has been set up exists. -/
def imageHasHoleCovering (env : Env) (image : Option String) (start stop : UInt64) : Bool :=
  match image.bind env.imageGet with
  | none => false
  | some child => child.holes.any fun hole => hole.start ≤ start && stop ≤ hole.stop

/-- `check_overlap`, on the elements in front of `part`. -/
def checkOverlap (env : Env) (part : Partition) : List Partition → Except SetupError Unit
  | [] => .ok ()
  | previous :: rest =>
    if part.offset ≥ previous.partitionEnd then checkOverlap env part rest
    else if previous.offset ≥ part.partitionEnd then checkOverlap env part rest
    else if imageHasHoleCovering env previous.image
        (maxUll part.offset previous.offset - previous.offset)
        (minUll part.partitionEnd previous.partitionEnd - previous.offset) then
      checkOverlap env part rest
    else .error (.overlap part previous (!previous.inPartitionTable &&
      (part.name = "[MBR]" || (cBytes "[GPT").isPrefixOf (cBytes part.name))))

/-- The overlap check of a partition: against every element for a primary one, against the running
end for a logical one. -/
def checkPlace (env : Env) (done : List Partition) (now : UInt64) (part : Partition) :
    Except SetupError Unit :=
  if part.logical then failIf (now > part.offset) (.logicalOverlap part.name)
  else checkOverlap env part done

/-- The `[Extended]` element reaches up to the running end. -/
def Partition.grow (now : UInt64) (part : Partition) : Partition :=
  part.withSize (if part.node = .extended then now - part.offset else part.size)

/-- `hd->extended_partition->size` is updated. -/
def growExtended (now : UInt64) (partitions : List Partition) : List Partition :=
  partitions.map (Partition.grow now)

/-- The last part of the loop body: the partition is in place. -/
def SetupState.advance (hd : Hdimage) (state : SetupState) (now : UInt64) (part : Partition) :
    SetupState :=
  let now := if part.partitionEnd > now then part.partitionEnd else now
  { state with
    now := now
    fileSize := if part.logical then maxUll (part.offset - hd.align + 512) state.fileSize
      else state.fileSize
    done := (if part.logical then growExtended now state.done else state.done) ++ [part] }

/-- The body of the loop in `hdimage_setup`. -/
def setupPart (env : Env) (hd : Hdimage) (size : UInt64) (state : SetupState) (part : Partition) :
    Except SetupError SetupState := do
  let part := part.withAlign hd
  -- A misaligned `align` is reported here, but setup goes on.
  let reports := if part.inPartitionTable ∧ part.align % hd.align ≠ 0 then
      state.reports ++ [.partitionAlign part.align part.name hd.align] else state.reports
  checkTableOptions hd.tableType part
  let (part, drawn) ← setupPartUuids env hd state.drawn part
  let hybridEntries := state.hybridEntries + if hd.tableType.hasGpt ∧ part.inPartitionTable ∧
    part.partitionType ≠ 0 then 1 else 0
  let now := reserveEbr hd state.now part
  let (now, part) := placeBackup now part
  let part := placePart hd now part
  failIf (part.offset % part.align ≠ 0) (.partitionOffset part.name part.offset part.align)
  let (part, resized) ← setupPartAutoresize hd size state.resized part
  let (part, fileSize) ← setupPartImage env state.fileSize part
  failIf (part.size = 0 ∧ part.node ≠ .extended) (.zeroSize part.name)
  checkPlace env state.done now part
  failIf (part.inPartitionTable ∧ part.size % 512 ≠ 0) (.partitionSize part.name part.size)
  return SetupState.advance hd
    { state with hybridEntries := hybridEntries, resized := resized, drawn := drawn,
                 fileSize := fileSize, reports := reports } now part

/-! ### The whole -/

/-- The last part of `hdimage_setup`. -/
def finishSetup (prepared : Prepared) (state : SetupState) : Except SetupError Layout := do
  let hd := prepared.hd
  failIf (state.hybridEntries > 3) (.hybridTooMany state.hybridEntries)
  failIf (hd.tableType = .hybrid ∧ state.hybridEntries = 0) .hybridNone
  failIf (prepared.size > 0 ∧ state.now > prepared.size) .exceedsDevice
  let size := if prepared.size = 0 then state.now else prepared.size
  return {
    hd := hd
    size := size
    fileSize := if hd.fill ∨ (hd.tableType.hasGpt ∧ ¬ hd.gptNoBackup) then size else state.fileSize
    partitions := state.done
    reports := state.reports }

/-- `hdimage_setup` -/
def hdimageSetup (env : Env) (config : HdimageConfig) : Except SetupError Layout := do
  let prepared ← prepare env config
  let state ← prepared.partitions.foldlM (setupPart env prepared.hd prepared.size) prepared.start
  finishSetup prepared state

end Genimage
