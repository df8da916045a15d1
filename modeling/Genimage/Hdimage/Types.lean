/-
**The data of the hdimage handler (`image-hd.c`).**

`HdimageOptions` is the `hdimage` section after libconfuse, with the defaults of `hdimage_opts`;
`Hdimage` is `struct hdimage` without the pointer to the extended partition, which the model finds
by its `Node`, and without the size of the output file, which changes while the partitions are set
up. `Env` is what the handler reads from the rest of the program. `SetupError` has one constructor
for each `image_error` of the setup functions, `text` is the message and `code` the value returned
with it.
-/

import Genimage.Image.Partition
import Genimage.Util.Errno
import Genimage.Util.Uuid

namespace Genimage

/-- `hd->table_type`: the values of `TYPE_NONE`, `TYPE_MBR`, `TYPE_GPT` and `TYPE_HYBRID`. -/
inductive TableType where
  | none
  | mbr
  | gpt
  | hybrid
deriving DecidableEq, Repr

namespace TableType

/-- `table_type & TYPE_MBR` -/
def hasMbr : TableType → Bool
  | .mbr | .hybrid => true
  | .none | .gpt => false

/-- `table_type & TYPE_GPT` -/
def hasGpt : TableType → Bool
  | .gpt | .hybrid => true
  | .none | .mbr => false

end TableType

/-- `PARTITION_TYPE_EXTENDED` -/
def partitionTypeExtended : UInt8 := 0x0F

/-- `GPT_ENTRIES` -/
def gptEntries : Nat := 128

/-- `GPT_SECTORS`: the GPT header and the GPT array. -/
def gptSectors : UInt64 := 33

/-- The `hdimage` section, with the defaults of `hdimage_opts`. -/
structure HdimageOptions where
  align : UInt64 := 0
  diskSignature : Option String := none
  diskUuid : Option String := none
  partitionTable : Option Bool := none
  extendedPartition : Int := 0
  partitionTableType : String := "mbr"
  gpt : Option Bool := none
  gptLocation : UInt64 := 0
  gptNoBackup : Bool := false
  fill : Bool := false

/-- An hdimage section of the configuration: the image options and the partitions. -/
structure HdimageConfig where
  size : UInt64 := 0
  options : HdimageOptions := {}
  partitions : List PartitionSection := []

/-- `struct hdimage` -/
structure Hdimage where
  extendedPartitionIndex : UInt32
  align : UInt64
  disksig : UInt32
  diskUuid : String
  tableType : TableType
  gptLocation : UInt64
  gptNoBackup : Bool
  fill : Bool
deriving DecidableEq, Repr

/-- What the handler reads from the rest of the program: `image_get`, the answer of
`block_device_size` when the output is a block device, the values `random32` returns, and the
shortcuts of the `config` section. -/
structure Env where
  imageGet : String → Option Child
  blockDevice : Option (Except Int UInt64)
  random32 : Nat → UInt32
  gptShortcuts : List (String × String)

/-- No image declares a hole. -/
def Env.Holeless (env : Env) : Prop :=
  ∀ file child, env.imageGet file = some child → child.holes = []

/-- No images, a regular output file and no shortcuts. -/
def Env.bare : Env where
  imageGet _ := none
  blockDevice := none
  random32 _ := 0
  gptShortcuts := []

theorem Env.bare_holeless : Env.bare.Holeless := nofun

/-- The errors that the setup functions report. -/
inductive SetupError where
  | sizeForBlockDevice
  | blockDeviceSize (ret : Int)
  | invalidTableType (tableType : String)
  | imageAlign (align : UInt64)
  | extendedIndex (index : UInt32)
  | forcedPrimaryBefore (name : String)
  | nonPrimaryAfter (name : String)
  | tooManyPrimaries
  | diskUuidOnlyGpt
  | invalidDiskUuid (uuid : String)
  | diskSignatureOnlyMbr
  | gptLocation (location : UInt64)
  | partitionAlign (align : UInt64) (name : String) (hdAlign : UInt64)
  | typeUuidOnlyGpt (name : String)
  | partitionUuidOnlyGpt (name : String)
  | partitionTypeOnlyMbr (name : String)
  | invalidTypeShortcut (name shortcut : String)
  | invalidTypeUuid (name uuid : String)
  | invalidPartitionUuid (name uuid : String)
  | partitionOffset (name : String) (offset align : UInt64)
  | autoresizeTwice
  | autoresizeNoSize
  | autoresizeNoSpace
  | autoresizeTooSmall (name : String) (partsize : Int) (size : UInt64)
  | noImage (image : String)
  | imageoffset (size : UInt64) (name : String) (imageoffset : UInt64)
  | partitionTooSmall (name : String) (size : UInt64) (file : String) (dataSize : UInt64)
  | zeroSize (name : String)
  | overlap (part previous : Partition) (declareHole : Bool)
  | logicalOverlap (name : String)
  | partitionSize (name : String) (size : UInt64)
  | hybridTooMany (entries : Nat)
  | hybridNone
  | exceedsDevice

namespace SetupError

/-- The value that is returned after the message. -/
def code : SetupError → Int
  | .blockDeviceSize ret => ret
  | .imageoffset .. => e2big
  | _ => einval

/-- The message of `image_error`. -/
def text : SetupError → String
  | .sizeForBlockDevice => "image size must not be specified for a block device target"
  | .blockDeviceSize ret => s!"failed to determine size of block device: error {ret}"
  | .invalidTableType tableType => s!"'{tableType}' is not a valid partition-table-type"
  | .imageAlign align =>
    s!"partition alignment ({align}) must be a multiple of 1 sector (512 bytes)"
  | .extendedIndex index =>
    s!"invalid extended partition index ({index}). must be less or equal to 4 (0 for automatic)"
  | .forcedPrimaryBefore name => s!"partition {name}: forced-primary can only be used for " ++
    "partitions following the extended partition"
  | .nonPrimaryAfter name =>
    s!"cannot create non-primary partition {name} after forced-primary partition"
  | .tooManyPrimaries => "too many primary partitions"
  | .diskUuidOnlyGpt => "'disk-uuid' is only valid for gpt and hybrid partition-table-type"
  | .invalidDiskUuid uuid => s!"invalid disk UUID: {uuid}"
  | .diskSignatureOnlyMbr =>
    "'disk-signature' is only valid for mbr and hybrid partition-table-type"
  | .gptLocation location =>
    s!"GPT table location ({location}) must be a multiple of 1 sector (512 bytes)"
  | .partitionAlign align name hdAlign => s!"partition alignment ({align}) of partition " ++
    s!"{name} must be multiple of image alignment ({hdAlign})"
  | .typeUuidOnlyGpt name =>
    s!"part {name}: 'partition-type-uuid' is only valid for gpt and hybrid partition-table-type"
  | .partitionUuidOnlyGpt name =>
    s!"part {name}: 'partition-uuid' is only valid for gpt and hybrid partition-table-type"
  | .partitionTypeOnlyMbr name =>
    s!"part {name}: 'partition-type' is only valid for mbr and hybrid partition-table-type"
  | .invalidTypeShortcut name shortcut => s!"part {name} has invalid type shortcut: {shortcut}"
  | .invalidTypeUuid name uuid => s!"part {name} has invalid partition type UUID: {uuid}"
  | .invalidPartitionUuid name uuid => s!"part {name} has invalid partition UUID: {uuid}"
  | .partitionOffset name offset align =>
    s!"part {name} offset ({offset}) must be a multiple of {align} bytes"
  | .autoresizeTwice => "'autoresize' is only supported for one partition"
  | .autoresizeNoSize => "the image size must be specified when using an 'autoresize' partition"
  | .autoresizeNoSpace => "partitions exceed device size"
  | .autoresizeTooSmall name partsize size =>
    s!"auto-resize partition {name} ends up with a size {partsize} smaller than minimum {size}"
  | .noImage image => s!"could not find {image}"
  | .imageoffset size name start =>
    s!"size {size} of {name} is too small for imageoffset {start}"
  | .partitionTooSmall name size file dataSize =>
    s!"part {name} size ({size}) too small for {file} ({dataSize})"
  | .zeroSize name => s!"part {name} size must not be zero"
  | .overlap part previous declareHole =>
    s!"partition {part.name} (offset {part.offset}, size {part.size}) overlaps previous " ++
    s!"partition {previous.name} (offset {previous.offset}, size {previous.size})" ++
    if declareHole then "\nbootloaders, etc. that overlap with the partition table must " ++
      "declare the overlapping area as a hole." else ""
  | .logicalOverlap name => s!"part {name} overlaps with previous partition"
  | .partitionSize name size =>
    s!"part {name} size ({size}) must be a multiple of 1 sector (512 bytes)"
  | .hybridTooMany entries => s!"hybrid MBR partitions ({entries}) exceeds maximum of 3"
  | .hybridNone =>
    "no partition with partition-type but hybrid partition-table-type selected"
  | .exceedsDevice => "partitions exceed device size"

end SetupError

/-- `hdimage_setup` returning `0`: the handler data, the image size, the output file size and the
partition list it leaves behind, and the messages it reported on the way without stopping. -/
structure Layout where
  hd : Hdimage
  size : UInt64
  fileSize : UInt64
  partitions : List Partition
  reports : List SetupError

end Genimage
