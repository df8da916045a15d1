/-
**The mdraid handler (`image-mdraid.c`).**

The members of an array are images that name each other with `parent`. `mdraidParse` follows the link
for the image size and the name of the data image, `mdraidSetup` checks the sizes, `mdraidGenerate`
writes the file; it takes the superblock of the parent and the counter of roles from there, so its
state holds what every image generated so far has left in its `mdraid_img_t`.

`cfg_getint` returns a `long`, which the handler cuts to 16 bits. `uuid_parse` is applied to the
given UUIDs without a check. A parent that has not been generated is a null pointer, and a chunk size
that has wrapped to `0` divides by zero: both are `MdraidError.undefined`.
-/

import Genimage.Library.Run
import Genimage.Mdraid.Superblock
import Genimage.Util.FileOps
import Mathlib.Logic.Function.Basic

namespace Genimage

open Library

/-- An image with an `mdraid` section, with the defaults of `mdraid_opts`. -/
structure MdraidSection where
  file : String
  size : UInt64 := 0
  label : String := "any:42"
  level : Int := 1
  devices : Int := 1
  role : Int := -1
  timestamp : Int := -1
  raidUuid : Option String := none
  diskUuid : Option String := none
  image : Option String := none
  parent : Option String := none

/-- A data image as `image_get` finds it: its size in setup, and what its generation has left. -/
structure DataImage where
  file : String
  size : UInt64
  output : ChildOutput

/-- The image and its `mdraid_img_t`; `imgParent` is the file name of the parent. -/
structure MdraidImage where
  imagesec : MdraidSection
  size : UInt64
  imgParent : Option String := none
  imgDataPart : Option String := none
  imgData : Option DataImage := none

/-- `image->file` -/
def MdraidImage.file (image : MdraidImage) : String := image.imagesec.file

/-- The ways in which the handler stops. -/
inductive MdraidError where
  | level
  | noParent (parent : String)
  | noDataImage (image : String)
  | tooSmall (file : String)
  | unaligned
  | roleMax
  | roleDevices (maxDevices : UInt16)
  | file (ret : Int)
  | undefined
deriving DecidableEq, Repr

namespace MdraidError

/-- The return value. -/
def code : MdraidError → Int
  | .level => 1
  | .noParent _ => 9
  | .noDataImage _ => 8
  | .tooSmall _ => 3
  | .unaligned => 4
  | .roleMax => 6
  | .roleDevices _ => 5
  | .file ret => ret
  | .undefined => undefinedBehaviour

/-- The message of `image_error`. -/
def text : MdraidError → String
  | .level => "MDRAID Currently only supporting raid level 1 (mirror)!"
  | .noParent parent =>
    s!"MDRAID cannot find parent image to inherit metadata config from: {parent}"
  | .noDataImage image => s!"MDRAID cannot get image definition: {image}"
  | .tooSmall name => s!"MDRAID image too small to fit {name}"
  | .unaligned => "MDRAID image size has to be aligned to 4096 bytes!"
  | .roleMax => "MDRAID role has to be >= 0 and <= 65280."
  | .roleDevices maxDevices => "MDRAID role of this image has to be lower than total number of " ++
    s!"{maxDevices} devices (roles are counted from 0)."
  | .file _ | .undefined => ""

end MdraidError

/-- `DATA_OFFSET_BYTES` -/
def dataOffsetBytes : UInt64 := 2048 * 512

/-- `MDRAID_ALIGN_BYTES` -/
def mdraidAlignBytes : UInt64 := 8 * 512

/-! ### `mdraid_parse` and `mdraid_setup` -/

/-- `mdraid_parse`; `images` has the images in front of this one. -/
def mdraidParse (images : List MdraidImage) (imagesec : MdraidSection) :
    Except MdraidError MdraidImage := do
  let image : MdraidImage := { imagesec := imagesec, size := imagesec.size }
  failIf (Int32.ofInt imagesec.level ≠ 1) .level
  match imagesec.parent with
  | none => return { image with imgDataPart := imagesec.image }
  | some name =>
    match (images ++ [image]).find? (·.file = name) with
    | none => .error (.noParent name)
    | some parent =>
      return { image with
        imgParent := some name
        size := parent.size
        imgDataPart := parent.imagesec.image }

/-- The loop of `main` over the sections. -/
def mdraidParseAll (sections : List MdraidSection) : Except MdraidError (List MdraidImage) :=
  sections.foldlM (fun images imagesec => return images ++ [← mdraidParse images imagesec]) []

/-- The size that an image with a data image gets when it has none. -/
def mdraidSize (size : UInt64) (data : DataImage) : UInt64 :=
  if size = 0 then roundup (data.size + dataOffsetBytes) mdraidAlignBytes else size

/-- The part of `mdraid_setup` about the data image. -/
def setupData (imageGet : String → Option DataImage) (image : MdraidImage) :
    Except MdraidError MdraidImage :=
  match image.imgDataPart with
  | none => .ok image
  | some name =>
    match imageGet name with
    | none => .error (.noDataImage name)
    | some data => do
      let size := mdraidSize image.size data
      failIf (size < data.size + dataOffsetBytes) (.tooSmall data.file)
      return { image with size := size, imgData := some data }

/-- `mdraid_setup` -/
def mdraidSetup (imageGet : String → Option DataImage) (image : MdraidImage) :
    Except MdraidError MdraidImage := do
  let image ← setupData imageGet image
  failIf (image.size ≠ roundup image.size mdraidAlignBytes) .unaligned
  return image

/-! ### The superblocks -/

/-- What the handler uses of the system: the time of the first call, the values of `random32` during
the generation of an image, the system calls and the old files. -/
structure MdraidEnv where
  mdraidTime : UInt64
  random32 : String → Nat → UInt32
  os : String → Os
  before : String → Option File

/-- `strncpy` into `set_name`, with a NUL at the end. -/
def setNameOf (label : String) : SetName :=
  ⟨(cBytes label).take 31 ++ List.replicate (32 - ((cBytes label).take 31).length) 0, by
    rw [List.length_append, List.length_replicate, List.length_take]
    omega⟩

/-- The low 40 bits of a time. -/
def secondsOf (time : UInt64) : UInt64 := time &&& 0xffffffffff

/-- A GUID of zeros. -/
def Guid.zero : Guid := ⟨List.replicate 16 0, rfl⟩

/-- The superblock of an array without a parent, as far as it is about the array. -/
def newSuperblock (env : MdraidEnv) (image : MdraidImage) (maxDevices : UInt16) : Superblock where
  magic := 0xa92b4efc
  majorVersion := 1
  featureMap := 1
  pad0 := 0
  setUuid := guidOf (image.imagesec.raidUuid.getD (uuidRandom (env.random32 image.file)))
  setName := setNameOf image.imagesec.label
  ctime := secondsOf (if 0 ≤ image.imagesec.timestamp then UInt64.ofInt image.imagesec.timestamp
    else env.mdraidTime)
  level := 1
  size := (image.size - dataOffsetBytes) / 512
  chunksize := 0
  raidDisks := maxDevices.toUInt32
  -- zeros until the common part
  bitmapOffset := 0
  dataOffset := 0
  dataSize := 0
  superOffset := 0
  devNumber := 0
  cntCorrectedRead := 0
  deviceUuid := .zero
  devflags := 0
  bblogShift := 0
  bblogSize := 0
  bblogOffset := 0
  utime := 0
  events := 0
  resyncOffset := 0
  sbCsum := 0
  maxDev := 0
  devRoles := List.replicate maxDevices.toNat 0

/-- The disk UUID; a random one is drawn behind that of a new array. -/
def diskUuid (env : MdraidEnv) (image : MdraidImage) : Guid :=
  let drawn := if image.imgParent.isNone ∧ image.imagesec.raidUuid.isNone then 8 else 0
  guidOf (image.imagesec.diskUuid.getD
    (uuidRandom fun i => env.random32 image.file (drawn + i)))

/-- The part of the superblock that every member assigns. -/
def memberSuperblock (sb : Superblock) (role maxDevices : UInt16) (deviceUuid : Guid) :
    Superblock :=
  { sb with
    bitmapOffset := 8
    dataOffset := 2048
    dataSize := sb.size
    superOffset := 8
    devNumber := role.toUInt32
    cntCorrectedRead := 0
    deviceUuid := deviceUuid
    devflags := 0
    bblogShift := 9
    bblogSize := 8
    bblogOffset := 8 + 256 + 8
    utime := sb.ctime
    events := 0
    resyncOffset := 0
    maxDev := maxDevices.toUInt32
    devRoles := (List.range maxDevices.toNat).map UInt16.ofNat }

/-- `bsb->sectors_reserved` for a chunk size. -/
def sectorsReserved (syncSize : UInt64) (chunksize : UInt32) : UInt32 :=
  (roundup (syncSize / chunksize.toUInt64) 8).toUInt32

/-- The loop that doubles the chunk size; it wraps to `0` in less than `fuel` rounds. -/
def chunkLoop (syncSize : UInt64) : Nat → UInt32 → Option UInt32
  | 0, _ => none
  | fuel + 1, chunksize =>
    if chunksize = 0 then none
    else if sectorsReserved syncSize chunksize > 256 then chunkLoop syncSize fuel (chunksize * 2)
    else some chunksize

/-- The bitmap superblock of a member. -/
def bitmapSuper (sb : Superblock) : Option BitmapSuper :=
  (chunkLoop sb.dataSize 7 (64 * 1024 * 1024)).map fun chunksize => {
    magic := 0x6d746962
    version := 4
    uuid := sb.setUuid
    events := 0
    eventsCleared := 0
    syncSize := sb.dataSize
    state := 0
    chunksize := chunksize
    daemonSleep := 5
    writeBehind := 0
    sectorsReserved := sectorsReserved sb.dataSize chunksize
    nodes := 0 }

/-! ### `mdraid_generate` -/

/-- What a generated image leaves in its `mdraid_img_t`, and its file. -/
structure MdraidMember where
  sb : Superblock
  bsb : BitmapSuper
  out : Option File

/-- The images generated so far, by file name, and the role counters. -/
structure MdraidState where
  member : String → Option MdraidMember := fun _ => none
  lastRole : String → UInt16 := fun _ => 0

/-- The superblock of the parent. -/
def parentSuperblock (state : MdraidState) (image : MdraidImage) :
    Except MdraidError (Option Superblock) :=
  match image.imgParent with
  | none => .ok none
  | some parent =>
    match state.member parent with
    | none => .error .undefined
    | some member => .ok (some member.sb)

/-- `max_devices` -/
def maxDevices (image : MdraidImage) : Option Superblock → UInt16
  | none => UInt16.ofInt image.imagesec.devices
  | some sb => sb.raidDisks.toUInt16

/-- The role and the counters behind it. -/
def takeRole (lastRole : String → UInt16) (image : MdraidImage) :
    UInt16 × (String → UInt16) :=
  if image.imagesec.role = -1 then
    match image.imgParent with
    | none => (0, lastRole)
    | some parent => (lastRole parent + 1, Function.update lastRole parent (lastRole parent + 1))
  else (UInt16.ofInt image.imagesec.role, lastRole)

/-- The bitmap superblock is written when the superblock says where. -/
def writeBitmap (os : Os) (sb : Superblock) (bsb : BitmapSuper) : Sys Unit :=
  if sb.featureMap &&& 1 ≠ 0 then
    insertData os bsb.bytes ((sb.superOffset + sb.bitmapOffset.toUInt64) * 512)
  else return

/-- The data image is written when there is one. -/
def writeDataImage (os : Os) (image : MdraidImage) : Sys Unit :=
  match image.imgData with
  | none => return
  | some data => insertImage os (some data.output) data.output.size dataOffsetBytes 0 0 true

/-- The part of `mdraid_generate` that writes the file. -/
def writeMember (os : Os) (image : MdraidImage) (sb : Superblock) (bsb : BitmapSuper) :
    Sys Unit := do
  prepareImage os image.size
  insertData os sb.bytes (sb.superOffset * 512)
  writeBitmap os sb bsb
  writeDataImage os image

/-- The file that a run leaves, from the old one. -/
def fileOf (run : Sys Unit) (before : Option File) : Except MdraidError (Option File) :=
  match Effect.outcome run ⟨before, 0, 0, 0⟩ with
  | (.ok _, world) => .ok world.file
  | (.error ret, _) => .error (.file ret)

/-- `mdraid_generate` -/
def mdraidGenerate (env : MdraidEnv) (state : MdraidState) (image : MdraidImage) :
    Except MdraidError MdraidState := do
  let parent ← parentSuperblock state image
  let maxDevices := maxDevices image parent
  let (role, lastRole) := takeRole state.lastRole image
  failIf (role > 0xff00) .roleMax
  failIf (role ≥ maxDevices) (.roleDevices maxDevices)
  let start := parent.getD (newSuperblock env image maxDevices)
  let sb := memberSuperblock start role maxDevices (diskUuid env image)
  let sb := sb.withCsum (calcSb1Csum sb)
  match bitmapSuper sb with
  | none => .error .undefined
  | some bsb => do
    let out ← fileOf (writeMember (env.os image.file) image sb bsb) (env.before image.file)
    return {
      member := Function.update state.member image.file (some ⟨sb, bsb, out⟩)
      lastRole := lastRole }

/-- The generation of `order`, one image after the other. -/
def mdraidGenerateAll (env : MdraidEnv) (order : List MdraidImage) :
    Except MdraidError MdraidState :=
  order.foldlM (mdraidGenerate env) {}

end Genimage
