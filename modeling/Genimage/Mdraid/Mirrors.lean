/-
**The members of an array are mirrors.**

`Mirror` compares two members of an array: the superblocks agree in everything but the device's own
fields, the bitmap superblocks agree, each file carries its superblock with the right checksum, and the
data areas have the same bytes. `mdraid_mirrors` is that all members of an array are mirrors when every
image that is generated meets `MirrorStep`.

The data image is looked up in the section of the direct parent, so below a child the members get the
data image of another section, or none. A role table of more than 1920 devices is overwritten by the
bitmap superblock, and the checksum is that of the table. `writeMember_ensures` gives the whole file.
-/

import Genimage.Mdraid.Regions
import Genimage.Util.CopySpecs

namespace Genimage

open Library
open Library.Effect

variable {imageGet : String → Option DataImage} {env : MdraidEnv}

/-! ### The file of a member -/

/-- The bytes of the data image. -/
def dataBytes (data : Option DataImage) : List UInt8 :=
  data.elim [] fun data => (data.output.contents.getD .empty).slice 0 data.output.size.toNat

/-- **The file of a member**: zeros, the superblocks and the data. -/
def memberFile (image : MdraidImage) (sb : Superblock) (bsb : BitmapSuper) : File :=
  (((File.empty.truncate image.size.toNat).pwrite 4096 sb.bytes).pwrite 8192 bsb.bytes).pwrite
    (2 ^ 20) (dataBytes image.imgData)

section Write

variable {os : Os} {world : World} {contents : File}

theorem Holds.file (holds : Holds os world contents) (regular : os.blockDevice = false) :
    world.file = some contents := by
  obtain ⟨file, some⟩ := Option.isSome_iff_exists.mp (holds.present regular)
  rw [some, ← holds.contents, World.contents, some, Option.getD_some]

theorem writeDataImage_ensures {image : MdraidImage} (holds : Holds os world contents)
    (promise : ∀ data, image.imgData = some data → data.output.Mapped)
    (fits : ∀ data, image.imgData = some data → 2 ^ 20 + data.output.size.toNat < 2 ^ 64) :
    Ensures True (writeDataImage os image) world fun _ next =>
      Holds os next (contents.pwrite (2 ^ 20) (dataBytes image.imgData)) := by
  unfold writeDataImage
  split
  next none =>
    rw [ensures_pure, none, dataBytes, Option.elim_none, File.pwrite_nil]
    exact holds
  next data some =>
    have room : dataOffsetBytes.toNat + data.output.size.toNat < 2 ^ 64 := fits data some
    refine (insertImage_ensures holds.contents room
      (by rw [UInt64.toNat_zero]; omega) (promise data some) (Or.inl trivial) (Or.inl trivial)).mono ?_
    rintro _ next ⟨input, extents, given, mapped, holds⟩
    have map := promise data some input given _ _ mapped
    rw [UInt64.toNat_zero, imageBytes_zero map (by rw [UInt64.add_zero]; omega)] at holds
    rw [some, dataBytes, Option.elim_some, given, Option.getD_some]
    exact holds

/-- **What `mdraid_generate` leaves in the file.** -/
theorem writeMember_ensures {image : MdraidImage} {sb : Superblock} {bsb : BitmapSuper}
    (regular : os.blockDevice = false) (whole : os.Whole) (nonzero : image.size ≠ 0)
    (super : sb.superOffset = 8) (bitmap : sb.bitmapOffset = 8) (feature : sb.featureMap = 1)
    (promise : ∀ data, image.imgData = some data → data.output.Mapped)
    (fits : ∀ data, image.imgData = some data → 2 ^ 20 + data.output.size.toNat < 2 ^ 64) :
    Ensures True (writeMember os image sb bsb) world fun _ next =>
      next.file = some (memberFile image sb bsb) := by
  unfold writeMember writeBitmap
  rw [super, bitmap, feature, if_pos (by decide)]
  refine (prepareImage_ensures regular (Or.inl trivial)).bind fun _ prepared file => ?_
  have file := file (Or.inr nonzero)
  rw [if_neg nonzero] at file
  have fresh : Holds os prepared (File.empty.truncate image.size.toNat) := .of_file file
  refine (insertData_whole whole fresh.contents (Or.inl trivial)).bind fun _ first ⟨_, holds⟩ => ?_
  refine (insertData_whole whole holds.contents (Or.inl trivial)).bind fun _ second ⟨_, holds⟩ => ?_
  refine (writeDataImage_ensures holds promise fits).mono fun _ next holds => ?_
  exact holds.file regular

theorem fileOf_ok {run : Sys Unit} {before out : Option File} (done : fileOf run before = .ok out) :
    ∃ final, Returns run ⟨before, 0, 0, 0⟩ () final ∧ final.file = out := by
  unfold fileOf at done
  split at done
  next final outcome => exact ⟨final, outcome, Except.ok.inj done⟩
  next => cases done

end Write

/-! ### What is read back -/

/-- The bytes of a region. -/
def readSpan (file : File) (span : Span Nat) : List UInt8 :=
  file.slice span.start (span.stop - span.start)

/-- **The file of a member carries its superblocks**, and the checksum is right. -/
structure Written (member : MdraidMember) (file : File) : Prop where
  superblock : readSpan file member.sb.superblockSpan = member.sb.bytes
  csum : leValue (file.slice (member.sb.superblockSpan.start + 216) 4) =
    mdChecksum (readSpan file member.sb.superblockSpan)
  bitmap : readSpan file member.sb.bitmapSpan = member.bsb.bytes

/-- **Two members are mirrors.** -/
structure Mirror (member other : MdraidMember) (file file' : File) : Prop where
  array : member.sb.arrayPart = other.sb.arrayPart
  bitmap : member.bsb = other.bsb
  data : readSpan file member.sb.dataSpan = readSpan file' other.sb.dataSpan

theorem arrayPart_fields {sb other : Superblock} (same : sb.arrayPart = other.arrayPart) :
    sb.devRoles = other.devRoles ∧ sb.dataSize = other.dataSize ∧ sb.setUuid = other.setUuid := by
  have roles := congrArg Superblock.devRoles same
  have size := congrArg Superblock.dataSize same
  have uuid := congrArg Superblock.setUuid same
  exact ⟨roles, size, uuid⟩

theorem readSpan_sectorSpan (file : File) (sector count : Nat) :
    readSpan file (Superblock.sectorSpan sector count) = file.slice (sector * 512) count := by
  rw [readSpan, Superblock.sectorSpan, Nat.add_sub_cancel_left]

theorem length_superblockOf (env : MdraidEnv) (image : MdraidImage) (parent : Option Superblock)
    (role : UInt16) :
    (superblockOf env image parent role).devRoles.length = (maxDevices image parent).toNat := by
  show ((List.range _).map UInt16.ofNat).length = _
  rw [List.length_map, List.length_range]

/-- The checksum of a generated superblock. -/
theorem mdChecksum_superblockOf (image : MdraidImage) (parent : Option Superblock)
    (role : UInt16) : (superblockOf env image parent role).sbCsum.toNat =
      mdChecksum (superblockOf env image parent role).bytes := by
  have small := (maxDevices image parent).toNat_lt
  rw [← length_superblockOf env image parent role] at small
  exact mdChecksum_withCsum _ small

theorem Superblock.slice_csum (sb : Superblock) :
    leValue ((sb.bytes.drop 216).take 4) = sb.sbCsum.toNat := by
  rw [Superblock.bytes, List.append_assoc, List.drop_left' sb.length_front,
    List.take_left' (length_leBytes _ _), leValue_leBytes]
  exact sb.sbCsum.toNat_lt

section Read

variable {image : MdraidImage} {sb : Superblock} {bsb : BitmapSuper}

theorem memberFile_superblock (few : sb.devRoles.length ≤ 1920) :
    (memberFile image sb bsb).slice 4096 sb.bytes.length = sb.bytes := by
  have length := sb.length_bytes
  rw [memberFile, File.slice_pwrite_apart (by omega), File.slice_pwrite_apart (by omega),
    File.slice_pwrite_self]

theorem memberFile_bitmap : (memberFile image sb bsb).slice 8192 256 = bsb.bytes := by
  have same := File.slice_pwrite_self
    ((File.empty.truncate image.size.toNat).pwrite 4096 sb.bytes) 8192 bsb.bytes
  rw [bsb.length_bytes] at same
  rw [memberFile, File.slice_pwrite_apart (by omega), same]

/-- The data area holds the data image, and zeros behind it. -/
theorem memberFile_data (few : sb.devRoles.length ≤ 1920) (i : Nat) :
    (memberFile image sb bsb).byte (2 ^ 20 + i) = (dataBytes image.imgData).getD i 0 := by
  have length := sb.length_bytes
  have length' := bsb.length_bytes
  unfold memberFile
  by_cases inside : i < (dataBytes image.imgData).length
  · rw [File.pwrite_byte_of_mem (by omega), Nat.add_sub_cancel_left]
  · have zero : (File.empty.truncate image.size.toNat).byte (2 ^ 20 + i) = 0 := by
      show (if _ then (0 : UInt8) else 0) = 0
      exact ite_self 0
    rw [File.pwrite_byte_of_not_mem (by omega), File.pwrite_byte_of_not_mem (by omega),
      File.pwrite_byte_of_not_mem (by omega), zero]
    exact (List.getD_eq_default _ _ (not_lt.mp inside)).symm

end Read

/-! ### The condition -/

/-- **The condition on an image that is generated**: a regular file, no transfer is cut short, at most
1920 devices, a parent that names the data image of the root, and no wrap behind the data. -/
structure MirrorStep (env : MdraidEnv) (order : List MdraidImage) (image root : MdraidImage) :
    Prop where
  regular : (env.os image.file).blockDevice = false
  whole : (env.os image.file).Whole
  devices : root.imagesec.devices % 65536 ≤ 1920
  data : ∀ parent ∈ order, image.imgParent = some parent.file →
    parent.imagesec.image = root.imagesec.image
  fits : ∀ data, image.imgData = some data → 2 ^ 20 + data.output.size.toNat < 2 ^ 64

namespace Generated

variable {sections : List MdraidSection} {order : List MdraidImage} {final : MdraidState}
  {image root : MdraidImage}

/-- A member gets the data image of the root. -/
theorem imgData_eq (generated : Generated imageGet env sections order final)
    (rooted : RootOf order image root) (step : MirrorStep env order image root) :
    image.imgData = root.imgData := by
  have own := generated.imgData_of_alone rooted.root_member rooted.root_alone
  cases rooted with
  | root => rfl
  | @child image parent root among named rest =>
    rw [generated.imgData_of_child among rest.member named, own,
      step.data parent rest.member named]

/-- **The file of a member that meets the condition.** -/
theorem exists_file (generated : Generated imageGet env sections order final)
    (promise : ∀ name data, imageGet name = some data → data.output.Mapped)
    (rooted : RootOf order image root) (step : MirrorStep env order image root) :
    ∃ member, final.member image.file = some member ∧
      member.sb.arrayPart = (superblockOf env root none 0).arrayPart ∧
      bitmapSuper member.sb = some member.bsb ∧
      member.sb.sbCsum.toNat = mdChecksum member.sb.bytes ∧
      member.out = some (memberFile image member.sb member.bsb) := by
  obtain ⟨parent, role, member, found, made, same⟩ := generated.arrayPart_eq rooted
  have data := generated.imgData_eq rooted step
  have own := generated.imgData_of_alone rooted.root_member rooted.root_alone
  have mapped : ∀ data, image.imgData = some data → data.output.Mapped := by
    intro given some
    rw [data, own, Option.bind_eq_some_iff] at some
    obtain ⟨name, _, found⟩ := some
    exact promise name given found
  have nonzero : image.size ≠ 0 := by
    have large := (generated.array_size rooted).1
    have size := (generated.arranged.setUp_of_root rooted).1
    have rootSize := (generated.arranged.setUp_of_root (.root rooted.root_member rooted.root_alone)).1
    rw [data, ← rootSize] at size
    rw [size]
    rintro zero
    rw [zero] at large
    exact absurd large (by decide)
  obtain ⟨last, run, left⟩ := fileOf_ok made.out
  have super : member.sb.superOffset = 8 := congrArg Superblock.superOffset same
  have bitmap : member.sb.bitmapOffset = 8 := congrArg Superblock.bitmapOffset same
  have feature : member.sb.featureMap = 1 := congrArg Superblock.featureMap same
  have file := (writeMember_ensures step.regular step.whole nonzero super bitmap feature mapped
    step.fits).of_returns run
  refine ⟨member, found, same, made.bsb, ?_, left.symm.trans file⟩
  rw [made.sb]
  exact mdChecksum_superblockOf image parent role

end Generated

/-- What `memberFile` is to a reader. -/
theorem written_memberFile {image : MdraidImage} {member : MdraidMember}
    (super : member.sb.superOffset = 8) (bitmap : member.sb.bitmapOffset = 8)
    (few : member.sb.devRoles.length ≤ 1920)
    (csum : member.sb.sbCsum.toNat = mdChecksum member.sb.bytes) :
    Written member (memberFile image member.sb member.bsb) := by
  have start : member.sb.superOffset.toNat * 512 = 4096 := by
    rw [super]
    rfl
  have start' : (member.sb.superOffset.toNat + member.sb.bitmapOffset.toNat) * 512 = 8192 := by
    rw [super, bitmap]
    rfl
  have table : readSpan (memberFile image member.sb member.bsb) member.sb.superblockSpan =
      member.sb.bytes := by
    rw [Superblock.superblockSpan, readSpan_sectorSpan, start, ← member.sb.length_bytes]
    exact memberFile_superblock few
  refine ⟨table, ?_, ?_⟩
  · have field := (memberFile image member.sb member.bsb).slice_drop_take 4096
      (show 216 + 4 ≤ member.sb.bytes.length by rw [member.sb.length_bytes]; omega)
    rw [memberFile_superblock few] at field
    rw [table, ← csum, Superblock.superblockSpan, Superblock.sectorSpan, start, ← field]
    exact member.sb.slice_csum
  · rw [Superblock.bitmapSpan, readSpan_sectorSpan, start']
    exact memberFile_bitmap

/-- **All members of an array whose generation meets the condition are mirrors.** -/
theorem mdraid_mirrors {sections : List MdraidSection} {order : List MdraidImage}
    {final : MdraidState} (generated : Generated imageGet env sections order final)
    (promise : ∀ name data, imageGet name = some data → data.output.Mapped) {root : MdraidImage}
    (steps : ∀ image, RootOf order image root → MirrorStep env order image root)
    {image other : MdraidImage} (rooted : RootOf order image root)
    (rooted' : RootOf order other root) : ∃ member member' file file',
      final.member image.file = some member ∧ final.member other.file = some member' ∧
      member.out = some file ∧ member'.out = some file' ∧
      Written member file ∧ Written member' file' ∧ Mirror member member' file file' := by
  obtain ⟨member, found, same, bitmap, csum, out⟩ :=
    generated.exists_file promise rooted (steps image rooted)
  obtain ⟨member', found', same', bitmap', csum', out'⟩ :=
    generated.exists_file promise rooted' (steps other rooted')
  have roles : (superblockOf env root none 0).devRoles.length ≤ 1920 := by
    have devices := (steps image rooted).devices
    rw [length_superblockOf, maxDevices, toNat_ofInt16]
    omega
  obtain ⟨table, _, _⟩ := arrayPart_fields same
  obtain ⟨table', _, _⟩ := arrayPart_fields same'
  have few : member.sb.devRoles.length ≤ 1920 := by rwa [table]
  have few' : member'.sb.devRoles.length ≤ 1920 := by rwa [table']
  have equal : member.sb.arrayPart = member'.sb.arrayPart := same.trans same'.symm
  obtain ⟨_, dataSize, setUuid⟩ := arrayPart_fields equal
  have super : member.sb.superOffset = 8 := congrArg Superblock.superOffset same
  have super' : member'.sb.superOffset = 8 := congrArg Superblock.superOffset same'
  have offset : member.sb.bitmapOffset = 8 := congrArg Superblock.bitmapOffset same
  have offset' : member'.sb.bitmapOffset = 8 := congrArg Superblock.bitmapOffset same'
  have dataOffset : member.sb.dataOffset = 2048 := congrArg Superblock.dataOffset same
  have dataOffset' : member'.sb.dataOffset = 2048 := congrArg Superblock.dataOffset same'
  refine ⟨member, member', _, _, found, found', out, out', ?_, ?_, equal, ?_, ?_⟩
  · exact written_memberFile super offset few csum
  · exact written_memberFile super' offset' few' csum'
  · have again : bitmapSuper member.sb = bitmapSuper member'.sb := by
      rw [bitmapSuper, bitmapSuper, dataSize, setUuid]
    rw [again, bitmap'] at bitmap
    exact (Option.some.inj bitmap).symm
  · rw [Superblock.dataSpan, Superblock.dataSpan, readSpan_sectorSpan, readSpan_sectorSpan,
      dataOffset', dataSize, dataOffset]
    refine List.map_congr_left fun i _ => ?_
    rw [show (2048 : UInt64).toNat * 512 = 2 ^ 20 from rfl, memberFile_data few,
      memberFile_data few', generated.imgData_eq rooted (steps image rooted),
      generated.imgData_eq rooted' (steps other rooted')]

/-! ### A chain of parents -/

/-- A data image with three bytes. -/
def rootfs (name : String) : Option DataImage :=
  if name = "root.ext4" then
    some ⟨name, 3, { ChildOutput.wholeFile [1, 2, 3] with size := 3 }⟩
  else none

theorem rootfs_mapped (name : String) (data : DataImage) (found : rootfs name = some data) :
    data.output.Mapped := by
  unfold rootfs at found
  split_ifs at found
  rw [← Option.some.inj found]
  exact ChildOutput.wholeFile_mapped [1, 2, 3]

/-- Three members, the last one behind a member that names no data image. -/
def mdraidChain : List MdraidSection := [
  { file := "mdraid-a.img", size := 2 ^ 20 + 4096, devices := 3, image := some "root.ext4" },
  { file := "mdraid-b.img", parent := some "mdraid-a.img" },
  { file := "mdraid-c.img", parent := some "mdraid-b.img" }]

/-- A root and a grandchild whose data areas begin with different bytes. -/
def someDataDiffers (images : List MdraidImage) (final : MdraidState) : Bool :=
  images.any fun root => images.any fun parent => images.any fun image =>
    (final.member root.file).any fun member => (final.member image.file).any fun member' =>
      member.out.any fun file => member'.out.any fun file' =>
        decide (root.imgParent = none ∧ parent.imgParent = some root.file ∧
          image.imgParent = some parent.file ∧ file.byte (2 ^ 20) ≠ file'.byte (2 ^ 20) ∧
          member.sb.dataSpan = ⟨2 ^ 20, 2 ^ 20 + 4096⟩)

/-- The grandchild has no data. -/
theorem mdraid_chain_differs : ∃ images final root image member member' file file',
    Generated rootfs quietEnv mdraidChain images final ∧ RootOf images root root ∧
      RootOf images image root ∧ final.member root.file = some member ∧
      final.member image.file = some member' ∧ member.out = some file ∧
      member'.out = some file' ∧ ¬ Mirror member member' file file' := by
  obtain ⟨images, final, generated, check⟩ := exists_generated rootfs quietEnv mdraidChain
    someDataDiffers (by decide) (by decide +kernel)
  obtain ⟨root, among, check⟩ := List.any_eq_true.mp check
  obtain ⟨parent, among', check⟩ := List.any_eq_true.mp check
  obtain ⟨image, among'', check⟩ := List.any_eq_true.mp check
  obtain ⟨member, found, check⟩ := (Option.any_eq_true ..).mp check
  obtain ⟨member', found', check⟩ := (Option.any_eq_true ..).mp check
  obtain ⟨file, out, check⟩ := (Option.any_eq_true ..).mp check
  obtain ⟨file', out', check⟩ := (Option.any_eq_true ..).mp check
  obtain ⟨alone, named, named', differ, span⟩ := of_decide_eq_true check
  have rooted : RootOf images root root := .root among alone
  refine ⟨images, final, root, image, member, member', file, file', generated, rooted,
    .child among'' named' (.child among' named rooted), found, found', out, out', fun mirror => ?_⟩
  have span' : member'.sb.dataSpan = member.sb.dataSpan := by
    obtain ⟨_, dataSize, _⟩ := arrayPart_fields mirror.array
    have offset : member.sb.dataOffset = member'.sb.dataOffset := by
      have := congrArg Superblock.dataOffset mirror.array
      exact this
    rw [Superblock.dataSpan, Superblock.dataSpan, dataSize, offset]
  have same := congrArg (·.getD 0 0) mirror.data
  simp only [span', span, readSpan, Nat.add_sub_cancel_left,
    File.slice_getD _ _ (show 0 < 4096 by decide)] at same
  exact differ same

/-- What the condition asks of the first two members. -/
def pairMeets (images : List MdraidImage) (_ : MdraidState) : Bool :=
  images.any (fun image => decide (image.imgParent.isSome)) &&
  images.all fun image =>
    decide (image.imagesec.devices % 65536 ≤ 1920) &&
    (image.imgData.all fun data => decide (2 ^ 20 + data.output.size.toNat < 2 ^ 64)) &&
    images.all fun parent => decide ((image.imgParent = some parent.file ∨
      parent.imgParent = none) → parent.imagesec.image = some "root.ext4")

theorem mdraid_mirrors_pair : ∃ images final image root, image.imgParent.isSome ∧
    Generated rootfs quietEnv (mdraidChain.take 2) images final ∧ RootOf images image root ∧
      ∃ member member' file file',
        final.member image.file = some member ∧ final.member root.file = some member' ∧
        member.out = some file ∧ member'.out = some file' ∧
        Written member file ∧ Written member' file' ∧ Mirror member member' file file' := by
  obtain ⟨images, final, generated, check⟩ := exists_generated rootfs quietEnv
    (mdraidChain.take 2) pairMeets (by decide) (by decide +kernel)
  simp only [pairMeets, Bool.and_eq_true, List.any_eq_true, List.all_eq_true,
    decide_eq_true_eq] at check
  obtain ⟨⟨image, among, child⟩, all⟩ := check
  obtain ⟨root, rooted⟩ := generated.exists_root among
  refine ⟨images, final, image, root, child, generated, rooted,
    mdraid_mirrors generated rootfs_mapped (fun other rooted' => ⟨rfl, ?_, ?_, ?_, ?_⟩) rooted
      (.root rooted.root_member rooted.root_alone)⟩
  · exact fun call count short => by cases short
  · exact (all root rooted'.root_member).1.1
  · intro parent among' named
    rw [(all other rooted'.member).2 parent among' (Or.inl named),
      (all other rooted'.member).2 root rooted'.root_member (Or.inr rooted'.root_alone)]
  · intro data given
    have fits := (all other rooted'.member).1.2
    rw [given, Option.all_some, decide_eq_true_eq] at fits
    exact fits

end Genimage
