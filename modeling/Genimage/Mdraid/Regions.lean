/-
**Where an mdraid member puts what.**

`Superblock.regions` are the superblock with its role table, the bitmap superblock, the bad block log
and the data area, at the places that the superblock itself names. `RegionsFit` asks that they are
pairwise apart, end inside the image, and that the data image lies in the data area; `RegionsFitWhen`
is the condition on the sections and the data images under which it is so.

The role table grows by two bytes for each device and reaches the bitmap superblock behind 1920 of
them; nothing compares the two. The size that a data image has once it is generated is not compared
with the array either, and a member without a size of its own takes it from a data image that need not
be the one of the array.
-/

import Genimage.Library.Span
import Genimage.Mdraid.Members
import Mathlib.Data.UInt

namespace Genimage

open Library

variable {imageGet : String → Option DataImage} {env : MdraidEnv}

/-! ### The regions -/

namespace Superblock

/-- `count` bytes from a sector. -/
def sectorSpan (sector count : Nat) : Span Nat := ⟨sector * 512, sector * 512 + count⟩

/-- The superblock with its role table. -/
def superblockSpan (sb : Superblock) : Span Nat :=
  sectorSpan sb.superOffset.toNat (256 + 2 * sb.devRoles.length)

/-- The bitmap superblock. -/
def bitmapSpan (sb : Superblock) : Span Nat :=
  sectorSpan (sb.superOffset.toNat + sb.bitmapOffset.toNat) 256

/-- The bad block log. -/
def bblogSpan (sb : Superblock) : Span Nat :=
  sectorSpan (sb.superOffset.toNat + sb.bblogOffset.toNat) (sb.bblogSize.toNat * 512)

/-- The data area. -/
def dataSpan (sb : Superblock) : Span Nat :=
  sectorSpan sb.dataOffset.toNat (sb.dataSize.toNat * 512)

/-- **The regions of a member.** -/
def regions (sb : Superblock) : List (Span Nat) :=
  [sb.superblockSpan, sb.bitmapSpan, sb.bblogSpan, sb.dataSpan]

end Superblock

/-- Where the data image is written. -/
def preloadSpan (data : DataImage) : Span Nat :=
  ⟨dataOffsetBytes.toNat, dataOffsetBytes.toNat + data.output.size.toNat⟩

/-- **The regions do not collide.** -/
structure RegionsFit (image : MdraidImage) (sb : Superblock) : Prop where
  apart : sb.regions.Pairwise Span.Apart
  inside : ∀ region ∈ sb.regions, region.stop ≤ image.size.toNat
  preload : ∀ data, image.imgData = some data → (preloadSpan data).Within sb.dataSpan

/-- **When they do not**: the array has at most 1920 devices, the image is not smaller than the array,
and the data image fits into the array. -/
structure RegionsFitWhen (root image : MdraidImage) : Prop where
  devices : root.imagesec.devices % 65536 ≤ 1920
  size : (sizeWith root.imagesec.size root.imgData).toNat ≤
    (sizeWith root.imagesec.size image.imgData).toNat
  preload : ∀ data, image.imgData = some data → dataOffsetBytes.toNat + data.output.size.toNat ≤
    (sizeWith root.imagesec.size root.imgData).toNat

/-! ### The size of an array -/

/-- A chunk that is reserved for is not cut to 32 bits. -/
theorem le_sectorsReserved {syncSize : UInt64} {chunksize : UInt32}
    (small : syncSize.toNat < 2 ^ 55) (large : 2 ^ 26 ≤ chunksize.toNat) :
    syncSize.toNat / chunksize.toNat ≤ (sectorsReserved syncSize chunksize).toNat := by
  have quotient : (syncSize / chunksize.toUInt64).toNat = syncSize.toNat / chunksize.toNat := by
    rw [UInt64.toNat_div, UInt32.toNat_toUInt64]
  have below : syncSize.toNat / chunksize.toNat < 2 ^ 29 := by
    refine Nat.div_lt_of_lt_mul (small.trans_le ?_)
    calc 2 ^ 55 = 2 ^ 26 * 2 ^ 29 := by norm_num
      _ ≤ chunksize.toNat * 2 ^ 29 := Nat.mul_le_mul_right _ large
  by_cases zero : syncSize / chunksize.toUInt64 = 0
  · rw [← quotient, zero]
    exact Nat.zero_le _
  · have eight : (8 : UInt64).toNat = 8 := rfl
    have above := le_nextMultiple (syncSize.toNat / chunksize.toNat) (show 0 < 8 by decide)
    have next := nextMultiple_lt 8
      (show 0 < syncSize.toNat / chunksize.toNat by rw [← quotient]; exact toNat_pos.mpr zero)
    have rounded : (roundup (syncSize / chunksize.toUInt64) 8).toNat =
        nextMultiple (syncSize.toNat / chunksize.toNat) 8 := by
      rw [toNat_roundup zero (by rw [quotient, eight]; omega), quotient, eight]
    rw [sectorsReserved, UInt64.toNat_toUInt32, rounded, Nat.mod_eq_of_lt (by omega)]
    exact above

/-- **The loop ends in front of a division by zero only for small arrays.** -/
theorem chunkLoop_small {syncSize : UInt64} (small : syncSize.toNat < 2 ^ 55) {fuel : Nat}
    {chunksize result : UInt32} (multiple : 2 ^ 26 ∣ chunksize.toNat)
    (found : chunkLoop syncSize fuel chunksize = some result) : syncSize.toNat < 2 ^ 41 := by
  induction fuel generalizing chunksize with
  | zero => cases found
  | succ fuel ih =>
    unfold chunkLoop at found
    split_ifs at found with zero large
    · refine ih ?_ found
      rw [UInt32.toNat_mul]
      exact (Nat.dvd_mod_iff (by decide)).mpr (multiple.mul_right _)
    · have nonzero : chunksize.toNat ≠ 0 := fun none => zero (UInt32.toNat_inj.mp none)
      have atLeast := Nat.le_of_dvd (Nat.pos_of_ne_zero nonzero) multiple
      have reserved := le_sectorsReserved small atLeast
      have few : (sectorsReserved syncSize chunksize).toNat ≤ 256 := UInt32.not_lt.mp large
      have := chunksize.toNat_lt
      have next := Nat.lt_div_mul_add (a := syncSize.toNat) (Nat.pos_of_ne_zero nonzero)
      calc syncSize.toNat < (syncSize.toNat / chunksize.toNat + 1) * chunksize.toNat := by
            rwa [Nat.add_mul, one_mul]
        _ ≤ 257 * 2 ^ 32 := Nat.mul_le_mul (by omega) (by omega)
        _ ≤ 2 ^ 41 := by norm_num

namespace Generated

variable {sections : List MdraidSection} {order : List MdraidImage} {final : MdraidState}
  {image root : MdraidImage}

/-- **An array has at least the megabyte in front of its data area**, and the area is the rest. -/
theorem array_size (generated : Generated imageGet env sections order final)
    (rooted : RootOf order image root) :
    2 ^ 20 ≤ root.size.toNat ∧
      ((root.size - dataOffsetBytes) / 512).toNat * 512 = root.size.toNat - 2 ^ 20 := by
  have offset : dataOffsetBytes.toNat = 2 ^ 20 := rfl
  obtain ⟨_, _, member, _, made, same⟩ :=
    generated.arrayPart_eq (.root rooted.root_member rooted.root_alone)
  have dataSize : member.sb.dataSize = (root.size - dataOffsetBytes) / 512 :=
    congrArg Superblock.dataSize same
  have sectors : ((root.size - dataOffsetBytes) / 512).toNat =
      (root.size - dataOffsetBytes).toNat / 512 := by
    rw [UInt64.toNat_div]
    rfl
  have bitmap := made.bsb
  rw [bitmapSuper, Option.map_eq_some_iff] at bitmap
  obtain ⟨chunksize, found, _⟩ := bitmap
  rw [dataSize] at found
  have range := (root.size - dataOffsetBytes).toNat_lt
  have small := chunkLoop_small (by omega) (by decide) found
  have large : 2 ^ 20 ≤ root.size.toNat := by
    by_contra below
    have wrapped : (root.size - dataOffsetBytes).toNat =
        (2 ^ 64 - dataOffsetBytes.toNat + root.size.toNat) % 2 ^ 64 := UInt64.toNat_sub ..
    rw [offset] at wrapped
    omega
  refine ⟨large, ?_⟩
  have aligned := (generated.arranged.setUp_of_root (.root rooted.root_member rooted.root_alone)).2
  rw [sectors, toNat_sub_of_le (by rw [offset]; exact large), offset]
  omega

/-- The size of a member, and the fields of its superblock that say where things are. -/
theorem places (generated : Generated imageGet env sections order final)
    (rooted : RootOf order image root) : ∃ member, final.member image.file = some member ∧
      member.sb.superblockSpan = ⟨4096, 4352 + 2 * (root.imagesec.devices % 65536).toNat⟩ ∧
      member.sb.bitmapSpan = ⟨8192, 8448⟩ ∧ member.sb.bblogSpan = ⟨143360, 147456⟩ ∧
      member.sb.dataSpan = ⟨2 ^ 20, root.size.toNat⟩ := by
  obtain ⟨large, rest⟩ := generated.array_size rooted
  obtain ⟨_, _, member, found, _, same⟩ := generated.arrayPart_eq rooted
  have roles : member.sb.devRoles.length = (root.imagesec.devices % 65536).toNat := by
    have table : member.sb.devRoles =
        (List.range (UInt16.ofInt root.imagesec.devices).toNat).map UInt16.ofNat :=
      congrArg Superblock.devRoles same
    rw [table, List.length_map, List.length_range, toNat_ofInt16]
  have super : member.sb.superOffset = 8 := congrArg Superblock.superOffset same
  have bitmap : member.sb.bitmapOffset = 8 := congrArg Superblock.bitmapOffset same
  have bblog : member.sb.bblogOffset = 272 := congrArg Superblock.bblogOffset same
  have bblogSize : member.sb.bblogSize = 8 := congrArg Superblock.bblogSize same
  have dataOffset : member.sb.dataOffset = 2048 := congrArg Superblock.dataOffset same
  have dataSize : member.sb.dataSize = (root.size - dataOffsetBytes) / 512 :=
    congrArg Superblock.dataSize same
  refine ⟨member, found, ?_, ?_, ?_, ?_⟩
  · rw [Superblock.superblockSpan, super, roles, Superblock.sectorSpan, Span.mk.injEq]
    have eight : (8 : UInt64).toNat = 8 := rfl
    rw [eight, show 8 * 512 = 4096 from rfl, ← Nat.add_assoc]
    exact ⟨rfl, rfl⟩
  · rw [Superblock.bitmapSpan, super, bitmap]
    rfl
  · rw [Superblock.bblogSpan, super, bblog, bblogSize]
    rfl
  · rw [Superblock.dataSpan, dataOffset, dataSize, Superblock.sectorSpan, Span.mk.injEq, rest,
      show (2048 : UInt64).toNat = 2048 from rfl]
    omega

end Generated

/-- **The regions of a member collide exactly when the condition fails.** -/
theorem mdraid_regionsFit_iff {sections : List MdraidSection} {order : List MdraidImage}
    {final : MdraidState} (generated : Generated imageGet env sections order final)
    {image : MdraidImage} (among : image ∈ order) : ∃ root member, RootOf order image root ∧
      final.member image.file = some member ∧
      (RegionsFit image member.sb ↔ RegionsFitWhen root image) := by
  obtain ⟨root, rooted⟩ := generated.exists_root among
  obtain ⟨member, found, super, bitmap, bblog, data⟩ := generated.places rooted
  obtain ⟨large, _⟩ := generated.array_size rooted
  have rootSize := (generated.arranged.setUp_of_root (.root rooted.root_member rooted.root_alone)).1
  have size := (generated.arranged.setUp_of_root rooted).1
  have offset : dataOffsetBytes.toNat = 2 ^ 20 := rfl
  refine ⟨root, member, rooted, found, ?_⟩
  have devices : 0 ≤ root.imagesec.devices % 65536 := Int.emod_nonneg _ (by decide)
  constructor
  · rintro ⟨apart, inside, preload⟩
    rw [Superblock.regions, super, bitmap, bblog, data] at apart inside
    have first := (List.pairwise_cons.mp apart).1 ⟨8192, 8448⟩ (by simp)
    have last := inside ⟨2 ^ 20, root.size.toNat⟩ (by simp)
    refine ⟨?_, by rw [← rootSize, ← size]; exact last, fun image' given => ?_⟩
    · rcases first with before | behind
      · change 4352 + 2 * (root.imagesec.devices % 65536).toNat ≤ 8192 at before
        omega
      · change 8448 ≤ 4096 at behind
        omega
    · have within := (preload image' given).2
      rw [data] at within
      rw [← rootSize]
      exact within
  · rintro ⟨few, le, preload⟩
    rw [← rootSize, ← size] at le
    refine ⟨?_, ?_, fun image' given => ?_⟩
    · rw [Superblock.regions, super, bitmap, bblog, data]
      simp only [List.pairwise_cons, List.mem_cons, List.not_mem_nil, or_false, forall_eq_or_imp,
        forall_eq, Span.Apart, List.Pairwise.nil, and_true, false_imp_iff, implies_true]
      omega
    · rw [Superblock.regions, super, bitmap, bblog, data]
      simp only [List.mem_cons, List.not_mem_nil, or_false, forall_eq_or_imp, forall_eq]
      omega
    · rw [data]
      refine ⟨offset.ge, ?_⟩
      rw [rootSize]
      exact preload image' given

/-- A run that can be evaluated. -/
theorem exists_generated (imageGet : String → Option DataImage) (env : MdraidEnv)
    (sections : List MdraidSection) (check : List MdraidImage → MdraidState → Bool)
    (distinct : (sections.map (·.file)).Nodup)
    (run : ((mdraidSetupAll imageGet sections).toOption.any fun images =>
      (mdraidGenerateAll env images).toOption.any (check images)) = true) :
    ∃ images final, Generated imageGet env sections images final ∧ check images final = true := by
  cases accepted : mdraidSetupAll imageGet sections with
  | error _ =>
    rw [accepted] at run
    cases run
  | ok images =>
    rw [accepted] at run
    cases generated : mdraidGenerateAll env images with
    | error _ =>
      rw [Except.toOption, Option.any_some, generated] at run
      cases run
    | ok final =>
      rw [Except.toOption, Option.any_some, generated] at run
      exact ⟨images, final, ⟨distinct, ⟨images, accepted, .refl _⟩, generated⟩, run⟩

/-- The surroundings of a run: the time, no randomness, no old files. -/
def quietEnv : MdraidEnv where
  mdraidTime := 1700000000
  random32 _ _ := 0
  os _ := { reply := fun _ => .full }
  before _ := none

/-- An array without data. -/
def mdraidArray (devices : Int) : List MdraidSection :=
  [{ file := "mdraid-a.img", size := 2 ^ 20, devices := devices }]

/-- The role table of some image reaches its bitmap superblock. -/
def someTableReaches (images : List MdraidImage) (final : MdraidState) : Bool :=
  images.any fun image => (final.member image.file).any fun member =>
    decide (¬ member.sb.superblockSpan.Apart member.sb.bitmapSpan)

/-- With 1921 devices the role table reaches the bitmap superblock. -/
theorem mdraid_regions_collide : ∃ images final image member,
    Generated (fun _ => none) quietEnv (mdraidArray 1921) images final ∧ image ∈ images ∧
      final.member image.file = some member ∧ ¬ RegionsFit image member.sb := by
  obtain ⟨images, final, generated, check⟩ := exists_generated (fun _ => none) quietEnv
    (mdraidArray 1921) someTableReaches (by decide) (by decide +kernel)
  obtain ⟨image, among, check⟩ := List.any_eq_true.mp check
  obtain ⟨member, found, check⟩ := (Option.any_eq_true ..).mp check
  refine ⟨images, final, image, member, generated, among, found, fun fit => ?_⟩
  exact of_decide_eq_true check
    ((List.pairwise_cons.mp fit.apart).1 member.sb.bitmapSpan List.mem_cons_self)

theorem mdraid_regionsFit_iff_two : ∃ images final,
    Generated (fun _ => none) quietEnv (mdraidArray 2) images final ∧ ∃ image ∈ images,
      ∃ root member, RootOf images image root ∧ final.member image.file = some member ∧
        (RegionsFit image member.sb ↔ RegionsFitWhen root image) := by
  obtain ⟨images, final, generated, check⟩ := exists_generated (fun _ => none) quietEnv
    (mdraidArray 2) (fun images _ => images.any fun _ => true) (by decide) (by decide +kernel)
  obtain ⟨image, among, _⟩ := List.any_eq_true.mp check
  exact ⟨images, final, generated, image, among, mdraid_regionsFit_iff generated among⟩

end Genimage
