/-
**The md superblocks (`image-mdraid.c`).**

`Superblock` is `struct mdp_superblock_1` of `linux/raid/md_p.h` with the role table behind it, and
`BitmapSuper` is `bitmap_super_t`. The members that the handler never assigns are zeros from
`xzalloc`; they have no field here and are blocks of zeros in `bytes`.

`calcSb1Csum` is the checksum as the handler computes it, with a 64-bit sum; `mdChecksum` is the same
in numbers, of any byte string, with the checksum field read as `0`. A superblock that carries the
first has the second (`mdChecksum_withCsum`).
-/

import Genimage.Library.Bytes
import Genimage.Util.Round
import Genimage.Util.Uuid

namespace Genimage

open Library

/-- `set_name` -/
abbrev SetName := { bytes : List UInt8 // bytes.length = 32 }

/-- `struct mdp_superblock_1` -/
structure Superblock where
  magic : UInt32
  majorVersion : UInt32
  featureMap : UInt32
  pad0 : UInt32
  setUuid : Guid
  setName : SetName
  ctime : UInt64
  level : UInt32
  size : UInt64
  chunksize : UInt32
  raidDisks : UInt32
  bitmapOffset : UInt32
  dataOffset : UInt64
  dataSize : UInt64
  superOffset : UInt64
  devNumber : UInt32
  cntCorrectedRead : UInt32
  deviceUuid : Guid
  devflags : UInt8
  bblogShift : UInt8
  bblogSize : UInt16
  bblogOffset : UInt32
  utime : UInt64
  events : UInt64
  resyncOffset : UInt64
  sbCsum : UInt32
  maxDev : UInt32
  devRoles : List UInt16
deriving DecidableEq

namespace Superblock

/-- The blocks in front of `sb_csum`. -/
def front (sb : Superblock) : List (List UInt8) := [
  leBytes 4 sb.magic.toNat, leBytes 4 sb.majorVersion.toNat, leBytes 4 sb.featureMap.toNat,
  leBytes 4 sb.pad0.toNat, sb.setUuid.1, sb.setName.1, leBytes 8 sb.ctime.toNat,
  leBytes 4 sb.level.toNat,
  List.replicate 4 0, -- `layout`
  leBytes 8 sb.size.toNat, leBytes 4 sb.chunksize.toNat, leBytes 4 sb.raidDisks.toNat,
  leBytes 4 sb.bitmapOffset.toNat,
  List.replicate 28 0, -- `new_level` to `new_offset`
  leBytes 8 sb.dataOffset.toNat, leBytes 8 sb.dataSize.toNat, leBytes 8 sb.superOffset.toNat,
  List.replicate 8 0, -- `recovery_offset`
  leBytes 4 sb.devNumber.toNat, leBytes 4 sb.cntCorrectedRead.toNat, sb.deviceUuid.1,
  [sb.devflags, sb.bblogShift], leBytes 2 sb.bblogSize.toNat, leBytes 4 sb.bblogOffset.toNat,
  leBytes 8 sb.utime.toNat, leBytes 8 sb.events.toNat, leBytes 8 sb.resyncOffset.toNat]

/-- The bytes behind `sb_csum`. -/
def back (sb : Superblock) : List UInt8 :=
  leBytes 4 sb.maxDev.toNat ++ List.replicate 32 0 ++
    sb.devRoles.flatMap fun role => leBytes 2 role.toNat

/-- The superblock in memory and on the disk. -/
def bytes (sb : Superblock) : List UInt8 :=
  sb.front.flatten ++ leBytes 4 sb.sbCsum.toNat ++ sb.back

theorem length_front (sb : Superblock) : sb.front.flatten.length = 216 := by
  simp [front, sb.setUuid.2, sb.setName.2, sb.deviceUuid.2]

theorem length_back (sb : Superblock) : sb.back.length = 36 + 2 * sb.devRoles.length := by
  rw [back, List.length_append, List.length_append, length_leBytes, List.length_replicate,
    length_flatMap_block fun role : UInt16 => length_leBytes 2 role.toNat]

theorem length_bytes (sb : Superblock) : sb.bytes.length = 256 + 2 * sb.devRoles.length := by
  rw [bytes, List.length_append, List.length_append, length_front, length_leBytes, length_back]
  omega

/-- The superblock with another checksum. -/
def withCsum (sb : Superblock) (csum : UInt32) : Superblock := { sb with sbCsum := csum }

theorem bytes_withCsum (sb : Superblock) (csum : UInt32) :
    (sb.withCsum csum).bytes = sb.front.flatten ++ leBytes 4 csum.toNat ++ sb.back := rfl

end Superblock

/-! ### The checksum -/

/-- The loop of `calc_sb_1_csum`: four bytes at a time, and two at the end. -/
def csumLoop (newcsum : UInt64) : List UInt8 → UInt64
  | b₀ :: b₁ :: b₂ :: b₃ :: rest =>
    csumLoop (newcsum + UInt64.ofNat (leValue [b₀, b₁, b₂, b₃])) rest
  | [b₀, b₁] => newcsum + UInt64.ofNat (leValue [b₀, b₁])
  | _ => newcsum

/-- `calc_sb_1_csum` -/
def calcSb1Csum (sb : Superblock) : UInt32 :=
  let newcsum := csumLoop 0 (sb.withCsum 0).bytes
  (newcsum &&& 0xffffffff).toUInt32 + (newcsum >>> 32).toUInt32

/-- The sum of the words of a byte string. -/
def wordSum : List UInt8 → Nat
  | b₀ :: b₁ :: b₂ :: b₃ :: rest => leValue [b₀, b₁, b₂, b₃] + wordSum rest
  | [b₀, b₁] => leValue [b₀, b₁]
  | _ => 0

/-- **The checksum of a superblock on the disk**: the sum of its words, without the checksum field,
folded to 32 bits. -/
def mdChecksum (bytes : List UInt8) : Nat :=
  let sum := wordSum (bytes.take 216 ++ List.replicate 4 0 ++ bytes.drop 220)
  (sum % 2 ^ 32 + sum / 2 ^ 32) % 2 ^ 32

theorem wordSum_le : ∀ bytes : List UInt8, wordSum bytes ≤ bytes.length * 2 ^ 32
  | b₀ :: b₁ :: b₂ :: b₃ :: rest => by
    have first := leValue_lt [b₀, b₁, b₂, b₃]
    have := wordSum_le rest
    rw [wordSum]
    simp only [List.length_cons, List.length_nil] at *
    omega
  | [b₀, b₁] => by
    have := leValue_lt [b₀, b₁]
    rw [wordSum]
    simp only [List.length_cons, List.length_nil] at *
    omega
  | [] | [_] | [_, _, _] => Nat.zero_le _

/-- The 64-bit sum does not wrap. -/
theorem toNat_csumLoop : ∀ {bytes : List UInt8} {newcsum : UInt64},
    newcsum.toNat + wordSum bytes < 2 ^ 64 →
    (csumLoop newcsum bytes).toNat = newcsum.toNat + wordSum bytes
  | b₀ :: b₁ :: b₂ :: b₃ :: rest, newcsum, fits => by
    rw [wordSum] at fits
    have word : (UInt64.ofNat (leValue [b₀, b₁, b₂, b₃])).toNat = leValue [b₀, b₁, b₂, b₃] :=
      UInt64.toNat_ofNat_of_lt' (show _ < 2 ^ 64 by omega)
    have sum := toNat_add_of_lt (a := newcsum) (b := UInt64.ofNat (leValue [b₀, b₁, b₂, b₃]))
      (by omega)
    rw [csumLoop, toNat_csumLoop (by omega), sum, word, wordSum, Nat.add_assoc]
  | [b₀, b₁], newcsum, fits => by
    rw [wordSum] at fits
    have word : (UInt64.ofNat (leValue [b₀, b₁])).toNat = leValue [b₀, b₁] :=
      UInt64.toNat_ofNat_of_lt' (show _ < 2 ^ 64 by omega)
    rw [csumLoop, toNat_add_of_lt (by omega), word, wordSum]
  | [], _, _ | [_], _, _ | [_, _, _], _, _ => rfl

/-- **The written checksum is the checksum of the written superblock.** -/
theorem mdChecksum_withCsum (sb : Superblock) (small : sb.devRoles.length < 2 ^ 16) :
    (calcSb1Csum sb).toNat = mdChecksum (sb.withCsum (calcSb1Csum sb)).bytes := by
  have cleared : (sb.withCsum (calcSb1Csum sb)).bytes.take 216 ++ List.replicate 4 0 ++
      (sb.withCsum (calcSb1Csum sb)).bytes.drop 220 = (sb.withCsum 0).bytes := by
    have head : ((sb.withCsum (calcSb1Csum sb)).bytes).take 216 = sb.front.flatten := by
      rw [Superblock.bytes_withCsum, List.append_assoc, List.take_left' sb.length_front]
    have tail : ((sb.withCsum (calcSb1Csum sb)).bytes).drop 220 = sb.back := by
      rw [Superblock.bytes_withCsum]
      refine List.drop_left' ?_
      rw [List.length_append, sb.length_front, length_leBytes]
    have zeros : List.replicate 4 0 = leBytes 4 (0 : UInt32).toNat := rfl
    rw [head, tail, zeros, Superblock.bytes_withCsum]
  have fits : wordSum (sb.withCsum 0).bytes < 2 ^ 64 := by
    have := wordSum_le (sb.withCsum 0).bytes
    have length : (sb.withCsum 0).bytes.length = 256 + 2 * sb.devRoles.length :=
      Superblock.length_bytes _
    omega
  have sum : (csumLoop 0 (sb.withCsum 0).bytes).toNat = wordSum (sb.withCsum 0).bytes := by
    rw [toNat_csumLoop (by simpa using fits), UInt64.toNat_zero, Nat.zero_add]
  have mask : (0xffffffff : UInt64).toNat = 2 ^ 32 - 1 := rfl
  have shift : (32 : UInt64).toNat % 64 = 32 := rfl
  rw [mdChecksum, cleared, calcSb1Csum, UInt32.toNat_add, UInt64.toNat_toUInt32,
    UInt64.toNat_toUInt32, UInt64.toNat_and, UInt64.toNat_shiftRight, mask, shift, sum,
    Nat.and_two_pow_sub_one_eq_mod, Nat.shiftRight_eq_div_pow]
  omega

/-! ### The bitmap superblock -/

/-- `bitmap_super_t` -/
structure BitmapSuper where
  magic : UInt32
  version : UInt32
  uuid : Guid
  events : UInt64
  eventsCleared : UInt64
  syncSize : UInt64
  state : UInt32
  chunksize : UInt32
  daemonSleep : UInt32
  writeBehind : UInt32
  sectorsReserved : UInt32
  nodes : UInt32
deriving DecidableEq

/-- The 256 bytes of a bitmap superblock; `cluster_name` and the padding are zeros. -/
def BitmapSuper.bytes (bsb : BitmapSuper) : List UInt8 :=
  List.flatten [leBytes 4 bsb.magic.toNat, leBytes 4 bsb.version.toNat, bsb.uuid.1,
    leBytes 8 bsb.events.toNat, leBytes 8 bsb.eventsCleared.toNat, leBytes 8 bsb.syncSize.toNat,
    leBytes 4 bsb.state.toNat, leBytes 4 bsb.chunksize.toNat, leBytes 4 bsb.daemonSleep.toNat,
    leBytes 4 bsb.writeBehind.toNat, leBytes 4 bsb.sectorsReserved.toNat,
    leBytes 4 bsb.nodes.toNat,
    List.replicate 64 0, -- `cluster_name`
    List.replicate 120 0] -- `pad`

theorem BitmapSuper.length_bytes (bsb : BitmapSuper) : bsb.bytes.length = 256 := by
  simp only [bytes, List.length_flatten, List.map_cons, List.map_nil, List.sum_cons, List.sum_nil,
    length_leBytes, List.length_replicate, bsb.uuid.2, Nat.reduceAdd]

end Genimage
