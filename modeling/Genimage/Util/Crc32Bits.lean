/-
**`crc32` is the reflected CRC-32.**

The table of the source has eight shifts of every byte over the polynomial `0xEDB88320`
(`crc32Tab_eq`). One step of `crc32_next` therefore takes the eight bits of its byte into the register,
and the complements at both ends are the start value and the final addition of all ones.

`p` is a pointer to `char`, which is signed: a byte from `0x80` on is read as a negative number and
converted to a word with 24 ones in front. The mask drops them again.
-/

import Genimage.Library.Crc
import Genimage.Util.Crc32

namespace Genimage

open Library

/-- The reflected polynomial of CRC-32. -/
def crc32Polynomial : BitVec 32 := 0xEDB88320

/-- CRC-32, bit by bit. -/
def crc32Bits (message : List UInt8) : BitVec 32 :=
  Crc.checksum crc32Polynomial (BitVec.allOnes 32) (BitVec.allOnes 32) message

/-- `*p++` as an operand of a `uint32_t`: a signed `char` is promoted and converted. -/
def signedChar (byte : UInt8) : UInt32 := byte.toInt8.toInt32.toUInt32

/-- One byte of `crc32_next`, read as a signed `char`. -/
def crc32StepSigned (crc : UInt32) (byte : UInt8) : UInt32 :=
  crc32Tab.getD ((crc ^^^ signedChar byte) &&& 0xff).toNat 0 ^^^ (crc >>> 8)

/-- `crc32_next` on signed characters. -/
def crc32NextSigned (data : List UInt8) (lastCrc : UInt32) : UInt32 :=
  ~~~ data.foldl crc32StepSigned (~~~ lastCrc)

/-! ### The table -/

/-- **The table of the source.** -/
theorem crc32Tab_eq : ∀ i < 256, (crc32Tab.getD i 0).toBitVec =
    (Crc.shiftStep crc32Polynomial)^[8] (BitVec.ofNat 32 i) := by
  decide +kernel

/-- The index of a lookup is the lowest byte. -/
theorem toNat_and_0xff (word : UInt32) : (word &&& 0xff).toNat = word.toNat % 256 := by
  rw [UInt32.toNat_and]
  exact Nat.and_two_pow_sub_one_eq_mod word.toNat 8

/-- **A step of `crc32_next` takes in the bits of its byte.** -/
theorem toBitVec_crc32Step (crc : UInt32) (byte : UInt8) : (crc32Step crc byte).toBitVec =
    (Crc.byteBits byte).foldl (Crc.bitStep crc32Polynomial) crc.toBitVec := by
  have index : ((crc ^^^ byte.toUInt32) &&& 0xff).toNat < 256 := by
    rw [toNat_and_0xff]
    exact Nat.mod_lt _ (by decide)
  have low : BitVec.ofNat 32 ((crc ^^^ byte.toUInt32) &&& 0xff).toNat =
      ((crc.toBitVec ^^^ byte.toBitVec.setWidth 32).setWidth 8).setWidth 32 := by
    apply BitVec.eq_of_toNat_eq
    rw [toNat_and_0xff]
    simp only [BitVec.toNat_ofNat, BitVec.toNat_setWidth]
    rfl
  have high : (crc.toBitVec ^^^ byte.toBitVec.setWidth 32) >>> 8 = crc.toBitVec >>> 8 := by
    have none : byte.toBitVec.setWidth 32 >>> 8 = 0#32 := by
      apply BitVec.eq_of_toNat_eq
      have := byte.toBitVec.isLt
      simp only [BitVec.toNat_ushiftRight, BitVec.toNat_setWidth, Nat.shiftRight_eq_div_pow,
        BitVec.toNat_ofNat]
      omega
    rw [BitVec.ushiftRight_xor_distrib, none, BitVec.xor_zero]
  rw [Crc.foldl_byteBits crc32Polynomial (by decide), Crc.iterate_shiftStep_eight, high, ← low,
    ← crc32Tab_eq _ index]
  rfl

/-- The bits of a message, one byte after the other. -/
theorem toBitVec_foldl_crc32Step (data : List UInt8) (crc : UInt32) :
    (data.foldl crc32Step crc).toBitVec =
      (data.flatMap Crc.byteBits).foldl (Crc.bitStep crc32Polynomial) crc.toBitVec := by
  induction data generalizing crc with
  | nil => rfl
  | cons byte data ih =>
    rw [List.foldl_cons, ih, toBitVec_crc32Step, List.flatMap_cons, List.foldl_append]

/-! ### Signed characters -/

/-- **The sign of a character does not matter.** -/
theorem crc32StepSigned_eq (crc : UInt32) (byte : UInt8) :
    crc32StepSigned crc byte = crc32Step crc byte := by
  have same : signedChar byte &&& 0xff = byte.toUInt32 &&& 0xff := by
    have all : ∀ n < 256, signedChar (UInt8.ofNat n) &&& 0xff = (UInt8.ofNat n).toUInt32 &&& 0xff := by
      decide +kernel
    have := all byte.toNat byte.toNat_lt
    rwa [UInt8.ofNat_toNat] at this
  have index : (crc ^^^ signedChar byte) &&& 0xff = (crc ^^^ byte.toUInt32) &&& 0xff := by
    apply UInt32.toBitVec_inj.mp
    apply BitVec.eq_of_getLsbD_eq
    intro i _
    have bit := congrArg (fun word : UInt32 => word.toBitVec.getLsbD i) same
    simp only [UInt32.toBitVec_and, UInt32.toBitVec_xor, BitVec.getLsbD_and, BitVec.getLsbD_xor,
      Bool.and_xor_distrib_right] at bit ⊢
    rw [bit]
  rw [crc32StepSigned, crc32Step, index]

/-! ### The checksum -/

theorem crc32_bits (data : List UInt8) : (crc32 data).toBitVec = crc32Bits data := by
  rw [crc32, crc32Next, crc32Bits, Crc.checksum, UInt32.toBitVec_not, toBitVec_foldl_crc32Step,
    BitVec.xor_allOnes]
  rfl

/-- **`crc32` is CRC-32 and chains**, also on signed characters. -/
theorem crc32_reflected :
    (∀ data, (crc32 data).toBitVec = crc32Bits data) ∧
    (∀ first second start,
      crc32Next second (crc32Next first start) = crc32Next (first ++ second) start) ∧
    ∀ data start, crc32NextSigned data start = crc32Next data start := by
  refine ⟨crc32_bits, fun first second start => ?_, fun data start => ?_⟩
  · exact (crc32Next_append first second start).symm
  · have same : crc32StepSigned = crc32Step := by
      funext crc byte
      exact crc32StepSigned_eq crc byte
    rw [crc32NextSigned, crc32Next, same]

end Genimage
