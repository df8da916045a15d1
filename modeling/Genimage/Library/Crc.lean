/-
**Reflected cyclic redundancy checks.**

The register of a reflected CRC is shifted down by one bit for every message bit; when the bit that
leaves it differs from the message bit, the polynomial is added (`bitStep`). Width and polynomial are
parameters, and the bits of a byte go in lowest first (`checksum`).

The shift is additive (`shiftStep_xor`), so that a byte is eight shifts of the register with the byte
added (`foldl_byteBits`), and these are one lookup in the table of all bytes and a shift by eight
(`iterate_shiftStep_eight`).
-/

import Mathlib.Tactic

namespace Genimage.Library.Crc

variable {w : Nat} (poly : BitVec w)

/-! ### The definition -/

/-- One message bit. -/
def bitStep (register : BitVec w) (bit : Bool) : BitVec w :=
  if (register.getLsbD 0) ^^ bit then register >>> 1 ^^^ poly else register >>> 1

/-- The bits of a byte, lowest first. -/
def byteBits (byte : UInt8) : List Bool := (List.range 8).map byte.toNat.testBit

/-- **The checksum of a message**, bit by bit. -/
def checksum (start xorOut : BitVec w) (message : List UInt8) : BitVec w :=
  (message.flatMap byteBits).foldl (bitStep poly) start ^^^ xorOut

/-! ### The shift -/

/-- A bit that is `0`. -/
def shiftStep (register : BitVec w) : BitVec w := bitStep poly register false

theorem shiftStep_xor (first second : BitVec w) :
    shiftStep poly (first ^^^ second) = shiftStep poly first ^^^ shiftStep poly second := by
  simp only [shiftStep, bitStep, Bool.bne_false, BitVec.getLsbD_xor, BitVec.ushiftRight_xor_distrib]
  cases first.getLsbD 0 <;> cases second.getLsbD 0 <;>
    simp only [Bool.bne_true, Bool.bne_false, Bool.not_true, Bool.not_false, if_true,
      Bool.false_eq_true, if_false]
  · rw [BitVec.xor_assoc]
  · rw [BitVec.xor_assoc, BitVec.xor_assoc, BitVec.xor_comm poly]
  · rw [BitVec.xor_assoc, ← BitVec.xor_assoc poly, BitVec.xor_comm poly, BitVec.xor_assoc _ poly,
      BitVec.xor_self, BitVec.xor_zero]

theorem iterate_shiftStep_xor (count : Nat) (first second : BitVec w) :
    (shiftStep poly)^[count] (first ^^^ second) =
      (shiftStep poly)^[count] first ^^^ (shiftStep poly)^[count] second := by
  induction count generalizing first second with
  | zero => rfl
  | succ count ih =>
    rw [Function.iterate_succ_apply, shiftStep_xor, ih]
    rfl

/-- A register that has been shifted up comes down as it was. -/
theorem shiftStep_shiftLeft {register : BitVec w} (fits : register.toNat * 2 < 2 ^ w) :
    shiftStep poly (register <<< 1) = register := by
  have low : (register <<< 1).getLsbD 0 = false := by simp
  rw [shiftStep, bitStep, low, if_neg (by simp)]
  apply BitVec.eq_of_toNat_eq
  rw [BitVec.toNat_ushiftRight, BitVec.toNat_shiftLeft, Nat.shiftLeft_eq, pow_one,
    Nat.mod_eq_of_lt fits, Nat.shiftRight_eq_div_pow, pow_one, Nat.mul_div_cancel _ two_pos]

theorem iterate_shiftStep_shiftLeft (count : Nat) {register : BitVec w}
    (fits : register.toNat * 2 ^ count < 2 ^ w) :
    (shiftStep poly)^[count] (register <<< count) = register := by
  induction count with
  | zero => simp
  | succ count ih =>
    rw [pow_succ, ← mul_assoc] at fits
    have smaller : register.toNat * 2 ^ count < 2 ^ w := by omega
    have value : (register <<< count).toNat = register.toNat * 2 ^ count := by
      rw [BitVec.toNat_shiftLeft, Nat.shiftLeft_eq, Nat.mod_eq_of_lt smaller]
    rw [Function.iterate_succ_apply, BitVec.shiftLeft_add, shiftStep_shiftLeft poly (by rwa [value])]
    exact ih smaller

/-! ### A byte -/

/-- The register with the given lowest bits. -/
def ofBits (w : Nat) : List Bool → BitVec w
  | [] => 0
  | bit :: bits => BitVec.setWidth w (BitVec.ofBool bit) ^^^ (ofBits w bits <<< 1)

theorem getLsbD_ofBits (bits : List Bool) (i : Nat) :
    (ofBits w bits).getLsbD i = (decide (i < w) && bits.getD i false) := by
  induction bits generalizing i with
  | nil => simp [ofBits]
  | cons bit bits ih =>
    rw [ofBits, BitVec.getLsbD_xor, BitVec.getLsbD_shiftLeft, BitVec.getLsbD_setWidth,
      BitVec.getLsbD_ofBool, ih]
    cases i with
    | zero => simp
    | succ i =>
      by_cases inside : i + 1 < w
      · simp [inside, show i < w by omega]
      · simp [inside]

theorem getD_of_le {bits : List Bool} {i : Nat} (behind : bits.length ≤ i) :
    bits.getD i false = false := by
  rw [List.getD_eq_getElem?_getD, List.getElem?_eq_none behind]
  rfl

theorem toNat_ofBits_lt (bits : List Bool) : (ofBits w bits).toNat < 2 ^ bits.length := by
  refine Nat.lt_pow_two_of_testBit _ fun i behind => ?_
  rw [BitVec.testBit_toNat, getLsbD_ofBits, getD_of_le behind, Bool.and_false]

/-- A message bit is added to the register and shifted out. -/
theorem bitStep_eq_shiftStep (positive : 0 < w) (register : BitVec w) (bit : Bool) :
    bitStep poly register bit =
      shiftStep poly (register ^^^ BitVec.setWidth w (BitVec.ofBool bit)) := by
  have low : (register ^^^ BitVec.setWidth w (BitVec.ofBool bit)).getLsbD 0 =
      (register.getLsbD 0 ^^ bit) := by
    rw [BitVec.getLsbD_xor, BitVec.getLsbD_setWidth, BitVec.getLsbD_ofBool]
    simp [positive]
  have high : (register ^^^ BitVec.setWidth w (BitVec.ofBool bit)) >>> 1 = register >>> 1 := by
    rw [BitVec.ushiftRight_xor_distrib]
    have none : BitVec.setWidth w (BitVec.ofBool bit) >>> 1 = 0#w := by
      apply BitVec.eq_of_getLsbD_eq
      intro i _
      simp
    rw [none, BitVec.xor_zero]
  rw [shiftStep, bitStep, bitStep, low, high, Bool.xor_false]

/-- **Several bits at once** are added to the register in front of the shifts. -/
theorem foldl_bitStep (positive : 0 < w) (bits : List Bool) (short : bits.length ≤ w)
    (register : BitVec w) : bits.foldl (bitStep poly) register =
      (shiftStep poly)^[bits.length] (register ^^^ ofBits w bits) := by
  induction bits generalizing register with
  | nil => simp [ofBits]
  | cons bit bits ih =>
    have length : bits.length + 1 ≤ w := short
    have fits : (ofBits w bits).toNat * 2 < 2 ^ w :=
      calc (ofBits w bits).toNat * 2 < 2 ^ bits.length * 2 :=
            Nat.mul_lt_mul_of_pos_right (toNat_ofBits_lt bits) two_pos
        _ = 2 ^ (bits.length + 1) := (pow_succ _ _).symm
        _ ≤ 2 ^ w := Nat.pow_le_pow_right two_pos length
    rw [List.foldl_cons, ih (by omega), List.length_cons, Function.iterate_succ_apply, ofBits,
      ← BitVec.xor_assoc, shiftStep_xor, shiftStep_shiftLeft poly fits,
      bitStep_eq_shiftStep poly positive]

theorem length_byteBits (byte : UInt8) : (byteBits byte).length = 8 := by
  rw [byteBits, List.length_map, List.length_range]

theorem ofBits_byteBits (byte : UInt8) : ofBits w (byteBits byte) = byte.toBitVec.setWidth w := by
  apply BitVec.eq_of_getLsbD_eq
  intro i inside
  rw [getLsbD_ofBits, BitVec.getLsbD_setWidth]
  congr 1
  by_cases small : i < 8
  · have bit : (byteBits byte).getD i false = byte.toNat.testBit i := by simp [byteBits, small]
    rw [bit, ← BitVec.testBit_toNat]
    rfl
  · rw [getD_of_le (by rw [length_byteBits]; omega), BitVec.getLsbD_of_ge _ _ (by omega)]

/-- **A byte is eight shifts** of the register with the byte added. -/
theorem foldl_byteBits (wide : 8 ≤ w) (register : BitVec w) (byte : UInt8) :
    (byteBits byte).foldl (bitStep poly) register =
      (shiftStep poly)^[8] (register ^^^ byte.toBitVec.setWidth w) := by
  rw [foldl_bitStep poly (by omega) _ (by rw [length_byteBits]; exact wide), length_byteBits,
    ofBits_byteBits]

/-- **Eight shifts are a lookup** of the lowest byte and a shift by eight. -/
theorem iterate_shiftStep_eight (register : BitVec w) :
    (shiftStep poly)^[8] register =
      (shiftStep poly)^[8] ((register.setWidth 8).setWidth w) ^^^ register >>> 8 := by
  have split : register = (register.setWidth 8).setWidth w ^^^ (register >>> 8) <<< 8 := by
    apply BitVec.eq_of_getLsbD_eq
    intro i inside
    by_cases small : i < 8
    · simp [inside, small]
    · simp [inside, small, Nat.add_sub_cancel' (not_lt.mp small)]
  have fits : (register >>> 8).toNat * 2 ^ 8 < 2 ^ w := by
    rw [BitVec.toNat_ushiftRight, Nat.shiftRight_eq_div_pow]
    exact (Nat.div_mul_le_self _ _).trans_lt register.isLt
  conv_lhs => rw [split]
  rw [iterate_shiftStep_xor, iterate_shiftStep_shiftLeft poly 8 fits]

end Genimage.Library.Crc
