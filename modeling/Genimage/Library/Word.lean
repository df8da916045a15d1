/-
**64-bit words read as numbers.**

The value of a sum, a difference or a product of words is the value of the numbers as long as the
result is representable; the lemmas here say so with the range as a hypothesis. `multiple_of` turns
the word test `a % b = 0` into divisibility of the values.
-/

import Mathlib.Tactic

namespace Genimage.Library

theorem toNat_add_of_lt {a b : UInt64} (fits : a.toNat + b.toNat < 2 ^ 64) :
    (a + b).toNat = a.toNat + b.toNat := by
  rw [UInt64.toNat_add, Nat.mod_eq_of_lt fits]

theorem toNat_sub_of_le {a b : UInt64} (le : b.toNat ≤ a.toNat) :
    (a - b).toNat = a.toNat - b.toNat :=
  UInt64.toNat_sub_of_le a b (UInt64.le_iff_toNat_le.mpr le)

theorem toNat_mul_of_lt {a b : UInt64} (fits : a.toNat * b.toNat < 2 ^ 64) :
    (a * b).toNat = a.toNat * b.toNat := by
  rw [UInt64.toNat_mul, Nat.mod_eq_of_lt fits]

/-- A sum that does not fit loses exactly `2 ^ 64`. -/
theorem toNat_add_of_le {a b : UInt64} (wraps : 2 ^ 64 ≤ a.toNat + b.toNat) :
    (a + b).toNat = a.toNat + b.toNat - 2 ^ 64 := by
  have := a.toNat_lt
  have := b.toNat_lt
  rw [UInt64.toNat_add]
  omega

theorem toNat_pos {a : UInt64} : 0 < a.toNat ↔ a ≠ 0 := by
  rw [← UInt64.toNat_inj.ne, UInt64.toNat_zero]
  omega

theorem eq_zero_iff {a : UInt64} : a = 0 ↔ a.toNat = 0 := by
  rw [← UInt64.toNat_inj, UInt64.toNat_zero]

/-- The word test `a % b = 0` is divisibility of the values. -/
theorem mod_eq_zero_iff {a b : UInt64} : a % b = 0 ↔ b.toNat ∣ a.toNat := by
  rw [eq_zero_iff, UInt64.toNat_mod, Nat.dvd_iff_mod_eq_zero]

/-- The word of a number that is given as an integer. -/
theorem toNat_ofInt_natCast {value : Nat} (fits : value < 2 ^ 64) :
    (UInt64.ofInt (value : Int)).toNat = value := by
  have reduced : ((value : Int) % 2 ^ 64).toNat = value := by omega
  rw [UInt64.ofInt, reduced]
  exact UInt64.toNat_ofNat_of_lt' fits

/-- An integer cut to 16 bits. -/
theorem toNat_ofInt16 (value : Int) : (UInt16.ofInt value).toNat = (value % 65536).toNat := by
  rw [UInt16.ofInt]
  exact UInt16.toNat_ofNat_of_lt' (show _ < 2 ^ 16 by omega)

end Genimage.Library
