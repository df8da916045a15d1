/-
**`roundup`, `rounddown`, `min_ull`, `max_ull` (`util.c`).**

The rounding functions are the C expressions on 64-bit words, so `roundup` of `0` and of a value
whose next multiple is not representable wrap around. Away from these two cases `roundup` is the
least multiple at or above its argument (`toNat_roundup`, `le_roundup`, `dvd_roundup`,
`roundup_le_of_dvd`). At `0` it is the least multiple of `align` at or above `2 ^ 64`, cut to a word
(`toNat_roundup_zero`): that is `0` for a power of two, and for any other `align` a number below
`align` that is not a multiple of it (`not_dvd_roundup_zero`).
-/

import Genimage.Library.Word

namespace Genimage

open Library

/-- `roundup` -/
def roundup (value align : UInt64) : UInt64 := ((value - 1) / align + 1) * align

/-- `rounddown` -/
def rounddown (value align : UInt64) : UInt64 := value - value % align

/-- `min_ull` -/
def minUll (x y : UInt64) : UInt64 := if x < y then x else y

/-- `max_ull` -/
def maxUll (x y : UInt64) : UInt64 := if x > y then x else y

/-- `min` of `genimage.h` on words. -/
def minSize (a b : UInt64) : UInt64 := if a < b then a else b

theorem toNat_minUll (x y : UInt64) : (minUll x y).toNat = min x.toNat y.toNat := by
  unfold minUll
  split_ifs with less
  · exact (min_eq_left (UInt64.lt_iff_toNat_lt.mp less).le).symm
  · exact (min_eq_right (not_lt.mp (UInt64.lt_iff_toNat_lt.not.mp less))).symm

theorem toNat_maxUll (x y : UInt64) : (maxUll x y).toNat = max x.toNat y.toNat := by
  unfold maxUll
  split_ifs with greater
  · exact (max_eq_left (UInt64.lt_iff_toNat_lt.mp greater).le).symm
  · exact (max_eq_right (not_lt.mp (UInt64.lt_iff_toNat_lt.not.mp greater))).symm

theorem toNat_minSize (a b : UInt64) : (minSize a b).toNat = min a.toNat b.toNat :=
  toNat_minUll a b

/-- The value of a word as `long long`. -/
def toLongLong (word : UInt64) : Int :=
  if word.toNat < 2 ^ 63 then word.toNat else word.toNat - 2 ^ 64

theorem toLongLong_of_lt {word : UInt64} (small : word.toNat < 2 ^ 63) :
    toLongLong word = word.toNat := if_pos small

/-! ### The next multiple -/

/-- The multiple of `align` that `roundup` computes, as a number. -/
def nextMultiple (value align : Nat) : Nat := ((value - 1) / align + 1) * align

theorem dvd_nextMultiple (value align : Nat) : align ∣ nextMultiple value align :=
  Dvd.intro_left _ rfl

theorem le_nextMultiple (value : Nat) {align : Nat} (positive : 0 < align) :
    value ≤ nextMultiple value align := by
  have below := Nat.lt_div_mul_add (a := value - 1) positive
  rw [nextMultiple, Nat.add_mul, one_mul]
  omega

theorem nextMultiple_lt (align : Nat) {value : Nat} (nonzero : 0 < value) :
    nextMultiple value align < value + align := by
  have := Nat.div_mul_le_self (value - 1) align
  rw [nextMultiple, Nat.add_mul, one_mul]
  omega

/-- A multiple is its own next multiple. -/
theorem nextMultiple_eq_of_dvd {value align : Nat} (nonzero : 0 < value) (dvd : align ∣ value) :
    nextMultiple value align = value := by
  obtain ⟨count, rfl⟩ := dvd
  have positive : 0 < align := Nat.pos_of_mul_pos_right nonzero
  have below := nextMultiple_lt align nonzero
  have above := le_nextMultiple (align * count) positive
  obtain ⟨other, same⟩ := dvd_nextMultiple (align * count) align
  rw [same] at below above ⊢
  have : count ≤ other := Nat.le_of_mul_le_mul_left above positive
  have : other < count + 1 := Nat.lt_of_mul_lt_mul_left (a := align) (by rw [Nat.mul_add]; omega)
  rw [show other = count by omega]

/-- The next multiple is the least one. -/
theorem nextMultiple_le_of_dvd {value align other : Nat} (nonzero : 0 < value)
    (le : value ≤ other) (dvd : align ∣ other) :
    nextMultiple value align ≤ other := by
  obtain ⟨count, rfl⟩ := dvd
  have smaller : value - 1 < align * count := by omega
  have quotient : (value - 1) / align < count := Nat.div_lt_of_lt_mul smaller
  rw [nextMultiple, Nat.mul_comm align count]
  exact Nat.mul_le_mul_right _ quotient

/-! ### `roundup` on words -/

/-- **`roundup` does not wrap**: its argument is `0` or the next multiple is a word. -/
def RoundupFits (value align : UInt64) : Prop :=
  value = 0 ∨ nextMultiple value.toNat align.toNat < 2 ^ 64

instance (value align : UInt64) : Decidable (RoundupFits value align) :=
  inferInstanceAs (Decidable (_ ∨ _))

/-- `roundup` of a non-zero value is the next multiple, cut to a word. -/
theorem toNat_roundup_mod {value align : UInt64} (nonzero : value ≠ 0) :
    (roundup value align).toNat = nextMultiple value.toNat align.toNat % 2 ^ 64 := by
  have one : (1 : UInt64).toNat ≤ value.toNat := toNat_pos.mpr nonzero
  rw [roundup, UInt64.toNat_mul, UInt64.toNat_add, UInt64.toNat_div, toNat_sub_of_le one,
    Nat.mod_mul_mod]
  rfl

theorem toNat_roundup {value align : UInt64} (nonzero : value ≠ 0)
    (fits : nextMultiple value.toNat align.toNat < 2 ^ 64) :
    (roundup value align).toNat = nextMultiple value.toNat align.toNat := by
  rw [toNat_roundup_mod nonzero, Nat.mod_eq_of_lt fits]

/-- `roundup` never goes below its argument unless it wraps. -/
theorem le_roundup {value align : UInt64} (nonzero : align ≠ 0) (fits : RoundupFits value align) :
    value.toNat ≤ (roundup value align).toNat := by
  rcases fits with rfl | fits
  · exact Nat.zero_le _
  · by_cases zero : value = 0
    · rw [zero]
      exact Nat.zero_le _
    · rw [toNat_roundup zero fits]
      exact le_nextMultiple _ (toNat_pos.mpr nonzero)

theorem dvd_roundup {value align : UInt64} (nonzero : value ≠ 0)
    (fits : nextMultiple value.toNat align.toNat < 2 ^ 64) :
    align.toNat ∣ (roundup value align).toNat := by
  rw [toNat_roundup nonzero fits]
  exact dvd_nextMultiple _ _

/-- A `roundup` that does not go below its argument has not wrapped. -/
theorem nextMultiple_fits_of_le {value align : UInt64} (nonzero : value ≠ 0)
    (le : value.toNat ≤ (roundup value align).toNat) :
    nextMultiple value.toNat align.toNat < 2 ^ 64 := by
  have below := nextMultiple_lt align.toNat (toNat_pos.mpr nonzero)
  have := value.toNat_lt
  have := align.toNat_lt
  rw [toNat_roundup_mod nonzero] at le
  by_contra wraps
  rw [show nextMultiple value.toNat align.toNat % 2 ^ 64 =
    nextMultiple value.toNat align.toNat - 2 ^ 64 by omega] at le
  omega

/-- A multiple is not rounded. -/
theorem roundup_of_dvd {value align : UInt64} (nonzero : value ≠ 0)
    (dvd : align.toNat ∣ value.toNat) : roundup value align = value := by
  rw [← UInt64.toNat_inj, toNat_roundup_mod nonzero,
    nextMultiple_eq_of_dvd (toNat_pos.mpr nonzero) dvd, Nat.mod_eq_of_lt value.toNat_lt]

/-- A `roundup` that goes below its argument has wrapped, to a value below the alignment. -/
theorem roundup_lt_of_wrapped {value align : UInt64} (nonzero : align ≠ 0)
    (wrapped : (roundup value align).toNat < value.toNat) :
    (roundup value align).toNat < align.toNat := by
  have positive : 0 < value.toNat := (Nat.zero_le _).trans_lt wrapped
  have some := toNat_pos.mp positive
  have above := le_nextMultiple value.toNat (toNat_pos.mpr nonzero)
  have below := nextMultiple_lt align.toNat positive
  have := value.toNat_lt
  have := align.toNat_lt
  by_cases fits : nextMultiple value.toNat align.toNat < 2 ^ 64
  · rw [toNat_roundup some fits] at wrapped
    exact absurd above (not_le.mpr wrapped)
  · rw [toNat_roundup_mod some]
    omega

/-- A rounded value is not rounded further. -/
theorem roundup_roundup {value align : UInt64} (nonzero : value ≠ 0) (positive : align ≠ 0)
    (fits : nextMultiple value.toNat align.toNat < 2 ^ 64) :
    roundup (roundup value align) align = roundup value align := by
  have above := le_nextMultiple value.toNat (toNat_pos.mpr positive)
  have dvd := dvd_roundup nonzero fits
  have rounded := toNat_roundup nonzero fits
  have large : 0 < (roundup value align).toNat := by
    rw [rounded]
    exact (toNat_pos.mpr nonzero).trans_le above
  have same := nextMultiple_eq_of_dvd large dvd
  rw [← UInt64.toNat_inj, toNat_roundup (toNat_pos.mp large) (by rwa [same, rounded]), same]

/-- Rounding changes nothing exactly on multiples. -/
theorem toNat_eq_roundup_iff {value align : UInt64} (nonzero : value ≠ 0)
    (fits : nextMultiple value.toNat align.toNat < 2 ^ 64) :
    value.toNat = (roundup value align).toNat ↔ align.toNat ∣ value.toNat := by
  rw [toNat_roundup nonzero fits]
  constructor
  · intro same
    rw [same]
    exact dvd_nextMultiple _ _
  · exact fun dvd => (nextMultiple_eq_of_dvd (toNat_pos.mpr nonzero) dvd).symm

/-- `roundup 0` is the first multiple of `align` past the largest word, cut to a word. -/
theorem toNat_roundup_zero (align : UInt64) :
    (roundup 0 align).toNat = nextMultiple (2 ^ 64) align.toNat % 2 ^ 64 := by
  rw [roundup, UInt64.toNat_mul, UInt64.toNat_add, UInt64.toNat_div, Nat.mod_mul_mod]
  rfl

/-- When `roundup 0 align` is not `0`, it is not a multiple of `align` either. -/
theorem not_dvd_roundup_zero {align : UInt64} (nonzero : roundup 0 align ≠ 0) :
    ¬ align.toNat ∣ (roundup 0 align).toNat := by
  intro dvd
  by_cases zero : align = 0
  · rw [zero] at nonzero
    exact nonzero (by decide)
  have positive := toNat_pos.mpr nonzero
  have above := le_nextMultiple (2 ^ 64) (toNat_pos.mpr zero)
  have below := nextMultiple_lt align.toNat (show 0 < 2 ^ 64 by decide)
  have small := align.toNat_lt
  have value : (roundup 0 align).toNat = nextMultiple (2 ^ 64) align.toNat - 2 ^ 64 := by
    rw [toNat_roundup_zero]
    omega
  have := Nat.le_of_dvd positive dvd
  omega

/-- **When a `roundup` is a multiple**: exactly for a non-zero value, as long as the result is not
`0` and not below the value. -/
theorem dvd_roundup_iff {value align : UInt64} (nonzero : roundup value align ≠ 0)
    (le : value.toNat ≤ (roundup value align).toNat) :
    align.toNat ∣ (roundup value align).toNat ↔ value ≠ 0 := by
  constructor
  · rintro dvd rfl
    exact not_dvd_roundup_zero nonzero dvd
  · exact fun given => dvd_roundup given (nextMultiple_fits_of_le given le)

/-- A power of two rounds `0` to `0`. -/
theorem roundup_zero_of_dvd {align : UInt64} (dvd : align.toNat ∣ 2 ^ 64) :
    roundup 0 align = 0 := by
  rw [eq_zero_iff, toNat_roundup_zero, nextMultiple_eq_of_dvd (by decide) dvd, Nat.mod_self]

/-- Where the words wrap at a multiple, a rounded value that is not `0` has not wrapped. -/
theorem roundup_of_ne_zero {value align : UInt64} (wraps : align.toNat ∣ 2 ^ 64)
    (nonzero : roundup value align ≠ 0) :
    value.toNat ≤ (roundup value align).toNat ∧ align.toNat ∣ (roundup value align).toNat := by
  by_cases zero : value = 0
  · rw [zero, roundup_zero_of_dvd wraps] at nonzero
    exact absurd rfl nonzero
  have multiple := dvd_nextMultiple value.toNat align.toNat
  have below := nextMultiple_lt align.toNat (toNat_pos.mpr zero)
  have positive := toNat_pos.mpr nonzero
  have small := value.toNat_lt
  have fits : nextMultiple value.toNat align.toNat < 2 ^ 64 := by
    by_contra past
    have rest := Nat.dvd_sub multiple wraps
    rw [toNat_roundup_mod zero] at positive
    have := Nat.le_of_dvd (show 0 < nextMultiple value.toNat align.toNat - 2 ^ 64 by omega) rest
    omega
  have nonzero' : align ≠ 0 := by
    intro none
    rw [none] at nonzero
    exact nonzero (by rw [roundup, UInt64.mul_zero])
  exact ⟨le_roundup nonzero' (Or.inr fits), dvd_roundup zero fits⟩

/-- **`0` rounds to `0`** exactly if the words wrap at a multiple. -/
theorem roundup_zero_iff {align : UInt64} (nonzero : align ≠ 0) :
    roundup 0 align = 0 ↔ align.toNat ∣ 2 ^ 64 := by
  refine ⟨fun zero => ?_, roundup_zero_of_dvd⟩
  have above := le_nextMultiple (2 ^ 64) (toNat_pos.mpr nonzero)
  have below := nextMultiple_lt align.toNat (show 0 < 2 ^ 64 by decide)
  have small := align.toNat_lt
  rw [eq_zero_iff, toNat_roundup_zero] at zero
  have same : nextMultiple (2 ^ 64) align.toNat = 2 ^ 64 := by omega
  rw [← same]
  exact dvd_nextMultiple _ _

/-- **When `roundup` is the least multiple**: for a value that is not `0`, or if the words wrap at a
multiple. -/
theorem toNat_roundup_eq_least_iff {value align : UInt64} (nonzero : align ≠ 0) {least : Nat}
    (isLeast : IsLeast {bytes | align.toNat ∣ bytes ∧ value.toNat ≤ bytes} least)
    (fits : least < 2 ^ 64) :
    (roundup value align).toNat = least ↔ value ≠ 0 ∨ align.toNat ∣ 2 ^ 64 := by
  by_cases zero : value = 0
  · subst zero
    have none : least = 0 := Nat.le_zero.mp (isLeast.2 ⟨dvd_zero _, le_rfl⟩)
    rw [none, ← roundup_zero_iff nonzero, eq_zero_iff]
    exact ⟨Or.inr, fun given => given.resolve_left (· rfl)⟩
  · have positive := toNat_pos.mpr zero
    have same : nextMultiple value.toNat align.toNat = least :=
      le_antisymm (nextMultiple_le_of_dvd positive isLeast.1.2 isLeast.1.1)
        (isLeast.2 ⟨dvd_nextMultiple _ _, le_nextMultiple _ (toNat_pos.mpr nonzero)⟩)
    exact iff_of_true ((toNat_roundup zero (same ▸ fits)).trans same) (Or.inl zero)

example : roundup 0 512 = 0 ∧ roundup 0 1536 = 512 := by decide

/-! ### `rounddown` on words -/

theorem toNat_rounddown (value align : UInt64) :
    (rounddown value align).toNat = value.toNat - value.toNat % align.toNat := by
  rw [rounddown, toNat_sub_of_le (by rw [UInt64.toNat_mod]; exact Nat.mod_le _ _), UInt64.toNat_mod]

theorem dvd_rounddown (value align : UInt64) :
    align.toNat ∣ (rounddown value align).toNat := by
  rw [toNat_rounddown]
  exact Nat.dvd_sub_mod _

end Genimage
