/-
**The size of the bitmap of an mdraid array.**

`chunkLoop` doubles the chunk size until the sectors that are reserved for the bitmap are few enough.
It divides the sectors of the array by the bytes of a chunk, and rounds the quotient down first. For an
array of less than 32 GiB that leaves no sectors at all, not even for the bitmap superblock; for 257 TiB
and more the chunk size wraps to `0` before the sectors are few enough. The sizes between are those for
which the bitmap fits (`mdraid_bitmapFits_iff`). An image of less than a megabyte counts as a large one,
since its size less the offset of the data wraps.
-/

import Genimage.Mdraid.Regions

namespace Genimage

open Library

variable {imageGet : String → Option DataImage} {env : MdraidEnv}

/-! ### The chunk size -/

/-- The number of sectors that are reserved, for a range that can be given. -/
theorem toNat_sectorsReserved {syncSize : UInt64} {chunksize : UInt32}
    (small : syncSize.toNat < 2 ^ 55) (large : 2 ^ 26 ≤ chunksize.toNat) :
    (sectorsReserved syncSize chunksize).toNat =
      if syncSize.toNat < chunksize.toNat then 0
      else nextMultiple (syncSize.toNat / chunksize.toNat) 8 := by
  have eight : (8 : UInt64).toNat = 8 := rfl
  have positive : 0 < chunksize.toNat := (show 0 < 2 ^ 26 by decide).trans_le large
  have quotient : (syncSize / chunksize.toUInt64).toNat = syncSize.toNat / chunksize.toNat := by
    rw [UInt64.toNat_div, UInt32.toNat_toUInt64]
  have below : syncSize.toNat / chunksize.toNat < 2 ^ 29 := by
    refine Nat.div_lt_of_lt_mul (small.trans_le ?_)
    calc 2 ^ 55 = 2 ^ 26 * 2 ^ 29 := by norm_num
      _ ≤ chunksize.toNat * 2 ^ 29 := Nat.mul_le_mul_right _ large
  rw [sectorsReserved, UInt64.toNat_toUInt32]
  by_cases less : syncSize.toNat < chunksize.toNat
  · have zero : syncSize / chunksize.toUInt64 = 0 := by
      rw [eq_zero_iff, quotient, Nat.div_eq_of_lt less]
    rw [if_pos less, zero, roundup_zero_of_dvd (by rw [eight]; decide)]
    rfl
  · have atLeast : 1 ≤ syncSize.toNat / chunksize.toNat :=
      (Nat.one_le_div_iff positive).mpr (not_lt.mp less)
    have nonzero : syncSize / chunksize.toUInt64 ≠ 0 := by
      rw [ne_eq, eq_zero_iff, quotient]
      omega
    have next := nextMultiple_lt 8 atLeast
    rw [if_neg less, toNat_roundup nonzero (by rw [quotient, eight]; omega), quotient, eight,
      Nat.mod_eq_of_lt (by omega)]

/-- **The loop goes on as long as a multiple of the chunk size is not passed.** -/
theorem sectorsReserved_gt_iff {syncSize : UInt64} {chunksize : UInt32}
    (small : syncSize.toNat < 2 ^ 55) (large : 2 ^ 26 ≤ chunksize.toNat) :
    sectorsReserved syncSize chunksize > 256 ↔ 257 * chunksize.toNat ≤ syncSize.toNat := by
  have positive : 0 < chunksize.toNat := (show 0 < 2 ^ 26 by decide).trans_le large
  have words : sectorsReserved syncSize chunksize > 256 ↔
      256 < (sectorsReserved syncSize chunksize).toNat := UInt32.lt_iff_toNat_lt
  rw [words, toNat_sectorsReserved small large, ← Nat.le_div_iff_mul_le positive]
  by_cases less : syncSize.toNat < chunksize.toNat
  · rw [if_pos less, Nat.div_eq_of_lt less]
    decide
  · rw [if_neg less]
    have atLeast : 1 ≤ syncSize.toNat / chunksize.toNat :=
      (Nat.one_le_div_iff positive).mpr (not_lt.mp less)
    constructor
    · intro many
      by_contra few
      have := nextMultiple_le_of_dvd atLeast (show _ ≤ 256 by omega) (show 8 ∣ 256 by decide)
      omega
    · intro many
      exact lt_of_lt_of_le (by omega) (le_nextMultiple _ (show 0 < 8 by decide))

/-- **What the loop finds**: the first chunk size for which the quotient is not too large, if there is
one in front of the wrap. -/
theorem chunkLoop_eq_some {syncSize : UInt64} (small : syncSize.toNat < 2 ^ 55) {fuel k : Nat}
    (count : k + fuel = 33) (least : 26 ≤ k) {chunksize : UInt32} :
    chunkLoop syncSize fuel (UInt32.ofNat (2 ^ k)) = some chunksize ↔
      ∃ j, k ≤ j ∧ j ≤ 31 ∧ chunksize.toNat = 2 ^ j ∧ syncSize.toNat < 257 * 2 ^ j ∧
        ∀ i, k ≤ i → i < j → 257 * 2 ^ i ≤ syncSize.toNat := by
  induction fuel generalizing k with
  | zero =>
    refine iff_of_false (by rw [chunkLoop]; simp) ?_
    rintro ⟨j, more, most, -⟩
    omega
  | succ fuel ih =>
    rw [chunkLoop]
    rcases Nat.lt_or_ge k 32 with inside | wrapped
    · have power : 2 ^ k < 2 ^ 32 := Nat.pow_lt_pow_right (by decide) inside
      have value : (UInt32.ofNat (2 ^ k)).toNat = 2 ^ k := UInt32.toNat_ofNat_of_lt' power
      have large : 2 ^ 26 ≤ (UInt32.ofNat (2 ^ k)).toNat := by
        rw [value]
        exact Nat.pow_le_pow_right (by decide) least
      have nonzero : UInt32.ofNat (2 ^ k) ≠ 0 := by
        rw [ne_eq, ← UInt32.toNat_inj, value]
        exact (Nat.two_pow_pos k).ne'
      have double : UInt32.ofNat (2 ^ k) * 2 = UInt32.ofNat (2 ^ (k + 1)) := by
        rw [pow_succ, UInt32.ofNat_mul]
        rfl
      rw [if_neg nonzero]
      by_cases many : 257 * 2 ^ k ≤ syncSize.toNat
      · rw [if_pos ((sectorsReserved_gt_iff small large).mpr (value.symm ▸ many)), double,
          ih (by omega) (by omega)]
        constructor
        · rintro ⟨j, more, most, same, few, before⟩
          refine ⟨j, by omega, most, same, few, fun i low high => ?_⟩
          rcases Nat.eq_or_lt_of_le low with rfl | low
          · exact many
          · exact before i low high
        · rintro ⟨j, more, most, same, few, before⟩
          have : j ≠ k := by
            rintro rfl
            omega
          exact ⟨j, by omega, most, same, few, fun i low high => before i (by omega) high⟩
      · rw [if_neg fun more => many (value ▸ (sectorsReserved_gt_iff small large).mp more)]
        constructor
        · intro same
          obtain rfl := Option.some.inj same
          exact ⟨k, le_rfl, by omega, value, by omega, fun i low high => by omega⟩
        · rintro ⟨j, more, most, same, few, before⟩
          have : j = k := by
            by_contra other
            exact many (before k le_rfl (by omega))
          have equal : chunksize = UInt32.ofNat (2 ^ k) :=
            UInt32.toNat_inj.mp (by rw [same, this, value])
          rw [equal]
    · obtain rfl : k = 32 := by omega
      have zero : UInt32.ofNat (2 ^ 32) = 0 := rfl
      refine iff_of_false (by rw [zero, if_pos rfl]; simp) ?_
      rintro ⟨j, more, most, -⟩
      omega

/-! ### A bitmap that fits -/

/-- The number of chunks of the sync range. -/
def BitmapSuper.chunks (bsb : BitmapSuper) : Nat :=
  (bsb.syncSize.toNat * 512 + bsb.chunksize.toNat - 1) / bsb.chunksize.toNat

/-- **A bitmap superblock whose bitmap fits**: the chunk size is a power of two of at least 64 MiB, and
the reserved sectors are few enough but hold the superblock and one bit for each chunk. -/
structure BitmapSuper.Fits (bsb : BitmapSuper) : Prop where
  chunksize : ∃ k, 26 ≤ k ∧ bsb.chunksize.toNat = 2 ^ k
  reserved : bsb.sectorsReserved ≤ 256
  inside : 256 + (bsb.chunks + 7) / 8 ≤ bsb.sectorsReserved.toNat * 512

/-- **The loop ends**, without a chunk size of `0`, and the bitmap fits. -/
def BitmapFits (sb : Superblock) : Prop := ∃ bsb, bitmapSuper sb = some bsb ∧ bsb.Fits

/-- The bitmap superblock for a chunk size. -/
theorem bitmapSuper_some {sb : Superblock} {bsb : BitmapSuper} (given : bitmapSuper sb = some bsb) :
    chunkLoop sb.dataSize 7 (UInt32.ofNat (2 ^ 26)) = some bsb.chunksize ∧
      bsb.syncSize = sb.dataSize ∧
      bsb.sectorsReserved = sectorsReserved sb.dataSize bsb.chunksize := by
  rw [bitmapSuper, Option.map_eq_some_iff] at given
  obtain ⟨chunksize, found, rfl⟩ := given
  exact ⟨found, rfl, rfl⟩

/-- One bit for each chunk and the superblock are not more than the reserved sectors. -/
theorem chunks_inside {sectors chunksize : Nat} (positive : 0 < chunksize)
    (atLeast : chunksize ≤ sectors) :
    256 + ((sectors * 512 + chunksize - 1) / chunksize + 7) / 8 ≤
      nextMultiple (sectors / chunksize) 8 * 512 := by
  have quotient : 1 ≤ sectors / chunksize := (Nat.one_le_div_iff positive).mpr atLeast
  have next := le_nextMultiple (sectors / chunksize) (show 0 < 8 by decide)
  have eight : 8 ≤ nextMultiple (sectors / chunksize) 8 :=
    Nat.le_of_dvd (by omega) (dvd_nextMultiple _ _)
  have chunks : (sectors * 512 + chunksize - 1) / chunksize < (sectors / chunksize + 1) * 512 + 1 := by
    refine Nat.div_lt_of_lt_mul ?_
    have below := Nat.lt_mul_div_succ sectors positive
    calc sectors * 512 + chunksize - 1 < chunksize * (sectors / chunksize + 1) * 512 + chunksize := by
          omega
      _ = chunksize * ((sectors / chunksize + 1) * 512 + 1) := by ring
  omega

/-- **When the bitmap of a superblock fits.** -/
theorem bitmapFits_iff {sb : Superblock} (small : sb.dataSize.toNat < 2 ^ 55) :
    BitmapFits sb ↔ 2 ^ 26 ≤ sb.dataSize.toNat ∧ sb.dataSize.toNat < 257 * 2 ^ 31 := by
  have loop : ∀ chunksize, chunkLoop sb.dataSize 7 (UInt32.ofNat (2 ^ 26)) = some chunksize ↔ _ :=
    fun chunksize => chunkLoop_eq_some small (show 26 + 7 = 33 from rfl) le_rfl
  constructor
  · rintro ⟨bsb, given, -, -, inside⟩
    obtain ⟨found, sync, reserved⟩ := bitmapSuper_some given
    obtain ⟨j, least, most, same, few, before⟩ := (loop _).mp found
    have power : 2 ^ 26 ≤ bsb.chunksize.toNat := by
      rw [same]
      exact Nat.pow_le_pow_right (by decide) least
    refine ⟨?_, few.trans_le (Nat.mul_le_mul_left _ (Nat.pow_le_pow_right (by decide) most))⟩
    by_contra below
    -- no sectors are reserved
    rw [reserved, toNat_sectorsReserved small power, if_pos (by omega)] at inside
    omega
  · rintro ⟨atLeast, below⟩
    have bounded : ∃ j, 26 ≤ j ∧ sb.dataSize.toNat < 257 * 2 ^ j := ⟨31, by decide, below⟩
    obtain ⟨least, few⟩ := Nat.find_spec bounded
    have most : Nat.find bounded ≤ 31 := Nat.find_min' bounded ⟨by decide, below⟩
    have before : ∀ i, 26 ≤ i → i < Nat.find bounded → 257 * 2 ^ i ≤ sb.dataSize.toNat :=
      fun i low high => not_lt.mp fun less => Nat.find_min bounded high ⟨low, less⟩
    generalize Nat.find bounded = j at least few most before
    have value : (UInt32.ofNat (2 ^ j)).toNat = 2 ^ j :=
      UInt32.toNat_ofNat_of_lt' (Nat.pow_lt_pow_right (by decide) (show j < 32 by omega))
    have found := (loop (UInt32.ofNat (2 ^ j))).mpr ⟨j, least, most, value, few, before⟩
    have power : 2 ^ 26 ≤ (UInt32.ofNat (2 ^ j)).toNat := by
      rw [value]
      exact Nat.pow_le_pow_right (by decide) least
    have chunk : 2 ^ j ≤ sb.dataSize.toNat := by
      rcases Nat.eq_or_lt_of_le least with rfl | more
      · exact atLeast
      · have doubled : 2 ^ j = 2 * 2 ^ (j - 1) := by
          rw [← pow_succ', Nat.sub_add_cancel (by omega)]
        have := before (j - 1) (by omega) (by omega)
        omega
    have enough := (sectorsReserved_gt_iff small power).not.mpr (by rw [value]; omega)
    obtain ⟨bsb, given, chunksize⟩ : ∃ bsb, bitmapSuper sb = some bsb ∧
        bsb.chunksize = UInt32.ofNat (2 ^ j) := by
      rw [bitmapSuper, show (64 * 1024 * 1024 : UInt32) = UInt32.ofNat (2 ^ 26) from rfl, found]
      exact ⟨_, rfl, rfl⟩
    obtain ⟨-, sync, reserved⟩ := bitmapSuper_some given
    refine ⟨bsb, given, ⟨j, least, by rw [chunksize, value]⟩, ?_, ?_⟩
    · rw [reserved, chunksize]
      exact UInt32.not_lt.mp enough
    · rw [BitmapSuper.chunks, reserved, sync, chunksize, toNat_sectorsReserved small power, value,
        if_neg (by omega)]
      exact chunks_inside (Nat.two_pow_pos j) chunk

/-! ### The arrays of a run -/

/-- **The next image of a run**: the sections are accepted, and the images of `done` have been
generated. -/
structure Generating (imageGet : String → Option DataImage) (env : MdraidEnv)
    (sections : List MdraidSection) (done : List MdraidImage) (image : MdraidImage)
    (rest : List MdraidImage) (state : MdraidState) : Prop where
  arranged : Arranged imageGet sections (done ++ image :: rest)
  run : mdraidGenerateAll env done = .ok state

/-- The superblock that `mdraid_generate` computes for an image. -/
def nextSuperblock (env : MdraidEnv) (state : MdraidState) (image : MdraidImage)
    (parent : Option Superblock) : Superblock :=
  superblockOf env image parent (takeRole state.lastRole image).1

/-- The size of an array: what the section of its first image gives, with its data image. -/
def arraySize (root : MdraidImage) : Nat := (sizeWith root.imagesec.size root.imgData).toNat

/-- The sectors of an array, from its size in bytes. -/
theorem toNat_arraySectors (size : UInt64) : ((size - dataOffsetBytes) / 512).toNat =
    if 2 ^ 20 ≤ size.toNat then (size.toNat - 2 ^ 20) / 512
    else (2 ^ 64 - 2 ^ 20 + size.toNat) / 512 := by
  have offset : dataOffsetBytes.toNat = 2 ^ 20 := rfl
  have sector : (512 : UInt64).toNat = 512 := rfl
  rw [UInt64.toNat_div, sector]
  split_ifs with large
  · rw [toNat_sub_of_le (by rw [offset]; exact large), offset]
  · rw [UInt64.toNat_sub, offset, Nat.mod_eq_of_lt (by omega)]

namespace Generating

variable {sections : List MdraidSection} {done rest : List MdraidImage} {image : MdraidImage}
  {state : MdraidState} {parent : Option Superblock}

/-- **The superblock of the next image has the sectors of its array.** -/
theorem dataSize_eq (generating : Generating imageGet env sections done image rest state)
    (known : parentSuperblock state image = .ok parent) :
    ∃ root, RootOf (done ++ image :: rest) image root ∧
      (nextSuperblock env state image parent).dataSize = (root.size - dataOffsetBytes) / 512 := by
  have distinct := generating.arranged.files_nodup
  have inside : ∀ old ∈ done, old ∈ done ++ image :: rest :=
    fun old among => List.mem_append_left _ among
  have among : image ∈ done ++ image :: rest := List.mem_append_right _ List.mem_cons_self
  have inv : RunInv env done state := by
    refine runInv_of_run ?_ generating.run
    rw [List.map_append] at distinct
    exact distinct.of_append_left
  unfold parentSuperblock at known
  cases named : image.imgParent with
  | none =>
    rw [named] at known
    obtain rfl : none = parent := Except.ok.inj known
    exact ⟨image, .root among named, rfl⟩
  | some file =>
    rw [named] at known
    simp only at known
    cases found : state.member file with
    | none =>
      rw [found] at known
      cases known
    | some member =>
      rw [found] at known
      obtain rfl : some member.sb = parent := Except.ok.inj known
      obtain ⟨other, earlier, rfl⟩ := inv.known file (by rw [found]; rfl)
      obtain ⟨root, rooted⟩ := inv.exists_root inside earlier
      obtain ⟨_, _, member', found', _, same⟩ := inv.arrayPart_eq distinct inside rooted earlier
      obtain rfl : member = member' := Option.some.inj (found.symm.trans found')
      refine ⟨root, .child among named rooted, ?_⟩
      exact congrArg Superblock.size same

end Generating

/-- **The bitmap of an image fits exactly for the sizes between.** -/
theorem mdraid_bitmapFits_iff {sections : List MdraidSection} {done rest : List MdraidImage}
    {image : MdraidImage} {state : MdraidState} {parent : Option Superblock}
    (generating : Generating imageGet env sections done image rest state)
    (known : parentSuperblock state image = .ok parent) :
    ∃ root, RootOf (done ++ image :: rest) image root ∧
      (BitmapFits (nextSuperblock env state image parent) ↔
        2 ^ 35 + 2 ^ 20 ≤ arraySize root ∧ arraySize root < 257 * 2 ^ 40 + 2 ^ 20) := by
  obtain ⟨root, rooted, sectors⟩ := generating.dataSize_eq known
  have size : root.size.toNat = arraySize root := by
    rw [(generating.arranged.setUp_of_root (.root rooted.root_member rooted.root_alone)).1]
    rfl
  have range := root.size.toNat_lt
  have count := toNat_arraySectors root.size
  refine ⟨root, rooted, ?_⟩
  rw [bitmapFits_iff (by rw [sectors, count]; split_ifs <;> omega), sectors, count, ← size]
  split_ifs <;> omega

/-- The first image of an array without data. -/
def arrayImage (imagesec : MdraidSection) : MdraidImage :=
  { imagesec := imagesec, size := imagesec.size }

/-- A section that is accepted as the only one. -/
theorem generating_first {imagesec : MdraidSection}
    (run : mdraidSetupAll imageGet [imagesec] = .ok [arrayImage imagesec]) :
    Generating imageGet env [imagesec] [] (arrayImage imagesec) [] {} :=
  ⟨⟨List.nodup_singleton _, _, run, .refl _⟩, rfl⟩

/-- An array of 1 MiB reserves no sectors for its bitmap. -/
theorem mdraid_bitmap_misfits : ∃ imagesec,
    Generating (fun _ => none) quietEnv [imagesec] [] (arrayImage imagesec) [] {} ∧
      parentSuperblock {} (arrayImage imagesec) = .ok none ∧
      ¬ BitmapFits (nextSuperblock quietEnv {} (arrayImage imagesec) none) := by
  refine ⟨{ file := "mdraid-a.img", size := 2 ^ 20 }, generating_first rfl, rfl, ?_⟩
  have none : (nextSuperblock quietEnv {} (arrayImage { file := "mdraid-a.img", size := 2 ^ 20 })
    none).dataSize.toNat = 0 := rfl
  rw [bitmapFits_iff (by rw [none]; decide), none]
  decide

theorem mdraid_bitmapFits_iff_large : ∃ image root,
    RootOf [image] image root ∧ (BitmapFits (nextSuperblock quietEnv {} image none) ↔
      2 ^ 35 + 2 ^ 20 ≤ arraySize root ∧ arraySize root < 257 * 2 ^ 40 + 2 ^ 20) := by
  have generating : Generating (fun _ => none) quietEnv [{ file := "mdraid-a.img", size := 2 ^ 36 }]
      [] (arrayImage { file := "mdraid-a.img", size := 2 ^ 36 }) [] {} := generating_first rfl
  exact ⟨_, mdraid_bitmapFits_iff generating rfl⟩

end Genimage
