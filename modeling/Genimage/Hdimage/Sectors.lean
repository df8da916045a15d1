/-
**32-bit sector counts.**

Offsets and sizes are 64-bit byte counts; an MBR entry has 32-bit sector counts, and nothing compares
the two. `Untruncated` says that the entries written for a layout denote the bytes they are for,
`SmallSectors` is the condition on offsets and sizes under which they do (`untruncated_iff`).
-/

import Genimage.Hdimage.Accepted
import Genimage.Hdimage.Mbr

namespace Genimage

open Library

/-- A byte count that a 32-bit number of sectors can say. -/
def WholeSectors (bytes : Nat) : Prop := 512 ∣ bytes ∧ bytes < 2 ^ 41

instance (bytes : Nat) : Decidable (WholeSectors bytes) := inferInstanceAs (Decidable (_ ∧ _))

/-- **An entry denotes `size` bytes at `offset`**, relative to `base`. -/
structure Denotes (entry : MbrPartitionEntry) (base offset size : Nat) : Prop where
  start : base + entry.relativeSectors.toNat * 512 = offset
  total : entry.totalSectors.toNat * 512 = size

/-- **Every entry written for a layout denotes its bytes**: the primary partitions, the logical ones
relative to their boot records, the next boot records relative to the extended partition; and the
protective entry has as many sectors as it can. -/
structure Untruncated (layout : Layout) : Prop where
  primary : layout.hd.tableType = .mbr ∨ layout.hd.tableType = .hybrid →
    ∀ part ∈ layout.partitions, inMbr layout.hd part = true →
      Denotes (mbrEntry part) 0 part.offset.toNat part.size.toNat
  logical : ∀ part ∈ layout.partitions, part.logical = true →
    Denotes (ebrEntry layout.hd part) (part.offset - layout.hd.align).toNat part.offset.toNat
      part.size.toNat
  next : ∀ before part rest next, layout.partitions = before ++ part :: rest →
    part.logical = true → rest.find? (·.logical) = some next →
      Denotes (nextEbrEntry layout.hd (extendedOffset layout.partitions) next)
        (extendedOffset layout.partitions).toNat (next.offset - layout.hd.align).toNat
        (next.size.toNat + layout.hd.align.toNat)
  protective : layout.hd.tableType = .gpt →
    (mbrEntry (protectivePartition layout.size)).totalSectors.toNat =
      (minSize (layout.size / 512 - 1) (UInt64.ofNat (2 ^ 32 - 1))).toNat

/-- **Offsets and sizes are whole sectors below 2 TiB.** -/
structure SmallSectors (layout : Layout) : Prop where
  primary : layout.hd.tableType = .mbr ∨ layout.hd.tableType = .hybrid →
    ∀ part ∈ layout.partitions, inMbr layout.hd part = true →
      WholeSectors part.offset.toNat ∧ WholeSectors part.size.toNat
  logical : ∀ part ∈ layout.partitions, part.logical = true →
    (layout.hd.align.toNat ≤ part.offset.toNat ∧ WholeSectors layout.hd.align.toNat) ∧
      WholeSectors part.size.toNat
  next : ∀ before part rest next, layout.partitions = before ++ part :: rest →
    part.logical = true → rest.find? (·.logical) = some next →
      ((extendedOffset layout.partitions).toNat ≤ (next.offset - layout.hd.align).toNat ∧
        WholeSectors ((next.offset - layout.hd.align).toNat -
          (extendedOffset layout.partitions).toNat)) ∧
      WholeSectors (next.size.toNat + layout.hd.align.toNat)
  protective : layout.hd.tableType = .gpt →
    layout.size.toNat / 512 ≤ 2 ^ 32 ∨ 2 ^ 32 ∣ layout.size.toNat / 512

/-! ### One field -/

/-- The bytes that a stored sector count denotes. -/
theorem toNat_sectors (bytes : UInt64) :
    (bytes / 512).toUInt32.toNat = bytes.toNat / 512 % 2 ^ 32 := by
  rw [UInt64.toNat_toUInt32, UInt64.toNat_div]
  rfl

/-- **A stored count is exact** for whole sectors below 2 TiB. -/
theorem sectors_exact_iff (bytes : UInt64) :
    (bytes / 512).toUInt32.toNat * 512 = bytes.toNat ↔ WholeSectors bytes.toNat := by
  rw [toNat_sectors]
  unfold WholeSectors
  omega

/-- A stored distance is exact when the base is not behind the place. -/
theorem distance_exact_iff (place base : UInt64) :
    base.toNat + ((place - base) / 512).toUInt32.toNat * 512 = place.toNat ↔
      base.toNat ≤ place.toNat ∧ WholeSectors (place.toNat - base.toNat) := by
  rw [toNat_sectors]
  by_cases ordered : base.toNat ≤ place.toNat
  · rw [toNat_sub_of_le ordered]
    unfold WholeSectors
    omega
  · exact iff_of_false (by omega) fun both => ordered both.1

/-- A stored sum is exact when it is whole sectors; then it does not wrap. -/
theorem sum_exact_iff (first second : UInt64) :
    ((first + second) / 512).toUInt32.toNat * 512 = first.toNat + second.toNat ↔
      WholeSectors (first.toNat + second.toNat) := by
  rw [toNat_sectors]
  unfold WholeSectors
  by_cases fits : first.toNat + second.toNat < 2 ^ 64
  · rw [toNat_add_of_lt fits]
    omega
  · rw [toNat_add_of_le (not_lt.mp fits)]
    have := first.toNat_lt
    have := second.toNat_lt
    omega

/-- The boot record is `align` in front of its partition. -/
theorem behind_exact_iff (place align : UInt64) :
    (place - align).toNat + (align / 512).toUInt32.toNat * 512 = place.toNat ↔
      align.toNat ≤ place.toNat ∧ WholeSectors align.toNat := by
  rw [toNat_sectors]
  unfold WholeSectors
  by_cases ordered : align.toNat ≤ place.toNat
  · rw [toNat_sub_of_le ordered]
    omega
  · have wraps : (place - align).toNat = place.toNat + 2 ^ 64 - align.toNat := by
      have := place.toNat_lt
      have := align.toNat_lt
      rw [UInt64.toNat_sub]
      omega
    have := align.toNat_lt
    exact iff_of_false (by omega) fun both => ordered both.1

/-- **The protective entry** is right as long as the image has at most `2 ^ 32` sectors, or a
multiple of that. -/
theorem protective_exact_iff (size : UInt64) :
    (mbrEntry (protectivePartition size)).totalSectors.toNat =
        (minSize (size / 512 - 1) (UInt64.ofNat (2 ^ 32 - 1))).toNat ↔
      size.toNat / 512 ≤ 2 ^ 32 ∨ 2 ^ 32 ∣ size.toNat / 512 := by
  show ((size - 512) / 512).toUInt32.toNat = _ ↔ _
  have limit : (UInt64.ofNat (2 ^ 32 - 1)).toNat = 2 ^ 32 - 1 := by decide
  have word : (512 : UInt64).toNat = 512 := rfl
  have one : (1 : UInt64).toNat = 1 := rfl
  have := size.toNat_lt
  rw [toNat_sectors, toNat_minSize, limit, UInt64.toNat_sub, UInt64.toNat_sub, UInt64.toNat_div,
    word, one]
  omega

/-! ### The layout -/

/-- **No field is truncated exactly when** every byte count is whole sectors below 2 TiB. -/
theorem untruncated_iff (layout : Layout) : Untruncated layout ↔ SmallSectors layout := by
  have primary : ∀ part, Denotes (mbrEntry part) 0 part.offset.toNat part.size.toNat ↔
      WholeSectors part.offset.toNat ∧ WholeSectors part.size.toNat := by
    intro part
    rw [← sectors_exact_iff, ← sectors_exact_iff]
    exact ⟨fun exact => ⟨(Nat.zero_add _).symm.trans exact.start, exact.total⟩,
      fun both => ⟨(Nat.zero_add _).trans both.1, both.2⟩⟩
  have logical : ∀ part, Denotes (ebrEntry layout.hd part) (part.offset - layout.hd.align).toNat
        part.offset.toNat part.size.toNat ↔
      (layout.hd.align.toNat ≤ part.offset.toNat ∧ WholeSectors layout.hd.align.toNat) ∧
        WholeSectors part.size.toNat := by
    intro part
    rw [← sectors_exact_iff part.size, ← behind_exact_iff]
    exact ⟨fun exact => ⟨exact.start, exact.total⟩, fun both => ⟨both.1, both.2⟩⟩
  have next : ∀ next, Denotes (nextEbrEntry layout.hd (extendedOffset layout.partitions) next)
        (extendedOffset layout.partitions).toNat (next.offset - layout.hd.align).toNat
        (next.size.toNat + layout.hd.align.toNat) ↔
      ((extendedOffset layout.partitions).toNat ≤ (next.offset - layout.hd.align).toNat ∧
        WholeSectors ((next.offset - layout.hd.align).toNat -
          (extendedOffset layout.partitions).toNat)) ∧
      WholeSectors (next.size.toNat + layout.hd.align.toNat) := by
    intro next
    rw [← sum_exact_iff, ← distance_exact_iff]
    exact ⟨fun exact => ⟨exact.start, exact.total⟩, fun both => ⟨both.1, both.2⟩⟩
  constructor
  · intro exact
    refine ⟨fun table part member used => ?_, fun part member isLogical => ?_, ?_, fun gpt => ?_⟩
    · exact (primary part).mp (exact.primary table part member used)
    · exact (logical part).mp (exact.logical part member isLogical)
    · intro before part rest following split isLogical found
      exact (next following).mp (exact.next before part rest following split isLogical found)
    · exact (protective_exact_iff _).mp (exact.protective gpt)
  · intro small
    refine ⟨fun table part member used => ?_, fun part member isLogical => ?_, ?_, fun gpt => ?_⟩
    · exact (primary part).mpr (small.primary table part member used)
    · exact (logical part).mpr (small.logical part member isLogical)
    · intro before part rest following split isLogical found
      exact (next following).mpr (small.next before part rest following split isLogical found)
    · exact (protective_exact_iff _).mpr (small.protective gpt)

/-- A partition of 3 TiB. -/
def largeConfig : HdimageConfig where
  partitions := [{ title := "data", offset := 1048576, size := 3298534883328 }]

theorem hdimageSetup_accepts_large :
    ∃ layout, hdimageSetup .bare largeConfig = .ok layout ∧ ¬ Untruncated layout := by
  obtain ⟨layout, accepted, found⟩ := exists_layout .bare largeConfig
    (fun layout => layout.hd.tableType = .mbr && layout.partitions.any fun part =>
      inMbr layout.hd part && part.size = 3298534883328) (by decide +kernel)
  simp only [Bool.and_eq_true, decide_eq_true_eq, List.any_eq_true] at found
  obtain ⟨mbr, part, member, used, size⟩ := found
  refine ⟨layout, accepted, fun exact => ?_⟩
  have total : (part.size / 512).toUInt32.toNat * 512 = part.size.toNat :=
    (exact.primary (Or.inl mbr) part member used).total
  rw [size] at total
  exact absurd total (by decide)

end Genimage
