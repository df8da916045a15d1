/-
**What `setup_logical_partitions` leaves behind.**

`ExtendedSplit` cuts the partition list in three: the elements in front of the extended partition,
the block whose table partitions become logical, and the rest, whose table partitions are
`forced-primary`. `extendedList` is the new list. `setupLogicalPartitions_ok` says that an accepted
scan either leaves the list as it is or produces such a list.

The induction is over the scan: `Scanned` has one constructor for each of its three phases.
-/

import Genimage.Hdimage.Logical

namespace Genimage

open Library

/-- A table partition of the block is logical. -/
def Partition.markLogical (part : Partition) : Partition :=
  part.withLogical (part.logical || part.inPartitionTable)

/-- **The cut of the list at the extended partition.** `first` is the first table partition behind
the cut. -/
structure ExtendedSplit (before block rest : List Partition) (first : Partition) : Prop where
  head : (block ++ rest).head? = some first
  inTable : first.inPartitionTable = true
  before_plain : ∀ part ∈ before, part.inPartitionTable = true → part.forcedPrimary = false
  block_plain : ∀ part ∈ block, part.inPartitionTable = true → part.forcedPrimary = false
  rest_forced : ∀ part ∈ rest, part.inPartitionTable = true → part.forcedPrimary = true
  entries : before.countP (·.inPartitionTable) + 1 + rest.countP (·.inPartitionTable) ≤ 4

/-- The list with the `[Extended]` element. -/
def extendedList (align : UInt64) (before block rest : List Partition) (first : Partition) :
    List Partition :=
  before ++ extendedPartition align first :: (block.map Partition.markLogical ++ rest)

/-- **The phases of the scan**: in front of the extended partition, among the logical partitions,
and behind them. The list is the part of the input the scan has passed. -/
inductive Scanned (align : UInt64) (index : UInt32) : List Partition → LogicalScan → Prop where
  | before (passed : List Partition) (plain : ∀ part ∈ passed, part.inPartitionTable = true →
        part.forcedPrimary = false)
      (early : passed.countP (·.inPartitionTable) < index.toNat) :
    Scanned align index passed {
      count := passed.countP (·.inPartitionTable)
      mbrEntries := passed.countP (·.inPartitionTable)
      done := passed }
  | block (before block : List Partition) (first : Partition) (nonempty : block.head? = some first)
      (split : ExtendedSplit before block [] first) (count : Nat) (late : index.toNat ≤ count) :
    Scanned align index (before ++ block) {
      inExtended := true
      foundExtended := true
      count := count
      mbrEntries := before.countP (·.inPartitionTable) + 1
      done := extendedList align before block [] first }
  | rest (before block rest : List Partition) (first : Partition)
      (split : ExtendedSplit before block rest first) (count : Nat) (late : index.toNat ≤ count) :
    Scanned align index (before ++ block ++ rest) {
      inExtended := false
      foundExtended := true
      count := count
      mbrEntries := before.countP (·.inPartitionTable) + 1 + rest.countP (·.inPartitionTable)
      done := extendedList align before block rest first }

section Step

variable {align : UInt64} {index : UInt32} {passed : List Partition} {scan next : LogicalScan}
  {part : Partition}

/-- An element outside the table goes to the phase the scan is in. -/
theorem scanned_outside (scanned : Scanned align index passed scan)
    (outside : part.inPartitionTable = false) :
    Scanned align index (passed ++ [part]) { scan with done := scan.done ++ [part] } := by
  have unmarked : part.markLogical = part := by simp [Partition.markLogical, outside]
  cases scanned with
  | before _ plain early =>
    have : Scanned align index _ _ := .before (passed ++ [part])
      (by simp_all [or_imp]) (by simpa [outside] using early)
    simpa [outside] using this
  | block before block first nonempty split count late =>
    have : Scanned align index _ _ := .block before (block ++ [part]) first (by simp [nonempty])
      ⟨by simp [nonempty], split.inTable, split.before_plain,
        by simpa [or_imp, forall_and, outside] using split.block_plain, split.rest_forced,
        split.entries⟩ count late
    simpa [extendedList, unmarked] using this
  | rest before block rest first split count late =>
    have head : (block ++ (rest ++ [part])).head? = some first := by
      rw [← List.append_assoc, List.head?_append, split.head]
      rfl
    have : Scanned align index _ _ := .rest before block (rest ++ [part]) first
      ⟨head, split.inTable, split.before_plain, split.block_plain,
        by simpa [or_imp, forall_and, outside] using split.rest_forced,
        by simpa [outside] using split.entries⟩ count late
    simpa [extendedList, outside] using this

/-- A table partition stays in the phase or opens the next one. -/
theorem scanned_inTable (scanned : Scanned align index passed scan)
    (inTable : part.inPartitionTable = true)
    (taken : logicalStep align index scan part = .ok next) :
    Scanned align index (passed ++ [part]) next := by
  have marked : part.markLogical = part.withLogical true := by
    simp [Partition.markLogical, inTable]
  simp only [logicalStep, inTable, Bool.not_true, Bool.false_eq_true, if_false, do_eq_ok,
    failIf_ok, pure_eq_ok] at taken
  obtain ⟨_, found, _, plain, _, entries, rfl⟩ := taken
  cases scanned with
  | before _ free early =>
    by_cases opens : index.toNat = passed.countP (·.inPartitionTable) + 1
    · cases forced : part.forcedPrimary with
      | false =>
        have : Scanned align index _ _ := .block passed [part] part rfl
          ⟨rfl, inTable, free, by simp [forced], by simp, by simp_all⟩ _ opens.le
        simpa [extendedList, marked, opens, forced] using this
      | true =>
        have : Scanned align index _ _ := .rest passed [] [part] part
          ⟨rfl, inTable, free, by simp, by simp [forced], by simp_all; omega⟩ _ opens.le
        simpa [extendedList, opens, forced, inTable] using this
    · have unforced : part.forcedPrimary = false := by simpa [opens] using found
      have : Scanned align index _ _ := .before (passed ++ [part])
        (by simpa [or_imp, forall_and, unforced] using free) (by simp [inTable]; omega)
      simpa [opens, unforced, inTable] using this
  | block before block first nonempty split count late =>
    have opened : index.toNat ≠ count + 1 := by omega
    cases forced : part.forcedPrimary with
    | false =>
      have : Scanned align index _ _ := .block before (block ++ [part]) first (by simp [nonempty])
        ⟨by simp [nonempty], split.inTable, split.before_plain,
          by simpa [or_imp, forall_and, forced] using split.block_plain, split.rest_forced,
          split.entries⟩ (count + 1) (late.trans (Nat.le_succ _))
      simpa [extendedList, marked, opened, forced] using this
    | true =>
      have : Scanned align index _ _ := .rest before block [part] first
        ⟨by simp [nonempty], split.inTable, split.before_plain, split.block_plain,
          by simp [forced], by simp_all; omega⟩ (count + 1) (late.trans (Nat.le_succ _))
      simpa [extendedList, opened, forced, inTable] using this
  | rest before block rest first split count late =>
    have opened : index.toNat ≠ count + 1 := by omega
    have forced : part.forcedPrimary = true := by simpa [opened] using plain
    have head : (block ++ (rest ++ [part])).head? = some first := by
      rw [← List.append_assoc, List.head?_append, split.head]
      rfl
    have : Scanned align index _ _ := .rest before block (rest ++ [part]) first
      ⟨head, split.inTable, split.before_plain, split.block_plain,
        by simpa [or_imp, forall_and, forced] using split.rest_forced, by simp_all; omega⟩
      (count + 1) (late.trans (Nat.le_succ _))
    simpa [extendedList, opened, forced, inTable, Nat.add_assoc] using this

/-- **One step of the scan stays in the phases.** -/
theorem scanned_step (scanned : Scanned align index passed scan)
    (taken : logicalStep align index scan part = .ok next) :
    Scanned align index (passed ++ [part]) next := by
  cases inTable : part.inPartitionTable with
  | false =>
    simp only [logicalStep, inTable, Bool.not_false, if_true, Except.ok.injEq] at taken
    subst taken
    exact scanned_outside scanned inTable
  | true => exact scanned_inTable scanned inTable taken

end Step

/-! ### The whole scan -/

variable {tableType : TableType} {align : UInt64} {index : UInt32} {parts : List Partition}
  {result : UInt32 × List Partition}

theorem ensureExtendedPartitionIndex_le (parts : List Partition) (small : index ≤ 4) :
    ensureExtendedPartitionIndex index parts ≤ 4 := by
  unfold ensureExtendedPartitionIndex
  split_ifs
  · exact small
  · decide
  · decide

/-- Without an extended partition the table has at most four partitions. -/
theorem countP_le_of_ensure (none : ensureExtendedPartitionIndex index parts = 0) :
    parts.countP (·.inPartitionTable) ≤ 4 := by
  unfold ensureExtendedPartitionIndex at none
  split_ifs at none with nonzero many
  · exact absurd none nonzero
  · exact absurd none (by decide)
  · exact not_lt.mp many

/-- The scan over the whole list, by the induction rule of the loop. -/
theorem scanned_all {scan : LogicalScan} (positive : index ≠ 0)
    (run : parts.foldlM (logicalStep align index) {} = .ok scan) :
    Scanned align index parts scan := by
  refine foldlM_invariant (Scanned align index) ?_ ?_ run
  · have nonzero : 0 < index.toNat := by
      rw [Nat.pos_iff_ne_zero, ← UInt32.toNat_zero, UInt32.toNat_inj.ne]
      exact positive
    exact .before [] (by simp) nonzero
  · intro done part rest state next _ scanned taken
    exact scanned_step scanned taken

/-- **The new list of `setup_logical_partitions`**: the old one, or the one with the `[Extended]`
element; only for an MBR table, which then has at most four entries. -/
theorem setupLogicalPartitions_ok
    (run : setupLogicalPartitions tableType align index parts = .ok result) :
    (result.2 = parts ∧ (tableType = .mbr → parts.countP (·.inPartitionTable) ≤ 4)) ∨
    (tableType = .mbr ∧ ∃ before block rest first, parts = before ++ block ++ rest ∧
      ExtendedSplit before block rest first ∧
      result.2 = extendedList align before block rest first) := by
  simp only [setupLogicalPartitions, do_eq_ok, failIf_ok, gt_iff_lt, UInt32.not_lt] at run
  obtain ⟨_, small, run⟩ := run
  split at run
  next other =>
    rw [pure_eq_ok] at run
    subst run
    exact Or.inl ⟨rfl, fun mbr => absurd mbr other⟩
  next mbr =>
    rw [not_not] at mbr
    have least := ensureExtendedPartitionIndex_le parts small
    split at run
    next zero =>
      rw [pure_eq_ok] at run
      subst run
      exact Or.inl ⟨rfl, fun _ => countP_le_of_ensure zero⟩
    next nonzero =>
      simp only [do_eq_ok, pure_eq_ok] at run
      obtain ⟨scan, scanning, rfl⟩ := run
      cases scanned_all nonzero scanning with
      | before _ _ early =>
        have : (ensureExtendedPartitionIndex index parts).toNat ≤ 4 :=
          UInt32.le_iff_toNat_le.mp least
        exact Or.inl ⟨rfl, fun _ => early.le.trans this⟩
      | block before block first _ split _ _ =>
        exact Or.inr ⟨mbr, before, block, [], first, (List.append_nil _).symm, split, rfl⟩
      | rest before block rest first split _ _ =>
        exact Or.inr ⟨mbr, before, block, rest, first, rfl, split, rfl⟩

end Genimage
