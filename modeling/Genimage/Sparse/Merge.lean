/-
**The merged extents.**

`Covers` is what the answer of the extent mapping promises: the extents are sorted, lie inside the
file, and no byte outside them differs from zero. Their bounds are arbitrary, so that several of them
can share a block.

`mergeExtents_merged` is what the in-place loop makes of them: every extent begins at a block and ends
at one, or at the end of the file, they are in order apart from the tombstones `⟨0, 0⟩`, and they still
cover the data. The loop keeps `MergeInv`; its core is that the extent a merge extends, found by
`lastKept`, ends where the extent before the current one ends. The index of the search is an `int`, so
the statement is about at most `2 ^ 31 + 1` extents.
-/

import Genimage.Library.Run
import Genimage.Sparse.Generate

namespace Genimage

open Library

/-- The extent that merging leaves behind. -/
def tombstone : Extent := ⟨0, 0⟩

/-- **The extents of a file**: sorted, inside it, and everything else is zero. -/
structure Covers (input : File) (extents : List Extent) : Prop where
  sorted : extents.Pairwise fun a b => a.stop.toNat ≤ b.start.toNat
  ordered : ∀ extent ∈ extents, extent.start.toNat ≤ extent.stop.toNat
  inside : ∀ extent ∈ extents, extent.stop.toNat ≤ input.length
  data : ∀ i, input.byte i ≠ 0 → ∃ extent ∈ extents, extent.start.toNat ≤ i ∧ i < extent.stop.toNat

/-- An extent of whole blocks, but for the last block of the file. -/
structure Blocked (blockSize length : Nat) (extent : Extent) : Prop where
  start_dvd : blockSize ∣ extent.start.toNat
  start_le : extent.start.toNat ≤ extent.stop.toNat
  stop_le : extent.stop.toNat ≤ length
  stop_whole : blockSize ∣ extent.stop.toNat ∨ extent.stop.toNat = length

/-- **Merged extents.** -/
structure Merged (blockSize : Nat) (input : File) (extents : List Extent) : Prop where
  blocked : ∀ extent ∈ extents, Blocked blockSize input.length extent
  ordered : extents.Pairwise fun a b => a.stop.toNat ≤ b.start.toNat ∨ b = tombstone
  data : ∀ i, input.byte i ≠ 0 → ∃ extent ∈ extents, extent.start.toNat ≤ i ∧ i < extent.stop.toNat

/-! ### Aligned extents -/

/-- The number of blocks up to `stop`, the last one perhaps partial. -/
def countBlocks (blockSize stop : Nat) : Nat := (stop + (blockSize - 1)) / blockSize

/-- The end of the block that ends at or behind `stop`. -/
def blockEnd (blockSize stop : Nat) : Nat := countBlocks blockSize stop * blockSize

theorem le_blockEnd {blockSize : Nat} (positive : 0 < blockSize) (stop : Nat) :
    stop ≤ blockEnd blockSize stop := by
  have := Nat.lt_div_mul_add (a := stop + (blockSize - 1)) positive
  rw [blockEnd, countBlocks]
  omega

theorem blockEnd_mono (blockSize : Nat) {first second : Nat} (le : first ≤ second) :
    blockEnd blockSize first ≤ blockEnd blockSize second :=
  Nat.mul_le_mul_right _ (Nat.div_le_div_right (by omega))

section Aligned

variable {blockSize size : UInt64} {extent : Extent}

/-- The division that rounds up, on words; at `0` the first difference wraps around. -/
theorem toNat_blocks_up {stop : UInt64} (nonzero : blockSize ≠ 0)
    (fits : stop.toNat + blockSize.toNat ≤ 2 ^ 64) :
    (stop - 1 + blockSize).toNat = stop.toNat + (blockSize.toNat - 1) := by
  have := toNat_pos.mpr nonzero
  have := stop.toNat_lt
  have := blockSize.toNat_lt
  have one : (1 : UInt64).toNat = 1 := rfl
  rw [UInt64.toNat_add, UInt64.toNat_sub, one]
  omega

theorem alignExtent_start :
    (alignExtent blockSize size extent).start.toNat =
      extent.start.toNat / blockSize.toNat * blockSize.toNat := by
  have below := Nat.div_mul_le_self extent.start.toNat blockSize.toNat
  have small := extent.start.toNat_lt
  show (extent.start / blockSize * blockSize).toNat = _
  rw [toNat_mul_of_lt (by rw [UInt64.toNat_div]; omega), UInt64.toNat_div]

theorem alignExtent_stop (size : UInt64) (nonzero : blockSize ≠ 0)
    (fits : extent.stop.toNat + blockSize.toNat ≤ 2 ^ 64) :
    (alignExtent blockSize size extent).stop.toNat =
      min (blockEnd blockSize.toNat extent.stop.toNat) size.toNat := by
  have value := toNat_blocks_up nonzero fits
  have below := Nat.div_mul_le_self (extent.stop - 1 + blockSize).toNat blockSize.toNat
  have small := (extent.stop - 1 + blockSize).toNat_lt
  show (minSize ((extent.stop - 1 + blockSize) / blockSize * blockSize) size).toNat = _
  rw [toNat_minSize, toNat_mul_of_lt (by rw [UInt64.toNat_div]; omega), UInt64.toNat_div, value,
    blockEnd, countBlocks]

/-- An aligned extent reaches at least as far to both sides. -/
theorem alignExtent_wider (nonzero : blockSize ≠ 0)
    (fits : extent.stop.toNat + blockSize.toNat ≤ 2 ^ 64)
    (inside : extent.stop.toNat ≤ size.toNat) :
    (alignExtent blockSize size extent).start.toNat ≤ extent.start.toNat ∧
      extent.stop.toNat ≤ (alignExtent blockSize size extent).stop.toNat := by
  rw [alignExtent_start, alignExtent_stop size nonzero fits]
  exact ⟨Nat.div_mul_le_self _ _, le_min (le_blockEnd (toNat_pos.mpr nonzero) _) inside⟩

theorem alignExtent_blocked (nonzero : blockSize ≠ 0)
    (fits : extent.stop.toNat + blockSize.toNat ≤ 2 ^ 64)
    (ordered : extent.start.toNat ≤ extent.stop.toNat)
    (inside : extent.stop.toNat ≤ size.toNat) :
    Blocked blockSize.toNat size.toNat (alignExtent blockSize size extent) := by
  obtain ⟨left, right⟩ := alignExtent_wider nonzero fits inside
  have stop := alignExtent_stop size nonzero fits
  refine ⟨?_, by omega, ?_, ?_⟩
  · rw [alignExtent_start]
    exact Nat.dvd_mul_left _ _
  · rw [stop]
    exact min_le_right _ _
  · rcases min_choice (blockEnd blockSize.toNat extent.stop.toNat) size.toNat with first | second
    · exact Or.inl (by rw [stop, first]; exact Nat.dvd_mul_left _ _)
    · exact Or.inr (by rw [stop, second])

end Aligned

theorem tombstone_blocked (blockSize length : Nat) : Blocked blockSize length tombstone :=
  ⟨Nat.dvd_zero _, le_refl _, Nat.zero_le _, Or.inl (Nat.dvd_zero _)⟩

theorem eq_tombstone {extent : Extent} (start : extent.start.toNat = 0)
    (stop : extent.stop.toNat = 0) : extent = tombstone := by
  cases extent
  rw [tombstone, Extent.mk.injEq, eq_zero_iff, eq_zero_iff]
  exact ⟨start, stop⟩

/-! ### The search for the extent to extend -/

/-- An entry of the array. -/
def entry (extents : List Extent) (i : Nat) : Extent := extents.getD i tombstone

theorem entry_set {extents : List Extent} {i : Nat} (inside : i < extents.length)
    (extent : Extent) (j : Nat) :
    entry (extents.set i extent) j = if i = j then extent else entry extents j := by
  rw [entry, entry, List.getD_eq_getElem?_getD, List.getD_eq_getElem?_getD, List.getElem?_set,
    if_pos inside]
  split_ifs <;> rfl

theorem lastKept_le (extents : List Extent) (j : Nat) : lastKept extents j ≤ j := by
  induction j with
  | zero => exact le_refl 0
  | succ j ih =>
    rw [lastKept]
    split_ifs
    · exact le_refl _
    · exact Nat.le_succ_of_le ih

/-- Everything behind the found extent has been removed. -/
theorem lastKept_removed {extents : List Extent} {i j : Nat} (behind : lastKept extents j < i)
    (le : i ≤ j) : (entry extents i).stop = 0 := by
  induction j with
  | zero => omega
  | succ j ih =>
    rw [lastKept] at behind
    split_ifs at behind with kept
    · omega
    · by_cases last : i = j + 1
      · rw [last]
        exact not_not.mp kept
      · exact ih behind (by omega)

theorem lastKept_kept {extents : List Extent} {j : Nat} (found : lastKept extents j ≠ 0) :
    (entry extents (lastKept extents j)).stop ≠ 0 := by
  induction j with
  | zero => exact absurd rfl found
  | succ j ih =>
    rw [lastKept] at found ⊢
    split_ifs with kept
    · exact kept
    · rw [if_neg kept] at found
      exact ih found

/-- The found extent is the only one with these two properties. -/
theorem lastKept_eq {extents : List Extent} {j found : Nat} (le : found ≤ j)
    (removed : ∀ i, found < i → i ≤ j → (entry extents i).stop = 0)
    (kept : found ≠ 0 → (entry extents found).stop ≠ 0) : lastKept extents j = found := by
  rcases Nat.lt_trichotomy (lastKept extents j) found with before | same | behind
  · exact absurd (lastKept_removed before le) (kept (by omega))
  · exact same
  · exact absurd (removed _ behind (lastKept_le _ _)) (lastKept_kept (by omega))

/-- The index as an `int` is exact up to `2 ^ 31`. -/
theorem searchBack_eq {extents : List Extent} {extent : Nat} (positive : 0 < extent)
    (small : extent ≤ 2 ^ 31) : searchBack extents extent = lastKept extents (extent - 1) := by
  have exact_int : toInt ((extent : Int) - 1) = ((extent - 1 : Nat) : Int) := by
    rw [toInt]
    omega
  rw [searchBack, exact_int]
  by_cases first : extent - 1 = 0
  · rw [first]
    rfl
  · exact if_pos (by omega)

theorem searchBack_zero (extents : List Extent) : searchBack extents 0 = -1 := by
  rw [searchBack, show toInt ((0 : Nat) - 1 : Int) = -1 by decide]
  rfl

/-! ### The loop -/

section Loop

variable {blockSize size : UInt64} {original extents : List Extent} {k : Nat}

/-- **The loop invariant**, before the extent with index `k`. -/
structure MergeInv (blockSize size : UInt64) (original : List Extent) (k : Nat)
    (extents : List Extent) : Prop where
  length : extents.length = original.length
  later : ∀ i, k ≤ i → entry extents i = entry original i
  blocked : ∀ i < k, Blocked blockSize.toNat size.toNat (entry extents i)
  ordered : ∀ i j, i < j → j < k →
    (entry extents i).stop.toNat ≤ (entry extents j).start.toNat ∨ entry extents j = tombstone
  last : 0 < k → (entry extents (lastKept extents (k - 1))).stop.toNat =
    min (blockEnd blockSize.toNat (entry original (k - 1)).stop.toNat) size.toNat
  starts : ∀ i < k, ∀ j, k ≤ j → j < original.length →
    (entry extents i).start.toNat ≤ (entry original j).start.toNat
  data : ∀ i < k, ∀ x, (entry original i).start.toNat ≤ x → x < (entry original i).stop.toNat →
    ∃ j < k, (entry extents j).start.toNat ≤ x ∧ x < (entry extents j).stop.toNat

/-- What the loop needs to know about the extents it starts with. -/
structure Mergeable (blockSize size : UInt64) (original : List Extent) : Prop where
  nonzero : blockSize ≠ 0
  fits : size.toNat + blockSize.toNat ≤ 2 ^ 64
  few : original.length ≤ 2 ^ 31 + 1
  sorted : ∀ i j, i < j → j < original.length →
    (entry original i).stop.toNat ≤ (entry original j).start.toNat
  ordered : ∀ i < original.length,
    (entry original i).start.toNat ≤ (entry original i).stop.toNat
  inside : ∀ i < original.length, (entry original i).stop.toNat ≤ size.toNat

/-- The next extent begins behind the last one that was kept and stays. -/
theorem MergeInv.keep (mergeable : Mergeable blockSize size original)
    (inv : MergeInv blockSize size original k extents) (inside : k < original.length)
    (behind : 0 < k → (entry extents (lastKept extents (k - 1))).stop.toNat <
      (alignExtent blockSize size (entry original k)).start.toNat) :
    MergeInv blockSize size original (k + 1)
      (extents.set k (alignExtent blockSize size (entry original k))) := by
  have bound := mergeable.inside k inside
  have room : (entry original k).stop.toNat + blockSize.toNat ≤ 2 ^ 64 :=
    (Nat.add_le_add_right bound _).trans mergeable.fits
  have good := alignExtent_blocked mergeable.nonzero room (mergeable.ordered k inside) bound
  obtain ⟨left, right⟩ := alignExtent_wider mergeable.nonzero room bound
  have stop := alignExtent_stop size mergeable.nonzero room
  generalize alignExtent blockSize size (entry original k) = aligned at *
  have set : ∀ j, entry (extents.set k aligned) j = if k = j then aligned else entry extents j :=
    entry_set (by rw [inv.length]; exact inside) aligned
  have new : entry (extents.set k aligned) k = aligned := by rw [set, if_pos rfl]
  have old : ∀ j, k ≠ j → entry (extents.set k aligned) j = entry extents j := fun j other => by
    rw [set, if_neg other]
  refine ⟨?_, ?_, ?_, ?_, ?_, ?_, ?_⟩
  · rw [List.length_set]
    exact inv.length
  · intro i above
    rw [old i (by omega)]
    exact inv.later i (by omega)
  · intro i below
    by_cases last : k = i
    · rw [← last, new]
      exact good
    · rw [old i last]
      exact inv.blocked i (by omega)
  · intro i j less below
    rw [old i (by omega)]
    by_cases last : k = j
    · -- everything before ends at the kept extent or earlier
      subst last
      rw [new]
      left
      have behind := behind (by omega)
      have found := lastKept_le extents (k - 1)
      rcases Nat.lt_trichotomy i (lastKept extents (k - 1)) with before | same | after
      · have kept := lastKept_kept (show lastKept extents (k - 1) ≠ 0 by omega)
        have ordered := (inv.blocked _ (show lastKept extents (k - 1) < k by omega)).start_le
        rcases inv.ordered i _ before (by omega) with le | removed
        · omega
        · exact absurd (by rw [removed]; rfl) kept
      · rw [same]
        omega
      · rw [lastKept_removed after (by omega)]
        exact Nat.zero_le _
    · rw [old j last]
      exact inv.ordered i j less (by omega)
  · intro _
    have found : lastKept (extents.set k aligned) (k + 1 - 1) = k := by
      refine lastKept_eq (le_refl _) (fun i _ _ => by omega) fun positive => ?_
      have := behind (by omega)
      have := good.start_le
      rw [new]
      exact toNat_pos.mp (by omega)
    rw [found, new, stop]
    rfl
  · intro i below j above short
    by_cases last : k = i
    · have first := mergeable.sorted k j (by omega) short
      have second := mergeable.ordered k inside
      rw [← last, new]
      omega
    · rw [old i last]
      exact inv.starts i (by omega) j (by omega) short
  · intro i below x lower upper
    by_cases last : k = i
    · subst last
      exact ⟨k, by omega, by rw [new]; omega⟩
    · obtain ⟨j, small, covers⟩ := inv.data i (by omega) x lower upper
      exact ⟨j, by omega, by rw [old j (by omega)]; exact covers⟩

/-- The next extent touches the last one that was kept, which is extended. -/
theorem MergeInv.merge (mergeable : Mergeable blockSize size original)
    (inv : MergeInv blockSize size original k extents) (inside : k < original.length)
    (positive : 0 < k) {found : Nat} (at_found : found = lastKept extents (k - 1)) :
    MergeInv blockSize size original (k + 1)
      (((extents.set k (alignExtent blockSize size (entry original k))).set found
        ⟨(entry extents found).start,
          (alignExtent blockSize size (entry original k)).stop⟩).set k tombstone) := by
  have bound := mergeable.inside k inside
  have room : (entry original k).stop.toNat + blockSize.toNat ≤ 2 ^ 64 :=
    (Nat.add_le_add_right bound _).trans mergeable.fits
  have good := alignExtent_blocked mergeable.nonzero room (mergeable.ordered k inside) bound
  obtain ⟨left, right⟩ := alignExtent_wider mergeable.nonzero room bound
  have stop := alignExtent_stop size mergeable.nonzero room
  have below : found < k := by
    have := lastKept_le extents (k - 1)
    omega
  -- the extension does not shrink the extent
  have grows : (entry extents found).stop.toNat ≤
      (alignExtent blockSize size (entry original k)).stop.toNat := by
    have previous := mergeable.sorted (k - 1) k (by omega) inside
    have current := mergeable.ordered k inside
    have mono := blockEnd_mono blockSize.toNat (previous.trans current)
    rw [at_found, inv.last positive, stop]
    omega
  generalize alignExtent blockSize size (entry original k) = aligned at *
  have length := inv.length
  generalize merged : ((extents.set k aligned).set found
    ⟨(entry extents found).start, aligned.stop⟩).set k tombstone = next
  have set : ∀ j, entry next j = if k = j then tombstone else if found = j then
      ⟨(entry extents found).start, aligned.stop⟩ else entry extents j := by
    intro j
    rw [← merged, entry_set (by simp only [List.length_set]; omega),
      entry_set (by simp only [List.length_set]; omega), entry_set (by omega)]
    split_ifs <;> rfl
  have removed : entry next k = tombstone := by rw [set, if_pos rfl]
  have extended : entry next found = ⟨(entry extents found).start, aligned.stop⟩ := by
    rw [set, if_neg (by omega), if_pos rfl]
  have old : ∀ j, k ≠ j → found ≠ j → entry next j = entry extents j := fun j other other' => by
    rw [set, if_neg other, if_neg other']
  have start : ∀ j, k ≠ j → (entry next j).start = (entry extents j).start := by
    intro j other
    by_cases same : found = j
    · rw [← same, extended]
    · rw [old j other same]
  refine ⟨?_, ?_, ?_, ?_, ?_, ?_, ?_⟩
  · rw [← merged]
    simp only [List.length_set]
    exact length
  · intro i above
    rw [old i (by omega) (by omega)]
    exact inv.later i (by omega)
  · intro i less
    by_cases last : k = i
    · rw [← last, removed]
      exact tombstone_blocked _ _
    by_cases same : found = i
    · have before := inv.blocked found below
      rw [← same, extended]
      exact ⟨before.start_dvd, before.start_le.trans grows, good.stop_le, good.stop_whole⟩
    · rw [old i last same]
      exact inv.blocked i (by omega)
  · intro i j less short
    by_cases last : k = j
    · exact Or.inr (by rw [← last, removed])
    by_cases same : found = i
    · -- what follows the extended one has been removed
      right
      have stop := lastKept_removed (show lastKept extents (k - 1) < j by omega)
        (show j ≤ k - 1 by omega)
      have ordered := (inv.blocked j (by omega)).start_le
      rw [old j last (by omega)]
      rw [eq_zero_iff] at stop
      exact eq_tombstone (by omega) stop
    rw [old i (by omega) same]
    rcases inv.ordered i j less (by omega) with le | gone
    · rw [start j last]
      exact Or.inl le
    · by_cases same' : found = j
      · have kept := lastKept_kept (show lastKept extents (k - 1) ≠ 0 by omega)
        rw [← at_found, same', gone] at kept
        exact absurd rfl kept
      · exact Or.inr (by rw [old j last same', gone])
  · intro _
    have search : lastKept next (k + 1 - 1) = found := by
      refine lastKept_eq (by omega) (fun i behind le => ?_) fun some => ?_
      · by_cases last : k = i
        · rw [← last, removed]
          rfl
        · rw [old i last (by omega)]
          exact lastKept_removed (by omega) (show i ≤ k - 1 by omega)
      · have kept := lastKept_kept (show lastKept extents (k - 1) ≠ 0 by omega)
        rw [← at_found] at kept
        have := toNat_pos.mpr kept
        rw [extended]
        exact toNat_pos.mp (by show 0 < aligned.stop.toNat; omega)
    rw [search, extended, Nat.add_sub_cancel]
    exact stop
  · intro i less j above short
    by_cases last : k = i
    · rw [← last, removed]
      exact Nat.zero_le _
    · rw [start i last]
      exact inv.starts i (by omega) j (by omega) short
  · intro i less x lower upper
    by_cases last : k = i
    · subst last
      have := inv.starts found below k (le_refl _) inside
      refine ⟨found, by omega, ?_⟩
      rw [extended]
      exact ⟨by show (entry extents found).start.toNat ≤ x; omega,
        by show x < aligned.stop.toNat; omega⟩
    · obtain ⟨j, small, first, second⟩ := inv.data i (by omega) x lower upper
      refine ⟨j, by omega, by rw [start j (by omega)]; exact first, ?_⟩
      by_cases same : found = j
      · subst same
        rw [extended]
        exact second.trans_le grows
      · rw [old j (by omega) same]
        exact second

/-- **One step of the loop.** -/
theorem MergeInv.step (mergeable : Mergeable blockSize size original)
    (inv : MergeInv blockSize size original k extents) (inside : k < original.length) :
    MergeInv blockSize size original (k + 1) (mergeStep blockSize size extents k) := by
  have current : extents.getD k ⟨0, 0⟩ = entry original k := inv.later k (le_refl k)
  have few := mergeable.few
  by_cases first : k = 0
  · subst first
    have kept := inv.keep mergeable inside fun positive => absurd positive (lt_irrefl 0)
    rw [mergeStep, current]
    simp only [searchBack_zero]
    rw [if_neg fun both => absurd both.1 (by decide)]
    exact kept
  have positive : 0 < k := Nat.pos_of_ne_zero first
  have same : lastKept (extents.set k (alignExtent blockSize size (entry original k))) (k - 1) =
      lastKept extents (k - 1) := by
    have untouched : ∀ i ≤ k - 1, entry (extents.set k
        (alignExtent blockSize size (entry original k))) i = entry extents i := fun i le => by
      rw [entry_set (by rw [inv.length]; exact inside), if_neg (by omega)]
    refine lastKept_eq (lastKept_le _ _) (fun i behind le => ?_) fun some => ?_
    · rw [untouched i le]
      exact lastKept_removed behind le
    · rw [untouched _ (lastKept_le _ _)]
      exact lastKept_kept some
  have found_lt : lastKept extents (k - 1) < k := by
    have := lastKept_le extents (k - 1)
    omega
  have found : (extents.set k (alignExtent blockSize size (entry original k))).getD
      (lastKept extents (k - 1)) ⟨0, 0⟩ = entry extents (lastKept extents (k - 1)) := by
    show entry (extents.set k _) _ = _
    rw [entry_set (by rw [inv.length]; exact inside), if_neg (by omega)]
  rw [mergeStep, current]
  simp only [searchBack_eq positive (show k ≤ 2 ^ 31 by omega), same, Int.toNat_natCast, found]
  split
  next => exact inv.merge mergeable inside positive rfl
  next apart =>
    refine inv.keep mergeable inside fun _ => ?_
    rw [UInt64.le_iff_toNat_le] at apart
    omega

/-- **The loop keeps its invariant.** -/
theorem mergeExtents_inv (mergeable : Mergeable blockSize size original) :
    MergeInv blockSize size original original.length (mergeExtents blockSize size original) := by
  have run : ∀ k ≤ original.length, MergeInv blockSize size original k
      ((List.range k).foldl (mergeStep blockSize size) original) := by
    intro k
    induction k with
    | zero =>
      intro _
      refine ⟨rfl, fun _ _ => rfl, ?_, ?_, ?_, ?_, ?_⟩ <;> intros <;> omega
    | succ k ih =>
      intro le
      rw [List.range_succ, List.foldl_append]
      exact (ih (by omega)).step mergeable (by omega)
  exact run _ (le_refl _)

end Loop

/-- **Merged extents are in blocks, in order, and cover the data.** -/
theorem mergeExtents_merged {input : File} {blockSize : UInt64} {extents : List Extent}
    (covers : Covers input extents) (nonzero : blockSize ≠ 0) (few : extents.length ≤ 2 ^ 31 + 1)
    (fits : input.length + blockSize.toNat ≤ 2 ^ 63) :
    Merged blockSize.toNat input (mergeExtents blockSize (UInt64.ofNat input.length) extents) := by
  have positive := toNat_pos.mpr nonzero
  have small : input.length < 2 ^ 64 := by omega
  have length : (UInt64.ofNat input.length).toNat = input.length :=
    UInt64.toNat_ofNat_of_lt' small
  have member : ∀ {extents : List Extent} {i : Nat} (inside : i < extents.length),
      entry extents i = extents[i] := fun inside => List.getD_eq_getElem _ _ inside
  have mergeable : Mergeable blockSize (UInt64.ofNat input.length) extents := by
    refine ⟨nonzero, by omega, few, ?_, ?_, ?_⟩
    · intro i j less inside
      rw [member inside, member (less.trans inside)]
      exact List.pairwise_iff_getElem.mp covers.sorted i j _ inside less
    · intro i inside
      rw [member inside]
      exact covers.ordered _ (List.getElem_mem inside)
    · intro i inside
      rw [member inside, length]
      exact covers.inside _ (List.getElem_mem inside)
  have inv := mergeExtents_inv mergeable
  generalize mergeExtents blockSize (UInt64.ofNat input.length) extents = merged at inv ⊢
  have same := inv.length
  refine ⟨?_, ?_, ?_⟩
  · intro extent is_member
    obtain ⟨i, inside, rfl⟩ := List.getElem_of_mem is_member
    have := inv.blocked i (by omega)
    rwa [member inside, length] at this
  · refine List.pairwise_iff_getElem.mpr fun i j inside inside' less => ?_
    have := inv.ordered i j less (by omega)
    rwa [member inside, member inside'] at this
  · intro x nonzero
    obtain ⟨extent, is_member, lower, upper⟩ := covers.data x nonzero
    obtain ⟨i, inside, rfl⟩ := List.getElem_of_mem is_member
    rw [← member inside] at lower upper
    obtain ⟨j, small, first, second⟩ := inv.data i inside x lower upper
    rw [member (by omega)] at first second
    exact ⟨_, List.getElem_mem _, first, second⟩

end Genimage
