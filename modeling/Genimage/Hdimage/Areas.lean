/-
**The areas of a GPT in the final list.**

The areas of the table are the last elements of the list and the loop keeps their order, so each of
them is checked against those in front of it. They have no image, and `check_overlap` lets nothing
cover an element without one (`Tolerated.apart`). All sums are words here, and no hole declaration is
excluded: `gptAreas` holds of every accepted configuration.

The backup has its place from the image size, or, without one, from the running end
(`GptAreas.offset_given`, `GptAreas.offset_floating`).
-/

import Genimage.Hdimage.Origin

namespace Genimage

open Library

variable {env : Env} {hd : Hdimage} {size : UInt64}

/-! ### The overlap check -/

/-- **What `check_overlap` accepts of a later element `part`**: it is apart from `previous`, or a hole
of the image of `previous` covers what they share. -/
def Tolerated (env : Env) (part previous : Partition) : Prop :=
  previous.partitionEnd ≤ part.offset ∨ part.partitionEnd ≤ previous.offset ∨
    imageHasHoleCovering env previous.image
      (maxUll part.offset previous.offset - previous.offset)
      (minUll part.partitionEnd previous.partitionEnd - previous.offset) = true

theorem checkOverlap_ok_iff {part : Partition} {done : List Partition} :
    checkOverlap env part done = .ok () ↔ ∀ previous ∈ done, Tolerated env part previous := by
  induction done with
  | nil => simp [checkOverlap]
  | cons previous rest ih =>
    rw [List.forall_mem_cons, checkOverlap]
    split_ifs with behind before covered
    · rw [ih, and_iff_right (show Tolerated env part previous from Or.inl behind)]
    · rw [ih, and_iff_right (show Tolerated env part previous from Or.inr (Or.inl before))]
    · rw [ih, and_iff_right (show Tolerated env part previous from Or.inr (Or.inr covered))]
    · refine iff_of_false (fun wrong => by cases wrong) fun both => ?_
      rcases both.1 with other | other | other
      · exact behind other
      · exact before other
      · exact covered other

/-- An element without an image is never covered. -/
theorem Tolerated.apart {part previous : Partition} (tolerated : Tolerated env part previous)
    (without : previous.image = none) :
    previous.partitionEnd ≤ part.offset ∨ part.partitionEnd ≤ previous.offset := by
  rcases tolerated with behind | before | covered
  · exact Or.inl behind
  · exact Or.inr before
  · rw [without] at covered
    cases covered

/-- A primary partition tolerates every element in front of it. -/
theorem Placed.tolerated {state next : SetupState} {part placed : Partition}
    (step : Placed env hd size state part placed next) (primary : placed.logical = false) :
    ∀ previous ∈ state.done, Tolerated env placed previous := by
  have place := step.place
  rw [checkPlace, primary, if_neg Bool.false_ne_true] at place
  exact checkOverlap_ok_iff.mp place

/-! ### One area -/

/-- The step of an area puts it behind the list. -/
theorem Placed.area {state next : SetupState} {node : Node} {name : String}
    {offset length : UInt64} {placed : Partition}
    (step : Placed env hd size state (fakePartition node name offset length) placed next)
    (other : node ≠ .extended) (nonempty : length ≠ 0) :
    placed = fakePartition node name placed.offset length ∧ next.done = state.done ++ [placed] ∧
      ∀ previous ∈ state.done, Tolerated env placed previous := by
  have kept := origin_fake (.of_placed step) other nonempty
  have primary : placed.logical = false := step.logical_eq
  refine ⟨kept, ?_, step.tolerated primary⟩
  rw [step.done_eq, primary, if_neg Bool.false_ne_true]

theorem Placed.area_explicit {state next : SetupState} {node : Node} {name : String}
    {offset length : UInt64} {placed : Partition}
    (step : Placed env hd size state (fakePartition node name offset length) placed next)
    (other : node ≠ .extended) (explicit : offset ≠ 0) (nonempty : length ≠ 0) :
    placed = fakePartition node name offset length ∧ next.done = state.done ++ [placed] ∧
      ∀ previous ∈ state.done, Tolerated env placed previous :=
  ⟨origin_fakePartition (.of_placed step) other explicit nonempty,
    (step.area other nonempty).2⟩

/-! ### The four areas -/

/-- The size of the backup: array and header. -/
def backupSize : UInt64 := gptSectors * 512

/-- The running end that a backup without a place is put behind. -/
theorem backup_floating {state next : SetupState} {placed : Partition}
    (step : Placed env hd size state (gptBackupArea 0) placed next) (gpt : hd.tableType ≠ .none) :
    placed.offset = roundup (state.now + backupSize) 4096 - backupSize ∧
      next.now = maxUll placed.partitionEnd (state.now + backupSize) := by
  have aligned : (gptBackupArea 0).withAlign hd = gptBackupArea 0 := by
    simp [Partition.withAlign, gptBackupArea, fakePartition]
  have floating : (gptBackupArea 0).isFloatingBackup := ⟨rfl, rfl⟩
  have running : runningEnd hd state.now (gptBackupArea 0) = state.now + backupSize := by
    rw [runningEnd, placeBackup, if_pos floating]
    rfl
  refine ⟨?_, ?_⟩
  · rw [step.offset_eq, aligned, chosenOffset, placePart, placeBackup, if_pos floating]
    simp only [Partition.withOffset_offset, Partition.withOffset_inPartitionTable]
    rw [if_neg (by simp [gptBackupArea, fakePartition, gpt])]
    rfl
  · rw [step.now_eq, aligned, running]

/-- **The areas of a GPT, as they stand at the end of the list.** `given` is the size of the image in
front of the loop. -/
structure GptAreas (given : UInt64) (layout : Layout) (listed : List Partition)
    (backup : Partition) : Prop where
  partitions_eq : layout.partitions =
    listed ++ [mbrArea, gptHeaderArea, gptArrayArea layout.hd.gptLocation, backup]
  backup_eq : backup = fakePartition .gptBackup "[GPT backup]" backup.offset backupSize
  array_apart : gptHeaderArea.partitionEnd ≤ layout.hd.gptLocation ∨
    (gptArrayArea layout.hd.gptLocation).partitionEnd ≤ gptHeaderArea.offset
  backup_apart : (gptArrayArea layout.hd.gptLocation).partitionEnd ≤ backup.offset ∨
    backup.partitionEnd ≤ layout.hd.gptLocation
  size_given : given ≠ 0 → layout.size = given
  offset_given : given ≠ 0 → given ≠ backupSize → backup.offset = given - backupSize
  offset_floating : given = 0 → ∃ now, backup.offset = roundup now 4096 - backupSize ∧
    layout.size = maxUll backup.partitionEnd now

/-- **The list of a GPT in front of the loop**: the sections and the areas. -/
theorem Ready.gpt_partitions {config : HdimageConfig} {prepared : Prepared}
    (ready : Ready env config prepared) (gpt : prepared.hd.tableType.hasGpt = true) :
    prepared.partitions = parsePartitions config.partitions ++
      [mbrArea, gptHeaderArea, gptArrayArea prepared.hd.gptLocation,
        gptBackupArea prepared.size] := by
  have table : prepared.hd.tableType ≠ .none := by
    intro none
    rw [none] at gpt
    cases gpt
  obtain ⟨parts, scanned, list⟩ := ready.list_eq
  rw [list, tableAreas, if_neg table, if_pos gpt]
  rcases setupLogicalPartitions_ok scanned with ⟨same, _⟩ | ⟨mbr, _⟩
  · rw [show parts = parsePartitions config.partitions from same]
  · rw [mbr] at gpt
    cases gpt

/-- **Every accepted GPT has its areas at the end.** -/
theorem gptAreas {config : HdimageConfig} {layout : Layout}
    (accepted : hdimageSetup env config = .ok layout) (gpt : layout.hd.tableType.hasGpt = true) :
    ∃ given listed backup, outputSize env config.size = .ok given ∧
      GptAreas given layout listed backup := by
  obtain ⟨prepared, state, _, ready, loop, finished⟩ := hdimageSetup_ok accepted
  rw [finished.hd_eq] at gpt
  have table : prepared.hd.tableType ≠ .none := by
    intro none
    rw [none] at gpt
    cases gpt
  rw [ready.gpt_partitions gpt, foldlM_append_ok] at loop
  obtain ⟨before, _, loop⟩ := loop
  simp only [List.foldlM_cons, List.foldlM_nil, do_eq_ok, pure_eq_ok] at loop
  obtain ⟨first, mbr, second, header, third, array, fourth, backed, rfl⟩ := loop
  obtain ⟨_, mbr⟩ := setupPart_ok mbr
  obtain ⟨_, header⟩ := setupPart_ok header
  obtain ⟨_, array⟩ := setupPart_ok array
  obtain ⟨backup, backed⟩ := setupPart_ok backed
  obtain ⟨rfl, done, _⟩ := mbr.area_explicit (by decide) (by decide) (by decide)
  obtain ⟨rfl, done', _⟩ := header.area_explicit (by decide) (by decide) (by decide)
  obtain ⟨rfl, done'', arrayApart⟩ := array.area_explicit (by decide) ready.gptLocation_ne_zero (by decide)
  obtain ⟨backup_eq, done''', backupApart⟩ := backed.area (by decide) (by decide)
  have headerDone : gptHeaderArea ∈ second.done := header.mem_done
  have arrayDone : gptArrayArea prepared.hd.gptLocation ∈ third.done := array.mem_done
  refine ⟨prepared.size, before.done, backup, ready.size, ?_⟩
  constructor
  case partitions_eq =>
    rw [finished.partitions_eq, finished.hd_eq, done''', done'', done', done]
    simp only [List.append_assoc, List.cons_append, List.nil_append]
    rfl
  case backup_eq => exact backup_eq
  case array_apart =>
    rw [finished.hd_eq]
    exact (arrayApart gptHeaderArea headerDone).apart rfl
  case backup_apart =>
    rw [finished.hd_eq]
    exact (backupApart _ arrayDone).apart rfl
  case size_given =>
    intro nonzero
    rw [finished.size_eq, if_neg nonzero]
  case offset_given =>
    intro nonzero other
    have offset : (gptBackupArea prepared.size).offset = prepared.size - backupSize := by
      show (if prepared.size ≠ 0 then _ else _) = _
      rw [if_pos nonzero]
      rfl
    have positive : (gptBackupArea prepared.size).offset ≠ 0 := by
      intro zero
      rw [offset] at zero
      rw [← UInt64.sub_add_cancel prepared.size backupSize, zero, UInt64.zero_add] at other
      exact other rfl
    rw [(Origin.of_placed backed).offset_explicit positive, offset]
  case offset_floating =>
    intro zero
    rw [zero] at backed
    obtain ⟨offset, now⟩ := backup_floating backed table
    refine ⟨third.now + backupSize, offset, ?_⟩
    rw [finished.size_eq, if_pos zero, now]

namespace GptAreas

variable {given : UInt64} {layout : Layout} {listed : List Partition} {backup : Partition}

theorem backup_size (areas : GptAreas given layout listed backup) : backup.size = backupSize := by
  rw [areas.backup_eq]
  rfl

theorem backup_stop (areas : GptAreas given layout listed backup) {stop : UInt64}
    (offset : backup.offset = stop - backupSize) : backup.partitionEnd = stop := by
  rw [Partition.partitionEnd, areas.backup_size, offset, UInt64.sub_add_cancel]

/-- **The backup ends with the image**, and an image without a given size ends at a sector. -/
theorem backup_end (areas : GptAreas given layout listed backup) (other : given ≠ backupSize)
    (ends : backup.partitionEnd ≠ 0) :
    backup.partitionEnd = layout.size ∧ (512 ∣ layout.size.toNat ↔ 512 ∣ given.toNat) := by
  by_cases zero : given = 0
  · obtain ⟨now, offset, size⟩ := areas.offset_floating zero
    rw [areas.backup_stop offset] at ends size ⊢
    obtain ⟨le, dvd⟩ := roundup_of_ne_zero (show (4096 : UInt64).toNat ∣ 2 ^ 64 by decide) ends
    have same : roundup now 4096 = layout.size := by
      rw [← UInt64.toNat_inj, size, toNat_maxUll, max_eq_left le]
    refine ⟨same, ?_⟩
    rw [zero, ← same]
    exact iff_of_true (dvd_trans (by decide) dvd) (dvd_zero _)
  · rw [areas.size_given zero]
    exact ⟨areas.backup_stop (areas.offset_given zero other), Iff.rfl⟩

/-- The end of the backup has not wrapped to `0` if the image is not as large as that. -/
theorem backup_end_ne_zero (areas : GptAreas given layout listed backup)
    (other : given ≠ backupSize) (nonzero : layout.size ≠ 0)
    (small : layout.size.toNat + 4096 ≤ 2 ^ 64) : backup.partitionEnd ≠ 0 := by
  intro none
  by_cases zero : given = 0
  · obtain ⟨now, offset, size⟩ := areas.offset_floating zero
    rw [areas.backup_stop offset] at none size
    have same : layout.size = now := by
      rw [← UInt64.toNat_inj, size, toNat_maxUll, none, UInt64.toNat_zero]
      exact max_eq_right (Nat.zero_le _)
    have positive := toNat_pos.mpr nonzero
    rw [same] at positive small
    have below := nextMultiple_lt (4096 : UInt64).toNat positive
    have above := le_roundup (show (4096 : UInt64) ≠ 0 by decide) (Or.inr (below.trans_le small))
    rw [none, UInt64.toNat_zero] at above
    omega
  · rw [areas.backup_stop (areas.offset_given zero other)] at none
    exact zero none

/-- The array of an accepted GPT lies behind the header, if its end is a word. -/
theorem location_ge (areas : GptAreas given layout listed backup)
    (fits : layout.hd.gptLocation.toNat + 16384 < 2 ^ 64) : 1024 ≤ layout.hd.gptLocation.toNat := by
  have stop : (gptArrayArea layout.hd.gptLocation).partitionEnd.toNat =
      layout.hd.gptLocation.toNat + 16384 := toNat_add_of_lt fits
  rcases areas.array_apart with behind | before
  · exact UInt64.le_iff_toNat_le.mp behind
  · have := UInt64.le_iff_toNat_le.mp before
    rw [stop, show gptHeaderArea.offset.toNat = 512 from rfl] at this
    omega

end GptAreas

end Genimage
