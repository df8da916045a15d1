/-
**What one step of the setup loop does.**

`setupPart_ok` takes an accepted step apart: `Placed` says, for the list element `part` and the
state in front of it, which element `placed` the step leaves in the list and what state follows. All
later facts about the loop come from `Placed`, none unfolds `setupPart` again.

* `chosenOffset`: the offset as a function of the running end, `runningEnd` the end it is chosen
  against;
* `SizeRule`: the four ways a partition gets its size;
* `Placed.data`: the known data of the child fits.
-/

import Genimage.Hdimage.Setup

namespace Genimage

open Library

variable {env : Env} {hd : Hdimage} {size : UInt64}

/-! ### The helpers, one lemma each -/

/-- The default of `align` is not `0` when the image alignment is not. -/
theorem withAlign_align_ne_zero (nonzero : hd.align ≠ 0) (part : Partition) :
    (part.withAlign hd).align ≠ 0 := by
  simp only [Partition.withAlign]
  split_ifs
  · assumption
  · exact nonzero
  · decide

theorem setupPartUuids_ok {drawn : Nat} {part : Partition} {result : Partition × Nat}
    (run : setupPartUuids env hd drawn part = .ok result) :
    ∃ uuid typeUuid, result.1 = part.withUuids uuid typeUuid := by
  unfold setupPartUuids at run
  split at run
  · simp only [do_eq_ok, pure_eq_ok] at run
    obtain ⟨_, _, _, _, rfl⟩ := run
    exact ⟨_, _, rfl⟩
  · simp only [Except.ok.injEq] at run
    subst run
    exact ⟨_, _, rfl⟩

/-- The running end a partition is placed against. -/
def runningEnd (hd : Hdimage) (now : UInt64) (part : Partition) : UInt64 :=
  (placeBackup (reserveEbr hd now part) part).1

/-- The offset a partition gets. -/
def chosenOffset (hd : Hdimage) (now : UInt64) (part : Partition) : UInt64 :=
  (placePart hd (runningEnd hd now part) (placeBackup (reserveEbr hd now part) part).2).offset

/-- An explicit offset is kept. -/
theorem chosenOffset_explicit (now : UInt64) {part : Partition} (explicit : part.offset ≠ 0) :
    chosenOffset hd now part = part.offset := by
  have grounded : ¬ part.isFloatingBackup := fun floating => explicit floating.2
  simp only [chosenOffset, placePart, placeBackup, if_neg grounded, Partition.withOffset_offset,
    explicit, false_and, if_false]

/-- An automatic offset is the running end, rounded up. -/
theorem chosenOffset_automatic (now : UInt64) {part : Partition} (automatic : part.offset = 0)
    (other : part.node ≠ .gptBackup)
    (inTable : part.inPartitionTable = true ∨ hd.tableType = .none) :
    chosenOffset hd now part = roundup (runningEnd hd now part) part.align := by
  have grounded : ¬ part.isFloatingBackup := fun floating => other floating.1
  simp only [chosenOffset, placePart, placeBackup, if_neg grounded, Partition.withOffset_offset,
    Partition.withOffset_inPartitionTable, automatic, inTable, and_self, if_true]
  rfl

/-- Outside the table an offset is never chosen. -/
theorem chosenOffset_outside (now : UInt64) {part : Partition} (other : part.node ≠ .gptBackup)
    (outside : part.inPartitionTable = false) (table : hd.tableType ≠ .none) :
    chosenOffset hd now part = part.offset := by
  have grounded : ¬ part.isFloatingBackup := fun floating => other floating.1
  simp only [chosenOffset, placePart, placeBackup, if_neg grounded, Partition.withOffset_offset,
    Partition.withOffset_inPartitionTable, outside, Bool.false_eq_true, table, or_self, and_false,
    if_false]

/-- The placement does not look at the UUIDs. -/
theorem placement_eq (hd : Hdimage) (now : UInt64) (part : Partition) (uuid typeUuid : Option String) :
    (placeBackup (reserveEbr hd now (part.withUuids uuid typeUuid))
      (part.withUuids uuid typeUuid)).1 = runningEnd hd now part ∧
    placePart hd (runningEnd hd now part) (placeBackup
        (reserveEbr hd now (part.withUuids uuid typeUuid)) (part.withUuids uuid typeUuid)).2 =
      (part.withUuids uuid typeUuid).withOffset (chosenOffset hd now part) :=
  ⟨rfl, rfl⟩

theorem setupPartAutoresize_ok {resized : Bool} {part : Partition} {result : Partition × Bool}
    (run : setupPartAutoresize hd size resized part = .ok result) :
    (part.autoresize = false ∧ result = (part, resized)) ∨
    (part.autoresize = true ∧ resized = false ∧ size ≠ 0 ∧
      0 < toLongLong (autoresizeSpace hd size part) ∧
      toLongLong part.size ≤ toLongLong (autoresizeSpace hd size part) ∧
      result = (part.withSize (autoresizeSpace hd size part), true)) := by
  unfold setupPartAutoresize at run
  split at run
  next off =>
    simp only [Except.ok.injEq] at run
    exact Or.inl ⟨by simpa using off, run.symm⟩
  next on =>
    simp only [do_eq_ok, failIf_ok, pure_eq_ok, not_le, not_lt] at run
    obtain ⟨_, fresh, _, given, _, positive, _, enough, rfl⟩ := run
    exact Or.inr ⟨by simpa using on, by simpa using fresh, given, positive, enough, rfl⟩

theorem setupPartImage_ok {fileSize : UInt64} {part : Partition} {result : Partition × UInt64}
    (run : setupPartImage env fileSize part = .ok result) :
    (part.image = none ∧ result = (part, fileSize)) ∨
    ∃ image child, part.image = some image ∧ env.imageGet image = some child ∧
      (child.size ≠ 0 → part.imageoffset ≤ child.size) ∧
      child.dataSize part.imageoffset ≤ imageSize part (child.dataSize part.imageoffset) ∧
      result = (part.withSize (imageSize part (child.dataSize part.imageoffset)),
        maxUll (part.offset + child.dataSize part.imageoffset) fileSize) := by
  unfold setupPartImage at run
  split at run
  next without =>
    simp only [Except.ok.injEq] at run
    exact Or.inl ⟨without, run.symm⟩
  next image found =>
    split at run
    next => cases run
    next child known =>
      simp only [do_eq_ok, failIf_ok, pure_eq_ok, not_and, gt_iff_lt, UInt64.not_lt] at run
      obtain ⟨_, large, _, fits, rfl⟩ := run
      exact Or.inr ⟨image, child, found, known, large, fits, rfl⟩

/-! ### The step -/

/-- **The four ways a partition gets its size**: `autoresize`, the `size` option, nothing at all,
and the data of its image. -/
inductive SizeRule (env : Env) (hd : Hdimage) (size given : UInt64) (placed : Partition) : Prop where
  | autoresize (on : placed.autoresize = true)
      (space : placed.size = autoresizeSpace hd size placed)
      (positive : 0 < toLongLong placed.size)
      (enough : toLongLong given ≤ toLongLong placed.size)
  | option (off : placed.autoresize = false) (set : given ≠ 0) (same : placed.size = given)
  | unset (off : placed.autoresize = false) (unset : given = 0)
      (without : placed.image = none) (zero : placed.size = 0)
  | data (off : placed.autoresize = false) (unset : given = 0) (image : String) (child : Child)
      (found : placed.image = some image) (known : env.imageGet image = some child)
      (rounded : placed.size =
        if placed.inPartitionTable then roundup (child.dataSize placed.imageoffset) placed.align
        else child.dataSize placed.imageoffset)

/-- **One accepted step of the loop**: `part` becomes `placed`, `state` becomes `next`. -/
structure Placed (env : Env) (hd : Hdimage) (size : UInt64) (state : SetupState)
    (part placed : Partition) (next : SetupState) : Prop where
  kept : placed = (((part.withAlign hd).withUuids placed.partitionUuid
    placed.partitionTypeUuid).withOffset placed.offset).withSize placed.size
  options : checkTableOptions hd.tableType (part.withAlign hd) = .ok ()
  uuids : setupPartUuids env hd state.drawn (part.withAlign hd) =
    .ok ((part.withAlign hd).withUuids placed.partitionUuid placed.partitionTypeUuid, next.drawn)
  offset_eq : placed.offset = chosenOffset hd state.now (part.withAlign hd)
  offset_dvd : placed.align.toNat ∣ placed.offset.toNat
  size_rule : SizeRule env hd size part.size placed
  data : ∀ image, placed.image = some image → ∃ child, env.imageGet image = some child ∧
    (child.size ≠ 0 → placed.imageoffset ≤ child.size) ∧
    child.dataSize placed.imageoffset ≤ placed.size
  size_ne : placed.size = 0 → placed.node = .extended
  place : checkPlace env state.done (runningEnd hd state.now (part.withAlign hd)) placed = .ok ()
  sectors : placed.inPartitionTable = true → 512 ∣ placed.size.toNat
  now_eq : next.now =
    maxUll placed.partitionEnd (runningEnd hd state.now (part.withAlign hd))
  done_eq : next.done =
    (if placed.logical then growExtended next.now state.done else state.done) ++ [placed]
  file_eq : ∃ imageEnd, next.fileSize =
      (if placed.logical then maxUll (placed.offset - hd.align + 512) imageEnd else imageEnd) ∧
    imageEnd = match placed.image.bind env.imageGet with
      | none => state.fileSize
      | some child => maxUll (placed.offset + child.dataSize placed.imageoffset) state.fileSize
  hybrid_eq : next.hybridEntries = state.hybridEntries +
    if hd.tableType.hasGpt ∧ placed.inPartitionTable ∧ placed.partitionType ≠ 0 then 1 else 0
  resized_eq : next.resized = (state.resized || placed.autoresize)
  resized_once : placed.autoresize = true → state.resized = false ∧ size ≠ 0

/-- The two sizing functions one after the other. -/
theorem sizing_ok {resized : Bool} {fileSize : UInt64} {located : Partition}
    {sized : Partition × Bool} {result : Partition × UInt64}
    (autoresize : setupPartAutoresize hd size resized located = .ok sized)
    (image : setupPartImage env fileSize sized.1 = .ok result) :
    result.1 = located.withSize result.1.size ∧
    SizeRule env hd size located.size result.1 ∧
    (∀ image, located.image = some image → ∃ child, env.imageGet image = some child ∧
      (child.size ≠ 0 → located.imageoffset ≤ child.size) ∧
      child.dataSize located.imageoffset ≤ result.1.size) ∧
    (result.2 = match located.image.bind env.imageGet with
      | none => fileSize
      | some child => maxUll (located.offset + child.dataSize located.imageoffset) fileSize) ∧
    sized.2 = (resized || located.autoresize) ∧
    (located.autoresize = true → resized = false ∧ size ≠ 0) := by
  rcases setupPartAutoresize_ok autoresize with
    ⟨off, rfl⟩ | ⟨on, fresh, given, positive, enough, rfl⟩
  · rcases setupPartImage_ok image with ⟨without, rfl⟩ | ⟨name, child, found, known, large, fits, rfl⟩
    · refine ⟨rfl, ?_, by simp_all, by simp_all, by simp_all, by simp_all⟩
      by_cases zero : located.size = 0
      · exact .unset off zero without zero
      · exact .option off zero rfl
    · refine ⟨rfl, ?_, ?_, by simp_all, by simp_all, by simp_all⟩
      · by_cases zero : located.size = 0
        · exact .data off zero name child found known (by simp [imageSize, zero])
        · exact .option off zero (by simp [imageSize, zero])
      · intro image same
        rw [found, Option.some.injEq] at same
        subst same
        exact ⟨child, known, large, fits⟩
  · have nonzero : autoresizeSpace hd size located ≠ 0 := by
      intro zero
      rw [zero] at positive
      exact absurd positive (by decide)
    rcases setupPartImage_ok image with ⟨without, rfl⟩ | ⟨name, child, found, known, large, fits, rfl⟩
    · exact ⟨rfl, .autoresize on rfl positive enough, by simp_all, by simp_all, by simp_all,
        by simp_all⟩
    · have same : ∀ dataSize, imageSize (located.withSize (autoresizeSpace hd size located)) dataSize =
          autoresizeSpace hd size located := fun dataSize => by simp [imageSize, nonzero]
      simp only [same] at fits ⊢
      refine ⟨rfl, .autoresize on rfl positive enough, ?_, by simp_all, by simp_all, by simp_all⟩
      intro image equal
      rw [show located.image = some name from found, Option.some.injEq] at equal
      subst equal
      exact ⟨child, known, large, fits⟩

/-- **The inversion of the loop body.** -/
theorem setupPart_ok {state next : SetupState} {part : Partition}
    (taken : setupPart env hd size state part = .ok next) :
    ∃ placed, Placed env hd size state part placed next := by
  simp only [setupPart, do_eq_ok, failIf_ok, pure_eq_ok] at taken
  obtain ⟨_, options, ⟨uuided, drawn⟩, uuids, _, aligned, ⟨sized, resized⟩, autoresize,
    ⟨placed, imageEnd⟩, image, _, nonzero, _, place, _, sectors, rfl⟩ := taken
  obtain ⟨uuid, typeUuid, kept⟩ := setupPartUuids_ok uuids
  simp only at kept
  subst kept
  obtain ⟨now, located⟩ := placement_eq hd state.now (part.withAlign hd) uuid typeUuid
  simp only [now, located] at autoresize aligned place
  obtain ⟨placedEq, rule, data, imageEq, resizedEq, once⟩ := sizing_ok autoresize image
  simp only at placedEq rule data imageEq resizedEq once
  generalize placed.size = placedSize at placedEq
  subst placedEq
  refine ⟨(((part.withAlign hd).withUuids uuid typeUuid).withOffset
    (chosenOffset hd state.now (part.withAlign hd))).withSize placedSize, ?_⟩
  constructor
  case kept => rfl
  case options => exact options
  case uuids => exact uuids
  case offset_eq => rfl
  case offset_dvd => exact mod_eq_zero_iff.mp (not_not.mp aligned)
  case size_rule => exact rule
  case data => exact data
  case size_ne => exact fun zero => by_contra fun other => nonzero ⟨zero, other⟩
  case place => exact place
  case sectors => exact fun inTable => mod_eq_zero_iff.mp (by_contra fun other => sectors ⟨inTable, other⟩)
  case now_eq => rfl
  case done_eq => rfl
  case file_eq => exact ⟨imageEnd, rfl, imageEq⟩
  case hybrid_eq => rfl
  case resized_eq => exact resizedEq
  case resized_once => exact once

/-- Behind a logical partition the running end is its end. -/
theorem Placed.now_eq_stop {state next : SetupState} {part placed : Partition}
    (step : Placed env hd size state part placed next) (logical : placed.logical = true)
    (fits : placed.Fits) : next.now.toNat = placed.span.stop := by
  have place := step.place
  rw [checkPlace, if_pos logical, failIf_ok, gt_iff_lt, UInt64.not_lt,
    UInt64.le_iff_toNat_le] at place
  rw [step.now_eq, toNat_maxUll, Partition.toNat_partitionEnd fits]
  exact max_eq_left (place.trans (Nat.le_add_right _ _))

end Genimage
