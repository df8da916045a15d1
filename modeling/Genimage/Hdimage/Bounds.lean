/-
**Layout arithmetic without wrapping.**

`ArithmeticExact` has every sum, product and difference of offsets, sizes and aligns that an accepted
run of `hdimage_setup` evaluates, and asks that none leaves the 64-bit words. Most of them are bounded
by the end of a partition, but the ends themselves are words: one that wraps is small, and the checks
for overlaps and for the image size pass.

`exactEnd` is the end of the layout in unbounded numbers. The running end never goes down there, so
that the one bound on it is a bound on everything the loop evaluates (`layout_arithmetic_iff`).
-/

import Genimage.Hdimage.Automatic
import Genimage.Hdimage.Autoresize

namespace Genimage

open Library

/-! ### What is promised -/

/-- **The arithmetic of one step**, which takes `part` to `placed` and `state` to `next`. -/
structure StepArithmetic (env : Env) (hd : Hdimage) (size : UInt64) (state : SetupState)
    (part placed : Partition) (next : SetupState) : Prop where
  fits : StepFits hd state.now (part.withAlign hd)
  backup : part.isFloatingBackup → part.size.toNat ≤
    (roundup (reserveEbr hd state.now (part.withAlign hd) + part.size) 4096).toNat
  space : part.autoresize = true →
    placed.offset.toNat + backupBytes hd.tableType ≤ size.toNat
  data : ∀ image child, placed.image = some image → env.imageGet image = some child →
    (child.size ≠ 0 → placed.imageoffset.toNat ≤ child.size.toNat) ∧
    (part.size = 0 → placed.autoresize = false → placed.inPartitionTable = true →
      RoundupFits (child.dataSize placed.imageoffset) placed.align) ∧
    placed.offset.toNat + (child.dataSize placed.imageoffset).toNat < 2 ^ 64
  stop : placed.Fits
  overlap : placed.logical = false → ∀ other ∈ state.done, other.Fits ∧
    (placed.offset < other.partitionEnd → other.offset < placed.partitionEnd →
      other.offset ≤ maxUll placed.offset other.offset ∧
      other.offset ≤ minUll placed.partitionEnd other.partitionEnd)
  record : placed.logical = true → hd.align.toNat ≤ placed.offset.toNat ∧
    placed.offset.toNat - hd.align.toNat + 512 < 2 ^ 64
  extended : placed.logical = true → ∀ other ∈ state.done, other.node = .extended →
    other.offset.toNat ≤ next.now.toNat

/-- **The offset of `[Extended]`** in front of a first partition with an explicit offset. -/
def ExtendedFits (prepared : Prepared) : Prop :=
  prepared.partitions.IsChain fun ext first => ext.node = .extended → first.offset ≠ 0 →
    prepared.hd.align.toNat ≤ first.offset.toNat

/-- **The offset of the GPT backup** in an image of a given size. -/
def BackupFits (prepared : Prepared) : Prop :=
  prepared.hd.tableType.hasGpt = true → prepared.size ≠ 0 → 33 * 512 ≤ prepared.size.toNat

instance (prepared : Prepared) : Decidable (ExtendedFits prepared) :=
  inferInstanceAs (Decidable (List.IsChain _ _))

instance (prepared : Prepared) : Decidable (BackupFits prepared) :=
  inferInstanceAs (Decidable (_ → _ → _))

/-- **No operation of an accepted run wraps**, and every partition ends inside the image. -/
structure ArithmeticExact (env : Env) (prepared : Prepared) (layout : Layout) : Prop where
  table : reservedEnd prepared.hd < 2 ^ 64
  extended : ExtendedFits prepared
  backup : BackupFits prepared
  steps : ∀ visit ∈ setupVisits env prepared, ∀ next placed,
    setupPart env prepared.hd prepared.size visit.1 visit.2 = .ok next →
      next.done.getLast? = some placed →
      StepArithmetic env prepared.hd prepared.size visit.1 visit.2 placed next
  results : ∀ part ∈ layout.partitions, part.Fits ∧ part.span.stop ≤ layout.size.toNat

/-! ### The layout in unbounded numbers -/

section Exact

variable (env : Env) (hd : Hdimage) (size : UInt64)

/-- The least multiple; a rounded `0` is the word that `roundup` returns. -/
def exactRound (value : Nat) (align : UInt64) : Nat :=
  if value = 0 then (roundup 0 align).toNat else nextMultiple value align.toNat

/-- The end behind the reservation for a boot record. -/
def exactReserve (stop : Nat) (part : Partition) : Nat :=
  if part.logical then nextMultiple (stop + hd.align.toNat) part.align.toNat else stop

/-- The end that a partition is placed against. -/
def exactRunning (stop : Nat) (part : Partition) : Nat :=
  if part.isFloatingBackup then exactReserve hd stop part + part.size.toNat
  else exactReserve hd stop part

/-- The offset of a partition. -/
def exactOffset (stop : Nat) (part : Partition) : Nat :=
  if part.isFloatingBackup then nextMultiple (exactRunning hd stop part) 4096 - part.size.toNat
  else if part.offset = 0 ∧ (part.inPartitionTable ∨ hd.tableType = .none) then
    exactRound (exactRunning hd stop part) part.align
  else part.offset.toNat

/-- The size of a partition. One that is resized behind the end of the image has no size that is a
word. -/
def exactSize (offset : Nat) (part : Partition) : Nat :=
  if part.autoresize then
    if offset + backupBytes hd.tableType ≤ size.toNat then
      (size.toNat - offset - backupBytes hd.tableType) / part.align.toNat * part.align.toNat
    else 2 ^ 64
  else if part.size ≠ 0 then part.size.toNat
  else match part.image.bind env.imageGet with
    | none => 0
    | some child =>
      if part.inPartitionTable then exactRound (child.dataSize part.imageoffset).toNat part.align
      else (child.dataSize part.imageoffset).toNat

/-- The running end behind a partition. -/
def exactStop (stop : Nat) (part : Partition) : Nat :=
  let offset := exactOffset hd stop part
  max (offset + exactSize env hd size offset part) (exactRunning hd stop part)

end Exact

/-- **The end of the layout.** -/
def exactEnd (env : Env) (hd : Hdimage) (size : UInt64) (parts : List Partition) : Nat :=
  parts.foldl (fun stop part => exactStop env hd size stop (part.withAlign hd)) (reservedEnd hd)

/-- **The layout is a layout of 64-bit words.** -/
structure LayoutFits (env : Env) (prepared : Prepared) : Prop where
  stop : exactEnd env prepared.hd prepared.size prepared.partitions < 2 ^ 64
  extended : ExtendedFits prepared
  backup : BackupFits prepared

/-! ### Words and numbers -/

section Words

variable {env : Env} {hd : Hdimage} {size now : UInt64} {part : Partition}

theorem toNat_roundup_eq_exactRound {value align : UInt64} (fits : RoundupFits value align) :
    (roundup value align).toNat = exactRound value.toNat align := by
  unfold exactRound
  by_cases zero : value = 0
  · rw [if_pos (eq_zero_iff.mp zero), zero]
  · rw [if_neg (eq_zero_iff.not.mp zero)]
    exact toNat_roundup zero (fits.resolve_left zero)

theorem roundupFits_of_exactRound {value align : UInt64}
    (small : exactRound value.toNat align < 2 ^ 64) : RoundupFits value align := by
  unfold exactRound at small
  by_cases zero : value = 0
  · exact Or.inl zero
  · rw [if_neg (eq_zero_iff.not.mp zero)] at small
    exact Or.inr small

/-- What is known of the area of the GPT backup. -/
structure Partition.IsBackupArea (hd : Hdimage) (part : Partition) : Prop where
  outside : part.inPartitionTable = false
  table : hd.tableType ≠ .none
  primary : part.logical = false
  fixed : part.autoresize = false
  nonempty : part.size ≠ 0

theorem stop_le_exactReserve (stop : Nat) (nonzero : part.align ≠ 0) :
    stop + ebrRoom hd part ≤ exactReserve hd stop part := by
  unfold exactReserve ebrRoom
  split_ifs
  · exact le_nextMultiple _ (toNat_pos.mpr nonzero)
  · exact le_rfl

theorem exactReserve_le_exactRunning (stop : Nat) :
    exactReserve hd stop part ≤ exactRunning hd stop part := by
  unfold exactRunning
  split_ifs
  · exact Nat.le_add_right _ _
  · exact le_rfl

/-- The running end never goes down. -/
theorem le_exactStop (stop : Nat) (nonzero : part.align ≠ 0) :
    stop ≤ exactStop env hd size stop part :=
  calc stop ≤ exactReserve hd stop part :=
        (Nat.le_add_right _ _).trans (stop_le_exactReserve stop nonzero)
    _ ≤ exactRunning hd stop part := exactReserve_le_exactRunning stop
    _ ≤ exactStop env hd size stop part := le_max_right _ _

theorem toNat_reserveEbr (nonzero : hd.align ≠ 0)
    (fits : part.logical = true → now.toNat + hd.align.toNat < 2 ^ 64 ∧
      RoundupFits (now + hd.align) part.align) :
    (reserveEbr hd now part).toNat = exactReserve hd now.toNat part := by
  unfold reserveEbr exactReserve
  by_cases logical : part.logical = true
  · obtain ⟨sum, rounds⟩ := fits logical
    have sum := toNat_add_of_lt sum
    have positive : now + hd.align ≠ 0 := by
      have := toNat_pos.mpr nonzero
      rw [← toNat_pos]
      omega
    rw [if_pos logical, if_pos logical, toNat_roundup positive (rounds.resolve_left positive), sum]
  · rw [if_neg logical, if_neg logical]

theorem toNat_runningEnd (nonzero : hd.align ≠ 0) (fits : StepFits hd now part) :
    (runningEnd hd now part).toNat = exactRunning hd now.toNat part := by
  have reserve := toNat_reserveEbr nonzero fits.ebr
  unfold exactRunning
  by_cases floating : part.isFloatingBackup
  · have running : runningEnd hd now part = reserveEbr hd now part + part.size := if_pos floating
    rw [if_pos floating, running, toNat_add_of_lt (fits.backup floating).1, reserve]
  · have running : runningEnd hd now part = reserveEbr hd now part := if_neg floating
    rw [if_neg floating, running, reserve]

/-- The sum in front of the rounding of the backup is not `0`. -/
theorem Partition.IsBackupArea.sum_ne_zero (area : part.IsBackupArea hd) {reserve : UInt64}
    (sum : reserve.toNat + part.size.toNat < 2 ^ 64) : reserve + part.size ≠ 0 := by
  have := toNat_pos.mpr area.nonempty
  rw [← toNat_pos, toNat_add_of_lt sum]
  omega

theorem toNat_chosenOffset (nonzero : hd.align ≠ 0) (fits : StepFits hd now part)
    (area : part.node = .gptBackup → part.IsBackupArea hd) :
    (chosenOffset hd now part).toNat = exactOffset hd now.toNat part := by
  have running := toNat_runningEnd nonzero fits
  unfold exactOffset
  by_cases floating : part.isFloatingBackup
  · have known := area floating.1
    obtain ⟨sum, rounds⟩ := fits.backup floating
    have positive := known.sum_ne_zero sum
    have small := rounds.resolve_left positive
    have value : exactRunning hd now.toNat part = (reserveEbr hd now part + part.size).toNat :=
      running.symm.trans (congrArg UInt64.toNat (if_pos floating))
    have above := le_nextMultiple (reserveEbr hd now part + part.size).toNat
      (show 0 < (4096 : UInt64).toNat by decide)
    have chosen : chosenOffset hd now part =
        roundup (reserveEbr hd now part + part.size) 4096 - part.size := by
      simp only [chosenOffset, placePart, placeBackup, if_pos floating, Partition.withOffset_offset,
        Partition.withOffset_inPartitionTable, known.outside, known.table, Bool.false_eq_true,
        or_self, and_false, if_false]
    rw [toNat_add_of_lt sum] at above
    have room : part.size.toNat ≤ (roundup (reserveEbr hd now part + part.size) 4096).toNat := by
      rw [toNat_roundup positive small, toNat_add_of_lt sum]
      omega
    rw [if_pos floating, chosen, toNat_sub_of_le room, toNat_roundup positive small, value]
    rfl
  · rw [if_neg floating]
    have chosen : chosenOffset hd now part =
        if part.offset = 0 ∧ (part.inPartitionTable ∨ hd.tableType = .none) then
          roundup (runningEnd hd now part) part.align else part.offset := by
      simp only [chosenOffset, placePart, placeBackup, if_neg floating, Partition.withOffset_offset,
        Partition.withOffset_inPartitionTable]
      rfl
    rw [chosen]
    by_cases automatic : part.offset = 0 ∧ (part.inPartitionTable ∨ hd.tableType = .none)
    · rw [if_pos automatic, if_pos automatic, ← running]
      exact toNat_roundup_eq_exactRound (fits.automatic automatic.1 automatic.2)
    · rw [if_neg automatic, if_neg automatic]

end Words

/-! ### One step -/

section Step

variable {env : Env} {hd : Hdimage} {size : UInt64} {state next : SetupState}
  {part placed : Partition}

/-- A partition that is resized inside the image. -/
theorem toNat_autoresizeSpace_inside
    (inside : placed.offset.toNat + backupBytes hd.tableType ≤ size.toNat) :
    (autoresizeSpace hd size placed).toNat =
      (size.toNat - placed.offset.toNat - backupBytes hd.tableType) / placed.align.toNat *
        placed.align.toNat := by
  have space : (remaining hd size placed % 2 ^ 64).toNat =
      size.toNat - placed.offset.toNat - backupBytes hd.tableType := by
    have := size.toNat_lt
    unfold remaining
    omega
  rw [toNat_autoresizeSpace, wrappedSize, space]

/-- **The size of a partition is the exact one**: a rounded size that wraps is refused. -/
theorem Placed.toNat_size (step : Placed env hd size state part placed next)
    (inside : part.autoresize = true →
      placed.offset.toNat + backupBytes hd.tableType ≤ size.toNat) :
    placed.size.toNat = exactSize env hd size placed.offset.toNat (part.withAlign hd) := by
  have on : (part.withAlign hd).autoresize = placed.autoresize := step.autoresize_eq.symm
  have start : (part.withAlign hd).size = part.size := rfl
  have same : (part.withAlign hd).image = placed.image := step.image_eq.symm
  have from' : (part.withAlign hd).imageoffset = placed.imageoffset := step.imageoffset_eq.symm
  unfold exactSize
  rw [on, start, same, from', ← step.align_eq, ← step.inPartitionTable_eq]
  cases step.size_rule with
  | autoresize set space =>
    have room := inside (step.autoresize_eq.symm.trans set)
    rw [if_pos set, if_pos room, space]
    exact toNat_autoresizeSpace_inside room
  | option off given value =>
    rw [off, if_neg Bool.false_ne_true, if_pos given, value]
  | unset off none without zero =>
    rw [off, if_neg Bool.false_ne_true, if_neg (not_not.mpr none), without, zero]
    rfl
  | data off none image child found known rounded =>
    have bound : placed.image.bind env.imageGet = some child :=
      Option.bind_eq_some_iff.mpr ⟨image, found, known⟩
    obtain ⟨_, known', _, enough⟩ := step.data image found
    obtain rfl := Option.some.inj (known.symm.trans known')
    rw [off, if_neg Bool.false_ne_true, if_neg (not_not.mpr none), bound]
    rw [rounded] at enough ⊢
    split_ifs at enough ⊢ with inTable
    · refine toNat_roundup_eq_exactRound ?_
      by_cases zero : child.dataSize placed.imageoffset = 0
      · exact Or.inl zero
      · exact Or.inr (nextMultiple_fits_of_le zero (UInt64.le_iff_toNat_le.mp enough))
    · rfl

/-- What the rest of the arithmetic of a step follows from. -/
structure StepCore (hd : Hdimage) (size : UInt64) (state : SetupState) (part placed : Partition) :
    Prop where
  fits : StepFits hd state.now (part.withAlign hd)
  space : part.autoresize = true →
    placed.offset.toNat + backupBytes hd.tableType ≤ size.toNat
  stop : placed.Fits

/-- **The running end of a step that does not wrap is the exact one.** -/
theorem Placed.now_eq_exactStop (step : Placed env hd size state part placed next)
    (core : StepCore hd size state part placed) (nonzero : hd.align ≠ 0)
    (area : part.node = .gptBackup → (part.withAlign hd).IsBackupArea hd) :
    next.now.toNat = exactStop env hd size state.now.toNat (part.withAlign hd) := by
  have offset : placed.offset.toNat = exactOffset hd state.now.toNat (part.withAlign hd) := by
    rw [step.offset_eq]
    exact toNat_chosenOffset nonzero core.fits area
  rw [step.now_eq, toNat_maxUll, Partition.toNat_partitionEnd core.stop,
    toNat_runningEnd nonzero core.fits]
  show max (placed.offset.toNat + placed.size.toNat) _ = _
  rw [step.toNat_size core.space, offset]
  rfl

/-- **A step whose exact end is a word does not wrap**: its sums. -/
theorem stepFits_of_exactStop {now : UInt64}
    (small : exactStop env hd size now.toNat part < 2 ^ 64) (nonzero : hd.align ≠ 0)
    (aligned : part.align ≠ 0) (area : part.node = .gptBackup → part.IsBackupArea hd) :
    StepFits hd now part := by
  have running : exactRunning hd now.toNat part < 2 ^ 64 := (le_max_right _ _).trans_lt small
  have sum : exactOffset hd now.toNat part +
      exactSize env hd size (exactOffset hd now.toNat part) part < 2 ^ 64 :=
    (le_max_left _ _).trans_lt small
  have ebr : part.logical = true → now.toNat + hd.align.toNat < 2 ^ 64 ∧
      RoundupFits (now + hd.align) part.align := by
    intro logical
    have reserve := (exactReserve_le_exactRunning now.toNat).trans_lt running
    rw [exactReserve, if_pos logical] at reserve
    have above := le_nextMultiple (now.toNat + hd.align.toNat) (toNat_pos.mpr aligned)
    have fits := above.trans_lt reserve
    exact ⟨fits, Or.inr (by rwa [toNat_add_of_lt fits])⟩
  have reserved := toNat_reserveEbr nonzero ebr
  refine ⟨ebr, fun floating => ?_, fun unset inTable => ?_⟩
  · have known := area floating.1
    have value : exactRunning hd now.toNat part =
        (reserveEbr hd now part).toNat + part.size.toNat := by
      rw [exactRunning, if_pos floating, reserved]
    rw [value] at running
    refine ⟨running, Or.inr ?_⟩
    have offset : exactOffset hd now.toNat part =
        nextMultiple ((reserveEbr hd now part).toNat + part.size.toNat) 4096 - part.size.toNat := by
      rw [exactOffset, if_pos floating, value]
    have length : exactSize env hd size (exactOffset hd now.toNat part) part = part.size.toNat := by
      rw [exactSize, known.fixed, if_neg Bool.false_ne_true, if_pos known.nonempty]
    have above := le_nextMultiple ((reserveEbr hd now part).toNat + part.size.toNat)
      (show 0 < 4096 by decide)
    rw [length, offset] at sum
    rw [toNat_add_of_lt running]
    show nextMultiple _ 4096 < _
    omega
  · have grounded : ¬ part.isFloatingBackup := fun floating => by
      have known := area floating.1
      rcases inTable with inTable | none
      · exact absurd inTable (by simp [known.outside])
      · exact known.table none
    have offset : exactOffset hd now.toNat part =
        exactRound (runningEnd hd now part).toNat part.align := by
      have word : runningEnd hd now part = reserveEbr hd now part := if_neg grounded
      rw [exactOffset, if_neg grounded, if_pos ⟨unset, inTable⟩, exactRunning, if_neg grounded, word,
        reserved]
    rw [offset] at sum
    exact roundupFits_of_exactRound ((Nat.le_add_right _ _).trans_lt sum)

/-- The whole step. -/
theorem Placed.core_of_exactStop (step : Placed env hd size state part placed next)
    (small : exactStop env hd size state.now.toNat (part.withAlign hd) < 2 ^ 64)
    (nonzero : hd.align ≠ 0)
    (area : part.node = .gptBackup → (part.withAlign hd).IsBackupArea hd) :
    StepCore hd size state part placed := by
  have fits := stepFits_of_exactStop small nonzero (withAlign_align_ne_zero nonzero part) area
  have sum : exactOffset hd state.now.toNat (part.withAlign hd) + exactSize env hd size
      (exactOffset hd state.now.toNat (part.withAlign hd)) (part.withAlign hd) < 2 ^ 64 :=
    (le_max_left _ _).trans_lt small
  have offset : placed.offset.toNat = exactOffset hd state.now.toNat (part.withAlign hd) := by
    rw [step.offset_eq]
    exact toNat_chosenOffset nonzero fits area
  rw [← offset] at sum
  have space : part.autoresize = true →
      placed.offset.toNat + backupBytes hd.tableType ≤ size.toNat := by
    intro on
    by_contra behind
    have on : (part.withAlign hd).autoresize = true := on
    rw [exactSize, if_pos on, if_neg behind] at sum
    omega
  refine ⟨fits, space, ?_⟩
  rw [← step.toNat_size space] at sum
  exact sum

end Step

/-! ### The run -/

section Run

variable {env : Env} {hd : Hdimage} {size : UInt64} {state next : SetupState}
  {part placed : Partition}

/-- **The rest of the arithmetic**: every other operation stays below the end of a partition. -/
theorem Placed.arithmetic (step : Placed env hd size state part placed next)
    (core : StepCore hd size state part placed) (nonzero : hd.align ≠ 0)
    (area : part.node = .gptBackup → (part.withAlign hd).IsBackupArea hd)
    (wide : part.logical = true → 512 ≤ hd.align.toNat)
    (stops : ∀ other ∈ state.done, other.span.stop ≤ state.now.toNat) :
    StepArithmetic env hd size state part placed next := by
  have stop := core.stop
  have ends (other : Partition) (member : other ∈ state.done) : other.Fits :=
    (stops other member).trans_lt state.now.toNat_lt
  constructor
  case fits => exact core.fits
  case stop => exact stop
  case space => exact core.space
  case backup =>
    intro floating
    obtain ⟨sum, rounds⟩ := core.fits.backup floating
    have positive := (area floating.1).sum_ne_zero sum
    have above := le_roundup (show (4096 : UInt64) ≠ 0 by decide) rounds
    have whole := toNat_add_of_lt sum
    have start : (part.withAlign hd).size = part.size := rfl
    rw [start] at above whole
    omega
  case data =>
    intro image child found known
    obtain ⟨_, known', large, enough⟩ := step.data image found
    obtain rfl := Option.some.inj (known.symm.trans known')
    have enough := UInt64.le_iff_toNat_le.mp enough
    refine ⟨fun given => UInt64.le_iff_toNat_le.mp (large given), fun unset off inTable => ?_, ?_⟩
    · by_cases zero : child.dataSize placed.imageoffset = 0
      · exact Or.inl zero
      refine Or.inr (nextMultiple_fits_of_le zero ?_)
      cases step.size_rule with
      | autoresize on => exact absurd on (by simp [off])
      | option _ set => exact absurd unset set
      | unset _ _ without => exact absurd (without.symm.trans found) nofun
      | data _ _ image' child' found' known' rounded =>
        obtain rfl := Option.some.inj (found.symm.trans found')
        obtain rfl := Option.some.inj (known.symm.trans known')
        rw [rounded, if_pos inTable] at enough
        exact enough
    · unfold Partition.Fits at stop
      omega
  case overlap =>
    intro _ other member
    have fits := ends other member
    refine ⟨fits, fun _ before => ⟨?_, ?_⟩⟩
    · rw [UInt64.le_iff_toNat_le, toNat_maxUll]
      exact le_max_right _ _
    · rw [UInt64.le_iff_toNat_le, toNat_minUll, Partition.toNat_partitionEnd fits]
      exact le_min (UInt64.lt_iff_toNat_lt.mp before).le (Nat.le_add_right _ _)
  case record =>
    intro logical
    have room := step.ebr_ge nonzero core.fits logical
    have := wide (step.logical_eq ▸ logical)
    have := placed.offset.toNat_lt
    omega
  case extended =>
    intro _ other member _
    calc other.offset.toNat ≤ other.span.stop := Nat.le_add_right _ _
      _ ≤ state.now.toNat := stops other member
      _ ≤ next.now.toNat := step.now_le nonzero core.fits

/-- **The invariant of a run that does not wrap.** -/
structure ExactInv (env : Env) (hd : Hdimage) (size : UInt64) (passed : List Partition)
    (state : SetupState) : Prop where
  now_eq : state.now.toNat = exactEnd env hd size passed
  stops : ∀ other ∈ state.done, other.span.stop ≤ state.now.toNat

theorem exactEnd_append (env : Env) (hd : Hdimage) (size : UInt64) (passed : List Partition)
    (part : Partition) : exactEnd env hd size (passed ++ [part]) =
      exactStop env hd size (exactEnd env hd size passed) (part.withAlign hd) :=
  List.foldl_concat ..

/-- The end of a part of the list is not behind the end of the list. -/
theorem exactEnd_le (nonzero : hd.align ≠ 0) (passed rest : List Partition) :
    exactEnd env hd size passed ≤ exactEnd env hd size (passed ++ rest) := by
  induction rest generalizing passed with
  | nil => rw [List.append_nil]
  | cons part rest ih =>
    calc exactEnd env hd size passed ≤ exactEnd env hd size (passed ++ [part]) := by
          rw [exactEnd_append]
          exact le_exactStop _ (withAlign_align_ne_zero nonzero part)
      _ ≤ exactEnd env hd size (passed ++ [part] ++ rest) := ih _
      _ = exactEnd env hd size (passed ++ part :: rest) := by
          rw [List.append_assoc, List.singleton_append]

theorem ExactInv.step {passed : List Partition} (inv : ExactInv env hd size passed state)
    (step : Placed env hd size state part placed next)
    (core : StepCore hd size state part placed) (nonzero : hd.align ≠ 0)
    (area : part.node = .gptBackup → (part.withAlign hd).IsBackupArea hd) :
    ExactInv env hd size (passed ++ [part]) next := by
  refine ⟨?_, step.stops_le nonzero core.fits core.stop inv.stops⟩
  rw [step.now_eq_exactStop core nonzero area, inv.now_eq, exactEnd_append]

/-- **A partition that is resized and ends inside the image has the space behind its offset**: a word for
less than no space is rounded down by less than half of it. -/
theorem Placed.space_of_inside (step : Placed env hd size state part placed next)
    (on : part.autoresize = true) (inside : placed.span.stop ≤ size.toNat) :
    placed.offset.toNat + backupBytes hd.tableType ≤ size.toNat := by
  have set : placed.autoresize = true := step.autoresize_eq.trans on
  cases step.size_rule with
  | option off | unset off | data off => exact absurd set (by rw [off]; exact Bool.false_ne_true)
  | autoresize _ space positive =>
    by_contra behind
    have length := congrArg UInt64.toNat space
    rw [toNat_autoresizeSpace, wrappedSize] at length
    have some : placed.size.toNat ≠ 0 := by
      intro zero
      rw [eq_zero_iff.mpr zero] at positive
      exact absurd positive (by decide)
    have small : backupBytes hd.tableType ≤ 2 ^ 63 := by
      unfold backupBytes
      split_ifs <;> decide
    have stop : placed.offset.toNat + placed.size.toNat ≤ size.toNat := inside
    have word : (remaining hd size placed % 2 ^ 64).toNat =
        2 ^ 64 + size.toNat - placed.offset.toNat - backupBytes hd.tableType := by
      have := placed.offset.toNat_lt
      unfold remaining
      omega
    rw [word] at length
    generalize same : 2 ^ 64 + size.toNat - placed.offset.toNat - backupBytes hd.tableType = value at length
    have whole := Nat.div_add_mod' value placed.align.toNat
    have least : placed.align.toNat ≤ value / placed.align.toNat * placed.align.toNat := by
      refine Nat.le_mul_of_pos_left _ (Nat.pos_of_ne_zero fun zero => ?_)
      rw [zero, Nat.zero_mul] at length
      exact some length
    have rest : value % placed.align.toNat < placed.align.toNat := by
      refine Nat.mod_lt _ (Nat.pos_of_ne_zero fun zero => ?_)
      rw [zero, Nat.mul_zero] at length
      exact some length
    omega

/-- **The running end of a run that does not wrap is the exact one** when it is inside the image. -/
theorem loop_now_eq_exactEnd {passed : List Partition} {start final : SetupState}
    (base : start.now.toNat = reservedEnd hd) (nonzero : hd.align ≠ 0)
    (area : ∀ part ∈ passed, part.node = .gptBackup → (part.withAlign hd).IsBackupArea hd)
    (fits : RunFits env hd size start passed)
    (run : passed.foldlM (setupPart env hd size) start = .ok final)
    (inside : size ≠ 0 → final.now.toNat ≤ size.toNat) :
    final.now.toNat = exactEnd env hd size passed := by
  refine fitting_invariant (fun done state => (size ≠ 0 → state.now.toNat ≤ size.toNat) →
    state.now.toNat = exactEnd env hd size done) (fun _ => base) ?_ fits run inside
  intro done part rest state placed next split holds step stepFits fitting inside
  have stop := fitting placed step.mem_done
  have space : part.autoresize = true →
      placed.offset.toNat + backupBytes hd.tableType ≤ size.toNat := by
    intro on
    have some := (step.resized_once (step.autoresize_eq.trans on)).2
    exact step.space_of_inside on ((step.stop_le stop).trans (inside some))
  have member : part ∈ passed := by
    rw [split]
    simp
  rw [step.now_eq_exactStop ⟨stepFits, space, stop⟩ nonzero (area part member),
    holds fun some => (step.now_le nonzero stepFits).trans (inside some), exactEnd_append]

/-- The running end of a run that does not wrap never goes down. -/
theorem loop_now_le {passed : List Partition} {start final : SetupState} (nonzero : hd.align ≠ 0)
    (fits : RunFits env hd size start passed)
    (run : passed.foldlM (setupPart env hd size) start = .ok final) :
    start.now.toNat ≤ final.now.toNat :=
  fitting_invariant (fun _ state => start.now.toNat ≤ state.now.toNat) le_rfl
    (fun _ _ _ _ _ _ _ holds step stepFits _ => holds.trans (step.now_le nonzero stepFits)) fits run

/-- Only the area of the backup is one. -/
theorem Ready.backupArea {config : HdimageConfig} {prepared : Prepared}
    (ready : Ready env config prepared) (member : part ∈ prepared.partitions)
    (backup : part.node = .gptBackup) :
    (part.withAlign prepared.hd).IsBackupArea prepared.hd := by
  obtain ⟨parts, scanned, list⟩ := ready.list_eq
  rw [list, List.mem_append] at member
  rcases member with member | member
  · rcases setupLogicalPartitions_mem scanned member with ⟨_, _, _, rfl⟩ | ⟨_, _, rfl⟩ <;>
      cases backup
  · obtain ⟨table, outside⟩ := outside_of_mem_tableAreas member
    unfold tableAreas at member
    split_ifs at member
    all_goals simp only [List.mem_cons, List.not_mem_nil, or_false] at member
    · rcases member with rfl | rfl | rfl | rfl
      all_goals try cases backup
      exact ⟨Bool.and_false _, table, rfl, rfl, (by decide : gptSectors * 512 ≠ 0)⟩
    · rw [member] at backup
      cases backup

/-- The element that an accepted step adds is the last one. -/
theorem getLast?_done (step : Placed env hd size state part placed next) :
    next.done.getLast? = some placed := by
  rw [step.done_eq, List.getLast?_concat]

/-- **No operation of an accepted run wraps** exactly if the layout in unbounded numbers fits. -/
theorem layout_arithmetic_iff {config : HdimageConfig} {prepared : Prepared} {layout : Layout}
    (run : prepare env config = .ok prepared) (accepted : hdimageSetup env config = .ok layout) :
    ArithmeticExact env prepared layout ↔ LayoutFits env prepared := by
  obtain ⟨prepared', final, run', ready, loop, finished⟩ := hdimageSetup_ok accepted
  rw [run, Except.ok.injEq] at run'
  subst run'
  have nonzero := ready.align_ne_zero
  have area {done rest : List Partition} {part : Partition}
      (split : prepared.partitions = done ++ part :: rest) (backup : part.node = .gptBackup) :
      (part.withAlign prepared.hd).IsBackupArea prepared.hd :=
    ready.backupArea (by rw [split]; simp) backup
  have base (table : reservedEnd prepared.hd < 2 ^ 64) :
      ExactInv env prepared.hd prepared.size [] prepared.start :=
    ⟨toNat_tableEnd table, fun _ member => absurd member List.not_mem_nil⟩
  constructor
  · intro precise
    refine ⟨?_, precise.extended, precise.backup⟩
    have inv : ExactInv env prepared.hd prepared.size prepared.partitions final := by
      refine foldlM_visited (ExactInv env prepared.hd prepared.size) (base precise.table) ?_ loop
      intro done part rest state next split visited inv taken
      obtain ⟨placed, step⟩ := setupPart_ok taken
      have arithmetic := precise.steps _ visited next placed taken (getLast?_done step)
      exact inv.step step ⟨arithmetic.fits, arithmetic.space, arithmetic.stop⟩ nonzero (area split)
    rw [← inv.now_eq]
    exact final.now.toNat_lt
  · intro fits
    have small (done rest : List Partition) (split : prepared.partitions = done ++ rest) :
        exactEnd env prepared.hd prepared.size done < 2 ^ 64 := by
      refine (exactEnd_le nonzero done rest).trans_lt ?_
      rw [← split]
      exact fits.stop
    have table : reservedEnd prepared.hd < 2 ^ 64 := small [] _ rfl
    have core {done rest : List Partition} {part placed : Partition} {state next : SetupState}
        (split : prepared.partitions = done ++ part :: rest)
        (inv : ExactInv env prepared.hd prepared.size done state)
        (step : Placed env prepared.hd prepared.size state part placed next) :
        StepCore prepared.hd prepared.size state part placed := by
      refine step.core_of_exactStop ?_ nonzero (area split)
      rw [inv.now_eq, ← exactEnd_append]
      exact small _ rest (by rw [split, List.append_assoc, List.singleton_append])
    have reached {before after : List Partition} {state : SetupState}
        (split : prepared.partitions = before ++ after)
        (early : before.foldlM (setupPart env prepared.hd prepared.size) prepared.start =
          .ok state) : ExactInv env prepared.hd prepared.size before state := by
      refine loop_invariant (ExactInv env prepared.hd prepared.size) (base table) ?_ early
      intro done part rest state placed next among inv step
      rw [among, List.append_assoc, List.cons_append] at split
      exact inv.step step (core split inv step) nonzero (area split)
    have last := reached (List.append_nil _).symm loop
    refine ⟨table, fits.extended, fits.backup, ?_, ?_⟩
    · rintro ⟨state, part⟩ visited next placed taken added
      obtain ⟨before, after, split, early⟩ := mem_visits.mp visited
      have inv := reached split early
      obtain ⟨placed', step⟩ := setupPart_ok taken
      obtain rfl := Option.some.inj (added.symm.trans (getLast?_done step))
      exact step.arithmetic (core split inv step) nonzero (area split)
        (fun logical => (ready.preceded split logical).1) inv.stops
    · intro part member
      rw [finished.partitions_eq] at member
      have stop := last.stops part member
      exact ⟨stop.trans_lt final.now.toNat_lt, stop.trans finished.now_le⟩

end Run

/-- The two logical partitions and the three others are far below the largest word. -/
theorem layout_arithmetic_iff_logicalConfig :
    ∃ prepared layout, prepare .bare logicalConfig = .ok prepared ∧
      hdimageSetup .bare logicalConfig = .ok layout ∧ ArithmeticExact .bare prepared layout := by
  obtain ⟨prepared, run, checked⟩ := exists_ok (prepare .bare logicalConfig) (fun prepared =>
    decide (exactEnd .bare prepared.hd prepared.size prepared.partitions < 2 ^ 64 ∧
      ExtendedFits prepared ∧ BackupFits prepared)) (by decide +kernel)
  obtain ⟨stop, extended, backup⟩ := of_decide_eq_true checked
  obtain ⟨layout, accepted, _⟩ := exists_layout .bare logicalConfig (fun _ => true)
    (by decide +kernel)
  exact ⟨prepared, layout, run, accepted,
    (layout_arithmetic_iff run accepted).mpr ⟨stop, extended, backup⟩⟩

/-- The partition ends 512 bytes behind the largest word. -/
def endlessConfig : HdimageConfig where
  partitions := [{ title := "boot", offset := 2 ^ 64 - 512, size := 1024 }]

/-- **A partition whose end wraps is accepted.** -/
theorem layout_arithmetic_wraps :
    ∃ prepared layout, prepare .bare endlessConfig = .ok prepared ∧
      hdimageSetup .bare endlessConfig = .ok layout ∧ ¬ ArithmeticExact .bare prepared layout := by
  obtain ⟨prepared, run, _⟩ := exists_ok (prepare .bare endlessConfig) (fun _ => true)
    (by decide +kernel)
  obtain ⟨layout, accepted, beyond⟩ := exists_layout .bare endlessConfig
    (fun layout => layout.partitions.any fun part => decide (¬ part.Fits)) (by decide +kernel)
  obtain ⟨part, member, wraps⟩ := List.any_eq_true.mp beyond
  exact ⟨prepared, layout, run, accepted,
    fun precise => of_decide_eq_true wraps (precise.results part member).1⟩

end Genimage
