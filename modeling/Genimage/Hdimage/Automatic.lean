/-
**Automatic placement and sizing.**

A partition without an offset goes to the least multiple of its `align` behind everything listed so
far (`freePlaces`), and one without a size gets the least multiple that holds its data.
`hdimage_setup` keeps the end of what is listed in one running maximum, `now`, and rounds with
`roundup`.

`RunningEnd` is the invariant that makes the maximum right: `now` is the least number that is not in
front of any end. It needs that the reservations for extended boot records do not wrap (`EbrFits`).
`roundup` is right for every value but `0`, so that what remains is a partition with nothing in front
of it or without data (`Grounded`).
-/

import Genimage.Hdimage.Layout
import Mathlib.Data.UInt

namespace Genimage

open Library

/-! ### What is promised -/

/-- Where the MBR and the primary GPT end. -/
def reservedEnd (hd : Hdimage) : Nat :=
  if hd.tableType = .none then 0
  else if hd.tableType.hasGpt then hd.gptLocation.toNat + 32 * 512
  else 512

/-- The bytes in front of a partition that are kept for its extended boot record. -/
def ebrRoom (hd : Hdimage) (part : Partition) : Nat := if part.logical then hd.align.toNat else 0

/-- **The multiples of `align` at or behind everything listed so far**, and the room for the boot
record. -/
def freePlaces (hd : Hdimage) (earlier : List Partition) (part : Partition) : Set Nat :=
  {place | part.align.toNat ∣ place ∧ reservedEnd hd + ebrRoom hd part ≤ place ∧
    ∀ other ∈ earlier, other.span.stop + ebrRoom hd part ≤ place}

/-- The data in the image of a partition, as far as its size is known. -/
def Partition.knownData (env : Env) (part : Partition) : UInt64 :=
  (part.image.bind env.imageGet).elim 0 (·.dataSize part.imageoffset)

instance (hd : Hdimage) (earlier : List Partition) (part : Partition) (place : Nat) :
    Decidable (place ∈ freePlaces hd earlier part) :=
  inferInstanceAs (Decidable (_ ∧ _ ∧ _))

/-- The multiples of `align` that hold the data of the image. -/
def holdingSizes (env : Env) (hd : Hdimage) (part : Partition) : Set Nat :=
  {bytes | (part.withAlign hd).align.toNat ∣ bytes ∧ (part.knownData env).toNat ≤ bytes}

/-- Without an offset, and in the table if there is one. -/
def Partition.IsAutomatic (hd : Hdimage) (part : Partition) : Prop :=
  part.offset = 0 ∧ ((part.withAlign hd).inPartitionTable = true ∨ hd.tableType = .none)

instance (hd : Hdimage) (part : Partition) : Decidable (part.IsAutomatic hd) :=
  inferInstanceAs (Decidable (_ ∧ _))

/-- In the table, without a size and without `autoresize`. The `[Extended]` element is not sized. -/
structure Partition.IsUnsized (hd : Hdimage) (part : Partition) : Prop where
  inTable : (part.withAlign hd).inPartitionTable = true
  zero : part.size = 0
  off : part.autoresize = false
  other : part.node ≠ .extended

/-- **One step places and sizes exactly**: `part` is the next partition, `state` the state in front
of it. A multiple that is no 64-bit word cannot be had. -/
structure PlacementExact (env : Env) (hd : Hdimage) (size : UInt64) (state : SetupState)
    (part : Partition) : Prop where
  places : part.IsAutomatic hd →
    ∀ place < 2 ^ 64, IsLeast (freePlaces hd state.done (part.withAlign hd)) place →
      (chosenOffset hd state.now (part.withAlign hd)).toNat = place
  aligned : part.IsAutomatic hd →
    ∀ place < 2 ^ 64, IsLeast (freePlaces hd state.done (part.withAlign hd)) place →
      ∀ name offset align,
        setupPart env hd size state part ≠ .error (.partitionOffset name offset align)
  sizes : part.IsUnsized hd →
    ∀ bytes < 2 ^ 64, IsLeast (holdingSizes env hd part) bytes →
      ∀ uuid typeUuid offset fileSize result, setupPartImage env fileSize
          (((part.withAlign hd).withUuids uuid typeUuid).withOffset offset) = .ok result →
        result.1.size.toNat = bytes
  rejected : part.IsUnsized hd → 0 ∈ holdingSizes env hd part →
    ∀ next, setupPart env hd size state part ≠ .ok next

/-- The reservation for an extended boot record is a 64-bit word. -/
def EbrFits (hd : Hdimage) (now : UInt64) (part : Partition) : Prop :=
  part.logical = true → now.toNat + hd.align.toNat < 2 ^ 64 ∧
    RoundupFits (now + hd.align) (part.withAlign hd).align

instance (hd : Hdimage) (now : UInt64) (part : Partition) : Decidable (EbrFits hd now part) :=
  inferInstanceAs (Decidable (_ → _))

/-- **Where there is nothing, `0` is a 64-bit multiple of `align`**: nothing is in front of the
partition, or there is no data in its image. -/
structure Grounded (env : Env) (hd : Hdimage) (earlier : List Partition) (part : Partition) :
    Prop where
  place : part.IsAutomatic hd → 0 ∈ freePlaces hd earlier (part.withAlign hd) →
    (part.withAlign hd).align.toNat ∣ 2 ^ 64
  data : part.IsUnsized hd → (part.image.bind env.imageGet).isSome →
    0 ∈ holdingSizes env hd part → (part.withAlign hd).align.toNat ∣ 2 ^ 64

/-! ### The running end -/

section Running

variable {env : Env} {hd : Hdimage} {size : UInt64} {state next : SetupState}
  {part placed : Partition}

/-- The numbers that are not in front of any end. -/
def occupiedBounds (hd : Hdimage) (earlier : List Partition) : Set Nat :=
  {place | reservedEnd hd ≤ place ∧ ∀ other ∈ earlier, other.span.stop ≤ place}

/-- **The invariant**: the running end is the end of everything listed so far, as long as that is a
64-bit word. -/
def RunningEnd (hd : Hdimage) (state : SetupState) : Prop :=
  reservedEnd hd < 2 ^ 64 → (∀ other ∈ state.done, other.node ≠ .extended → other.Fits) →
    IsLeast (occupiedBounds hd state.done) state.now.toNat

/-- An element in front of the areas of the table. -/
def Partition.IsListed (part : Partition) : Prop :=
  (∃ partsec, FromSection partsec part) ∨ ∃ align first, part = extendedPartition align first

theorem Partition.IsListed.other (listed : part.IsListed) : part.node ≠ .gptBackup := by
  rcases listed with ⟨_, _, rfl⟩ | ⟨_, _, rfl⟩ <;> exact nofun

theorem toNat_tableEnd (fits : reservedEnd hd < 2 ^ 64) :
    (tableEnd hd.tableType hd.gptLocation).toNat = reservedEnd hd := by
  unfold reservedEnd at fits ⊢
  unfold tableEnd
  split_ifs at fits ⊢
  · rfl
  · exact toNat_add_of_lt fits
  · rfl

/-- In front of the loop. -/
theorem Prepared.runningEnd (prepared : Prepared) : RunningEnd prepared.hd prepared.start := by
  intro reserved _
  have start : prepared.start.now.toNat = reservedEnd prepared.hd := toNat_tableEnd reserved
  rw [start]
  exact ⟨⟨le_rfl, fun _ member => absurd member List.not_mem_nil⟩, fun _ bound => bound.1⟩

/-- Without a backup the running end is what is left behind the boot record. -/
theorem runningEnd_eq (now : UInt64) (other : part.node ≠ .gptBackup) :
    runningEnd hd now part = reserveEbr hd now part :=
  if_neg fun floating => other floating.1

/-- The `[Extended]` element has no size yet. -/
theorem Placed.fits_of_listed (step : Placed env hd size state part placed next)
    (listed : part.IsListed) (fits : placed.node ≠ .extended → placed.Fits) : placed.Fits := by
  by_cases extended : placed.node = .extended
  · rw [step.node_eq] at extended
    rcases listed with ⟨_, _, rfl⟩ | ⟨align, first, rfl⟩
    · cases extended
    have off : placed.autoresize = false := step.autoresize_eq
    have without : placed.image = none := step.image_eq
    have zero : placed.size = 0 := by
      cases step.size_rule with
      | autoresize on => exact absurd on (by simp [off])
      | option _ set => exact absurd rfl set
      | unset _ _ _ zero => exact zero
      | data _ _ _ _ found => exact absurd found (by simp [without])
    rw [Partition.Fits, zero]
    exact placed.offset.toNat_lt
  · exact fits extended

theorem RunningEnd.step (inv : RunningEnd hd state) (step : Placed env hd size state part placed next)
    (listed : part.IsListed) (nonzero : hd.align ≠ 0) (ebr : EbrFits hd state.now part) :
    RunningEnd hd next := by
  intro reserved fits
  have running : runningEnd hd state.now (part.withAlign hd) =
      reserveEbr hd state.now (part.withAlign hd) := runningEnd_eq _ listed.other
  have placedFits := step.fits_of_listed listed (fits placed step.mem_done)
  obtain ⟨keep, same, ⟨logical, rfl⟩ | ⟨primary, rfl⟩⟩ := step.done_cases
  · have before : IsLeast (occupiedBounds hd state.done) state.now.toNat := by
      refine inv reserved fun other member off => fits other ?_ off
      rw [same, ← grow_eq_self next.now off]
      exact List.mem_append_left _ (List.mem_map_of_mem member)
    have marked : (part.withAlign hd).logical = true := step.logical_eq.symm.trans logical
    have room := ebr marked
    have reserve : state.now.toNat ≤ (runningEnd hd state.now (part.withAlign hd)).toNat := by
      have larger := le_roundup (withAlign_align_ne_zero nonzero part) room.2
      rw [toNat_add_of_lt room.1] at larger
      rw [running, reserveEbr, if_pos marked]
      omega
    have forward : state.now.toNat ≤ next.now.toNat := by
      rw [step.now_eq, toNat_maxUll]
      exact reserve.trans (le_max_right _ _)
    rw [same, step.now_eq_stop logical placedFits]
    rw [step.now_eq_stop logical placedFits] at forward
    refine ⟨⟨before.1.1.trans forward, fun other member => ?_⟩, fun place bound => ?_⟩
    · rcases List.mem_append.mp member with member | member
      · obtain ⟨old, among, rfl⟩ := List.mem_map.mp member
        rw [← step.now_eq_stop logical placedFits] at forward ⊢
        exact grow_stop_le ((before.1.2 old among).trans forward)
      · rw [List.mem_singleton.mp member]
    · exact bound.2 placed (List.mem_append_right _ (List.mem_singleton_self _))
  · rw [List.map_id] at same
    have before : IsLeast (occupiedBounds hd state.done) state.now.toNat := by
      refine inv reserved fun other member off => fits other ?_ off
      rw [same]
      exact List.mem_append_left _ member
    have stays : reserveEbr hd state.now (part.withAlign hd) = state.now := by
      refine if_neg ?_
      rw [show (part.withAlign hd).logical = placed.logical from step.logical_eq.symm, primary]
      exact Bool.false_ne_true
    rw [same, step.now_eq, running, stays, toNat_maxUll, Partition.toNat_partitionEnd placedFits]
    refine ⟨⟨before.1.1.trans (le_max_right _ _), fun other member => ?_⟩, fun place bound => ?_⟩
    · rcases List.mem_append.mp member with member | member
      · exact (before.1.2 other member).trans (le_max_right _ _)
      · rw [List.mem_singleton.mp member]
        exact le_max_left _ _
    · refine max_le ?_ (before.2 ⟨bound.1, fun other member => ?_⟩)
      · exact bound.2 placed (List.mem_append_right _ (List.mem_singleton_self _))
      · exact bound.2 other (List.mem_append_left _ member)

/-- **The running end after any part of the run** in front of the areas of the table. -/
theorem RunningEnd.run {parts : List Partition} {start : SetupState} (base : RunningEnd hd start)
    (listed : ∀ part ∈ parts, part.IsListed) (nonzero : hd.align ≠ 0)
    (fits : ∀ visit ∈ visits (setupPart env hd size) start parts, EbrFits hd visit.1.now visit.2)
    (loop : parts.foldlM (setupPart env hd size) start = .ok state) : RunningEnd hd state := by
  refine foldlM_visited (fun _ state => RunningEnd hd state) base ?_ loop
  intro done part rest state next split visited inv taken
  obtain ⟨placed, step⟩ := setupPart_ok taken
  exact inv.step step (listed part (by simp [split])) nonzero (fits _ visited)

end Running

/-! ### One step -/

section Step

variable {env : Env} {hd : Hdimage} {size : UInt64} {state : SetupState} {part : Partition}

/-- A place is free exactly if it is behind the running end and the room for the boot record. -/
theorem mem_freePlaces {earlier : List Partition} {now place : Nat}
    (least : IsLeast (occupiedBounds hd earlier) now) :
    place ∈ freePlaces hd earlier part ↔
      part.align.toNat ∣ place ∧ now + ebrRoom hd part ≤ place := by
  refine and_congr_right fun _ => ⟨fun ⟨reserved, stops⟩ => ?_, fun behind => ⟨?_, ?_⟩⟩
  · have bound : place - ebrRoom hd part ∈ occupiedBounds hd earlier :=
      ⟨Nat.le_sub_of_add_le reserved, fun other member => Nat.le_sub_of_add_le (stops other member)⟩
    have := least.2 bound
    omega
  · exact (Nat.add_le_add_right least.1.1 _).trans behind
  · exact fun other member => (Nat.add_le_add_right (least.1.2 other member) _).trans behind

/-- What is listed ends at a 64-bit word if a free place is one. -/
theorem RunningEnd.least_of_place (inv : RunningEnd hd state) {place : Nat} (small : place < 2 ^ 64)
    (free : place ∈ freePlaces hd state.done part) :
    IsLeast (occupiedBounds hd state.done) state.now.toNat := by
  refine inv ?_ fun other member _ => ?_
  · exact (Nat.le_of_add_right_le free.2.1).trans_lt small
  · exact (Nat.le_of_add_right_le (free.2.2 other member)).trans_lt small

/-- **An automatic offset** is the running end and the room for the boot record, rounded up once. -/
theorem chosenOffset_eq_roundup (now : UInt64) (listed : part.IsListed) (nonzero : hd.align ≠ 0)
    (automatic : part.IsAutomatic hd) {place : Nat} (small : place < 2 ^ 64)
    (dvd : (part.withAlign hd).align.toNat ∣ place)
    (behind : now.toNat + ebrRoom hd (part.withAlign hd) ≤ place) :
    ∃ value : UInt64, value.toNat = now.toNat + ebrRoom hd (part.withAlign hd) ∧
      chosenOffset hd now (part.withAlign hd) = roundup value (part.withAlign hd).align := by
  have other : (part.withAlign hd).node ≠ .gptBackup := listed.other
  have chosen : chosenOffset hd now (part.withAlign hd) = _ :=
    chosenOffset_automatic now automatic.1 other automatic.2
  rw [runningEnd_eq now other] at chosen
  unfold ebrRoom at behind ⊢
  by_cases logical : (part.withAlign hd).logical = true
  · rw [if_pos logical] at behind ⊢
    have reserve : reserveEbr hd now (part.withAlign hd) =
        roundup (now + hd.align) (part.withAlign hd).align := if_pos logical
    rw [reserve] at chosen
    have sum := toNat_add_of_lt (behind.trans_lt small)
    have positive : 0 < (now + hd.align).toNat := by
      have := toNat_pos.mpr nonzero
      omega
    have fits : nextMultiple (now + hd.align).toNat (part.withAlign hd).align.toNat < 2 ^ 64 := by
      refine (nextMultiple_le_of_dvd positive ?_ dvd).trans_lt small
      rwa [sum]
    have filled := roundup_roundup (toNat_pos.mp positive) (withAlign_align_ne_zero nonzero part) fits
    exact ⟨now + hd.align, sum, chosen.trans filled⟩
  · rw [if_neg logical] at behind ⊢
    have reserve : reserveEbr hd now (part.withAlign hd) = now := if_neg logical
    exact ⟨now, rfl, by rw [chosen, reserve]⟩

/-- **Where an automatic partition goes**: to the least free place, if that is not `0` or the words
wrap at a multiple of `align`. -/
theorem chosenOffset_eq_least_iff (inv : RunningEnd hd state) (listed : part.IsListed)
    (nonzero : hd.align ≠ 0) (automatic : part.IsAutomatic hd) {place : Nat}
    (small : place < 2 ^ 64)
    (least : IsLeast (freePlaces hd state.done (part.withAlign hd)) place) :
    (chosenOffset hd state.now (part.withAlign hd)).toNat = place ↔
      (0 ∈ freePlaces hd state.done (part.withAlign hd) →
        (part.withAlign hd).align.toNat ∣ 2 ^ 64) := by
  have running := inv.least_of_place small least.1
  have free := (mem_freePlaces running).mp least.1
  obtain ⟨value, same, chosen⟩ :=
    chosenOffset_eq_roundup state.now listed nonzero automatic small free.1 free.2
  have multiples : freePlaces hd state.done (part.withAlign hd) =
      {bytes | (part.withAlign hd).align.toNat ∣ bytes ∧ value.toNat ≤ bytes} := by
    ext bytes
    rw [mem_freePlaces running, same]
    rfl
  rw [multiples] at least ⊢
  have nothing : 0 ∈ {bytes | (part.withAlign hd).align.toNat ∣ bytes ∧ value.toNat ≤ bytes} ↔
      value = 0 := by
    rw [eq_zero_iff, ← Nat.le_zero]
    exact and_iff_right (dvd_zero _)
  rw [chosen, toNat_roundup_eq_least_iff (withAlign_align_ne_zero nonzero part) least small, nothing,
    imp_iff_not_or]

theorem zero_mem_holdingSizes : 0 ∈ holdingSizes env hd part ↔ part.knownData env = 0 := by
  rw [eq_zero_iff, ← Nat.le_zero]
  exact and_iff_right (dvd_zero _)

/-- An image without data does not fail. -/
theorem setupPartImage_empty {image : String} {child : Child} (fileSize : UInt64)
    (named : part.image = some image) (known : env.imageGet image = some child)
    (empty : child.dataSize part.imageoffset = 0) :
    setupPartImage env fileSize part =
      .ok (part.withSize (imageSize part 0), maxUll (part.offset + 0) fileSize) := by
  have inside : ¬(child.size ≠ 0 ∧ part.imageoffset > child.size) := by
    rintro ⟨given, larger⟩
    rw [Child.dataSize, if_pos given] at empty
    have same : child.size = part.imageoffset := by
      rw [← UInt64.sub_add_cancel child.size part.imageoffset, empty, UInt64.zero_add]
    exact absurd larger (by simp [same])
  have small : ¬ (0 : UInt64) > imageSize part 0 := UInt64.not_lt.mpr UInt64.zero_le
  unfold setupPartImage
  simp only [named, known, empty, failIf, if_neg inside, Partition.withSize_size, if_neg small]
  rfl

/-- **Where an unsized partition gets the least size**: with data, without an image, or if the words
wrap at a multiple of `align`. -/
theorem sizes_iff (nonzero : hd.align ≠ 0) (unsized : part.IsUnsized hd) :
    (∀ bytes < 2 ^ 64, IsLeast (holdingSizes env hd part) bytes →
      ∀ uuid typeUuid offset fileSize result, setupPartImage env fileSize
          (((part.withAlign hd).withUuids uuid typeUuid).withOffset offset) = .ok result →
        result.1.size.toNat = bytes) ↔
      ((part.image.bind env.imageGet).isSome → 0 ∈ holdingSizes env hd part →
        (part.withAlign hd).align.toNat ∣ 2 ^ 64) := by
  have aligned := withAlign_align_ne_zero nonzero part
  have sized (dataSize : UInt64) : imageSize (part.withAlign hd) dataSize =
      roundup dataSize (part.withAlign hd).align :=
    (if_neg (not_not.mpr unsized.zero)).trans (if_pos unsized.inTable)
  cases found : part.image.bind env.imageGet with
  | none =>
    have without : part.knownData env = 0 := by
      rw [Partition.knownData, found]
      rfl
    refine iff_of_true ?_ nofun
    intro bytes _ least uuid typeUuid offset fileSize result run
    have zero := Nat.le_zero.mp (least.2 (zero_mem_holdingSizes.mpr without))
    rcases setupPartImage_ok run with ⟨_, rfl⟩ | ⟨image, child, named, known, _⟩
    · rw [zero]
      exact congrArg UInt64.toNat unsized.zero
    · have known : part.image.bind env.imageGet = some child :=
        Option.bind_eq_some_iff.mpr ⟨image, named, known⟩
      exact absurd (found.symm.trans known) nofun
  | some child =>
    obtain ⟨image, named, known⟩ := Option.bind_eq_some_iff.mp found
    have data : part.knownData env = child.dataSize part.imageoffset := by
      rw [Partition.knownData, found]
      rfl
    constructor
    · intro precise _ nothing
      have empty := data.symm.trans (zero_mem_holdingSizes.mp nothing)
      have run : setupPartImage env 0 (((part.withAlign hd).withUuids none none).withOffset 0) = _ :=
        setupPartImage_empty 0 named known empty
      have same := precise 0 (by decide) ⟨nothing, fun _ _ => Nat.zero_le _⟩ none none 0 0 _ run
      have zero : imageSize (part.withAlign hd) 0 = 0 := eq_zero_iff.mpr same
      exact (roundup_zero_iff aligned).mp ((sized 0).symm.trans zero)
    · intro grounded bytes small least uuid typeUuid offset fileSize result run
      rcases setupPartImage_ok run with ⟨without, _⟩ | ⟨other, child', named', known', _, _, rfl⟩
      · exact absurd (without.symm.trans named) nofun
      obtain rfl : image = other := Option.some.inj (named.symm.trans named')
      obtain rfl : child = child' := Option.some.inj (known.symm.trans known')
      have rounded := (toNat_roundup_eq_least_iff aligned least small).mpr
        (or_iff_not_imp_left.mpr fun zero =>
          grounded rfl (zero_mem_holdingSizes.mpr (not_not.mp zero)))
      rw [← rounded, data, ← sized]
      rfl

/-- **A partition without data is refused**, if its size is `0`. -/
theorem setupPart_refuses (unsized : part.IsUnsized hd)
    (empty : part.knownData env = 0)
    (grounded : (part.image.bind env.imageGet).isSome → (part.withAlign hd).align.toNat ∣ 2 ^ 64)
    (next : SetupState) : setupPart env hd size state part ≠ .ok next := by
  intro taken
  obtain ⟨placed, step⟩ := setupPart_ok taken
  have off : placed.autoresize = false := step.autoresize_eq.trans unsized.off
  have zero : placed.size = 0 := by
    cases step.size_rule with
    | autoresize on => exact absurd on (by simp [off])
    | option _ set => exact absurd unsized.zero set
    | unset _ _ _ zero => exact zero
    | data _ _ image child found known rounded =>
      have found : part.image.bind env.imageGet = some child :=
        Option.bind_eq_some_iff.mpr ⟨image, step.image_eq.symm.trans found, known⟩
      have inTable : placed.inPartitionTable = true := step.inPartitionTable_eq.trans unsized.inTable
      rw [Partition.knownData, found] at empty
      have empty : child.dataSize placed.imageoffset = 0 := by
        rw [step.imageoffset_eq]
        exact empty
      rw [rounded, if_pos inTable, empty, step.align_eq]
      exact roundup_zero_of_dvd (grounded (by rw [found]; rfl))
  exact unsized.other (step.node_eq.symm.trans (step.size_ne zero))

end Step

/-! ### A misplaced offset -/

section Misplaced

variable {env : Env} {hd : Hdimage} {size : UInt64} {state : SetupState} {part : Partition}
  {name : String} {offset align : UInt64}

theorem checkTableOptions_ne_partitionOffset (tableType : TableType) :
    checkTableOptions tableType part ≠ .error (.partitionOffset name offset align) :=
  do_ne_error (failIf_ne_error fun _ => nofun) fun _ _ =>
    do_ne_error (failIf_ne_error fun _ => nofun) fun _ _ => failIf_ne_error fun _ => nofun

theorem resolveTypeUuid_ne_partitionOffset :
    resolveTypeUuid env part ≠ .error (.partitionOffset name offset align) := by
  have checked (uuid : String) : (do
      failIf (uuidValidate uuid = -1) (.invalidTypeUuid part.name uuid)
      return uuid : Except SetupError String) ≠ .error (.partitionOffset name offset align) :=
    do_ne_error (failIf_ne_error fun _ same => by cases same) fun _ _ same => by cases same
  unfold resolveTypeUuid
  dsimp only
  split_ifs
  · split
    · exact checked _
    · intro same
      cases same
  · exact checked _

theorem setupPartUuids_ne_partitionOffset (drawn : Nat) :
    setupPartUuids env hd drawn part ≠ .error (.partitionOffset name offset align) := by
  unfold setupPartUuids
  split_ifs
  · refine do_ne_error resolveTypeUuid_ne_partitionOffset fun _ _ => do_ne_error ?_ fun _ _ => nofun
    unfold resolvePartitionUuid
    split
    · exact do_ne_error (failIf_ne_error fun _ => nofun) fun _ _ => nofun
    · exact nofun
  · exact nofun

theorem setupPartAutoresize_ne_partitionOffset (resized : Bool) :
    setupPartAutoresize hd size resized part ≠ .error (.partitionOffset name offset align) := by
  unfold setupPartAutoresize
  split_ifs
  · intro same
    cases same
  · exact do_ne_error (failIf_ne_error fun _ same => by cases same) fun _ _ =>
      do_ne_error (failIf_ne_error fun _ same => by cases same) fun _ _ =>
      do_ne_error (failIf_ne_error fun _ same => by cases same) fun _ _ =>
      do_ne_error (failIf_ne_error fun _ same => by cases same) fun _ _ same => by cases same

theorem setupPartImage_ne_partitionOffset (fileSize : UInt64) :
    setupPartImage env fileSize part ≠ .error (.partitionOffset name offset align) := by
  unfold setupPartImage
  split
  · exact nofun
  · split
    · exact nofun
    · exact do_ne_error (failIf_ne_error fun _ => nofun) fun _ _ =>
        do_ne_error (failIf_ne_error fun _ => nofun) fun _ _ => nofun

theorem checkOverlap_ne_partitionOffset : ∀ done : List Partition,
    checkOverlap env part done ≠ .error (.partitionOffset name offset align)
  | [] => fun same => by cases same
  | previous :: rest => by
    unfold checkOverlap
    split_ifs
    · exact checkOverlap_ne_partitionOffset rest
    · exact checkOverlap_ne_partitionOffset rest
    · exact checkOverlap_ne_partitionOffset rest
    · intro same
      cases same

theorem checkPlace_ne_partitionOffset (done : List Partition) (now : UInt64) :
    checkPlace env done now part ≠ .error (.partitionOffset name offset align) := by
  unfold checkPlace
  split_ifs
  · exact failIf_ne_error fun _ same => by cases same
  · exact checkOverlap_ne_partitionOffset done

/-- **A multiple of `align` is not reported as misplaced.** -/
theorem setupPart_ne_partitionOffset
    (dvd : (part.withAlign hd).align.toNat ∣
      (chosenOffset hd state.now (part.withAlign hd)).toNat) :
    setupPart env hd size state part ≠ .error (.partitionOffset name offset align) := by
  unfold setupPart
  refine do_ne_error (checkTableOptions_ne_partitionOffset _) fun _ _ =>
    do_ne_error (setupPartUuids_ne_partitionOffset _) ?_
  rintro ⟨uuided, drawn⟩ uuids
  obtain ⟨uuid, typeUuid, rfl⟩ := setupPartUuids_ok uuids
  refine do_ne_error (failIf_ne_error fun misplaced => ?_) fun _ _ =>
    do_ne_error (setupPartAutoresize_ne_partitionOffset _) fun _ _ =>
    do_ne_error (setupPartImage_ne_partitionOffset _) fun _ _ =>
    do_ne_error (failIf_ne_error fun _ => nofun) fun _ _ =>
    do_ne_error (checkPlace_ne_partitionOffset _ _) fun _ _ =>
    do_ne_error (failIf_ne_error fun _ => nofun) fun _ _ => nofun
  exact absurd (mod_eq_zero_iff.mpr dvd) misplaced

end Misplaced
/-! ### The run -/

section Run

variable {env : Env} {hd : Hdimage} {size : UInt64} {state : SetupState} {part : Partition}

/-- **A step is exact** exactly if it is grounded, where the running end is right. -/
theorem placementExact_iff (nonzero : hd.align ≠ 0)
    (running : part.IsAutomatic hd → part.IsListed ∧ RunningEnd hd state) :
    PlacementExact env hd size state part ↔ Grounded env hd state.done part := by
  constructor
  · intro precise
    refine ⟨fun automatic nothing => ?_,
      fun unsized => (sizes_iff nonzero unsized).mp (precise.sizes unsized)⟩
    obtain ⟨listed, inv⟩ := running automatic
    have least : IsLeast (freePlaces hd state.done (part.withAlign hd)) 0 :=
      ⟨nothing, fun _ _ => Nat.zero_le _⟩
    have small : 0 < 2 ^ 64 := by decide
    have place := precise.places automatic 0 small least
    exact (chosenOffset_eq_least_iff inv listed nonzero automatic small least).mp place nothing
  · intro grounded
    have places (automatic : part.IsAutomatic hd) (place : Nat) (small : place < 2 ^ 64)
        (least : IsLeast (freePlaces hd state.done (part.withAlign hd)) place) :
        (chosenOffset hd state.now (part.withAlign hd)).toNat = place := by
      obtain ⟨listed, inv⟩ := running automatic
      exact (chosenOffset_eq_least_iff inv listed nonzero automatic small least).mpr
        (grounded.place automatic)
    constructor
    case places => exact places
    case aligned =>
      intro automatic place small least name offset align
      apply setupPart_ne_partitionOffset
      rw [places automatic place small least]
      exact least.1.1
    case sizes => exact fun unsized => (sizes_iff nonzero unsized).mpr (grounded.data unsized)
    case rejected =>
      intro unsized empty next
      exact setupPart_refuses unsized (zero_mem_holdingSizes.mp empty)
        (fun known => grounded.data unsized known empty) next

theorem outside_of_mem_tableAreas {tableType : TableType} {gptLocation length : UInt64}
    (member : part ∈ tableAreas tableType gptLocation length) :
    tableType ≠ .none ∧ part.inPartitionTable = false := by
  unfold tableAreas at member
  split_ifs at member with none
  · cases member
  all_goals
    refine ⟨none, ?_⟩
    simp only [List.mem_cons, List.not_mem_nil, or_false] at member
  · rcases member with rfl | rfl | rfl | rfl <;> rfl
  · rw [member]
    rfl

/-- What the loop has in front of an automatic partition. -/
theorem Ready.automatic {config : HdimageConfig} {prepared : Prepared}
    (ready : Ready env config prepared)
    (fits : ∀ visit ∈ setupVisits env prepared, EbrFits prepared.hd visit.1.now visit.2)
    (visited : (state, part) ∈ setupVisits env prepared) (automatic : part.IsAutomatic prepared.hd) :
    part.IsListed ∧ RunningEnd prepared.hd state := by
  obtain ⟨before, after, split, run⟩ := mem_visits.mp visited
  obtain ⟨parts, scanned, list⟩ := ready.list_eq
  have listed : ∀ other ∈ parts, other.IsListed := by
    intro other member
    rcases setupLogicalPartitions_mem scanned member with ⟨partsec, _, stands⟩ | ⟨_, first, same⟩
    · exact Or.inl ⟨partsec, stands⟩
    · exact Or.inr ⟨_, first, same⟩
  have outside : part ∉ tableAreas prepared.hd.tableType prepared.hd.gptLocation prepared.size := by
    intro member
    obtain ⟨table, out⟩ := outside_of_mem_tableAreas member
    rcases automatic.2 with inTable | none
    · rw [Partition.withAlign, out, Bool.and_false] at inTable
      cases inTable
    · exact table none
  rw [list] at split
  rcases List.append_eq_append_iff.mp split with ⟨rest, _, areas⟩ | ⟨rest, same, tail⟩
  · refine absurd ?_ outside
    rw [areas]
    exact List.mem_append_right _ List.mem_cons_self
  · have early : ∀ other ∈ before, other.IsListed := fun other member =>
      listed other (by rw [same]; exact List.mem_append_left _ member)
    refine ⟨?_, prepared.runningEnd.run early ready.align_ne_zero (fun visit member => ?_) run⟩
    · cases rest with
      | nil =>
        refine absurd ?_ outside
        rw [List.nil_append] at tail
        rw [← tail]
        exact List.mem_cons_self
      | cons first rest =>
        obtain ⟨rfl, _⟩ := List.cons.inj tail
        exact listed part (by simp [same])
    · refine fits visit ?_
      rw [setupVisits, list, split, visits_append run]
      exact List.mem_append_left _ member

/-- **Automatic placement and sizing is exact** in the steps that are grounded, and only there, as
long as the reservations for boot records are words. -/
theorem setup_placementExact_iff {config : HdimageConfig} {prepared : Prepared}
    (run : prepare env config = .ok prepared)
    (fits : ∀ visit ∈ setupVisits env prepared, EbrFits prepared.hd visit.1.now visit.2)
    (visited : (state, part) ∈ setupVisits env prepared) :
    PlacementExact env prepared.hd prepared.size state part ↔
      Grounded env prepared.hd state.done part :=
  have ready := prepare_ok run
  placementExact_iff ready.align_ne_zero (ready.automatic fits visited)

end Run

/-- Every step for two primary partitions, two logical ones and a boot loader. -/
theorem setup_placementExact_iff_logicalConfig :
    ∃ prepared, prepare .bare logicalConfig = .ok prepared ∧
      ∀ visit ∈ setupVisits .bare prepared,
        PlacementExact .bare prepared.hd prepared.size visit.1 visit.2 := by
  obtain ⟨prepared, run, checked⟩ := exists_ok (prepare .bare logicalConfig) (fun prepared =>
    decide (∀ visit ∈ setupVisits .bare prepared, EbrFits prepared.hd visit.1.now visit.2 ∧
      (visit.2.withAlign prepared.hd).align.toNat ∣ 2 ^ 64)) (by decide +kernel)
  have checked := of_decide_eq_true checked
  refine ⟨prepared, run, fun visit member => ?_⟩
  have fits := fun visit member => (checked visit member).1
  have dvd := (checked visit member).2
  exact (setup_placementExact_iff run fits member).mpr ⟨fun _ _ => dvd, fun _ _ _ => dvd⟩

/-- A step that can be evaluated. -/
theorem exists_visit (env : Env) (config : HdimageConfig)
    (check : Prepared → SetupState → Partition → Bool)
    (passes : (prepare env config).toOption.any (fun prepared =>
      (setupVisits env prepared).any fun visit => check prepared visit.1 visit.2) = true) :
    ∃ prepared, prepare env config = .ok prepared ∧ ∃ state part,
      (state, part) ∈ setupVisits env prepared ∧ check prepared state part = true := by
  obtain ⟨prepared, run, checked⟩ := exists_ok _ _ passes
  obtain ⟨⟨state, part⟩, member, holds⟩ := List.any_eq_true.mp checked
  exact ⟨prepared, run, state, part, member, holds⟩

/-- Nothing is in front of the partition, and its `align` is no power of two. -/
def firstConfig : HdimageConfig where
  options := { partitionTableType := "none" }
  partitions := [{ title := "boot", size := 512, align := 1536 }]

/-- An image whose size is not known. -/
def unknownEnv : Env where
  imageGet _ := some { name := "boot.img", file := "boot.img", size := 0, holes := [] }
  blockDevice := none
  random32 _ := 0
  gptShortcuts := []

/-- The size of the partition is left to the image. -/
def dataConfig : HdimageConfig where
  partitions := [{ title := "boot", offset := 1536, align := 1536, image := some "boot.img" }]

/-- The boot record of `home` would be behind the largest word. -/
def fullConfig : HdimageConfig where
  options := { extendedPartition := 1, align := 1048576 }
  partitions := [
    { title := "root", size := 2 ^ 64 - 3 * 1048576 },
    { title := "home", offset := 4194304, size := 1048576 },
    { title := "data", size := 1048576, forcedPrimary := true }]

/-- **Steps that are not exact**: a first partition that is not at `0`, a partition without data that
is accepted, and one that is placed in front of an earlier end. -/
theorem setup_placement_inexact :
    (∃ prepared, prepare .bare firstConfig = .ok prepared ∧ ∃ state part,
      (state, part) ∈ setupVisits .bare prepared ∧
        ¬ PlacementExact .bare prepared.hd prepared.size state part) ∧
    (∃ prepared, prepare unknownEnv dataConfig = .ok prepared ∧ ∃ state part,
      (state, part) ∈ setupVisits unknownEnv prepared ∧
        ¬ PlacementExact unknownEnv prepared.hd prepared.size state part) ∧
    ∃ prepared, prepare .bare fullConfig = .ok prepared ∧ ∃ state part,
      (state, part) ∈ setupVisits .bare prepared ∧
        ¬ PlacementExact .bare prepared.hd prepared.size state part := by
  refine ⟨?_, ?_, ?_⟩
  · obtain ⟨prepared, run, state, part, member, checked⟩ := exists_visit .bare firstConfig
      (fun prepared state part => decide (part.IsAutomatic prepared.hd ∧
        0 ∈ freePlaces prepared.hd state.done (part.withAlign prepared.hd) ∧
        (chosenOffset prepared.hd state.now (part.withAlign prepared.hd)).toNat = 512))
      (by decide +kernel)
    obtain ⟨automatic, free, chosen⟩ := of_decide_eq_true checked
    refine ⟨prepared, run, state, part, member, fun precise => ?_⟩
    have place := precise.places automatic 0 (by decide) ⟨free, fun _ _ => Nat.zero_le _⟩
    exact absurd (chosen.symm.trans place) (by decide)
  · obtain ⟨prepared, run, state, part, member, checked⟩ := exists_visit unknownEnv dataConfig
      (fun prepared state part => decide ((part.withAlign prepared.hd).inPartitionTable = true ∧
        part.size = 0 ∧ part.autoresize = false ∧ part.node ≠ .extended ∧
        part.knownData unknownEnv = 0 ∧
        (setupPart unknownEnv prepared.hd prepared.size state part).toOption.any (fun _ => true)))
      (by decide +kernel)
    obtain ⟨inTable, zero, off, other, empty, accepted⟩ := of_decide_eq_true checked
    refine ⟨prepared, run, state, part, member, fun precise => ?_⟩
    obtain ⟨next, taken, _⟩ := exists_ok _ _ accepted
    exact precise.rejected ⟨inTable, zero, off, other⟩ (zero_mem_holdingSizes.mpr empty) next taken
  · obtain ⟨prepared, run, state, part, member, checked⟩ := exists_visit .bare fullConfig
      (fun prepared state part => decide (part.IsAutomatic prepared.hd ∧
        2 ^ 64 - 1048576 ∈ freePlaces prepared.hd state.done (part.withAlign prepared.hd) ∧
        (∃ other ∈ state.done, 2 ^ 64 - 1048576 ≤ other.span.stop) ∧
        (chosenOffset prepared.hd state.now (part.withAlign prepared.hd)).toNat = 5242880))
      (by decide +kernel)
    obtain ⟨automatic, free, ⟨other, among, behind⟩, chosen⟩ := of_decide_eq_true checked
    refine ⟨prepared, run, state, part, member, fun precise => ?_⟩
    have place := precise.places automatic (2 ^ 64 - 1048576) (by decide)
      ⟨free, fun place bound => behind.trans (Nat.le_of_add_right_le (bound.2.2 other among))⟩
    exact absurd (chosen.symm.trans place) (by decide)

end Genimage
