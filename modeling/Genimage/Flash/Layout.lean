/-
**Which flash layouts `flash_setup` accepts.**

`resolveFlash` gives every partition its range: without an offset it starts at the end of the previous
one, and the last one may be without a size and then goes up to the end of the flash. `FlashExact` says
that `flash_setup` accepts the configuration if and only if the ranges are valid, and that the stored
offsets and sizes are these ranges.

The size of a partition without one is computed before its offset is looked at: it is what the flash
has behind the previous partition. With an explicit offset behind that the end lies past the flash, so
that no such configuration is accepted. This is the only difference (`flashSetup_exact_iff`).
-/

import Genimage.Flash.Setup

namespace Genimage

open Library

/-! ### Resolved layouts -/

/-- The size of an erase block. -/
def FlashType.peb (flash : FlashType) : Nat := flash.pebsize.toInt.toNat

/-- The size of the flash. -/
def FlashType.bytes (flash : FlashType) : Nat := flash.peb * flash.numpebs.toInt.toNat

/-- Where a partition starts, behind partitions that end at `stop`. -/
def flashStart (stop : Nat) (part : Partition) : Nat :=
  if part.offset = 0 then stop else part.offset.toNat

/-- **The ranges of the partitions** on a flash of `bytes` bytes, behind partitions that end at
`stop`; `none` if one has no range. -/
def resolveFlash (bytes : Nat) : Nat → List Partition → Option (List (Span Nat))
  | _, [] => some []
  | stop, part :: rest =>
    let start := flashStart stop part
    if part.size = 0 then
      if rest.isEmpty ∧ start ≤ bytes then some [⟨start, bytes⟩] else none
    else (resolveFlash bytes (start + part.size.toNat) rest).map
      (⟨start, start + part.size.toNat⟩ :: ·)

/-- The child of a partition exists, and its size fits. -/
def ChildFits (imageGet : String → Option FlashChild) (part : Partition) (range : Span Nat) : Prop :=
  ∀ image, part.image = some image → ∃ child, imageGet image = some child ∧
    child.setup.size.toNat ≤ range.stop - range.start

/-- **A valid layout.** -/
structure FlashLayout (imageGet : String → Option FlashChild) (flash : FlashType)
    (parts : List Partition) (layout : List (Span Nat)) : Prop where
  resolved : resolveFlash flash.bytes 0 parts = some layout
  aligned : ∀ range ∈ layout, flash.peb ∣ range.start ∧ flash.peb ∣ range.stop - range.start
  ordered : layout.IsChain fun range next => range.stop ≤ next.start
  inside : ∀ range ∈ layout, range.stop ≤ flash.bytes
  fits : List.Forall₂ (ChildFits imageGet) parts layout

/-- A partition at its range. -/
def Partition.at (part : Partition) (range : Span Nat) : Partition :=
  (part.withOffset (UInt64.ofNat range.start)).withSize (UInt64.ofNat (range.stop - range.start))

/-- **`flash_setup` accepts exactly the valid layouts**, and stores them. -/
structure FlashExact (imageGet : String → Option FlashChild) (flash : FlashType)
    (config : FlashConfig) : Prop where
  accepted : (∃ image, flashSetup imageGet config = .ok image) ↔
    ∃ layout, FlashLayout imageGet flash (parsePartitions config.partitions) layout
  stored : ∀ image, flashSetup imageGet config = .ok image →
    ∃ layout, resolveFlash flash.bytes 0 (parsePartitions config.partitions) = some layout ∧
      image.partitions = List.zipWith Partition.at (parsePartitions config.partitions) layout

/-- **The partition without a size has an offset behind the end of the previous one.** -/
def RestBehindGap : Nat → List Partition → Prop
  | _, [] => False
  | stop, part :: rest =>
    if part.size = 0 then stop < flashStart stop part
    else RestBehindGap (flashStart stop part + part.size.toNat) rest

/-- **No end of a partition wraps**; the one without a size has what is left behind the previous one. -/
def FlashNoWrap (bytes : Nat) : Nat → List Partition → Prop
  | _, [] => True
  | stop, part :: rest =>
    if part.size = 0 then flashStart stop part + (bytes - stop) < 2 ^ 64
    else flashStart stop part + part.size.toNat < 2 ^ 64 ∧
      FlashNoWrap bytes (flashStart stop part + part.size.toNat) rest

/-! ### One partition -/

section Step

variable {imageGet : String → Option FlashChild} {flash : FlashType}

theorem wordOfInt_toNat {value : Int32} (positive : 0 < value.toInt) :
    (wordOfInt value).toNat = value.toInt.toNat := by
  have bound : value.toInt < 2 ^ 31 := value.toInt_lt
  obtain ⟨n, same⟩ := Int.eq_ofNat_of_zero_le positive.le
  rw [wordOfInt, same, Int.toNat_natCast]
  exact toNat_ofInt_natCast (by omega)

theorem toNat_flashsize (pebs : 0 < flash.pebsize.toInt) (count : 0 < flash.numpebs.toInt) :
    flash.flashsize.toNat = flash.bytes := by
  have bound : flash.pebsize.toInt.toNat ≤ 2 ^ 31 := by
    have : flash.pebsize.toInt < 2 ^ 31 := flash.pebsize.toInt_lt
    omega
  have bound' : flash.numpebs.toInt.toNat ≤ 2 ^ 31 := by
    have : flash.numpebs.toInt < 2 ^ 31 := flash.numpebs.toInt_lt
    omega
  have small : flash.pebsize.toInt.toNat * flash.numpebs.toInt.toNat < 2 ^ 64 :=
    (Nat.mul_le_mul bound bound').trans_lt (by decide)
  rw [FlashType.flashsize, toNat_mul_of_lt, wordOfInt_toNat pebs, wordOfInt_toNat count]
  · rfl
  · rwa [wordOfInt_toNat pebs, wordOfInt_toNat count]

theorem checkChild_iff {part : Partition} : checkChild imageGet part = .ok () ↔
    ∀ image, part.image = some image → ∃ child, imageGet image = some child ∧
      child.setup.size.toNat ≤ part.size.toNat := by
  unfold checkChild
  cases named : part.image with
  | none => exact iff_of_true rfl fun image same => absurd same (by simp)
  | some image =>
    dsimp only
    cases found : imageGet image with
    | none =>
      refine iff_of_false (by simp) fun all => ?_
      obtain ⟨child, found', -⟩ := all image rfl
      rw [found] at found'
      cases found'
    | some child =>
      dsimp only
      rw [failIf_ok]
      have le : ¬ child.setup.size > part.size ↔ child.setup.size.toNat ≤ part.size.toNat := by
        rw [gt_iff_lt, UInt64.not_lt, UInt64.le_iff_toNat_le]
      rw [le]
      constructor
      · intro fits image' same
        obtain rfl := Option.some.inj same
        exact ⟨child, found, fits⟩
      · intro all
        obtain ⟨child', found', fits⟩ := all image rfl
        rw [found] at found'
        obtain rfl := Option.some.inj found'
        exact fits

/-- The word at which a partition is placed. -/
def placedOffset (partsize : UInt64) (part : Partition) : UInt64 :=
  if part.offset = 0 then partsize else part.offset

theorem toNat_placedOffset (partsize : UInt64) (part : Partition) :
    (placedOffset partsize part).toNat = flashStart partsize.toNat part := by
  unfold placedOffset flashStart
  split
  · rfl
  · rfl

theorem placeFlash_iff {partsize : UInt64} {part placed : Partition} :
    placeFlash partsize part = .ok placed ↔
      partsize.toNat ≤ flashStart partsize.toNat part ∧
        placed = part.withOffset (placedOffset partsize part) := by
  unfold placeFlash flashStart placedOffset
  by_cases automatic : part.offset = 0
  · rw [if_pos automatic, if_pos automatic, if_pos automatic]
    exact ⟨fun same => ⟨le_rfl, (Except.ok.inj same).symm⟩, fun both => congrArg Except.ok both.2.symm⟩
  · rw [if_neg automatic, if_neg automatic, if_neg automatic]
    by_cases overlaps : partsize > part.offset
    · rw [if_pos overlaps]
      refine iff_of_false (by simp) fun both => ?_
      exact absurd (UInt64.le_iff_toNat_le.mpr both.1) (UInt64.not_le.mpr overlaps)
    · rw [if_neg overlaps]
      have le := UInt64.le_iff_toNat_le.mp (UInt64.not_lt.mp overlaps)
      exact ⟨fun same => ⟨le, (Except.ok.inj same).symm⟩, fun both => congrArg Except.ok both.2.symm⟩

theorem takeRest_iff {flashsize partsize : UInt64} {part sized : Partition} :
    takeRest flashsize partsize part = .ok sized ↔
      (part.size = 0 → partsize.toNat ≤ flashsize.toNat) ∧
        sized = part.withSize (if part.size = 0 then flashsize - partsize else part.size) := by
  unfold takeRest
  by_cases rest : part.size = 0
  · rw [if_neg (not_not_intro rest), if_pos rest]
    by_cases exceeds : partsize > flashsize
    · rw [if_pos exceeds]
      refine iff_of_false (by simp) fun both => ?_
      exact absurd (UInt64.le_iff_toNat_le.mpr (both.1 rest)) (UInt64.not_le.mpr exceeds)
    · rw [if_neg exceeds]
      have le := UInt64.le_iff_toNat_le.mp (UInt64.not_lt.mp exceeds)
      exact ⟨fun same => ⟨fun _ => le, (Except.ok.inj same).symm⟩,
        fun both => congrArg Except.ok both.2.symm⟩
  · rw [if_pos rest, if_neg rest]
    exact ⟨fun same => ⟨fun zero => absurd zero rest, (Except.ok.inj same).symm⟩,
      fun both => congrArg Except.ok both.2.symm⟩

/-- The size of a partition, or what the flash has behind the previous one. -/
def sizedTo (flashsize partsize : UInt64) (part : Partition) : UInt64 :=
  if part.size = 0 then flashsize - partsize else part.size

/-- The element of the list behind the loop body. -/
def settled (flashsize partsize : UInt64) (part : Partition) : Partition :=
  (part.withOffset (placedOffset partsize part)).withSize (sizedTo flashsize partsize part)

/-- **What one round of the loop asks**, and what it leaves. -/
structure FlashStep (imageGet : String → Option FlashChild) (flash : FlashType) (scan : FlashScan)
    (part : Partition) (next : FlashScan) : Prop where
  first : scan.last = false
  room : part.size = 0 → scan.partsize.toNat ≤ flash.flashsize.toNat
  size : flash.peb ∣ (sizedTo flash.flashsize scan.partsize part).toNat
  offset : flash.peb ∣ part.offset.toNat
  behind : scan.partsize.toNat ≤ flashStart scan.partsize.toNat part
  child : ∀ image, part.image = some image → ∃ child, imageGet image = some child ∧
    child.setup.size.toNat ≤ (sizedTo flash.flashsize scan.partsize part).toNat
  next_eq : next = {
    last := part.size = 0
    partsize := placedOffset scan.partsize part + sizedTo flash.flashsize scan.partsize part
    done := scan.done ++ [settled flash.flashsize scan.partsize part] }

theorem setupFlashPart_iff (pebs : 0 < flash.pebsize.toInt) {scan next : FlashScan}
    {part : Partition} : setupFlashPart imageGet flash scan part = .ok next ↔
      FlashStep imageGet flash scan part next := by
  have peb : (wordOfInt flash.pebsize).toNat = flash.peb := wordOfInt_toNat pebs
  have multiple : ∀ value : UInt64, ¬ value % wordOfInt flash.pebsize ≠ 0 ↔
      flash.peb ∣ value.toNat := by
    intro value
    rw [not_not, mod_eq_zero_iff, peb]
  simp only [setupFlashPart, do_eq_ok, failIf_ok, pure_eq_ok, takeRest_iff, placeFlash_iff,
    multiple]
  constructor
  · rintro ⟨-, first, sized, ⟨room, rfl⟩, -, size, -, offset, placed, ⟨behind, rfl⟩, _, child, rfl⟩
    exact ⟨Bool.eq_false_of_not_eq_true first, room, size, offset, behind,
      checkChild_iff.mp child, rfl⟩
  · rintro ⟨first, room, size, offset, behind, child, rfl⟩
    refine ⟨(), by rw [first]; exact Bool.false_ne_true, _, ⟨room, rfl⟩, (), size, (), offset, _,
      ⟨behind, rfl⟩, (), checkChild_iff.mpr child, rfl⟩

end Step

/-! ### The loop -/

section Loop

variable {imageGet : String → Option FlashChild} {flash : FlashType}

/-- The ranges of a layout from `stop` on, one behind the other. -/
def LayoutFrom (flash : FlashType) : Nat → List (Span Nat) → Prop
  | stop, [] => stop ≤ flash.bytes
  | stop, range :: rest => stop ≤ range.start ∧ range.start ≤ range.stop ∧
      flash.peb ∣ range.start ∧ flash.peb ∣ range.stop - range.start ∧ LayoutFrom flash range.stop rest

theorem LayoutFrom.le {stop : Nat} {layout : List (Span Nat)} (valid : LayoutFrom flash stop layout) :
    stop ≤ flash.bytes := by
  induction layout generalizing stop with
  | nil => exact valid
  | cons range rest ih => exact valid.1.trans (valid.2.1.trans (ih valid.2.2.2.2))

/-- A partition is settled at its range. -/
theorem settled_eq_at {flashsize partsize : UInt64} {part : Partition} {stop : Nat}
    (range : stop = flashStart partsize.toNat part + (sizedTo flashsize partsize part).toNat) :
    settled flashsize partsize part = part.at ⟨flashStart partsize.toNat part, stop⟩ := by
  have size : UInt64.ofNat (stop - flashStart partsize.toNat part) =
      sizedTo flashsize partsize part := by
    rw [range, Nat.add_sub_cancel_left, UInt64.ofNat_toNat]
  rw [settled, Partition.at]
  dsimp only
  rw [size, ← toNat_placedOffset, UInt64.ofNat_toNat]

/-- **What an accepted rest of the list says.** -/
structure Resolved (imageGet : String → Option FlashChild) (flash : FlashType) (scan : FlashScan)
    (parts : List Partition) (final : FlashScan) (layout : List (Span Nat)) : Prop where
  resolved : resolveFlash flash.bytes scan.partsize.toNat parts = some layout
  valid : LayoutFrom flash scan.partsize.toNat layout
  fits : List.Forall₂ (ChildFits imageGet) parts layout
  done : final.done = scan.done ++ List.zipWith Partition.at parts layout

/-- **The loop accepts only valid layouts**, and none with a gap in front of a partition without a
size. -/
theorem foldlM_resolved (pebs : 0 < flash.pebsize.toInt) (count : 0 < flash.numpebs.toInt)
    {parts : List Partition} {scan final : FlashScan} (first : scan.last = false)
    (aligned : flash.peb ∣ scan.partsize.toNat)
    (noWrap : FlashNoWrap flash.bytes scan.partsize.toNat parts)
    (run : parts.foldlM (setupFlashPart imageGet flash) scan = .ok final)
    (below : final.partsize.toNat ≤ flash.bytes) :
    ¬ RestBehindGap scan.partsize.toNat parts ∧
      ∃ layout, Resolved imageGet flash scan parts final layout := by
  induction parts generalizing scan with
  | nil =>
    cases run
    exact ⟨id, [], rfl, below, List.Forall₂.nil, (List.append_nil _).symm⟩
  | cons part rest ih =>
    rw [List.foldlM_cons, do_eq_ok] at run
    obtain ⟨next, step, run⟩ := run
    obtain ⟨-, room, size, offset, behind, child, rfl⟩ := (setupFlashPart_iff pebs).mp step
    rw [toNat_flashsize pebs count] at room
    have startAligned : flash.peb ∣ flashStart scan.partsize.toNat part := by
      unfold flashStart
      split
      · exact aligned
      · exact offset
    by_cases sizeless : part.size = 0
    · -- nothing may follow, and the end is past the flash if there is a gap
      have sized : (sizedTo flash.flashsize scan.partsize part).toNat =
          flash.bytes - scan.partsize.toNat := by
        rw [sizedTo, if_pos sizeless, toNat_sub_of_le, toNat_flashsize pebs count]
        rw [toNat_flashsize pebs count]
        exact room sizeless
      have last : rest = [] := by
        cases rest with
        | nil => rfl
        | cons other others =>
          rw [List.foldlM_cons, do_eq_ok] at run
          obtain ⟨_, step', -⟩ := run
          have := ((setupFlashPart_iff pebs).mp step').first
          simp [sizeless] at this
      subst last
      cases run
      rw [FlashNoWrap, if_pos sizeless] at noWrap
      dsimp only at below
      rw [toNat_add_of_lt (by rwa [toNat_placedOffset, sized]), toNat_placedOffset, sized] at below
      have room := room sizeless
      have start : flashStart scan.partsize.toNat part = scan.partsize.toNat := by omega
      refine ⟨?_, [⟨scan.partsize.toNat, flash.bytes⟩], ?_, ?_, ?_, ?_⟩
      · rw [RestBehindGap, if_pos sizeless, start]
        exact lt_irrefl _
      · rw [resolveFlash, if_pos sizeless, start]
        exact if_pos ⟨rfl, room⟩
      · exact ⟨le_rfl, room, aligned, sized ▸ size, le_rfl⟩
      · refine List.Forall₂.cons (fun image named => ?_) List.Forall₂.nil
        obtain ⟨child, found, fits⟩ := child image named
        exact ⟨child, found, sized ▸ fits⟩
      · rw [settled_eq_at (show flash.bytes = _ from by omega), start]
        rfl
    · have sized : sizedTo flash.flashsize scan.partsize part = part.size := if_neg sizeless
      rw [FlashNoWrap, if_neg sizeless] at noWrap
      have stop : (placedOffset scan.partsize part + part.size).toNat =
          flashStart scan.partsize.toNat part + part.size.toNat := by
        rw [toNat_add_of_lt (by rw [toNat_placedOffset]; exact noWrap.1), toNat_placedOffset]
      rw [sized] at run size child
      obtain ⟨noGap, layout, found⟩ := ih (by simp [sizeless])
        (by dsimp only; rw [stop]; exact Dvd.dvd.add startAligned size)
        (by dsimp only; rw [stop]; exact noWrap.2) run
      obtain ⟨resolved, valid, fits, done⟩ := found
      dsimp only at noGap resolved valid done
      rw [stop] at noGap resolved valid
      have length : flashStart scan.partsize.toNat part + part.size.toNat -
        flashStart scan.partsize.toNat part = part.size.toNat := Nat.add_sub_cancel_left _ _
      refine ⟨?_, ⟨flashStart scan.partsize.toNat part,
        flashStart scan.partsize.toNat part + part.size.toNat⟩ :: layout, ?_, ?_, ?_, ?_⟩
      · rw [RestBehindGap, if_neg sizeless]
        exact noGap
      · rw [resolveFlash, if_neg sizeless, resolved]
        rfl
      · exact ⟨behind, Nat.le_add_right _ _, startAligned, by rw [length]; exact size, valid⟩
      · refine List.Forall₂.cons (fun image named => ?_) fits
        obtain ⟨child, found, fits⟩ := child image named
        exact ⟨child, found, by rw [length]; exact fits⟩
      · rw [done, settled_eq_at (by rw [sized]), List.zipWith_cons_cons, List.append_assoc,
          List.singleton_append]

/-- **All valid layouts are accepted**, if there is no gap in front of a partition without a size. -/
theorem foldlM_accepts (pebs : 0 < flash.pebsize.toInt) (count : 0 < flash.numpebs.toInt)
    {parts : List Partition} {scan : FlashScan} {layout : List (Span Nat)}
    (first : scan.last = false)
    (noWrap : FlashNoWrap flash.bytes scan.partsize.toNat parts)
    (noGap : ¬ RestBehindGap scan.partsize.toNat parts)
    (resolved : resolveFlash flash.bytes scan.partsize.toNat parts = some layout)
    (valid : LayoutFrom flash scan.partsize.toNat layout)
    (fits : List.Forall₂ (ChildFits imageGet) parts layout) :
    ∃ final, parts.foldlM (setupFlashPart imageGet flash) scan = .ok final ∧
      final.partsize.toNat ≤ flash.bytes := by
  induction parts generalizing scan layout with
  | nil =>
    cases fits
    exact ⟨scan, rfl, valid⟩
  | cons part rest ih =>
    obtain ⟨range, layout, fit, fitRest, rfl⟩ : ∃ range others, ChildFits imageGet part range ∧
        List.Forall₂ (ChildFits imageGet) rest others ∧ layout = range :: others := by
      cases fits with
      | cons fit fits => exact ⟨_, _, fit, fits, rfl⟩
    clear fits
    obtain ⟨behind, -, startAligned, sizeAligned, valid⟩ := valid
    have offset : range.start = flashStart scan.partsize.toNat part →
        flash.peb ∣ part.offset.toNat := by
      intro same
      by_cases automatic : part.offset = 0
      · rw [automatic]
        exact Nat.dvd_zero _
      · rw [same, flashStart, if_neg automatic] at startAligned
        exact startAligned
    rw [resolveFlash] at resolved
    by_cases sizeless : part.size = 0
    · rw [if_pos sizeless] at resolved
      split at resolved
      case isFalse => cases resolved
      case isTrue last =>
        obtain ⟨rfl, rfl⟩ := List.cons.inj (Option.some.inj resolved)
        obtain rfl := List.isEmpty_iff.mp last.1
        rw [RestBehindGap, if_pos sizeless, not_lt] at noGap
        rw [FlashNoWrap, if_pos sizeless] at noWrap
        dsimp only at behind sizeAligned
        have room : scan.partsize.toNat ≤ flash.flashsize.toNat := by
          rw [toNat_flashsize pebs count]
          exact behind.trans last.2
        have start : flashStart scan.partsize.toNat part = scan.partsize.toNat :=
          le_antisymm noGap behind
        have sized : (sizedTo flash.flashsize scan.partsize part).toNat =
            flash.bytes - scan.partsize.toNat := by
          rw [sizedTo, if_pos sizeless, toNat_sub_of_le room, toNat_flashsize pebs count]
        rw [start] at sizeAligned noWrap
        have step : setupFlashPart imageGet flash scan part = .ok _ := (setupFlashPart_iff pebs).mpr
          { first := first, room := fun _ => room, size := sized ▸ sizeAligned
            offset := offset rfl, behind := behind
            child := fun image named => by
              obtain ⟨child, found, fits⟩ := fit image named
              exact ⟨child, found, by rw [sized, ← start]; exact fits⟩
            next_eq := rfl }
        refine ⟨_, by rw [List.foldlM_cons, step]; rfl, ?_⟩
        dsimp only
        rw [toNat_add_of_lt (by rw [toNat_placedOffset, start, sized]; exact noWrap),
          toNat_placedOffset, start, sized]
        rw [toNat_flashsize pebs count] at room
        omega
    · rw [if_neg sizeless] at resolved
      obtain ⟨others, behindIt, same⟩ := Option.map_eq_some_iff.mp resolved
      clear resolved
      obtain ⟨rfl, rfl⟩ := List.cons.inj same
      rw [RestBehindGap, if_neg sizeless] at noGap
      rw [FlashNoWrap, if_neg sizeless] at noWrap
      dsimp only at behind sizeAligned valid
      rw [Nat.add_sub_cancel_left] at sizeAligned
      have sized : sizedTo flash.flashsize scan.partsize part = part.size := if_neg sizeless
      have stop : (placedOffset scan.partsize part + part.size).toNat =
          flashStart scan.partsize.toNat part + part.size.toNat := by
        rw [toNat_add_of_lt (by rw [toNat_placedOffset]; exact noWrap.1), toNat_placedOffset]
      have step : setupFlashPart imageGet flash scan part = .ok _ := (setupFlashPart_iff pebs).mpr
        { first := first, room := fun zero => absurd zero sizeless
          size := by rw [sized]; exact sizeAligned
          offset := offset rfl, behind := behind
          child := fun image named => by
            obtain ⟨child, found, fits⟩ := fit image named
            rw [Nat.add_sub_cancel_left] at fits
            exact ⟨child, found, by rw [sized]; exact fits⟩
          next_eq := rfl }
      rw [sized] at step
      rw [← stop] at noWrap noGap behindIt valid
      obtain ⟨final, run, below⟩ := ih
        (show FlashScan.last ⟨decide (part.size = 0), placedOffset scan.partsize part + part.size,
          scan.done ++ [settled flash.flashsize scan.partsize part]⟩ = false from
            decide_eq_false sizeless) noWrap.2 noGap behindIt valid fitRest
      exact ⟨final, by rw [List.foldlM_cons, step]; exact run, below⟩

end Loop

/-! ### The whole list -/

section Whole

variable {imageGet : String → Option FlashChild} {flash : FlashType}

theorem resolveFlash_le {bytes stop : Nat} {parts : List Partition} {layout : List (Span Nat)}
    (resolved : resolveFlash bytes stop parts = some layout) :
    ∀ range ∈ layout, range.start ≤ range.stop := by
  induction parts generalizing stop layout with
  | nil =>
    obtain rfl := Option.some.inj resolved
    exact fun range member => absurd member List.not_mem_nil
  | cons part rest ih =>
    rw [resolveFlash] at resolved
    split at resolved
    · split at resolved
      case isTrue last =>
        obtain rfl := Option.some.inj resolved
        intro range member
        rw [List.mem_singleton.mp member]
        exact last.2
      case isFalse => cases resolved
    · obtain ⟨others, behind, rfl⟩ := Option.map_eq_some_iff.mp resolved
      intro range member
      rcases List.mem_cons.mp member with rfl | member
      · exact Nat.le_add_right _ _
      · exact ih behind range member

/-- **The ranges one behind the other**, said of all of them. -/
theorem layoutFrom_iff {stop : Nat} {layout : List (Span Nat)}
    (le : ∀ range ∈ layout, range.start ≤ range.stop) : LayoutFrom flash stop layout ↔
      (∀ range ∈ layout, flash.peb ∣ range.start ∧ flash.peb ∣ range.stop - range.start) ∧
      (Span.mk stop stop :: layout).IsChain (fun range next => range.stop ≤ next.start) ∧
      ∀ range ∈ Span.mk stop stop :: layout, range.stop ≤ flash.bytes := by
  induction layout generalizing stop with
  | nil =>
    constructor
    · intro inside
      refine ⟨fun range member => absurd member List.not_mem_nil, List.isChain_singleton _, ?_⟩
      intro range member
      rw [List.mem_singleton.mp member]
      exact inside
    · exact fun all => all.2.2 _ List.mem_cons_self
  | cons range rest ih =>
    rw [LayoutFrom, ih fun range member => le range (List.mem_cons_of_mem _ member)]
    constructor
    · rintro ⟨behind, growing, start, size, aligned, ordered, inside⟩
      refine ⟨?_, ?_, ?_⟩
      · intro other member
        rcases List.mem_cons.mp member with rfl | member
        · exact ⟨start, size⟩
        · exact aligned other member
      · refine List.isChain_cons_cons.mpr ⟨behind, ?_⟩
        rw [List.isChain_cons] at ordered ⊢
        exact ordered
      · have last := inside ⟨range.stop, range.stop⟩ List.mem_cons_self
        intro other member
        rcases List.mem_cons.mp member with rfl | member
        · exact behind.trans (growing.trans last)
        · rcases List.mem_cons.mp member with rfl | member
          · exact last
          · exact inside other (List.mem_cons_of_mem _ member)
    · rintro ⟨aligned, ordered, inside⟩
      obtain ⟨behind, ordered⟩ := List.isChain_cons_cons.mp ordered
      refine ⟨behind, le range List.mem_cons_self, (aligned range List.mem_cons_self).1,
        (aligned range List.mem_cons_self).2,
        fun other member => aligned other (List.mem_cons_of_mem _ member), ?_, ?_⟩
      · rw [List.isChain_cons] at ordered ⊢
        exact ordered
      · intro other member
        rcases List.mem_cons.mp member with rfl | member
        · exact inside range (List.mem_cons_of_mem _ List.mem_cons_self)
        · exact inside other (List.mem_cons_of_mem _ (List.mem_cons_of_mem _ member))

/-- **A valid layout, range by range.** -/
theorem flashLayout_iff {parts : List Partition} {layout : List (Span Nat)} :
    FlashLayout imageGet flash parts layout ↔ resolveFlash flash.bytes 0 parts = some layout ∧
      LayoutFrom flash 0 layout ∧ List.Forall₂ (ChildFits imageGet) parts layout := by
  constructor
  · intro valid
    refine ⟨valid.resolved, ?_, valid.fits⟩
    rw [layoutFrom_iff (resolveFlash_le valid.resolved)]
    refine ⟨valid.aligned, List.isChain_cons.mpr ⟨fun range _ => Nat.zero_le _, valid.ordered⟩, ?_⟩
    intro range member
    rcases List.mem_cons.mp member with rfl | member
    · exact Nat.zero_le _
    · exact valid.inside range member
  · rintro ⟨resolved, valid, fits⟩
    rw [layoutFrom_iff (resolveFlash_le resolved)] at valid
    exact ⟨resolved, valid.1, (List.isChain_cons.mp valid.2.1).2,
      fun range member => valid.2.2 range (List.mem_cons_of_mem _ member), fits⟩

/-- What `flash_setup` does with the outcome of the loop. -/
theorem flashSetup_iff (pebs : 0 < flash.pebsize.toInt) (count : 0 < flash.numpebs.toInt)
    {config : FlashConfig} (type : config.flashType = some flash) {image : FlashImage} :
    flashSetup imageGet config = .ok image ↔ ∃ final,
      (parsePartitions config.partitions).foldlM (setupFlashPart imageGet flash) {} = .ok final ∧
      final.partsize.toNat ≤ flash.bytes ∧
      image = ⟨if config.size = 0 then final.partsize else config.size, final.done⟩ := by
  have le : ∀ partsize : UInt64, ¬ partsize > flash.flashsize ↔ partsize.toNat ≤ flash.bytes := by
    intro partsize
    rw [gt_iff_lt, UInt64.not_lt, UInt64.le_iff_toNat_le, toNat_flashsize pebs count]
  unfold flashSetup
  rw [type]
  simp only [do_eq_ok, failIf_ok, pure_eq_ok, le]
  constructor
  · rintro ⟨final, run, _, below, rfl⟩
    exact ⟨final, run, below, rfl⟩
  · rintro ⟨final, run, below, rfl⟩
    exact ⟨final, run, (), below, rfl⟩

/-- **`flash_setup` accepts exactly the valid layouts**, except for the valid ones in which the
partition without a size has an offset behind the end of the previous one. -/
theorem flashSetup_exact_iff (imageGet : String → Option FlashChild) (flash : FlashType)
    (config : FlashConfig) (type : config.flashType = some flash) (pebs : 0 < flash.pebsize.toInt)
    (count : 0 < flash.numpebs.toInt)
    (noWrap : FlashNoWrap flash.bytes 0 (parsePartitions config.partitions)) :
    FlashExact imageGet flash config ↔
      ¬ ((∃ layout, FlashLayout imageGet flash (parsePartitions config.partitions) layout) ∧
        RestBehindGap 0 (parsePartitions config.partitions)) := by
  have start : FlashScan.last {} = false := rfl
  have sound : ∀ image, flashSetup imageGet config = .ok image →
      ¬ RestBehindGap 0 (parsePartitions config.partitions) ∧ ∃ layout,
        FlashLayout imageGet flash (parsePartitions config.partitions) layout ∧
        image.partitions = List.zipWith Partition.at (parsePartitions config.partitions) layout := by
    intro image accepted
    obtain ⟨final, run, below, rfl⟩ := (flashSetup_iff pebs count type).mp accepted
    obtain ⟨noGap, layout, found⟩ := foldlM_resolved pebs count start (Nat.dvd_zero _) noWrap run below
    exact ⟨noGap, layout, flashLayout_iff.mpr ⟨found.resolved, found.valid, found.fits⟩, found.done⟩
  constructor
  · rintro exactly ⟨valid, gap⟩
    obtain ⟨image, accepted⟩ := exactly.accepted.mpr valid
    exact (sound image accepted).1 gap
  · intro good
    refine ⟨⟨?_, ?_⟩, ?_⟩
    · rintro ⟨image, accepted⟩
      obtain ⟨-, layout, valid, -⟩ := sound image accepted
      exact ⟨layout, valid⟩
    · intro valid
      have noGap := fun gap => good ⟨valid, gap⟩
      obtain ⟨layout, valid⟩ := valid
      obtain ⟨resolved, ranges, fits⟩ := flashLayout_iff.mp valid
      obtain ⟨final, run, below⟩ := foldlM_accepts pebs count start noWrap noGap resolved ranges fits
      exact ⟨_, (flashSetup_iff pebs count type).mpr ⟨final, run, below, rfl⟩⟩
    · intro image accepted
      obtain ⟨-, layout, valid, stored⟩ := sound image accepted
      exact ⟨layout, valid.resolved, stored⟩

/-! ### Configurations -/

/-- A flash of four blocks: a partition of one block, and one without a size at the given offset. -/
def fillConfig (offset : UInt64) : FlashConfig where
  flashType := some ⟨16384, 4⟩
  partitions := [{ title := "boot", size := 16384 }, { title := "data", offset := offset }]

/-- Without a gap the second partition gets the rest of the flash. -/
theorem flashSetup_exact_iff_fill :
    FlashExact (fun _ => none) ⟨16384, 4⟩ (fillConfig 0) ↔
      ¬ ((∃ layout, FlashLayout (fun _ => none) ⟨16384, 4⟩
          (parsePartitions (fillConfig 0).partitions) layout) ∧
        RestBehindGap 0 (parsePartitions (fillConfig 0).partitions)) :=
  flashSetup_exact_iff (fun _ => none) ⟨16384, 4⟩ (fillConfig 0) rfl (by decide) (by decide)
    (by simp [FlashNoWrap, fillConfig, parsePartitions, parsePartition, flashStart, FlashType.bytes,
      FlashType.peb])

/-- With a gap of one block the valid layout is refused. -/
theorem flashSetup_refuses_gap :
    ¬ FlashExact (fun _ => none) ⟨16384, 4⟩ (fillConfig 32768) := by
  intro exactly
  have valid : FlashLayout (fun _ => none) ⟨16384, 4⟩ (parsePartitions (fillConfig 32768).partitions)
      [⟨0, 16384⟩, ⟨32768, 65536⟩] := by
    refine ⟨by decide, by decide, ?_, by decide, ?_⟩
    · exact List.isChain_cons_cons.mpr ⟨by decide, List.isChain_singleton _⟩
    · exact .cons (fun _ named => nomatch named) (.cons (fun _ named => nomatch named) .nil)
  obtain ⟨image, accepted⟩ := exactly.accepted.mpr ⟨_, valid⟩
  have refused : (flashSetup (fun _ => none) (fillConfig 32768)).toOption.isNone = true := by
    decide +kernel
  rw [accepted] at refused
  cases refused

end Whole

end Genimage
