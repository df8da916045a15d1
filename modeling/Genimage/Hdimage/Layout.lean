/-
**The layout is sound.**

`Partition.regions` lists what a partition occupies on the disk: its bytes, and for a logical one
also the sector of its extended boot record. `hdimageSetup_layout` says that the regions of an
accepted layout are pairwise apart and end inside the image.

`LayoutInv` is the invariant of the loop. Primary partitions are checked against every element in
front of them, logical ones against the running end only, and boot records are no list elements at
all; `covered` closes the gap: the `[Extended]` element spans every boot record, and a primary
partition is apart from it.
-/

import Genimage.Hdimage.Origin

namespace Genimage

open Library

variable {env : Env} {hd : Hdimage} {size : UInt64}

/-- The sector of the extended boot record of a logical partition. -/
def Partition.ebrSpan (hd : Hdimage) (part : Partition) : Span Nat :=
  ⟨(part.offset - hd.align).toNat, (part.offset - hd.align).toNat + 512⟩

/-- **The bytes of the image that belong to a partition.** The `[Extended]` element has none of
its own. -/
def Partition.regions (hd : Hdimage) (part : Partition) : List (Span Nat) :=
  if part.node = .extended then []
  else if part.logical then [part.ebrSpan hd, part.span]
  else [part.span]

/-! ### The overlap check -/

theorem imageHasHoleCovering_eq_false (holeless : env.Holeless) (image : Option String)
    (start stop : UInt64) : imageHasHoleCovering env image start stop = false := by
  unfold imageHasHoleCovering
  cases found : image.bind env.imageGet with
  | none => rfl
  | some child =>
    obtain ⟨file, _, known⟩ := Option.bind_eq_some_iff.mp found
    simp only [holeless file child known, List.any_nil]

/-- **`check_overlap` without holes**: the partition is apart from everything in front of it. -/
theorem checkOverlap_ok (holeless : env.Holeless) {part : Partition} (fits : part.Fits) :
    ∀ {done : List Partition}, (∀ other ∈ done, other.Fits) →
      checkOverlap env part done = .ok () → ∀ other ∈ done, part.span.Apart other.span
  | [], _, _ => by simp
  | previous :: rest, fitting, checked => by
    have fits' := fitting previous List.mem_cons_self
    have fitting' := fun other member => fitting other (List.mem_cons_of_mem _ member)
    simp only [checkOverlap, ge_iff_le, UInt64.le_iff_toNat_le, Partition.toNat_partitionEnd fits,
      Partition.toNat_partitionEnd fits', imageHasHoleCovering_eq_false holeless,
      Bool.false_eq_true, if_false] at checked
    rw [List.forall_mem_cons]
    split_ifs at checked with behind before
    · exact ⟨Or.inr behind, checkOverlap_ok holeless fits fitting' checked⟩
    · exact ⟨Or.inl before, checkOverlap_ok holeless fits fitting' checked⟩

/-! ### The running end -/

/-- The running end a partition is placed against leaves room for its boot record. -/
theorem le_runningEnd {now : UInt64} {part : Partition} (fits : StepFits hd now part)
    (nonzero : part.align ≠ 0) :
    now.toNat + (if part.logical then hd.align.toNat else 0) ≤ (runningEnd hd now part).toNat := by
  have reserved : now.toNat + (if part.logical then hd.align.toNat else 0) ≤
      (reserveEbr hd now part).toNat := by
    unfold reserveEbr
    split_ifs with logical
    · have sum := fits.ebr logical
      rw [← toNat_add_of_lt sum.1]
      exact le_roundup nonzero sum.2
    · exact le_rfl
  refine reserved.trans ?_
  show _ ≤ (if part.isFloatingBackup then reserveEbr hd now part + part.size
    else reserveEbr hd now part).toNat
  split_ifs with floating
  · rw [toNat_add_of_lt (fits.backup floating).1]
    exact Nat.le_add_right _ _
  · exact le_rfl

namespace Placed

variable {state next : SetupState} {part placed : Partition}

/-- The running end never goes down, and a logical partition leaves room for its boot record. -/
theorem now_le (step : Placed env hd size state part placed next) (nonzero : hd.align ≠ 0)
    (fits : StepFits hd state.now (part.withAlign hd)) :
    state.now.toNat ≤ next.now.toNat := by
  have := le_runningEnd fits (withAlign_align_ne_zero nonzero part)
  rw [step.now_eq, toNat_maxUll]
  omega

/-- The partition ends at or below the new running end. -/
theorem stop_le (step : Placed env hd size state part placed next) (fits : placed.Fits) :
    placed.span.stop ≤ next.now.toNat := by
  rw [step.now_eq, toNat_maxUll, Partition.toNat_partitionEnd fits]
  exact le_max_left _ _

/-- The boot record of a logical partition starts at or behind the running end. -/
theorem ebr_ge (step : Placed env hd size state part placed next) (nonzero : hd.align ≠ 0)
    (fits : StepFits hd state.now (part.withAlign hd)) (logical : placed.logical = true) :
    state.now.toNat + hd.align.toNat ≤ placed.offset.toNat := by
  have room := le_runningEnd fits (withAlign_align_ne_zero nonzero part)
  have place := step.place
  rw [checkPlace, if_pos logical, failIf_ok, gt_iff_lt, UInt64.not_lt,
    UInt64.le_iff_toNat_le] at place
  rw [show (part.withAlign hd).logical = placed.logical from step.logical_eq.symm,
    if_pos logical] at room
  exact room.trans place

/-- The boot record of a logical partition: behind the running end, in front of the partition. -/
theorem ebr_bounds (step : Placed env hd size state part placed next) (nonzero : hd.align ≠ 0)
    (fits : StepFits hd state.now (part.withAlign hd)) (logical : placed.logical = true)
    (wide : 512 ≤ hd.align.toNat) :
    (placed.ebrSpan hd).start = placed.offset.toNat - hd.align.toNat ∧
      state.now.toNat ≤ (placed.ebrSpan hd).start ∧
      (placed.ebrSpan hd).stop ≤ placed.offset.toNat := by
  have behind := step.ebr_ge nonzero fits logical
  have start : (placed.ebrSpan hd).start = placed.offset.toNat - hd.align.toNat :=
    toNat_sub_of_le (le_of_add_le_right behind)
  refine ⟨start, by omega, ?_⟩
  show (placed.ebrSpan hd).start + 512 ≤ placed.offset.toNat
  omega

/-- A primary partition is apart from every element in front of it. -/
theorem apart (step : Placed env hd size state part placed next) (holeless : env.Holeless)
    (primary : placed.logical = false) (fits : placed.Fits)
    (fitting : ∀ other ∈ state.done, other.Fits) :
    ∀ other ∈ state.done, placed.span.Apart other.span := by
  have place := step.place
  rw [checkPlace, primary, if_neg Bool.false_ne_true] at place
  exact checkOverlap_ok holeless fits fitting place

end Placed

/-! ### Growing the extended partition -/

theorem grow_stop {now : UInt64} {part : Partition} (below : part.span.stop ≤ now.toNat) :
    (part.grow now).span.stop = if part.node = .extended then now.toNat else part.span.stop := by
  have start : part.offset.toNat ≤ now.toNat := (Nat.le_add_right _ _).trans below
  show part.offset.toNat + (if part.node = .extended then now - part.offset else part.size).toNat = _
  split_ifs
  · rw [toNat_sub_of_le start]
    omega
  · rfl

theorem grow_stop_le {now : UInt64} {part : Partition} (below : part.span.stop ≤ now.toNat) :
    (part.grow now).span.stop ≤ now.toNat := by
  rw [grow_stop below]
  split_ifs
  · exact le_rfl
  · exact below

/-- The ends of the elements of a kind stay at or below the running end. -/
theorem Placed.stops_le_of (kind : Partition → Prop)
    (grown : ∀ (now : UInt64) (part : Partition), kind (part.grow now) → kind part)
    {state next : SetupState} {part placed : Partition}
    (step : Placed env hd size state part placed next) (nonzero : hd.align ≠ 0)
    (fits : StepFits hd state.now (part.withAlign hd)) (placedFits : kind placed → placed.Fits)
    (stops : ∀ other ∈ state.done, kind other → other.span.stop ≤ state.now.toNat) :
    ∀ other ∈ next.done, kind other → other.span.stop ≤ next.now.toNat := by
  have below := fun other member this =>
    (stops other member this).trans (step.now_le nonzero fits)
  intro other member this
  obtain ⟨keep, done, ⟨_, rfl⟩ | ⟨_, rfl⟩⟩ := step.done_cases
  all_goals
    rw [done] at member
    rcases List.mem_append.mp member with member | member
  · obtain ⟨old, among, rfl⟩ := List.mem_map.mp member
    exact grow_stop_le (below old among (grown _ _ this))
  · rw [List.mem_singleton.mp member] at this ⊢
    exact step.stop_le (placedFits this)
  · rw [List.map_id] at member
    exact below other member this
  · rw [List.mem_singleton.mp member] at this ⊢
    exact step.stop_le (placedFits this)

/-- The ends of the elements stay at or below the running end. -/
theorem Placed.stops_le {state next : SetupState} {part placed : Partition}
    (step : Placed env hd size state part placed next) (nonzero : hd.align ≠ 0)
    (fits : StepFits hd state.now (part.withAlign hd)) (placedFits : placed.Fits)
    (stops : ∀ other ∈ state.done, other.span.stop ≤ state.now.toNat) :
    ∀ other ∈ next.done, other.span.stop ≤ next.now.toNat := fun other member =>
  step.stops_le_of (fun _ => True) (fun _ _ _ => trivial) nonzero fits (fun _ => placedFits)
    (fun other member _ => stops other member) other member trivial

theorem regions_grow (now : UInt64) (part : Partition) :
    (part.grow now).regions hd = part.regions hd := by
  by_cases extended : part.node = .extended
  · simp [Partition.regions, Partition.grow, extended]
  · simp [Partition.regions, Partition.grow, extended, Partition.span, Partition.ebrSpan]

theorem nodes_done {state next : SetupState} {part placed : Partition}
    (step : Placed env hd size state part placed next) :
    next.done.map (·.node) = state.done.map (·.node) ++ [part.node] := by
  obtain ⟨keep, done, ⟨_, rfl⟩ | ⟨_, rfl⟩⟩ := step.done_cases
  all_goals
    rw [done, List.map_append, List.map_singleton, step.node_eq, List.map_map]
    rfl

theorem regions_done {state next : SetupState} {part placed : Partition}
    (step : Placed env hd size state part placed next) :
    next.done.flatMap (Partition.regions hd) =
      state.done.flatMap (Partition.regions hd) ++ placed.regions hd := by
  obtain ⟨keep, done, ⟨_, rfl⟩ | ⟨_, rfl⟩⟩ := step.done_cases
  all_goals rw [done, List.flatMap_append, List.flatMap_singleton, List.flatMap_map]
  · simp only [regions_grow]
  · rfl

/-! ### The invariant -/

/-- **A logical partition with its boot record lies inside `outer`.** -/
structure Partition.EbrWithin (hd : Hdimage) (part outer : Partition) : Prop where
  wide : 512 ≤ hd.align.toNat
  room : hd.align.toNat ≤ part.offset.toNat
  start : outer.offset.toNat ≤ part.offset.toNat - hd.align.toNat
  stop : part.span.stop ≤ outer.span.stop

namespace Partition.EbrWithin

variable {part outer : Partition}

theorem ebr_start (within : part.EbrWithin hd outer) :
    (part.ebrSpan hd).start = part.offset.toNat - hd.align.toNat :=
  toNat_sub_of_le within.room

/-- The boot record ends at or below its partition. -/
theorem ebr_stop_le (within : part.EbrWithin hd outer) :
    (part.ebrSpan hd).stop ≤ part.span.start := by
  have := within.wide
  have := within.room
  show (part.ebrSpan hd).start + 512 ≤ part.offset.toNat
  rw [within.ebr_start]
  omega

theorem ebr_within (within : part.EbrWithin hd outer) : (part.ebrSpan hd).Within outer.span := by
  refine ⟨?_, within.ebr_stop_le.trans (le_trans (Nat.le_add_right _ _) within.stop)⟩
  rw [within.ebr_start]
  exact within.start

theorem grow {now : UInt64} (within : part.EbrWithin hd outer) (extended : outer.node = .extended)
    (below : part.span.stop ≤ now.toNat) (below' : outer.span.stop ≤ now.toNat) :
    (part.grow now).EbrWithin hd (outer.grow now) := by
  refine ⟨within.wide, within.room, within.start, ?_⟩
  rw [grow_stop below', if_pos extended]
  exact grow_stop_le below

end Partition.EbrWithin

section Covered

variable {passed : List Partition} {state next : SetupState} {part placed : Partition}

/-- The boot record of a new logical partition lies inside an `[Extended]` element. -/
theorem Placed.covered_new (step : Placed env hd size state part placed next)
    (nonzero : hd.align ≠ 0) (fits : StepFits hd state.now (part.withAlign hd))
    (placedFits : placed.Fits) (nodes : state.done.map (·.node) = passed.map (·.node))
    (stops : ∀ other ∈ state.done, other.node = .extended → other.span.stop ≤ state.now.toNat)
    (wide : 512 ≤ hd.align.toNat) (logical : placed.logical = true)
    (extended : ∃ outer ∈ passed, outer.node = .extended) :
    ∃ outer ∈ state.done, outer.node = .extended ∧
      placed.EbrWithin hd (outer.grow next.now) := by
  have among : Node.extended ∈ state.done.map (·.node) := by
    rw [nodes]
    exact List.mem_map.mpr extended
  obtain ⟨outer, member, same⟩ := List.mem_map.mp among
  have below := stops outer member same
  refine ⟨outer, member, same, wide, ?_, ?_, ?_⟩
  · exact le_of_add_le_right (step.ebr_ge nonzero fits logical)
  · obtain ⟨start, behind, _⟩ := step.ebr_bounds nonzero fits logical wide
    rw [← start]
    exact (Nat.le_add_right _ _).trans (below.trans behind)
  · rw [grow_stop (below.trans (step.now_le nonzero fits)), if_pos same]
    exact step.stop_le placedFits

/-- **Every logical partition stays inside `[Extended]`**, the new one and the ones that were there. -/
theorem Placed.covered_step (step : Placed env hd size state part placed next)
    (nonzero : hd.align ≠ 0) (fits : StepFits hd state.now (part.withAlign hd))
    (placedFits : placed.logical = true → placed.Fits)
    (nodes : state.done.map (·.node) = passed.map (·.node))
    (stops : ∀ other ∈ state.done, other.logical = true ∨ other.node = .extended →
      other.span.stop ≤ state.now.toNat)
    (covered : ∀ part ∈ state.done, part.logical = true →
      ∃ outer ∈ state.done, outer.node = .extended ∧ part.EbrWithin hd outer)
    (preceded : part.logical = true →
      512 ≤ hd.align.toNat ∧ ∃ outer ∈ passed, outer.node = .extended) :
    ∀ part ∈ next.done, part.logical = true →
      ∃ outer ∈ next.done, outer.node = .extended ∧ part.EbrWithin hd outer := by
  have below := fun other member kind =>
    (stops other member kind).trans (step.now_le nonzero fits)
  obtain ⟨keep, done, ⟨logical, rfl⟩ | ⟨primary, rfl⟩⟩ := step.done_cases
  all_goals
    rw [done]
    simp only [List.mem_append, List.mem_map, List.mem_singleton]
    rintro _ (⟨other, member, rfl⟩ | rfl) isLogical
  · obtain ⟨outer, member', extended, within⟩ := covered other member isLogical
    exact ⟨outer.grow next.now, Or.inl ⟨outer, member', rfl⟩, extended,
      within.grow extended (below other member (Or.inl isLogical))
        (below outer member' (Or.inr extended))⟩
  · obtain ⟨wide, extended⟩ := preceded (step.logical_eq ▸ logical)
    obtain ⟨outer, member, same, within⟩ :=
      step.covered_new nonzero fits (placedFits logical) nodes
        (fun other among same => stops other among (Or.inr same)) wide logical extended
    exact ⟨outer.grow next.now, Or.inl ⟨outer, member, rfl⟩, same, within⟩
  · obtain ⟨outer, member', extended, within⟩ := covered other member isLogical
    exact ⟨outer, Or.inl ⟨outer, member', rfl⟩, extended, within⟩
  · exact absurd isLogical (by simp [primary])

end Covered

/-- **The invariant of the loop.** -/
structure LayoutInv (hd : Hdimage) (passed : List Partition) (state : SetupState) : Prop where
  nodes : state.done.map (·.node) = passed.map (·.node)
  fits : ∀ part ∈ state.done, part.Fits
  stops : ∀ part ∈ state.done, part.span.stop ≤ state.now.toNat
  apart : (state.done.flatMap (Partition.regions hd)).Pairwise Span.Apart
  covered : ∀ part ∈ state.done, part.logical = true →
    ∃ outer ∈ state.done, outer.node = .extended ∧ part.EbrWithin hd outer
  file : state.fileSize.toNat ≤ state.now.toNat

namespace LayoutInv

variable {passed : List Partition} {state next : SetupState} {part placed : Partition}

/-- Every region lies inside the bytes of some element. -/
theorem region_within (inv : LayoutInv hd passed state) {region : Span Nat}
    (member : region ∈ state.done.flatMap (Partition.regions hd)) :
    ∃ outer ∈ state.done, region.Within outer.span := by
  obtain ⟨part, among, listed⟩ := List.mem_flatMap.mp member
  unfold Partition.regions at listed
  split_ifs at listed with extended logical
  · cases listed
  · rcases List.mem_cons.mp listed with rfl | listed
    · obtain ⟨outer, member', _, within⟩ := inv.covered part among logical
      exact ⟨outer, member', within.ebr_within⟩
    · rw [List.mem_singleton.mp listed]
      exact ⟨part, among, le_rfl, le_rfl⟩
  · rw [List.mem_singleton.mp listed]
    exact ⟨part, among, le_rfl, le_rfl⟩

theorem region_stop_le (inv : LayoutInv hd passed state) {region : Span Nat}
    (member : region ∈ state.done.flatMap (Partition.regions hd)) :
    region.stop ≤ state.now.toNat := by
  obtain ⟨outer, among, within⟩ := inv.region_within member
  exact within.2.trans (inv.stops outer among)

/-- The new partition's regions are pairwise apart, and apart from those in front of it. -/
theorem apart_step (inv : LayoutInv hd passed state) (holeless : env.Holeless)
    (nonzero : hd.align ≠ 0) (step : Placed env hd size state part placed next)
    (fits : StepFits hd state.now (part.withAlign hd)) (placedFits : placed.Fits)
    (wide : placed.logical = true → 512 ≤ hd.align.toNat) :
    (next.done.flatMap (Partition.regions hd)).Pairwise Span.Apart := by
  rw [regions_done step]
  unfold Partition.regions
  split_ifs with extended logical
  · rw [List.append_nil]
    exact inv.apart
  · obtain ⟨_, behind, stop⟩ := step.ebr_bounds nonzero fits logical (wide logical)
    refine Span.pairwise_apart_append inv.apart (List.pairwise_pair.mpr (Or.inl stop)) ?_
    intro region member old among
    have below := inv.region_stop_le among
    refine Or.inr (below.trans ?_)
    rcases List.mem_cons.mp member with rfl | member
    · exact behind
    · rw [List.mem_singleton.mp member]
      exact behind.trans ((Nat.le_add_right _ _).trans stop)
  · refine Span.pairwise_apart_append inv.apart (List.pairwise_singleton _ _) ?_
    intro region member old among
    rw [List.mem_singleton.mp member]
    obtain ⟨outer, among', within⟩ := inv.region_within among
    exact (step.apart holeless (by simpa using logical) placedFits inv.fits outer among').mono within

/-- The data of an image ends inside its partition, so the file does not pass the running end. -/
theorem file_step (inv : LayoutInv hd passed state) (nonzero : hd.align ≠ 0)
    (step : Placed env hd size state part placed next)
    (fits : StepFits hd state.now (part.withAlign hd)) (placedFits : placed.Fits)
    (wide : placed.logical = true → 512 ≤ hd.align.toNat) :
    next.fileSize.toNat ≤ next.now.toNat := by
  have stop := step.stop_le placedFits
  have forward := inv.file.trans (step.now_le nonzero fits)
  obtain ⟨imageEnd, fileSize, imageEq⟩ := step.file_eq
  have small : imageEnd.toNat ≤ next.now.toNat := by
    rw [imageEq]
    cases found : placed.image.bind env.imageGet with
    | none => exact forward
    | some child =>
      obtain ⟨image, named, known⟩ := Option.bind_eq_some_iff.mp found
      obtain ⟨_, same, _, enough⟩ := step.data image named
      rw [known, Option.some.injEq] at same
      subst same
      have enough := UInt64.le_iff_toNat_le.mp enough
      have := placedFits
      unfold Partition.Fits at this
      rw [toNat_maxUll, toNat_add_of_lt (by omega)]
      refine max_le (le_trans ?_ stop) forward
      exact Nat.add_le_add_left enough _
  rw [fileSize]
  split_ifs with logical
  · obtain ⟨_, _, inside⟩ := step.ebr_bounds nonzero fits logical (wide logical)
    have := placed.offset.toNat_lt
    have inside : (placed.offset - hd.align).toNat + 512 ≤ placed.offset.toNat := inside
    rw [toNat_maxUll, toNat_add_of_lt (inside.trans_lt this)]
    exact max_le (inside.trans ((Nat.le_add_right _ _).trans stop)) small
  · exact small

/-- **One step keeps the invariant.** -/
theorem step (inv : LayoutInv hd passed state) (holeless : env.Holeless) (nonzero : hd.align ≠ 0)
    (preceded : part.logical = true →
      512 ≤ hd.align.toNat ∧ ∃ outer ∈ passed, outer.node = .extended)
    (step : Placed env hd size state part placed next)
    (fits : StepFits hd state.now (part.withAlign hd)) (fitting : ∀ other ∈ next.done, other.Fits) :
    LayoutInv hd (passed ++ [part]) next := by
  have placedFits := fitting placed step.mem_done
  have wide := fun logical => (preceded (step.logical_eq ▸ logical)).1
  constructor
  case nodes => rw [nodes_done step, inv.nodes, List.map_append, List.map_singleton]
  case fits => exact fitting
  case apart => exact inv.apart_step holeless nonzero step fits placedFits wide
  case file => exact inv.file_step nonzero step fits placedFits wide
  case stops => exact step.stops_le nonzero fits placedFits inv.stops
  case covered =>
    exact step.covered_step nonzero fits (fun _ => placedFits) inv.nodes
      (fun other member _ => inv.stops other member) inv.covered preceded

end LayoutInv

/-! ### The list in front of the loop -/

theorem logical_of_mem_parsePartitions {sections : List PartitionSection} {part : Partition}
    (member : part ∈ parsePartitions sections) : part.logical = false := by
  obtain ⟨partsec, _, rfl⟩ := List.mem_map.mp member
  rfl

theorem logical_of_mem_tableAreas {tableType : TableType} {gptLocation length : UInt64}
    {part : Partition} (member : part ∈ tableAreas tableType gptLocation length) :
    part.logical = false := by
  unfold tableAreas at member
  split_ifs at member
  · cases member
  · simp only [List.mem_cons, List.not_mem_nil, or_false] at member
    rcases member with rfl | rfl | rfl | rfl <;> rfl
  · rw [List.mem_singleton.mp member]
    rfl

/-- In the new list every logical element comes behind the `[Extended]` element. -/
theorem extendedList_preceded {align : UInt64} {before block rest post passed tail : List Partition}
    {first part : Partition} (plain : ∀ part ∈ before, part.logical = false)
    (split : extendedList align before block rest first ++ post = passed ++ part :: tail)
    (logical : part.logical = true) : ∃ outer ∈ passed, outer.node = .extended := by
  rw [extendedList, List.append_assoc, List.cons_append] at split
  rcases List.append_eq_append_iff.mp split with ⟨more, same, behind⟩ | ⟨more, same, behind⟩
  · cases more with
    | nil =>
      obtain ⟨rfl, _⟩ := List.cons.inj behind
      cases logical
    | cons head more =>
      obtain ⟨rfl, _⟩ := List.cons.inj behind
      exact ⟨extendedPartition align first, by simp [same], rfl⟩
  · cases more with
    | nil =>
      obtain ⟨rfl, _⟩ := List.cons.inj behind
      cases logical
    | cons head more =>
      obtain ⟨rfl, _⟩ := List.cons.inj behind
      rw [plain part (by simp [same])] at logical
      cases logical

namespace Ready

variable {config : HdimageConfig} {prepared : Prepared}

/-- A logical partition comes behind the `[Extended]` element, in an MBR table. -/
theorem preceded (ready : Ready env config prepared) {passed tail : List Partition}
    {part : Partition} (split : prepared.partitions = passed ++ part :: tail)
    (logical : part.logical = true) :
    512 ≤ prepared.hd.align.toNat ∧ ∃ outer ∈ passed, outer.node = .extended := by
  obtain ⟨parts, scanned, list⟩ := ready.list_eq
  rcases setupLogicalPartitions_ok scanned with
    ⟨same, _⟩ | ⟨mbr, before, block, rest, first, same, _, new⟩
  · simp only at same
    have member : part ∈ parts ++ tableAreas prepared.hd.tableType prepared.hd.gptLocation
        prepared.size := by
      rw [← list, split]
      exact List.mem_append_right _ List.mem_cons_self
    rcases List.mem_append.mp member with parsed | area
    · rw [same] at parsed
      rw [logical_of_mem_parsePartitions parsed] at logical
      cases logical
    · rw [logical_of_mem_tableAreas area] at logical
      cases logical
  · simp only at new
    refine ⟨ready.align_ge (by rw [mbr]; decide), ?_⟩
    have plain : ∀ part ∈ before, part.logical = false := fun part member =>
      logical_of_mem_parsePartitions (show part ∈ parsePartitions config.partitions by
        simp [same, member])
    have whole : extendedList prepared.hd.align before block rest first ++
        tableAreas prepared.hd.tableType prepared.hd.gptLocation prepared.size =
        passed ++ part :: tail := by
      rw [← new, ← list, split]
    exact extendedList_preceded plain whole logical

/-- **The invariant holds all along the loop.** -/
theorem layoutInv (ready : Ready env config prepared) (holeless : env.Holeless)
    {passed rest : List Partition} {state : SetupState} (split : prepared.partitions = passed ++ rest)
    (fits : RunFits env prepared.hd prepared.size prepared.start passed)
    (run : passed.foldlM (setupPart env prepared.hd prepared.size) prepared.start = .ok state) :
    LayoutInv prepared.hd passed state := by
  refine fitting_invariant (LayoutInv prepared.hd) ?_ ?_ fits run
  · exact ⟨rfl, by simp [Prepared.start], by simp [Prepared.start], by simp [Prepared.start],
      by simp [Prepared.start], le_rfl⟩
  · intro done part tail state placed next among inv step fits fitting
    rw [among, List.append_assoc, List.cons_append] at split
    exact inv.step holeless ready.align_ne_zero (ready.preceded split) step fits fitting

end Ready

/-! ### The layout -/

/-- **A sound layout**: the regions of the partition list are pairwise apart and lie inside the
image, the file does not pass the image, and the list has every partition of the configuration and
every area of the table. -/
structure LayoutSound (config : HdimageConfig) (layout : Layout) : Prop where
  apart : (layout.partitions.flatMap (Partition.regions layout.hd)).Pairwise Span.Apart
  inside : ∀ region ∈ layout.partitions.flatMap (Partition.regions layout.hd),
    region.stop ≤ layout.size.toNat
  file : layout.fileSize.toNat ≤ layout.size.toNat
  partitions : (userPartitions layout.partitions).map (·.name) = config.partitions.map (·.title)
  mbr : layout.hd.tableType ≠ .none → mbrArea ∈ layout.partitions
  gpt : layout.hd.tableType.hasGpt = true → gptHeaderArea ∈ layout.partitions ∧
    gptArrayArea layout.hd.gptLocation ∈ layout.partitions ∧
    ∃ backup ∈ layout.partitions, backup.node = .gptBackup ∧ backup.size = gptSectors * 512

/-- The areas of the table are in the final list. -/
theorem areas_mem {prepared : Prepared} {config : HdimageConfig} {partitions : List Partition}
    (ready : Ready env config prepared)
    (origins : List.Forall₂ (Origin env prepared.hd prepared.size) prepared.partitions partitions) :
    (prepared.hd.tableType ≠ .none → mbrArea ∈ partitions) ∧
    (prepared.hd.tableType.hasGpt = true → gptHeaderArea ∈ partitions ∧
      gptArrayArea prepared.hd.gptLocation ∈ partitions ∧
      ∃ backup ∈ partitions, backup.node = .gptBackup ∧ backup.size = gptSectors * 512) := by
  obtain ⟨parts, _, list⟩ := ready.list_eq
  have partner : ∀ area ∈ tableAreas prepared.hd.tableType prepared.hd.gptLocation prepared.size,
      ∃ placed ∈ partitions, Origin env prepared.hd prepared.size area placed := fun area member =>
    Related.exists_right origins (by rw [list]; exact List.mem_append_right _ member)
  have kept : ∀ node name offset length, node ≠ .extended → offset ≠ 0 → length ≠ 0 →
      fakePartition node name offset length ∈
        tableAreas prepared.hd.tableType prepared.hd.gptLocation prepared.size →
      fakePartition node name offset length ∈ partitions := by
    intro node name offset length other explicit nonempty member
    obtain ⟨placed, among, origin⟩ := partner _ member
    rwa [origin_fakePartition origin other explicit nonempty] at among
  constructor
  · intro table
    refine kept _ _ _ _ (by decide) (by decide) (by decide) ?_
    rw [tableAreas, if_neg table]
    split_ifs <;> exact List.mem_cons_self
  · intro gpt
    have areas : tableAreas prepared.hd.tableType prepared.hd.gptLocation prepared.size =
        [mbrArea, gptHeaderArea, gptArrayArea prepared.hd.gptLocation,
          gptBackupArea prepared.size] := by
      rw [tableAreas, if_neg (by rintro none; rw [none] at gpt; cases gpt), if_pos gpt]
    refine ⟨kept _ _ _ _ (by decide) (by decide) (by decide) ?_,
      kept _ _ _ _ (by decide) ready.gptLocation_ne_zero (by decide) ?_, ?_⟩
    · rw [areas]
      simp [gptHeaderArea]
    · rw [areas]
      simp [gptArrayArea]
    · obtain ⟨backup, among, origin⟩ := partner (gptBackupArea prepared.size) (by simp [areas])
      exact ⟨backup, among, origin.node_eq,
        origin.size_explicit (by rw [origin.node_eq]; exact nofun)
          (show gptSectors * 512 ≠ 0 by decide) rfl⟩

/-- The areas of the table are in an accepted layout. -/
theorem setup_areas {config : HdimageConfig} {layout : Layout}
    (accepted : hdimageSetup env config = .ok layout) :
    (layout.hd.tableType ≠ .none → mbrArea ∈ layout.partitions) ∧
    (layout.hd.tableType.hasGpt = true → gptHeaderArea ∈ layout.partitions ∧
      gptArrayArea layout.hd.gptLocation ∈ layout.partitions ∧
      ∃ backup ∈ layout.partitions, backup.node = .gptBackup ∧ backup.size = gptSectors * 512) := by
  obtain ⟨prepared, state, _, ready, loop, finished⟩ := hdimageSetup_ok accepted
  rw [finished.hd_eq, finished.partitions_eq]
  exact areas_mem ready (loop_origins rfl loop)

/-- The invariant of the loop behind an accepted layout. -/
theorem setup_layoutInv {config : HdimageConfig} {layout : Layout} (holeless : env.Holeless)
    (noWrap : NoWrap env config) (accepted : hdimageSetup env config = .ok layout) :
    ∃ prepared state, Finished prepared state layout ∧
      LayoutInv prepared.hd prepared.partitions state := by
  obtain ⟨prepared, state, run, ready, loop, finished⟩ := hdimageSetup_ok accepted
  exact ⟨prepared, state, finished,
    ready.layoutInv holeless (List.append_nil _).symm (noWrap.runFits run) loop⟩

/-- The regions of an accepted layout are apart. -/
theorem setup_apart {config : HdimageConfig} {layout : Layout} (holeless : env.Holeless)
    (noWrap : NoWrap env config) (accepted : hdimageSetup env config = .ok layout) :
    (layout.partitions.flatMap (Partition.regions layout.hd)).Pairwise Span.Apart := by
  obtain ⟨prepared, state, finished, inv⟩ := setup_layoutInv holeless noWrap accepted
  rw [finished.partitions_eq, finished.hd_eq]
  exact inv.apart

/-- **`hdimage_setup` lays out partitions, boot records and table areas without overlap**, when no
image declares a hole and no sum wraps. -/
theorem hdimageSetup_layout {config : HdimageConfig} {layout : Layout} (holeless : env.Holeless)
    (noWrap : NoWrap env config) (accepted : hdimageSetup env config = .ok layout) :
    LayoutSound config layout := by
  obtain ⟨prepared, state, finished, inv⟩ := setup_layoutInv holeless noWrap accepted
  obtain ⟨mbr, gpt⟩ := setup_areas accepted
  obtain ⟨_, _, _, sections⟩ := setup_sections accepted
  have size := finished.now_le
  constructor
  case apart => exact setup_apart holeless noWrap accepted
  case inside =>
    rw [finished.partitions_eq, finished.hd_eq]
    exact fun region member => (inv.region_stop_le member).trans size
  case file =>
    rw [finished.fileSize_eq]
    split_ifs
    · exact le_rfl
    · exact inv.file.trans size
  case partitions =>
    refine (Related.map_eq sections ?_).symm
    rintro partsec placed ⟨_, ⟨_, rfl⟩, origin⟩
    exact origin.name_eq.symm
  case mbr => exact mbr
  case gpt => exact gpt

/-- Two primary partitions, two logical ones and a boot loader behind the table. -/
def logicalConfig : HdimageConfig where
  size := 4194304
  options := { extendedPartition := 2, align := 1024 }
  partitions := [
    { title := "boot", offset := 1048576, size := 65536, partitionType := 0x0C, bootable := true },
    { title := "loader", offset := 512, size := 8192, inPartitionTable := false, sparse := false },
    { title := "root", size := 65536, partitionType := 0x83 },
    { title := "data", size := 65536, align := 4096, partitionType := 0x83 },
    { title := "home", offset := 2097152, size := 65536, partitionType := 0x83,
      forcedPrimary := true }]

theorem hdimageSetup_layout_logicalConfig :
    ∃ layout, hdimageSetup .bare logicalConfig = .ok layout ∧ LayoutSound logicalConfig layout := by
  obtain ⟨layout, accepted, _⟩ := exists_layout .bare logicalConfig (fun _ => true)
    (by decide +kernel)
  exact ⟨layout, accepted, hdimageSetup_layout Env.bare_holeless (by decide +kernel) accepted⟩

end Genimage
