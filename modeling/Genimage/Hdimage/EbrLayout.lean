/-
**Where the extended boot records are.**

The record of a logical partition is one image alignment in front of it. `EbrLayout` has what a reader
of the records relies on: there is one `[Extended]` element, every record lies inside it, and the
records are apart. Declared holes make no difference, since a logical partition is only compared with
the running end. `RecordsInside` is the part of it that a wrapped sum can spoil. That the first record
is where the element starts is not among it: the alignment of the first logical partition decides
(`setup_first`).
-/

import Genimage.Hdimage.ExtendedRange
import Genimage.Hdimage.Tables

namespace Genimage

open Library

variable {env : Env} {hd : Hdimage} {size : UInt64} {config : HdimageConfig} {prepared : Prepared}
  {layout : Layout}

/-! ### One step -/

section Step

variable {state next : SetupState} {part placed first : Partition}

/-- The `[Extended]` element enters without a size. -/
theorem Placed.extended_size (step : Placed env hd size state part placed next)
    (extended : part = extendedPartition hd.align first) : placed.size = 0 := by
  subst extended
  have image : placed.image = none := step.image_eq
  have autoresize : placed.autoresize = false := step.autoresize_eq
  cases step.size_rule with
  | autoresize on => exact absurd on (by simp [autoresize])
  | option _ set => exact absurd rfl set
  | unset _ _ _ zero => exact zero
  | data _ _ _ _ found => exact absurd found (by simp [image])

/-- The `[Extended]` element does not start at `0`. -/
theorem Placed.extended_offset (step : Placed env hd size state part placed next)
    (nonzero : hd.align ≠ 0) (fits : StepFits hd state.now (part.withAlign hd))
    (mbr : hd.tableType = .mbr) (extended : part = extendedPartition hd.align first)
    (behind : 512 ≤ state.now.toNat) : placed.offset ≠ 0 := by
  subst extended
  by_cases explicit : ((extendedPartition hd.align first).withAlign hd).offset = 0
  · have inTable : ((extendedPartition hd.align first).withAlign hd).inPartitionTable = true := by
      simp [Partition.withAlign, extendedPartition, mbr]
    have above := le_roundup (withAlign_align_ne_zero nonzero (extendedPartition hd.align first))
      (fits.automatic explicit (Or.inl inTable))
    have running : runningEnd hd state.now ((extendedPartition hd.align first).withAlign hd) =
      state.now := rfl
    rw [running] at above
    rw [step.offset_eq, chosenOffset_automatic _ explicit (fun wrong => by cases wrong)
      (Or.inl inTable), running, ← toNat_pos]
    omega
  · rw [step.offset_eq, chosenOffset_explicit _ explicit]
    exact explicit

/-- What a step leaves of the elements in front of it: everything but the size of `[Extended]`, and
that too behind a primary one. -/
theorem Placed.done_kept (step : Placed env hd size state part placed next) :
    ∃ keep : Partition → Partition, next.done = state.done.map keep ++ [placed] ∧ ∀ old,
      (keep old).node = old.node ∧ (keep old).logical = old.logical ∧
      (keep old).offset = old.offset ∧ (old.node ≠ .extended → keep old = old) ∧
      (placed.logical = false → keep old = old) := by
  obtain ⟨keep, done, ⟨logical, rfl⟩ | ⟨_, rfl⟩⟩ := step.done_cases
  · refine ⟨_, done, fun old => ⟨rfl, rfl, rfl, grow_eq_self _, fun primary => ?_⟩⟩
    rw [logical] at primary
    cases primary
  · exact ⟨_, done, fun old => ⟨rfl, rfl, rfl, fun _ => rfl, fun _ => rfl⟩⟩

end Step

/-! ### The list in front of the loop -/

namespace Ready

/-- What the list has besides partitions of the configuration and areas of the table. -/
theorem extended_eq {part : Partition} (ready : Ready env config prepared)
    (member : part ∈ prepared.partitions) (extended : part.node = .extended) :
    prepared.hd.tableType = .mbr ∧ ∃ first, part = extendedPartition prepared.hd.align first := by
  obtain ⟨parts, scanned, list⟩ := ready.list_eq
  rw [list] at member
  rcases List.mem_append.mp member with parsed | area
  · rcases setupLogicalPartitions_mem scanned parsed with ⟨_, _, _, rfl⟩ | new
    · cases extended
    · exact new
  · exact absurd extended (node_of_mem_tableAreas area).1

/-- A logical partition is in the table. -/
theorem logical_inTable {part : Partition} (ready : Ready env config prepared)
    (member : part ∈ prepared.partitions) (logical : part.logical = true) :
    part.inPartitionTable = true := by
  obtain ⟨parts, scanned, list⟩ := ready.list_eq
  have parsed : part ∉ parsePartitions config.partitions := fun among => by
    rw [logical_of_mem_parsePartitions among] at logical
    cases logical
  rw [list] at member
  rcases List.mem_append.mp member with among | area
  · rcases setupLogicalPartitions_ok scanned with
      ⟨same, _⟩ | ⟨_, before, block, rest, first, same, _, new⟩
    · exact absurd (show part ∈ _ from same ▸ among) parsed
    · simp only at new
      rw [same] at parsed
      rw [new, extendedList, List.mem_append, List.mem_cons, List.mem_append, List.mem_map] at among
      rcases among with front | rfl | ⟨plain, inside, rfl⟩ | behind
      · exact absurd (by simp [front]) parsed
      · cases logical
      · have primary : plain.logical = false :=
          logical_of_mem_parsePartitions (by rw [same]; simp [inside])
        rw [Partition.markLogical, Partition.withLogical_logical, primary, Bool.false_or] at logical
        exact logical
      · exact absurd (by simp [behind]) parsed
  · rw [logical_of_mem_tableAreas area] at logical
    cases logical

/-- **The list is cut at the `[Extended]` element.** -/
theorem extended_cut (ready : Ready env config prepared)
    (extended : ∃ part ∈ prepared.partitions, part.node = .extended) :
    ∃ before ext rest first, prepared.partitions = before ++ ext :: rest ∧
      (∀ part ∈ before, part.node ≠ .extended) ∧ BehindExtended prepared.hd ext first rest := by
  have some : prepared.partitions.dropWhile (·.node ≠ .extended) ≠ [] := by
    obtain ⟨part, member, same⟩ := extended
    rw [ne_eq, List.dropWhile_eq_nil_iff]
    exact fun none => of_decide_eq_true (none part member) same
  obtain ⟨ext, rest, cut⟩ := List.exists_cons_of_ne_nil some
  obtain ⟨first, behind⟩ := ready.behindExtended cut
  refine ⟨prepared.partitions.takeWhile (·.node ≠ .extended), ext, rest, first, ?_, ?_, behind⟩
  · rw [← cut, List.takeWhile_append_dropWhile]
  · exact fun part member => by simpa using List.mem_takeWhile_imp member

/-- In front of the `[Extended]` element there is no logical partition. -/
theorem primary_before (ready : Ready env config prepared) {before rest : List Partition}
    {ext part : Partition} (split : prepared.partitions = before ++ ext :: rest)
    (fresh : ∀ part ∈ before, part.node ≠ .extended) (member : part ∈ before) :
    part.logical = false := by
  by_contra logical
  obtain ⟨front, back, rfl⟩ := List.append_of_mem member
  rw [List.append_assoc, List.cons_append] at split
  obtain ⟨_, outer, among, extended⟩ := ready.preceded split (by simpa using logical)
  exact fresh outer (by simp [among]) extended

end Ready

/-! ### The loop -/

theorem loop_nodes {parts : List Partition} {start final : SetupState} (blank : start.done = [])
    (run : parts.foldlM (setupPart env hd size) start = .ok final) :
    final.done.map (·.node) = parts.map (·.node) := by
  refine loop_invariant (fun passed state => state.done.map (·.node) = passed.map (·.node))
    (by rw [blank]) ?_ run
  intro done part rest state placed next _ same step
  rw [nodes_done step, same, List.map_append, List.map_singleton]

/-- **`[Extended]` only grows with a logical partition.** -/
theorem Ready.loop_unsized (ready : Ready env config prepared) {final : SetupState}
    (run : prepared.partitions.foldlM (setupPart env prepared.hd prepared.size) prepared.start =
      .ok final) (primary : ∀ part ∈ final.done, part.logical = false) :
    ∀ part ∈ final.done, part.node = .extended → part.size = 0 := by
  refine loop_invariant (fun _ state => (∀ part ∈ state.done, part.logical = false) →
    ∀ part ∈ state.done, part.node = .extended → part.size = 0) ?_ ?_ run primary
  · intro _ part member
    cases member
  · intro passed part rest state placed next split unsized step primary other member isExtended
    obtain ⟨keep, done, kept⟩ := step.done_kept
    rw [done] at primary member
    have primary' : placed.logical = false := primary placed (by simp)
    rcases List.mem_append.mp member with member | member
    · obtain ⟨old, among, rfl⟩ := List.mem_map.mp member
      rw [(kept old).2.2.2.2 primary'] at isExtended ⊢
      refine unsized (fun part inside => ?_) old among isExtended
      rw [← (kept part).2.1]
      exact primary _ (List.mem_append_left _ (List.mem_map_of_mem inside))
    · rw [List.mem_singleton.mp member] at isExtended ⊢
      have among : part ∈ prepared.partitions := by
        rw [split]
        exact List.mem_append_right _ List.mem_cons_self
      obtain ⟨_, first, same⟩ := ready.extended_eq among (step.node_eq ▸ isExtended)
      exact step.extended_size same

/-! ### The first logical partition -/

/-- What no later step changes of an element. -/
def Partition.fixed (part : Partition) : Node × Bool × UInt64 × UInt64 × Bool × UInt64 :=
  (part.node, part.logical, part.offset, part.align, part.inPartitionTable,
    if part.node = .extended then 0 else part.size)

theorem fixed_grow (now : UInt64) (part : Partition) : (part.grow now).fixed = part.fixed := by
  by_cases extended : part.node = .extended
  · simp [Partition.fixed, Partition.grow, extended]
  · rw [grow_eq_self now extended]

theorem Placed.fixed_done {state next : SetupState} {part placed : Partition}
    (step : Placed env hd size state part placed next) :
    next.done.map Partition.fixed = state.done.map Partition.fixed ++ [placed.fixed] := by
  obtain ⟨keep, same, ⟨_, rfl⟩ | ⟨_, rfl⟩⟩ := step.done_cases
  all_goals rw [same, List.map_append, List.map_map]
  · exact congrArg (· ++ _) (List.map_congr_left fun part _ => fixed_grow next.now part)
  · rfl

theorem loop_fixed {parts : List Partition} {start final : SetupState}
    (run : parts.foldlM (setupPart env hd size) start = .ok final) :
    start.done.map Partition.fixed <+: final.done.map Partition.fixed := by
  refine loop_invariant
    (fun _ state => start.done.map Partition.fixed <+: state.done.map Partition.fixed)
    List.prefix_rfl ?_ run
  intro done part rest state placed next _ front step
  rw [step.fixed_done]
  exact front.trans (List.prefix_append _ _)

/-- **The first logical partition is one alignment behind `[Extended]`**, when its own alignment divides
that place and it is not in front of it. If the rounding of the element had wrapped, it would start
at `0`. -/
theorem BehindExtended.first_place {start first ext placed : Partition} {rest : List Partition}
    {state middle next : SetupState} (behind : BehindExtended hd start first rest)
    (nonzero : hd.align ≠ 0) (step : Placed env hd size state start ext middle)
    (step' : Placed env hd size middle (first.withLogical true) placed next)
    (positive : 0 < ext.offset.toNat) (room : hd.align.toNat ≤ placed.offset.toNat)
    (inside : ext.offset.toNat ≤ placed.offset.toNat - hd.align.toNat)
    (aligned : placed.align.toNat ∣ ext.offset.toNat + hd.align.toNat) :
    ext.offset.toNat + hd.align.toNat = placed.offset.toNat := by
  have entered := behind.placed nonzero step
  by_cases automatic : first.offset = 0
  · have offset := entered.automatic automatic
    have below : state.now.toNat ≤ ext.offset.toNat := by
      by_contra wrapped
      have small : ext.offset.toNat < hd.align.toNat := by
        rw [offset] at wrapped ⊢
        exact roundup_lt_of_wrapped nonzero (not_le.mp wrapped)
      have same : ext.align = hd.align := by
        rw [step.align_eq, behind.ext_eq]
        exact if_pos nonzero
      have dvd := step.offset_dvd
      rw [same] at dvd
      exact absurd (Nat.le_of_dvd positive dvd) (not_le.mpr small)
    have word := placed.offset.toNat_lt
    have sum : (middle.now + hd.align).toNat = ext.offset.toNat + hd.align.toNat := by
      rw [toNat_add_of_lt] <;> rw [entered.now_eq, max_eq_left below]
      omega
    have some : middle.now + hd.align ≠ 0 := by
      rw [← toNat_pos, sum]
      omega
    have member : ((first.withLogical true).withAlign hd).inPartitionTable = true := by
      simp [Partition.withAlign, behind.mbr, behind.first_inTable]
    have running : runningEnd hd middle.now ((first.withLogical true).withAlign hd) =
        roundup (middle.now + hd.align) ((first.withLogical true).withAlign hd).align := by
      have grounded : ¬ ((first.withLogical true).withAlign hd).isFloatingBackup :=
        fun floating => by cases behind.first_parsed.symm.trans floating.1
      rw [runningEnd, placeBackup, if_neg grounded]
      rfl
    have chosen : chosenOffset hd middle.now ((first.withLogical true).withAlign hd) = _ :=
      chosenOffset_automatic _ automatic (by simp [Partition.withAlign, behind.first_parsed])
        (Or.inl member)
    have dvd : ((first.withLogical true).withAlign hd).align.toNat ∣
        (middle.now + hd.align).toNat := by
      rw [sum]
      exact step'.align_eq ▸ aligned
    rw [step'.offset_eq, chosen, running, roundup_of_dvd some dvd, roundup_of_dvd some dvd, sum]
  · have given : placed.offset = first.offset :=
      step'.offset_eq.trans (chosenOffset_explicit _ automatic)
    rw [given] at room inside ⊢
    have difference := toNat_sub_of_le room
    by_cases zero : first.offset - hd.align = 0
    · rw [eq_zero_iff, difference] at zero
      omega
    · rw [entered.explicit automatic zero, difference]
      omega

/-- **The run at the first logical partition**: the element `[Extended]`, the partition, and nothing of
the kind in front of them. -/
theorem Ready.first_fixed (ready : Ready env config prepared) {final : SetupState}
    (loop : prepared.partitions.foldlM (setupPart env prepared.hd prepared.size) prepared.start =
      .ok final) (logical : ∃ part ∈ prepared.partitions, part.logical = true) :
    ∃ (front : List Partition) (ext first : Partition),
      (front ++ [ext, first]).map Partition.fixed <+: final.done.map Partition.fixed ∧
      (∀ part ∈ front, part.node ≠ .extended ∧ part.logical = false) ∧
      ext.node = .extended ∧ ext.logical = false ∧ first.logical = true ∧
      (0 < ext.offset.toNat → prepared.hd.align.toNat ≤ first.offset.toNat →
        ext.offset.toNat ≤ first.offset.toNat - prepared.hd.align.toNat →
        first.align.toNat ∣ ext.offset.toNat + prepared.hd.align.toNat →
        ext.offset.toNat + prepared.hd.align.toNat = first.offset.toNat) := by
  have nonzero := ready.align_ne_zero
  obtain ⟨other, member, isLogical⟩ := logical
  have extended : ∃ part ∈ prepared.partitions, part.node = .extended := by
    obtain ⟨front, back, split⟩ := List.append_of_mem member
    obtain ⟨_, outer, among, same⟩ := ready.preceded split isLogical
    exact ⟨outer, by simp [split, among], same⟩
  obtain ⟨before, ext, rest, first, whole, fresh, behind⟩ := ready.extended_cut extended
  have opens : ∃ more, rest = first.withLogical true :: more := by
    refine behind.opens.resolve_left fun none => ?_
    rw [whole, List.mem_append, List.mem_cons] at member
    rcases member with member | rfl | member
    · rw [ready.primary_before whole fresh member] at isLogical
      cases isLogical
    · rw [behind.ext_eq] at isLogical
      cases isLogical
    · rw [none other member] at isLogical
      cases isLogical
  obtain ⟨more, rfl⟩ := opens
  rw [whole] at loop
  obtain ⟨state, front, loop⟩ := foldlM_append_ok.mp loop
  rw [List.foldlM_cons, do_eq_ok] at loop
  obtain ⟨middle, taken, loop⟩ := loop
  obtain ⟨placed, step⟩ := setupPart_ok taken
  rw [List.foldlM_cons, do_eq_ok] at loop
  obtain ⟨next, taken', loop⟩ := loop
  obtain ⟨placed', step'⟩ := setupPart_ok taken'
  refine ⟨state.done, placed, placed', ?_, ?_, ?_, (behind.placed nonzero step).primary,
    step'.logical_eq, behind.first_place nonzero step step'⟩
  · have places := loop_fixed loop
    rw [step'.fixed_done, step.fixed_done, List.append_assoc] at places
    rw [List.map_append]
    exact places
  · intro part among
    obtain ⟨origin, member, related⟩ := Related.exists_left (loop_origins rfl front) among
    rw [related.node_eq, related.logical_eq]
    exact ⟨fresh origin member, ready.primary_before whole fresh member⟩
  · rw [step.node_eq, behind.ext_eq]
    rfl

/-! ### The layout -/

/-- **The partitions of the table and the boot records lie in the image**, the records in an `[Extended]`
element and apart. A wrapped sum can spoil it. -/
structure RecordsInside (layout : Layout) : Prop where
  stops : ∀ part ∈ layout.partitions, part.inPartitionTable = true →
    part.span.stop ≤ layout.size.toNat
  behind : ∀ part ∈ layout.partitions, part.node = .extended → 0 < part.offset.toNat
  within : ∀ part ∈ layout.partitions, part.logical = true →
    ∃ outer ∈ layout.partitions, outer.node = .extended ∧ part.EbrWithin layout.hd outer
  apart : layout.partitions.Pairwise fun part next => part.logical = true → next.logical = true →
    part.offset.toNat + 512 ≤ next.offset.toNat ∨ next.offset.toNat + 512 ≤ part.offset.toNat

/-- **What a reader of the boot records relies on.** -/
structure EbrLayout (layout : Layout) (ext : Partition) : Prop where
  mbr : layout.hd.tableType = .mbr
  wide : 512 ≤ layout.hd.align.toNat
  whole : 512 ∣ layout.hd.align.toNat
  mem : ext ∈ layout.partitions
  only : ∀ part ∈ layout.partitions, part.node = .extended ↔ part = ext
  entry : ext.inPartitionTable = true ∧ ext.logical = false ∧
    ext.partitionType = partitionTypeExtended
  place : extendedOffset layout.partitions = ext.offset
  sector : 512 ∣ ext.offset.toNat
  positive : 0 < ext.offset.toNat
  stops : ∀ part ∈ layout.partitions, part.inPartitionTable = true →
    part.span.stop ≤ layout.size.toNat
  within : ∀ part ∈ layout.partitions, part.logical = true → part.EbrWithin layout.hd ext
  apart : layout.partitions.Pairwise fun part next => part.logical = true → next.logical = true →
    part.offset.toNat + 512 ≤ next.offset.toNat ∨ next.offset.toNat + 512 ≤ part.offset.toNat
  empty : (∀ part ∈ layout.partitions, part.logical = false) → ext.size = 0
  table : ∀ part ∈ layout.partitions, part.logical = true → part.inPartitionTable = true
  sizes : ∀ part ∈ layout.partitions, part.inPartitionTable = true → part ≠ ext →
    0 < part.size.toNat ∧ 512 ∣ part.size.toNat

/-- **Every accepted layout with an `[Extended]` element is one**, when its records are inside. -/
theorem setup_ebrLayout (accepted : hdimageSetup env config = .ok layout)
    (extended : ∃ part ∈ layout.partitions, part.node = .extended) (inside : RecordsInside layout) :
    ∃ ext, EbrLayout layout ext := by
  obtain ⟨prepared, final, prep, ready, loop, finished⟩ := hdimageSetup_ok accepted
  have origins := loop_origins rfl loop
  rw [← finished.partitions_eq] at origins
  have given : ∃ part ∈ prepared.partitions, part.node = .extended := by
    obtain ⟨placed, member, same⟩ := extended
    obtain ⟨part, among, origin⟩ := Related.exists_left origins member
    exact ⟨part, among, origin.node_eq ▸ same⟩
  obtain ⟨before, part, rest, first, whole, fresh, behind⟩ := ready.extended_cut given
  have table : prepared.hd.tableType ≠ .none := by
    rw [behind.mbr]
    decide
  -- the final list is cut where the list in front of the loop is
  have nodes : layout.partitions.map (·.node) =
      before.map (·.node) ++ part.node :: rest.map (·.node) := by
    rw [finished.partitions_eq, loop_nodes rfl loop, whole, List.map_append, List.map_cons]
  obtain ⟨earlier, behind', split, front, back⟩ := List.map_eq_append_iff.mp nodes
  obtain ⟨ext, later, rfl, node, back⟩ := List.map_eq_cons_iff.mp back
  have others : ∀ other ∈ earlier ++ later, other.node ≠ .extended := by
    intro other member
    rcases List.mem_append.mp member with member | member
    · obtain ⟨old, among, same⟩ := List.mem_map.mp (front ▸ List.mem_map_of_mem member)
      rw [← same]
      exact fresh old among
    · obtain ⟨old, among, same⟩ := List.mem_map.mp (back ▸ List.mem_map_of_mem member)
      rw [← same]
      exact behind.others old among
  have isExtended : ext.node = .extended := by
    rw [node, behind.ext_eq]
    rfl
  have mem : ext ∈ layout.partitions := by simp [split]
  have only : ∀ other ∈ layout.partitions, other.node = .extended ↔ other = ext := by
    intro other member
    refine ⟨fun same => ?_, fun same => same ▸ isExtended⟩
    rw [split, List.mem_append, List.mem_cons] at member
    rcases member with member | rfl | member
    · exact absurd same (others other (by simp [member]))
    · rfl
    · exact absurd same (others other (by simp [member]))
  obtain ⟨entered, among, origin⟩ := Related.exists_left origins mem
  obtain ⟨_, first', same⟩ := ready.extended_eq among (origin.node_eq ▸ isExtended)
  have aligned : ext.align = prepared.hd.align := by
    rw [origin.align_eq, same]
    exact if_pos ready.align_ne_zero
  refine ⟨ext, ?_⟩
  constructor
  case mbr => rw [finished.hd_eq, behind.mbr]
  case wide =>
    rw [finished.hd_eq]
    exact ready.align_ge table
  case whole =>
    rw [finished.hd_eq]
    exact ready.sectors table
  case mem => exact mem
  case only => exact only
  case entry =>
    refine ⟨?_, ?_, ?_⟩
    · rw [origin.inTable_eq table, same]
      rfl
    · rw [origin.logical_eq, same]
      rfl
    · rw [origin.kept, same]
      rfl
  case place =>
    have none : earlier.find? (·.node = .extended) = Option.none :=
      List.find?_eq_none.mpr fun other member => by simp [others other (by simp [member])]
    rw [extendedOffset, split, List.find?_append, none, Option.none_or,
      List.find?_cons_of_pos (by simp [isExtended])]
    rfl
  case sector => exact (ready.sectors table).trans (aligned ▸ origin.offset_dvd)
  case positive => exact inside.behind ext mem isExtended
  case stops => exact inside.stops
  case within =>
    intro other member logical
    obtain ⟨outer, among, same, within⟩ := inside.within other member logical
    rwa [(only outer among).mp same] at within
  case apart => exact inside.apart
  case empty =>
    rw [finished.partitions_eq] at mem ⊢
    exact fun primary => ready.loop_unsized loop primary ext mem isExtended
  case table =>
    intro other member logical
    obtain ⟨part, among, origin⟩ := Related.exists_left origins member
    rw [origin.inTable_eq table]
    exact ready.logical_inTable among (origin.logical_eq ▸ logical)
  case sizes =>
    intro other member inTable plain
    obtain ⟨part, among, origin⟩ := Related.exists_left origins member
    obtain ⟨_, nonzero, sectors, _⟩ := origin.sized fun same => plain ((only other member).mp same)
    exact ⟨toNat_pos.mpr nonzero, sectors inTable⟩

/-- **The first logical partition is where the `[Extended]` element wants it**, when its alignment
divides that place. -/
theorem setup_first {ext first : Partition} (records : EbrLayout layout ext)
    (accepted : hdimageSetup env config = .ok layout)
    (found : layout.partitions.find? (·.logical) = some first)
    (aligned : first.align.toNat ∣
      (extendedOffset layout.partitions).toNat + layout.hd.align.toNat) :
    (extendedOffset layout.partitions).toNat + layout.hd.align.toNat = first.offset.toNat := by
  obtain ⟨prepared, final, prep, ready, loop, finished⟩ := hdimageSetup_ok accepted
  have logical : ∃ part ∈ prepared.partitions, part.logical = true := by
    rw [finished.partitions_eq] at found
    obtain ⟨part, among, origin⟩ :=
      Related.exists_left (loop_origins rfl loop) (List.mem_of_find?_eq_some found)
    refine ⟨part, among, ?_⟩
    rw [← origin.logical_eq]
    exact List.find?_some found
  have within := records.within first (List.mem_of_find?_eq_some found) (List.find?_some found)
  have positive := records.positive
  rw [← records.place] at positive
  have start := within.start
  rw [← records.place] at start
  have room := within.room
  obtain ⟨front, ext, part, ⟨tail, places⟩, plain, extended, primary, isLogical, starts⟩ :=
    ready.first_fixed loop logical
  have find : ∀ test : Node × Bool × UInt64 × UInt64 × Bool × UInt64 → Bool,
      (layout.partitions.find? fun part => test part.fixed).map Partition.fixed =
        ((front ++ [ext, part]).map Partition.fixed ++ tail).find? test := by
    intro test
    rw [places, finished.partitions_eq, List.find?_map]
    rfl
  have none : ∀ test : Node × Bool × UInt64 × UInt64 × Bool × UInt64 → Bool,
      (∀ other ∈ front, ¬ test other.fixed) →
      ((front ++ [ext, part]).map Partition.fixed ++ tail).find? test =
        (ext.fixed :: part.fixed :: tail).find? test := by
    intro test fails
    rw [List.map_append, List.append_assoc, List.find?_append, List.find?_eq_none.mpr ?_,
      Option.none_or]
    · rfl
    · intro place member
      obtain ⟨other, among, rfl⟩ := List.mem_map.mp member
      exact fails other among
  have same : first.fixed = part.fixed := by
    refine Option.some.inj (((congrArg (Option.map Partition.fixed) found).symm.trans
      (find (·.2.1))).trans ?_)
    rw [none _ fun other member => by simp [Partition.fixed, (plain other member).2]]
    simp [Partition.fixed, primary, isLogical]
  have offset : extendedOffset layout.partitions = ext.offset := by
    have here : (ext.fixed :: part.fixed :: tail).find? (fun place => decide (place.1 = .extended)) =
        some ext.fixed := List.find?_cons_of_pos (decide_eq_true extended)
    obtain ⟨other, found', place⟩ := Option.map_eq_some_iff.mp ((find _).trans ((none _
      fun other member => by simp [Partition.fixed, (plain other member).1]).trans here))
    show (layout.partitions.find? fun part => part.node = .extended).elim 0 (·.offset) = _
    rw [show layout.partitions.find? (fun part => part.node = .extended) = some other from found']
    exact congrArg (·.2.2.1) place
  rw [finished.hd_eq] at aligned start room ⊢
  rw [offset] at aligned positive start ⊢
  rw [show first.align = part.align from congrArg (·.2.2.2.1) same] at aligned
  rw [show first.offset = part.offset from congrArg (·.2.2.1) same] at start room ⊢
  exact starts positive room start aligned

end Genimage
