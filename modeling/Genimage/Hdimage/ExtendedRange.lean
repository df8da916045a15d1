/-
**The range of the extended partition.**

The `[Extended]` element is placed in front of the first logical partition, goes through the overlap
check with size `0`, and grows each time a logical partition is placed. `ExtendedExclusive` is what
is asked of it in the end. Two things come in between: the first logical partition may ask for an
alignment of its own, so that its boot record is not where the element starts, and an element
outside the table may lie behind the start of the element and in front of a later logical partition,
which grows over it unchecked. `Compact` excludes the two, and `hdimageSetup_extended_iff` says that
nothing else can go wrong.

`ExtendedInv` is the invariant of the loop behind the element.
-/

import Genimage.Hdimage.Bounds
import Mathlib.Data.List.TakeWhile

namespace Genimage

open Library

variable {env : Env} {hd : Hdimage} {size : UInt64}

/-! ### The property and the condition -/

/-- **The extended partition is exclusive**: it reaches from the boot record of the first logical
partition to the end of the last one, with all of them and their boot records inside and everything
else outside. -/
structure ExtendedExclusive (layout : Layout) (ext : Partition) : Prop where
  head : ∀ first, layout.partitions.find? (·.logical) = some first →
    ext.offset.toNat + layout.hd.align.toNat = first.offset.toNat
  tail : ∀ last, (layout.partitions.filter (·.logical)).getLast? = some last →
    ext.span.stop = last.span.stop
  contains : ∀ part ∈ layout.partitions, part.logical = true →
    (part.ebrSpan layout.hd).Within ext.span ∧ part.span.Within ext.span
  apart : ∀ part ∈ layout.partitions, part.logical = false → part.node ≠ .extended →
    ext.span.Apart part.span

/-- **Nothing comes between**: `start` is the offset of the `[Extended]` element and `rest` the list
behind it. -/
structure Compact (hd : Hdimage) (start : Nat) (rest : List Partition) : Prop where
  first : ∀ part, rest.find? (·.logical) = some part → part.offset = 0 →
    (part.withAlign hd).align.toNat ∣ start + hd.align.toNat
  between : ∀ passed part after, rest = passed ++ part :: after → part.logical = false →
    (∃ other ∈ after, other.logical = true) → part.offset.toNat < start

/-- **The list cut at the `[Extended]` element**: its offset, by the options of the elements in front of
it and its own in unbounded numbers, and the list behind it. -/
def exactExtended (env : Env) (prepared : Prepared) : Option (Nat × List Partition) :=
  match prepared.partitions.dropWhile (·.node ≠ .extended) with
  | [] => none
  | ext :: rest =>
    let stop := exactEnd env prepared.hd prepared.size
      (prepared.partitions.takeWhile (·.node ≠ .extended))
    some (exactOffset prepared.hd stop (ext.withAlign prepared.hd), rest)

/-! ### The list behind the element -/

/-- **What the scan for logical partitions leaves behind the `[Extended]` element.** -/
structure BehindExtended (hd : Hdimage) (ext first : Partition) (rest : List Partition) : Prop where
  mbr : hd.tableType = .mbr
  ext_eq : ext = extendedPartition hd.align first
  first_inTable : first.inPartitionTable = true
  first_parsed : first.node = .parsed
  nodes : ∀ part ∈ rest, part.node = .parsed ∨ part.node = .mbr
  opens : (∀ part ∈ rest, part.logical = false) ∨ ∃ more, rest = first.withLogical true :: more
  outside : ∀ passed part after, rest = passed ++ part :: after → part.logical = false →
    (∃ other ∈ after, other.logical = true) → part.inPartitionTable = false

theorem BehindExtended.others {ext first : Partition} {rest : List Partition}
    (behind : BehindExtended hd ext first rest) : ∀ part ∈ rest, part.node ≠ .extended := by
  intro part member same
  rcases behind.nodes part member with node | node
  all_goals cases node.symm.trans same

/-- A list of marked elements with elements behind them none of which is logical. -/
theorem outside_of_marked {block plain passed after : List Partition} {part : Partition}
    (primary : ∀ part ∈ plain, part.logical = false)
    (split : block.map Partition.markLogical ++ plain = passed ++ part :: after)
    (unmarked : part.logical = false) (later : ∃ other ∈ after, other.logical = true) :
    part.inPartitionTable = false := by
  obtain ⟨other, member, logical⟩ := later
  have late : other ∉ plain := fun among => by
    rw [primary other among] at logical
    cases logical
  have among : part ∈ block.map Partition.markLogical := by
    rcases List.append_eq_append_iff.mp split with ⟨more, _, behind⟩ | ⟨more, same, behind⟩
    · refine absurd ?_ late
      rw [behind]
      exact List.mem_append_right _ (List.mem_cons_of_mem _ member)
    · cases more with
      | nil =>
        refine absurd ?_ late
        rw [← List.nil_append plain, ← behind]
        exact List.mem_cons_of_mem _ member
      | cons head more =>
        obtain ⟨rfl, _⟩ := List.cons.inj behind
        simp [same]
  obtain ⟨origin, _, rfl⟩ := List.mem_map.mp among
  exact (Bool.or_eq_false_iff.mp unmarked).2

theorem node_of_mem_tableAreas {tableType : TableType} {gptLocation length : UInt64}
    {part : Partition} (member : part ∈ tableAreas tableType gptLocation length) :
    part.node ≠ .extended ∧ (tableType = .mbr → part.node = .mbr) := by
  unfold tableAreas at member
  split_ifs at member with none gpt
  · cases member
  · refine ⟨?_, fun mbr => by rw [mbr] at gpt; cases gpt⟩
    simp only [List.mem_cons, List.not_mem_nil, or_false] at member
    rcases member with rfl | rfl | rfl | rfl <;> exact nofun
  · rw [List.mem_singleton.mp member]
    exact ⟨nofun, fun _ => rfl⟩

theorem node_of_mem_parsePartitions {sections : List PartitionSection} {part : Partition}
    (member : part ∈ parsePartitions sections) : part.node = .parsed := by
  obtain ⟨partsec, _, rfl⟩ := List.mem_map.mp member
  rfl

/-- **The list in front of the loop, cut at the `[Extended]` element.** -/
theorem Ready.behindExtended {config : HdimageConfig} {prepared : Prepared} {ext : Partition}
    {rest : List Partition} (ready : Ready env config prepared)
    (found : prepared.partitions.dropWhile (·.node ≠ .extended) = ext :: rest) :
    ∃ first, BehindExtended prepared.hd ext first rest := by
  obtain ⟨parts, scanned, list⟩ := ready.list_eq
  let areas := tableAreas prepared.hd.tableType prepared.hd.gptLocation prepared.size
  have clean : ∀ part ∈ areas, part.node ≠ .extended := fun part member =>
    (node_of_mem_tableAreas member).1
  have parsed : ∀ part ∈ parsePartitions config.partitions, part.node ≠ .extended :=
    fun part member same => by cases (node_of_mem_parsePartitions member).symm.trans same
  rcases setupLogicalPartitions_ok scanned with
    ⟨same, _⟩ | ⟨mbr, before, block, forced, first, same, split, new⟩
  · have none : prepared.partitions.dropWhile (·.node ≠ .extended) = [] := by
      rw [List.dropWhile_eq_nil_iff, list, show parts = _ from same]
      intro part member
      exact decide_eq_true ((List.mem_append.mp member).elim (parsed part) (clean part))
    rw [none] at found
    cases found
  · simp only at new
    have user : ∀ part ∈ before ++ block ++ forced, part.node = .parsed := by
      rw [← same]
      exact fun part => node_of_mem_parsePartitions
    have cut : prepared.partitions.dropWhile (·.node ≠ .extended) =
        extendedPartition prepared.hd.align first ::
          (block.map Partition.markLogical ++ (forced ++ areas)) := by
      rw [list, new, extendedList, List.append_assoc, List.dropWhile_append_of_pos]
      · rw [List.cons_append, List.dropWhile_cons_of_neg (by simp [extendedPartition, fakePartition]),
          List.append_assoc]
      · intro part member
        have parsed := user part (by simp [member])
        refine decide_eq_true fun same => ?_
        cases parsed.symm.trans same
    rw [cut] at found
    obtain ⟨rfl, rfl⟩ := List.cons.inj found
    have primary : ∀ part ∈ forced ++ areas, part.logical = false := by
      intro part member
      rcases List.mem_append.mp member with member | member
      · refine logical_of_mem_parsePartitions (?_ : part ∈ parsePartitions config.partitions)
        rw [same]
        exact List.mem_append_right _ member
      · exact logical_of_mem_tableAreas member
    have first_parsed : first.node = .parsed := by
      refine user first ?_
      rw [List.append_assoc]
      exact List.mem_append_right _ (List.mem_of_head? split.head)
    refine ⟨first, mbr, rfl, split.inTable, first_parsed, ?_, ?_,
      fun passed part after => outside_of_marked primary⟩
    · intro part member
      rcases List.mem_append.mp member with marked | plain
      · obtain ⟨origin, among, rfl⟩ := List.mem_map.mp marked
        exact Or.inl (user origin (by simp [among]))
      · exact (List.mem_append.mp plain).imp (fun among => user part (by simp [among]))
          fun area => (node_of_mem_tableAreas area).2 mbr
    · cases block with
      | nil => exact Or.inl primary
      | cons head block =>
        obtain rfl : head = first := by simpa using split.head
        refine Or.inr ⟨block.map Partition.markLogical ++ (forced ++ areas), ?_⟩
        rw [List.map_cons, List.cons_append, Partition.markLogical, split.inTable, Bool.or_true]

/-! ### The loop behind the element -/

/-- **The invariant of the loop behind the `[Extended]` element**: `earlier` are the elements in
front of it, `later` those that have come since. -/
structure ExtendedInv (earlier : List Partition) (start : UInt64) (ext : Partition)
    (later : List Partition) (state : SetupState) : Prop where
  done_eq : state.done = earlier ++ ext :: later
  extended : ext.node = .extended
  others : ∀ part ∈ earlier ++ later, part.node ≠ .extended
  offset_eq : ext.offset = start
  stop_eq : ext.span.stop =
    (later.filter (·.logical)).getLast?.elim start.toNat (·.span.stop)
  ordered : later.Pairwise fun part next =>
    next.logical = true → part.span.stop ≤ next.span.start
  beyond : ∀ part ∈ later, part.logical = true → start.toNat ≤ part.span.start
  sides : ∀ part ∈ later, part.logical = false →
    part.span.stop ≤ start.toNat ∨ start.toNat ≤ part.span.start
  last_apart : ∀ passed part after, later = passed ++ part :: after → part.logical = false →
    (∀ other ∈ after, other.logical = false) → ext.span.Apart part.span

namespace ExtendedInv

variable {earlier later passed : List Partition} {start : UInt64} {ext part placed : Partition}
  {state next : SetupState}

theorem mem_done (inv : ExtendedInv earlier start ext later state) : ext ∈ state.done := by
  rw [inv.done_eq]
  exact List.mem_append_right _ List.mem_cons_self

/-- The element only grows. -/
theorem start_le_stop (inv : ExtendedInv earlier start ext later state) :
    start.toNat ≤ ext.span.stop := by
  rw [← inv.offset_eq]
  exact Nat.le_add_right _ _

/-- Growing changes the `[Extended]` element and nothing else. -/
theorem map_grow (inv : ExtendedInv earlier start ext later state) (now : UInt64) :
    state.done.map (Partition.grow now) = earlier ++ ext.grow now :: later := by
  have fixed : ∀ parts : List Partition, (∀ part ∈ parts, part.node ≠ .extended) →
      parts.map (Partition.grow now) = parts := by
    intro parts others
    refine (List.map_congr_left fun part member => ?_).trans (List.map_id parts)
    exact grow_eq_self now (others part member)
  rw [inv.done_eq, List.map_append, List.map_cons,
    fixed earlier fun part member => inv.others part (List.mem_append_left _ member),
    fixed later fun part member => inv.others part (List.mem_append_right _ member)]

/-- The new element stays outside the ones that were there. -/
theorem others_step (inv : ExtendedInv earlier start ext later state)
    (other : placed.node ≠ .extended) :
    ∀ part ∈ earlier ++ (later ++ [placed]), part.node ≠ .extended := by
  intro part member
  rw [← List.append_assoc] at member
  rcases List.mem_append.mp member with old | new
  · exact inv.others part old
  · rw [List.mem_singleton.mp new]
    exact other

/-- **A logical partition**: the element grows up to its end. -/
theorem step_logical (inv : ExtendedInv earlier start ext later state)
    (layout : LayoutInv hd passed state) (nonzero : hd.align ≠ 0)
    (step : Placed env hd size state part placed next)
    (fits : StepFits hd state.now (part.withAlign hd)) (placedFits : placed.Fits)
    (other : placed.node ≠ .extended) (logical : placed.logical = true) :
    ExtendedInv earlier start (ext.grow next.now) (later ++ [placed]) next := by
  have behind : state.now.toNat ≤ placed.span.start :=
    (Nat.le_add_right _ _).trans (step.ebr_ge nonzero fits logical)
  have below : ext.span.stop ≤ state.now.toNat := layout.stops ext inv.mem_done
  constructor
  case done_eq =>
    rw [step.done_eq, if_pos logical, growExtended, inv.map_grow, List.append_assoc]
    rfl
  case extended => exact inv.extended
  case others => exact inv.others_step other
  case offset_eq => exact inv.offset_eq
  case stop_eq =>
    rw [grow_stop (below.trans (step.now_le nonzero fits)), if_pos inv.extended,
      List.filter_append, List.filter_singleton, logical, cond_true, List.getLast?_append,
      List.getLast?_singleton, Option.some_or, Option.elim_some]
    exact step.now_eq_stop logical placedFits
  case ordered =>
    refine List.pairwise_append.mpr ⟨inv.ordered, List.pairwise_singleton _ _, ?_⟩
    intro old member new same _
    rw [List.mem_singleton.mp same]
    refine (layout.stops old ?_).trans behind
    rw [inv.done_eq]
    exact List.mem_append_right _ (List.mem_cons_of_mem _ member)
  case beyond =>
    intro new member isLogical
    rcases List.mem_append.mp member with old | same
    · exact inv.beyond new old isLogical
    · rw [List.mem_singleton.mp same]
      exact (inv.start_le_stop.trans below).trans behind
  case sides =>
    intro new member primary
    rcases List.mem_append.mp member with old | same
    · exact inv.sides new old primary
    · rw [List.mem_singleton.mp same, logical] at primary
      cases primary
  case last_apart =>
    intro before new after split primary none
    rcases List.eq_nil_or_concat' after with rfl | ⟨after, last, rfl⟩
    · obtain ⟨_, same⟩ := List.append_inj' split rfl
      rw [← List.singleton_inj.mp same, logical] at primary
      cases primary
    · have last_logical : last.logical = true := by
        rw [← List.cons_append, ← List.append_assoc] at split
        obtain ⟨_, same⟩ := List.append_inj' split rfl
        rw [← List.singleton_inj.mp same, logical]
      rw [none last (by simp)] at last_logical
      cases last_logical

/-- **Any other element**: it is apart from the `[Extended]` element as it is at this time. -/
theorem step_primary (inv : ExtendedInv earlier start ext later state)
    (layout : LayoutInv hd passed state) (holeless : env.Holeless)
    (step : Placed env hd size state part placed next) (placedFits : placed.Fits)
    (other : placed.node ≠ .extended) (primary : placed.logical = false) :
    ExtendedInv earlier start ext (later ++ [placed]) next := by
  have apart : placed.span.Apart ext.span :=
    step.apart holeless primary placedFits layout.fits ext inv.mem_done
  constructor
  case done_eq =>
    rw [step.done_eq, primary, if_neg Bool.false_ne_true, inv.done_eq, List.append_assoc]
    rfl
  case extended => exact inv.extended
  case others => exact inv.others_step other
  case offset_eq => exact inv.offset_eq
  case stop_eq =>
    rw [List.filter_append, List.filter_singleton, primary, cond_false, List.append_nil]
    exact inv.stop_eq
  case ordered =>
    refine List.pairwise_append.mpr ⟨inv.ordered, List.pairwise_singleton _ _, ?_⟩
    intro old member new same isLogical
    rw [List.mem_singleton.mp same, primary] at isLogical
    cases isLogical
  case beyond =>
    intro new member isLogical
    rcases List.mem_append.mp member with old | same
    · exact inv.beyond new old isLogical
    · rw [List.mem_singleton.mp same, primary] at isLogical
      cases isLogical
  case sides =>
    intro new member _
    rcases List.mem_append.mp member with old | same
    · exact inv.sides new old ‹_›
    · rw [List.mem_singleton.mp same]
      refine apart.imp (fun before => ?_) fun after => inv.start_le_stop.trans after
      rw [← inv.offset_eq]
      exact before
  case last_apart =>
    intro before new after split isPrimary none
    rcases List.eq_nil_or_concat' after with rfl | ⟨after, last, rfl⟩
    · obtain ⟨_, same⟩ := List.append_inj' split rfl
      rw [← List.singleton_inj.mp same]
      exact apart.symm
    · rw [← List.cons_append, ← List.append_assoc] at split
      obtain ⟨old, _⟩ := List.append_inj' split rfl
      exact inv.last_apart before new after old isPrimary fun other member =>
        none other (List.mem_append_left _ member)

/-- **Behind the step of the `[Extended]` element**, which enters with size `0`. -/
theorem enter (layout : LayoutInv hd passed state)
    (step : Placed env hd size state part placed next)
    (extended : part.node = .extended) (empty : placed.size = 0) (primary : placed.logical = false)
    (fresh : ∀ part ∈ passed, part.node ≠ .extended) :
    ExtendedInv state.done placed.offset placed [] next where
  done_eq := by rw [step.done_eq, primary, if_neg Bool.false_ne_true]
  extended := step.node_eq.trans extended
  others := by
    intro old member same
    rw [List.append_nil] at member
    have among : Node.extended ∈ passed.map (·.node) := by
      rw [← layout.nodes]
      exact List.mem_map.mpr ⟨old, member, same⟩
    obtain ⟨other, member, same⟩ := List.mem_map.mp among
    exact fresh other member same
  offset_eq := rfl
  stop_eq := by
    show placed.offset.toNat + placed.size.toNat = placed.offset.toNat
    rw [empty]
    rfl
  ordered := .nil
  beyond := by simp
  sides := by simp
  last_apart := by simp

/-- **The loop behind the element.** -/
theorem run {config : HdimageConfig} {prepared : Prepared} {rest : List Partition}
    {final : SetupState} (ready : Ready env config prepared) (holeless : env.Holeless)
    (split : prepared.partitions = passed ++ rest) (others : ∀ part ∈ rest, part.node ≠ .extended)
    (inv : ExtendedInv earlier start ext later state)
    (layout : LayoutInv prepared.hd passed state)
    (fits : RunFits env prepared.hd prepared.size state rest)
    (run : rest.foldlM (setupPart env prepared.hd prepared.size) state = .ok final) :
    LayoutInv prepared.hd prepared.partitions final ∧ ∃ ext' new,
      ExtendedInv earlier start ext' (later ++ new) final ∧
      List.Forall₂ (Origin env prepared.hd prepared.size) rest new := by
  rw [split]
  refine fitting_invariant (fun done state => LayoutInv prepared.hd (passed ++ done) state ∧
    ∃ ext' new, ExtendedInv earlier start ext' (later ++ new) state ∧
      List.Forall₂ (Origin env prepared.hd prepared.size) done new) ?_ ?_ fits run
  · exact ⟨by rwa [List.append_nil], ext, [], by rwa [List.append_nil], .nil⟩
  · rintro done part tail state placed next among ⟨layout, ext, new, inv, related⟩ step fits fitting
    have nonzero := ready.align_ne_zero
    have whole : prepared.partitions = (passed ++ done) ++ part :: tail := by
      rw [split, among, List.append_assoc]
    have other : placed.node ≠ .extended := by
      rw [step.node_eq]
      exact others part (by simp [among])
    refine ⟨?_, ?_⟩
    · rw [← List.append_assoc]
      exact layout.step holeless nonzero (ready.preceded whole) step fits fitting
    · have origins := List.rel_append related (.cons (.of_placed step) .nil)
      have placedFits := fitting placed step.mem_done
      cases logical : placed.logical with
      | true =>
        have := inv.step_logical layout nonzero step fits placedFits other logical
        exact ⟨_, new ++ [placed], by rwa [← List.append_assoc], origins⟩
      | false =>
        have := inv.step_primary layout holeless step placedFits other logical
        exact ⟨_, new ++ [placed], by rwa [← List.append_assoc], origins⟩

end ExtendedInv

/-! ### The element and the first logical partition -/

/-- The `[Extended]` element in the loop. -/
structure ExtendedPlaced (hd : Hdimage) (first placed : Partition) (state next : SetupState) :
    Prop where
  empty : placed.size = 0
  primary : placed.logical = false
  automatic : first.offset = 0 → placed.offset = roundup state.now hd.align
  explicit : first.offset ≠ 0 → first.offset - hd.align ≠ 0 →
    placed.offset = first.offset - hd.align
  now_eq : next.now.toNat = max placed.offset.toNat state.now.toNat

theorem BehindExtended.placed {ext first placed : Partition} {rest : List Partition}
    {state next : SetupState} (behind : BehindExtended hd ext first rest) (nonzero : hd.align ≠ 0)
    (step : Placed env hd size state ext placed next) :
    ExtendedPlaced hd first placed state next := by
  obtain rfl := behind.ext_eq
  have primary : placed.logical = false := step.logical_eq
  have image : placed.image = none := by
    rw [step.kept]
    rfl
  have autoresize : placed.autoresize = false := by
    rw [step.kept]
    rfl
  have empty : placed.size = 0 := by
    cases step.size_rule with
    | autoresize on => exact absurd on (by simp [autoresize])
    | option _ set => exact absurd rfl set
    | unset _ _ _ zero => exact zero
    | data _ _ _ _ found => exact absurd found (by simp [image])
  have running : runningEnd hd state.now ((extendedPartition hd.align first).withAlign hd) =
    state.now := rfl
  have inTable : ((extendedPartition hd.align first).withAlign hd).inPartitionTable = true := by
    simp [Partition.withAlign, extendedPartition, behind.mbr]
  have aligned : ((extendedPartition hd.align first).withAlign hd).align = hd.align := if_pos nonzero
  refine ⟨empty, primary, ?_, ?_, ?_⟩
  · intro automatic
    have zero : ((extendedPartition hd.align first).withAlign hd).offset = 0 :=
      if_neg (not_not.mpr automatic)
    rw [step.offset_eq, chosenOffset_automatic _ zero (fun wrong => by cases wrong) (Or.inl inTable),
      running, aligned]
  · intro given positive
    have offset : ((extendedPartition hd.align first).withAlign hd).offset =
        first.offset - hd.align := if_pos given
    rw [step.offset_eq, chosenOffset_explicit _ (by rwa [offset]), offset]
  · rw [step.now_eq, toNat_maxUll, running, Partition.partitionEnd, empty, UInt64.add_zero]

/-- Without a wrap the automatic element starts behind the running end. -/
theorem BehindExtended.now_le {ext first placed : Partition} {rest : List Partition}
    {state next : SetupState} (behind : BehindExtended hd ext first rest) (nonzero : hd.align ≠ 0)
    (entered : ExtendedPlaced hd first placed state next)
    (fits : StepFits hd state.now (ext.withAlign hd)) (automatic : first.offset = 0) :
    state.now.toNat ≤ placed.offset.toNat := by
  obtain rfl := behind.ext_eq
  have aligned : ((extendedPartition hd.align first).withAlign hd).align = hd.align := if_pos nonzero
  have room : RoundupFits state.now ((extendedPartition hd.align first).withAlign hd).align :=
    fits.automatic (if_neg (not_not.mpr automatic))
      (Or.inl (by simp [Partition.withAlign, extendedPartition, behind.mbr]))
  rw [entered.automatic automatic]
  rw [aligned] at room
  exact le_roundup nonzero room

/-- **The first logical partition**: what is in front of the `[Extended]` element ends in front of
it, and the boot record starts with the element exactly when an automatic offset is not rounded
further. -/
theorem BehindExtended.first_placed {start first ext placed : Partition} {rest : List Partition}
    {state middle next : SetupState} (behind : BehindExtended hd start first rest)
    (entered : ExtendedPlaced hd first ext state middle) (nonzero : hd.align ≠ 0)
    (above : first.offset = 0 → state.now.toNat ≤ ext.offset.toNat)
    (step : Placed env hd size middle (first.withLogical true) placed next)
    (fits : StepFits hd middle.now ((first.withLogical true).withAlign hd)) :
    state.now.toNat ≤ ext.offset.toNat ∧
    (ext.offset.toNat + hd.align.toNat = placed.offset.toNat ↔
      (first.offset = 0 → (first.withAlign hd).align.toNat ∣ ext.offset.toNat + hd.align.toNat)) := by
  have room := step.ebr_ge nonzero fits step.logical_eq
  rw [entered.now_eq] at room
  by_cases automatic : first.offset = 0
  · have below := above automatic
    refine ⟨below, ?_⟩
    obtain ⟨sum, rounded⟩ := fits.ebr rfl
    have start : (middle.now + hd.align).toNat = ext.offset.toNat + hd.align.toNat := by
      rw [toNat_add_of_lt sum, entered.now_eq, max_eq_left below]
    have positive : middle.now + hd.align ≠ 0 := by
      rw [← toNat_pos, start]
      exact Nat.add_pos_right _ (toNat_pos.mpr nonzero)
    have aligned := withAlign_align_ne_zero nonzero (first.withLogical true)
    have fitting := rounded.resolve_left positive
    have member : ((first.withLogical true).withAlign hd).inPartitionTable = true := by
      simp [Partition.withAlign, behind.mbr, behind.first_inTable]
    have running : runningEnd hd middle.now ((first.withLogical true).withAlign hd) =
        roundup (middle.now + hd.align) ((first.withLogical true).withAlign hd).align := by
      have grounded : ¬ ((first.withLogical true).withAlign hd).isFloatingBackup :=
        fun floating => by cases behind.first_parsed.symm.trans floating.1
      rw [runningEnd, placeBackup, if_neg grounded]
      rfl
    have chosen : chosenOffset hd middle.now ((first.withLogical true).withAlign hd) = _ :=
      chosenOffset_automatic _ automatic (by simp [Partition.withAlign, behind.first_parsed])
        (Or.inl member)
    rw [step.offset_eq, chosen, running,
      roundup_roundup positive aligned fitting, ← start, toNat_eq_roundup_iff positive fitting]
    exact ⟨fun dvd _ => dvd, fun dvd => dvd automatic⟩
  · have given : placed.offset = first.offset :=
      step.offset_eq.trans (chosenOffset_explicit _ automatic)
    have wide : hd.align.toNat ≤ first.offset.toNat := by
      rw [← given]
      exact le_of_add_le_right room
    have difference := toNat_sub_of_le wide
    rw [given] at room
    have same : ext.offset.toNat = first.offset.toNat - hd.align.toNat := by
      by_cases zero : first.offset - hd.align = 0
      · rw [eq_zero_iff, difference] at zero
        omega
      · rw [entered.explicit automatic zero, difference]
    refine ⟨by omega, ?_⟩
    rw [given]
    exact iff_of_true (by omega) fun zero => absurd zero automatic

/-! ### The list behind the loop -/

/-- **The list behind the loop, cut at the `[Extended]` element.** -/
structure ExtendedFinal (env : Env) (hd : Hdimage) (size start : UInt64)
    (rest earlier later : List Partition) (ext : Partition) (final : SetupState) : Prop where
  mbr : hd.tableType = .mbr
  inv : ExtendedInv earlier start ext later final
  layout : ∃ passed, LayoutInv hd passed final
  origins : List.Forall₂ (Origin env hd size) rest later
  nodes : ∀ part ∈ rest, part.node = .parsed ∨ part.node = .mbr
  outside : ∀ passed part after, rest = passed ++ part :: after → part.logical = false →
    (∃ other ∈ after, other.logical = true) → part.inPartitionTable = false
  primary : ∀ part ∈ earlier, part.logical = false
  sides : ∀ part ∈ earlier, part.span.stop ≤ start.toNat ∨ start.toNat ≤ part.span.start
  opens : (∀ part ∈ rest, part.logical = false) ∨
    (∀ part ∈ earlier, part.span.stop ≤ start.toNat) ∧
      ∃ first more placed tail, rest = first :: more ∧ later = placed :: tail ∧
        first.logical = true ∧ placed.logical = true ∧
        (start.toNat + hd.align.toNat = placed.offset.toNat ↔ (first.offset = 0 →
          (first.withAlign hd).align.toNat ∣ start.toNat + hd.align.toNat))

theorem exactExtended_some {prepared : Prepared} {start : Nat} {rest : List Partition}
    (found : exactExtended env prepared = some (start, rest)) :
    ∃ before ext, prepared.partitions = before ++ ext :: rest ∧
      prepared.partitions.dropWhile (·.node ≠ .extended) = ext :: rest ∧
      (∀ part ∈ before, part.node ≠ .extended) ∧
      start = exactOffset prepared.hd (exactEnd env prepared.hd prepared.size before)
        (ext.withAlign prepared.hd) := by
  unfold exactExtended at found
  split at found
  next => cases found
  next ext tail cut =>
    simp only [Option.some.injEq, Prod.mk.injEq] at found
    obtain ⟨rfl, rfl⟩ := found
    refine ⟨_, ext, ?_, cut, fun part member => ?_, rfl⟩
    · rw [← cut, List.takeWhile_append_dropWhile]
    · simpa using List.mem_takeWhile_imp member

/-- **Every accepted run with an `[Extended]` element ends so.** -/
theorem hdimageSetup_extendedFinal {config : HdimageConfig} {layout : Layout} {prepared : Prepared}
    {offset : Nat} {rest : List Partition} (holeless : env.Holeless) (noWrap : NoWrap env config)
    (prep : prepare env config = .ok prepared) (accepted : hdimageSetup env config = .ok layout)
    (found : exactExtended env prepared = some (offset, rest)) :
    ∃ size start earlier later ext final,
      ExtendedFinal env layout.hd size start rest earlier later ext final ∧
      layout.partitions = final.done ∧ start.toNat = offset := by
  obtain ⟨before, ext, whole, cut, fresh, startEq⟩ := exactExtended_some found
  obtain ⟨prepared', final, prep', ready, loop, finished⟩ := hdimageSetup_ok accepted
  obtain rfl : prepared = prepared' := Except.ok.inj (prep.symm.trans prep')
  obtain ⟨first, behind⟩ := ready.behindExtended cut
  have nonzero := ready.align_ne_zero
  have fits := noWrap.runFits prep
  rw [whole] at loop fits
  obtain ⟨state, front, loop⟩ := foldlM_append_ok.mp loop
  obtain ⟨frontFits, fits⟩ := fits.append front
  -- the exact end in front of the element is the word there
  have area {part : Partition} (among : part ∈ before ++ ext :: rest)
      (backup : part.node = .gptBackup) : (part.withAlign prepared.hd).IsBackupArea prepared.hd :=
    ready.backupArea (whole ▸ among) backup
  have now : state.now.toNat = exactEnd env prepared.hd prepared.size before := by
    refine loop_now_eq_exactEnd ?_ nonzero
      (fun part member => area (List.mem_append_left _ member)) frontFits front fun some => ?_
    · refine toNat_tableEnd ?_
      rw [reservedEnd, behind.mbr]
      exact (by decide : 512 < 2 ^ 64)
    · have last := finished.now_le
      rw [finished.size_eq, if_neg some] at last
      exact (loop_now_le nonzero fits loop).trans last
  have inv := ready.layoutInv holeless whole frontFits front
  -- the step of the element itself
  rw [List.foldlM_cons, do_eq_ok] at loop
  obtain ⟨middle, taken, loop⟩ := loop
  rw [RunFits, taken] at fits
  obtain ⟨stepFits, fitting, fits⟩ := fits
  obtain ⟨placed, step⟩ := setupPart_ok taken
  have entered := behind.placed nonzero step
  have extended : ext.node = .extended := by
    rw [behind.ext_eq]
    rfl
  have placedFits := fitting placed step.mem_done
  have extInv := ExtendedInv.enter inv step extended entered.empty entered.primary fresh
  have middleInv := inv.step holeless nonzero (ready.preceded whole) step stepFits fitting
  have place : placed.offset.toNat = offset := by
    rw [startEq, step.offset_eq, ← now]
    exact toNat_chosenOffset nonzero stepFits (area (List.mem_append_right _ List.mem_cons_self))
  have whole' : prepared.partitions = (before ++ [ext]) ++ rest := by
    rw [whole, List.append_assoc, List.singleton_append]
  have sides : ∀ part ∈ state.done, part.span.stop ≤ placed.offset.toNat ∨
      placed.offset.toNat ≤ part.span.start := by
    intro part member
    refine (step.apart holeless entered.primary placedFits inv.fits part member).symm.imp id ?_
    exact (Nat.le_add_right _ _).trans
  have primary : ∀ part ∈ state.done, part.logical = false := by
    intro part member
    by_contra logical
    obtain ⟨outer, among, same, _⟩ := inv.covered part member (by simpa using logical)
    exact extInv.others outer (by simpa using among) same
  rw [finished.hd_eq, finished.partitions_eq]
  rcases behind.opens with none | ⟨more, rfl⟩
  · obtain ⟨final', ext', later, run, origins⟩ := extInv.run ready holeless whole' behind.others
      middleInv fits loop
    exact ⟨_, _, _, _, _, _, ⟨behind.mbr, run, ⟨_, final'⟩, origins, behind.nodes, behind.outside,
      primary, sides, Or.inl none⟩, rfl, place⟩
  · -- the step of the first logical partition
    rw [List.foldlM_cons, do_eq_ok] at loop
    obtain ⟨next, taken', loop⟩ := loop
    rw [RunFits, taken'] at fits
    obtain ⟨stepFits', fitting', fits⟩ := fits
    obtain ⟨placed', step'⟩ := setupPart_ok taken'
    have logical : placed'.logical = true := step'.logical_eq
    have other : placed'.node ≠ .extended := by
      rw [step'.node_eq]
      exact behind.others _ List.mem_cons_self
    obtain ⟨below, head⟩ := behind.first_placed entered nonzero
      (behind.now_le nonzero entered stepFits) step' stepFits'
    have firstInv := extInv.step_logical middleInv nonzero step' stepFits'
      (fitting' _ step'.mem_done) other logical
    have nextInv := middleInv.step holeless nonzero (ready.preceded whole') step' stepFits' fitting'
    have whole'' : prepared.partitions =
        (before ++ [ext] ++ [first.withLogical true]) ++ more := by
      rw [whole', List.append_assoc (before ++ [ext]), List.singleton_append]
    obtain ⟨final', ext', new, run, origins⟩ := firstInv.run ready holeless whole''
      (fun part member => behind.others part (List.mem_cons_of_mem _ member)) nextInv fits loop
    refine ⟨_, _, _, _, _, _, ⟨behind.mbr, run, ⟨_, final'⟩, .cons ?_ origins, behind.nodes,
      behind.outside, primary, sides, Or.inr ⟨fun part member => (inv.stops part member).trans below, _,
      _, _, _, rfl, rfl, rfl, logical, head⟩⟩, rfl, place⟩
    exact .of_placed step'

namespace ExtendedFinal

variable {start : UInt64} {rest earlier later : List Partition} {ext : Partition}
  {final : SetupState} {layout : Layout}

/-- The element is the only one of its kind. -/
theorem eq_ext (last : ExtendedFinal env hd size start rest earlier later ext final)
    {part : Partition} (member : part ∈ final.done) (extended : part.node = .extended) :
    part = ext := by
  rw [last.inv.done_eq] at member
  rcases List.mem_append.mp member with front | behind
  · exact absurd extended (last.inv.others part (List.mem_append_left _ front))
  · rcases List.mem_cons.mp behind with same | back
    · exact same
    · exact absurd extended (last.inv.others part (List.mem_append_right _ back))

theorem ext_primary (last : ExtendedFinal env hd size start rest earlier later ext final)
    (logical : ext.logical = true) : False := by
  obtain ⟨_, layout⟩ := last.layout
  obtain ⟨outer, member, extended, within⟩ := layout.covered ext last.inv.mem_done logical
  rw [last.eq_ext member extended] at within
  have := within.start
  have := within.room
  have := within.wide
  omega

/-- A logical partition lies inside the element, boot record included. -/
theorem within (last : ExtendedFinal env hd size start rest earlier later ext final)
    {part : Partition} (member : part ∈ final.done) (logical : part.logical = true) :
    part.EbrWithin hd ext := by
  obtain ⟨_, layout⟩ := last.layout
  obtain ⟨outer, among, extended, within⟩ := layout.covered part member logical
  rwa [last.eq_ext among extended] at within

theorem find_logical (last : ExtendedFinal env hd size start rest earlier later ext final) :
    final.done.find? (·.logical) = later.find? (·.logical) := by
  have none : earlier.find? (·.logical) = none :=
    List.find?_eq_none.mpr fun part member => by simp [last.primary part member]
  have primary : ¬ ext.logical = true := last.ext_primary
  rw [last.inv.done_eq, List.find?_append, none, Option.none_or, List.find?_cons_of_neg primary]

theorem filter_logical (last : ExtendedFinal env hd size start rest earlier later ext final) :
    final.done.filter (·.logical) = later.filter (·.logical) := by
  have none : earlier.filter (·.logical) = [] :=
    List.filter_eq_nil_iff.mpr fun part member => by simp [last.primary part member]
  have primary : ¬ ext.logical = true := last.ext_primary
  rw [last.inv.done_eq, List.filter_append, none, List.nil_append,
    List.filter_cons_of_neg primary]

/-- An element outside the table is where its section says, and is not empty. -/
theorem outside_eq (last : ExtendedFinal env hd size start rest earlier later ext final)
    {part placed : Partition} (origin : Origin env hd size part placed) (member : part ∈ rest)
    (outside : part.inPartitionTable = false) :
    placed.offset = part.offset ∧ 0 < placed.size.toNat := by
  have node := last.nodes part member
  constructor
  · obtain ⟨now, chosen⟩ := origin.offset_eq
    rw [chosen]
    refine chosenOffset_outside _ ?_ (by simp [Partition.withAlign, outside]) (by simp [last.mbr])
    rintro (backup : part.node = _)
    rcases node with node | node
    all_goals cases node.symm.trans backup
  · refine toNat_pos.mpr (origin.sized ?_).2.1
    rw [origin.node_eq]
    intro extended
    rcases node with node | node
    all_goals cases node.symm.trans extended

/-- What comes in front of the element stays apart from it. -/
theorem earlier_apart (last : ExtendedFinal env hd size start rest earlier later ext final)
    {part : Partition} (member : part ∈ earlier) : ext.span.Apart part.span := by
  have startEq : ext.span.start = start.toNat := by rw [← last.inv.offset_eq]; rfl
  rcases last.opens with none | ⟨below, _⟩
  · have empty : later.filter (·.logical) = [] := by
      refine List.filter_eq_nil_iff.mpr fun placed member => ?_
      obtain ⟨origin, among, related⟩ := Related.exists_left last.origins member
      simp [related.logical_eq, none origin among]
    have stopEq := last.inv.stop_eq
    rw [empty, List.getLast?_nil, Option.elim_none] at stopEq
    rw [Span.Apart, startEq, stopEq]
    exact (last.sides part member).symm
  · refine Or.inr ?_
    rw [startEq]
    exact below part member

/-- **The parts of the property that always hold** are those that do not mention the first logical
partition or the others behind the element. -/
theorem exclusive_iff (last : ExtendedFinal env hd size start rest earlier later ext final)
    (hdEq : layout.hd = hd) (done : layout.partitions = final.done) :
    ExtendedExclusive layout ext ↔
      (∀ first, later.find? (·.logical) = some first →
        start.toNat + hd.align.toNat = first.offset.toNat) ∧
      ∀ part ∈ later, part.logical = false → ext.span.Apart part.span := by
  subst hdEq
  have doneEq := last.inv.done_eq
  constructor
  · rintro ⟨head, _, _, apart⟩
    rw [done, last.find_logical, last.inv.offset_eq] at head
    refine ⟨head, fun part member primary => apart part ?_ primary ?_⟩
    · rw [done, doneEq]
      exact List.mem_append_right _ (List.mem_cons_of_mem _ member)
    · exact last.inv.others part (List.mem_append_right _ member)
  · rintro ⟨head, apart⟩
    constructor
    case head =>
      rw [done, last.find_logical, last.inv.offset_eq]
      exact head
    case tail =>
      intro final' found
      rw [done, last.filter_logical] at found
      rw [last.inv.stop_eq, found, Option.elim_some]
    case contains =>
      intro part member logical
      rw [done] at member
      have within := last.within member logical
      exact ⟨within.ebr_within, within.start.trans (Nat.sub_le _ _), within.stop⟩
    case apart =>
      intro part member primary other
      rw [done, doneEq] at member
      rcases List.mem_append.mp member with front | behind
      · exact last.earlier_apart front
      · rcases List.mem_cons.mp behind with rfl | back
        · exact absurd last.inv.extended other
        · exact apart part back primary

/-- The first logical partition starts with its boot record where the element starts. -/
theorem head_iff (last : ExtendedFinal env hd size start rest earlier later ext final) :
    (∀ first, later.find? (·.logical) = some first →
      start.toNat + hd.align.toNat = first.offset.toNat) ↔
    ∀ part, rest.find? (·.logical) = some part → part.offset = 0 →
      (part.withAlign hd).align.toNat ∣ start.toNat + hd.align.toNat := by
  rcases last.opens with none | ⟨_, first, more, placed, tail, rfl, rfl, logical, logical', head⟩
  · have missing : later.find? (·.logical) = Option.none := by
      refine List.find?_eq_none.mpr fun placed member => ?_
      obtain ⟨origin, among, related⟩ := Related.exists_left last.origins member
      simp [related.logical_eq, none origin among]
    have missing' : rest.find? (·.logical) = Option.none :=
      List.find?_eq_none.mpr fun part member => by simp [none part member]
    rw [missing, missing']
    exact iff_of_true (fun _ found => by cases found) fun _ found => by cases found
  · rw [List.find?_cons_of_pos logical', List.find?_cons_of_pos logical]
    constructor
    · intro starts part same automatic
      obtain rfl := Option.some.inj same
      exact head.mp (starts placed rfl) automatic
    · intro rounded other same
      obtain rfl := Option.some.inj same
      exact head.mpr (rounded first rfl)

/-- **Another element behind the `[Extended]` one is apart from it** unless a later logical partition
makes the element grow over it. -/
theorem apart_iff (last : ExtendedFinal env hd size start rest earlier later ext final) :
    (∀ part ∈ later, part.logical = false → ext.span.Apart part.span) ↔
    ∀ passed part after, rest = passed ++ part :: after → part.logical = false →
      (∃ other ∈ after, other.logical = true) → part.offset.toNat < start.toNat := by
  have startEq : ext.span.start = start.toNat := by rw [← last.inv.offset_eq]; rfl
  constructor
  · intro apart passed part after split primary behind
    have outside := last.outside passed part after split primary behind
    have origins := last.origins
    rw [split] at origins
    obtain ⟨passed', placed, after', same, origin, related⟩ := Related.split_left origins
    obtain ⟨other, member, logical⟩ := behind
    obtain ⟨other', member', origin'⟩ := Related.exists_right related member
    obtain ⟨offset, positive⟩ := last.outside_eq origin (by simp [split]) outside
    have logical' : other'.logical = true := origin'.logical_eq.trans logical
    have among : other' ∈ final.done := by
      rw [last.inv.done_eq, same]
      simp [member']
    -- the element ends behind the later logical partition, so it does not end in front of this one
    have ordered : placed.span.stop ≤ other'.span.start := by
      have ordered := last.inv.ordered
      rw [same] at ordered
      exact List.rel_of_pairwise_cons (List.pairwise_append.mp ordered).2.1 member' logical'
    have covered : other'.span.start ≤ ext.span.stop :=
      (Nat.le_add_right _ _).trans (last.within among logical').stop
    have below : placed.span.start < placed.span.stop := Nat.lt_add_of_pos_right positive
    rw [← offset]
    rcases apart placed (by simp [same]) (origin.logical_eq.trans primary) with before | behind
    · exact absurd (below.trans_le (ordered.trans (covered.trans before))) (lt_irrefl _)
    · rw [startEq] at behind
      exact below.trans_le behind
  · intro between placed member primary
    obtain ⟨passed', after', same⟩ := List.append_of_mem member
    by_cases behind : ∃ other ∈ after', other.logical = true
    · have origins := last.origins
      rw [same] at origins
      obtain ⟨passed, part, after, split, origin, related⟩ := Related.split_right origins
      obtain ⟨other', member', logical'⟩ := behind
      obtain ⟨other, among, origin'⟩ := Related.exists_left related member'
      have behind : ∃ other ∈ after, other.logical = true :=
        ⟨other, among, origin'.logical_eq.symm.trans logical'⟩
      have primary' : part.logical = false := origin.logical_eq.symm.trans primary
      have outside := last.outside passed part after split primary' behind
      obtain ⟨offset, _⟩ := last.outside_eq origin (by simp [split]) outside
      have less := between passed part after split primary' behind
      rw [← offset] at less
      refine Or.inr ?_
      rw [startEq]
      exact (last.inv.sides placed member primary).resolve_right (not_le.mpr less)
    · refine last.inv.last_apart passed' placed after' same primary ?_
      simpa using behind

end ExtendedFinal

/-! ### The theorem -/

/-- **The extended partition of an accepted configuration is exclusive exactly when** an automatic
first logical partition is not rounded past the start of the element, and no element outside the
table lies behind that start and in front of a later logical partition. -/
theorem hdimageSetup_extended_iff {config : HdimageConfig} {layout : Layout} {prepared : Prepared}
    {offset : Nat} {rest : List Partition} (holeless : env.Holeless) (noWrap : NoWrap env config)
    (prep : prepare env config = .ok prepared) (accepted : hdimageSetup env config = .ok layout)
    (found : exactExtended env prepared = some (offset, rest)) :
    ∃ ext ∈ layout.partitions, ext.node = .extended ∧
      (ExtendedExclusive layout ext ↔ Compact layout.hd offset rest) := by
  obtain ⟨size, start, earlier, later, ext, final, last, done, rfl⟩ :=
    hdimageSetup_extendedFinal holeless noWrap prep accepted found
  refine ⟨ext, ?_, last.inv.extended, ?_⟩
  · rw [done]
    exact last.inv.mem_done
  · rw [last.exclusive_iff rfl done, last.head_iff, last.apart_iff]
    exact ⟨fun ⟨first, between⟩ => ⟨first, between⟩, fun ⟨first, between⟩ => ⟨first, between⟩⟩

/-- The first logical partition asks for an alignment of its own, and a boot loader lies between the
logical partitions. -/
def scatteredConfig : HdimageConfig where
  options := { extendedPartition := 1, align := 512 }
  partitions := [
    { title := "root", size := 65536, align := 1048576, partitionType := 0x83 },
    { title := "loader", offset := 2097152, size := 8192, inPartitionTable := false,
      sparse := false },
    { title := "data", size := 65536, partitionType := 0x83 }]

theorem hdimageSetup_accepts_scattered :
    NoWrap .bare scatteredConfig ∧
      ∃ layout, hdimageSetup .bare scatteredConfig = .ok layout ∧
        (∃ ext ∈ layout.partitions, ext.node = .extended) ∧
        ∀ ext ∈ layout.partitions, ext.node = .extended → ¬ ExtendedExclusive layout ext := by
  refine ⟨by decide +kernel, ?_⟩
  obtain ⟨layout, accepted, check⟩ := exists_layout .bare scatteredConfig
    (fun layout => layout.partitions.any (·.node = .extended) &&
      layout.partitions.all fun ext => ext.node ≠ .extended ||
        layout.partitions.any fun part => !part.logical && part.node ≠ .extended &&
          !ext.span.Apart part.span) (by decide +kernel)
  simp only [Bool.and_eq_true, List.any_eq_true, List.all_eq_true, Bool.or_eq_true,
    decide_eq_true_eq, Bool.not_eq_true'] at check
  obtain ⟨⟨ext, member, extended⟩, meets⟩ := check
  refine ⟨layout, accepted, ⟨ext, member, extended⟩, fun ext member extended exclusive => ?_⟩
  obtain ⟨part, among, ⟨primary, other⟩, together⟩ :=
    (meets ext member).resolve_left (not_not.mpr extended)
  exact of_decide_eq_false together (exclusive.apart part among primary other)

theorem hdimageSetup_extended_iff_logicalConfig :
    ∃ prepared layout offset rest, prepare .bare logicalConfig = .ok prepared ∧
      hdimageSetup .bare logicalConfig = .ok layout ∧
      exactExtended .bare prepared = some (offset, rest) ∧
      ∃ ext ∈ layout.partitions, ext.node = .extended ∧
        (ExtendedExclusive layout ext ↔ Compact layout.hd offset rest) := by
  obtain ⟨prepared, prep, checked⟩ := exists_ok (prepare .bare logicalConfig) (fun prepared =>
    (exactExtended .bare prepared).isSome) (by decide +kernel)
  obtain ⟨⟨offset, rest⟩, found⟩ := Option.isSome_iff_exists.mp checked
  obtain ⟨layout, accepted, _⟩ := exists_layout .bare logicalConfig (fun _ => true)
    (by decide +kernel)
  exact ⟨prepared, layout, offset, rest, prep, accepted, found,
    hdimageSetup_extended_iff Env.bare_holeless (by decide +kernel) prep accepted found⟩

end Genimage
