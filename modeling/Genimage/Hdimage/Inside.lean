/-
**A layout whose records lie in the image.**

The sums of `hdimage_setup` wrap without a message, and then a partition can lie outside the image that
the setup returns, or a record in front of its own `[Extended]` element. Where all ends stay far below
the end of the words and the partitions of the table do not wrap (`Partition.Limited`), the records are
where `RecordsInside` wants them. The other elements may wrap as they like: only their ends as words
come into the running end.
-/

import Genimage.Hdimage.EbrLayout

namespace Genimage

open Library

variable {env : Env} {hd : Hdimage} {size : UInt64} {config : HdimageConfig} {prepared : Prepared}
  {layout : Layout}

/-- A small value is rounded up without wrapping, whatever the alignment is. -/
theorem roundupFits_small {value : UInt64} (align : UInt64) (small : value.toNat ≤ 2 ^ 63) :
    RoundupFits value align := by
  by_cases zero : value = 0
  · exact Or.inl zero
  have positive := toNat_pos.mpr zero
  refine Or.inr ?_
  have room := align.toNat_lt
  by_cases below : value.toNat ≤ align.toNat
  · have none : (value.toNat - 1) / align.toNat = 0 := Nat.div_eq_of_lt (by omega)
    rw [nextMultiple, none, Nat.zero_add, one_mul]
    exact room
  · exact (nextMultiple_lt align.toNat positive).trans_le (by omega)

/-! ### The elements -/

/-- **What an element adds to the running end stays below the limit**, and what has an entry or a record
does not wrap. -/
structure Partition.Limited (limit : ℕ) (part : Partition) : Prop where
  stop : part.partitionEnd.toNat ≤ limit
  start : part.logical = true ∨ part.node = .extended → part.offset.toNat ≤ limit
  fits : part.inPartitionTable = true ∨ part.logical = true → part.node ≠ .extended → part.Fits

/-- An element that ends below the limit in unbounded numbers. -/
theorem Partition.limited_of_stop {limit : ℕ} (small : limit ≤ 2 ^ 62) {part : Partition}
    (stop : part.span.stop ≤ limit) : part.Limited limit := by
  have below : part.offset.toNat + part.size.toNat ≤ limit := stop
  have fits : part.Fits := below.trans_lt (by omega)
  exact ⟨(Partition.toNat_partitionEnd fits).trans_le stop,
    fun _ => (Nat.le_add_right _ _).trans below, fun _ _ => fits⟩

/-- What a step places is in the final list, `[Extended]` with another size. -/
theorem Placed.limited_of_final {state next final : SetupState} {part placed : Partition}
    {rest : List Partition} {limit : ℕ} (step : Placed env hd size state part placed next)
    (extended : part.node = .extended → ∃ first, part = extendedPartition hd.align first)
    (run : rest.foldlM (setupPart env hd size) next = .ok final)
    (ends : ∀ part ∈ final.done, part.Limited limit) : placed.Limited limit := by
  have among : placed.fixed ∈ final.done.map Partition.fixed :=
    (loop_fixed run).subset (List.mem_map_of_mem step.mem_done)
  obtain ⟨last, member, same⟩ := List.mem_map.mp among
  obtain ⟨stop, start, fits⟩ := ends last member
  have node : last.node = placed.node := congrArg (·.1) same
  have logical : last.logical = placed.logical := congrArg (·.2.1) same
  have offset : last.offset = placed.offset := congrArg (·.2.2.1) same
  have inTable : last.inPartitionTable = placed.inPartitionTable := congrArg (·.2.2.2.2.1) same
  rw [node, logical, offset] at start
  by_cases isExtended : placed.node = .extended
  · obtain ⟨first, entered⟩ := extended (step.node_eq ▸ isExtended)
    refine ⟨?_, start, fun _ plain => absurd isExtended plain⟩
    rw [Partition.partitionEnd, step.extended_size entered, UInt64.add_zero]
    exact start (Or.inr isExtended)
  · have length : last.size = placed.size := by
      have both := congrArg (·.2.2.2.2.2) same
      simp only [Partition.fixed, node, if_neg isExtended] at both
      exact both
    rw [Partition.partitionEnd, offset, length] at stop
    rw [inTable, logical, node, Partition.Fits, offset, length] at fits
    exact ⟨stop, start, fits⟩

/-! ### The invariant of the loop -/

/-- **The invariant of the loop for the boot records.** -/
structure EbrInv (hd : Hdimage) (limit : ℕ) (passed : List Partition) (state : SetupState) : Prop where
  nodes : state.done.map (·.node) = passed.map (·.node)
  behind : 512 ≤ state.now.toNat
  now : state.now.toNat ≤ limit
  wide : ∀ part ∈ state.done, part.node = .extended →
    hd.align.toNat ≤ part.offset.toNat ∧ part.offset.toNat ≤ limit
  stops : ∀ part ∈ state.done,
    part.inPartitionTable = true ∨ part.logical = true ∨ part.node = .extended →
      part.span.stop ≤ state.now.toNat
  covered : ∀ part ∈ state.done, part.logical = true →
    ∃ outer ∈ state.done, outer.node = .extended ∧ part.EbrWithin hd outer
  ordered : state.done.Pairwise fun part next => part.logical = true → part.node ≠ .extended →
    next.logical = true → part.span.stop + hd.align.toNat ≤ next.offset.toNat

section Step

variable {limit : ℕ} {passed : List Partition} {state next : SetupState} {part placed : Partition}

/-- **The sums of a step** stay far below the end of the words. -/
theorem EbrInv.stepFits (inv : EbrInv hd limit passed state) (small : limit ≤ 2 ^ 62)
    (mbr : part.node ≠ .gptBackup)
    (preceded : part.logical = true → ∃ outer ∈ passed, outer.node = .extended) :
    StepFits hd state.now (part.withAlign hd) := by
  have grounded : ¬ (part.withAlign hd).isFloatingBackup := fun floating => mbr floating.1
  have now := inv.now
  have room : part.logical = true → state.now.toNat + hd.align.toNat ≤ 2 ^ 63 := by
    intro logical
    have among : Node.extended ∈ state.done.map (·.node) := by
      rw [inv.nodes]
      exact List.mem_map.mpr (preceded logical)
    obtain ⟨outer, member, extended⟩ := List.mem_map.mp among
    have wide := inv.wide outer member extended
    omega
  have sum : part.logical = true →
      (state.now + hd.align).toNat = state.now.toNat + hd.align.toNat := fun logical =>
    toNat_add_of_lt ((room logical).trans_lt (by decide))
  have rounded : part.logical = true → RoundupFits (state.now + hd.align) (part.withAlign hd).align :=
    fun logical => roundupFits_small _ (by rw [sum logical]; exact room logical)
  constructor
  case ebr => exact fun logical => ⟨(room logical).trans_lt (by decide), rounded logical⟩
  case backup => exact fun floating => absurd floating grounded
  case automatic =>
    intro _ _
    have running : runningEnd hd state.now (part.withAlign hd) =
        reserveEbr hd state.now (part.withAlign hd) := if_neg grounded
    rw [running, reserveEbr]
    by_cases logical : (part.withAlign hd).logical = true
    · rw [if_pos logical]
      have positive : state.now + hd.align ≠ 0 := by
        have behind := inv.behind
        rw [← toNat_pos, sum logical]
        omega
      have fits := (rounded logical).resolve_left positive
      by_cases zero : roundup (state.now + hd.align) (part.withAlign hd).align = 0
      · exact Or.inl zero
      · refine Or.inr ?_
        rw [nextMultiple_eq_of_dvd (toNat_pos.mpr zero) (dvd_roundup positive fits)]
        exact UInt64.toNat_lt _
    · rw [if_neg logical]
      exact roundupFits_small _ (by omega)

/-- The running end in front of an element stays below the limit: that of a logical partition is not
behind its offset. -/
theorem EbrInv.running_le (inv : EbrInv hd limit passed state) (mbr : part.node ≠ .gptBackup)
    (step : Placed env hd size state part placed next) (limited : placed.Limited limit) :
    (runningEnd hd state.now (part.withAlign hd)).toNat ≤ limit := by
  cases logical : part.logical with
  | true =>
    have isLogical := step.logical_eq.trans logical
    have place := step.place
    rw [checkPlace, if_pos isLogical, failIf_ok, gt_iff_lt, UInt64.not_lt,
      UInt64.le_iff_toNat_le] at place
    exact place.trans (limited.start (Or.inl isLogical))
  | false =>
    have grounded : ¬ (part.withAlign hd).isFloatingBackup := fun floating => mbr floating.1
    have primary : ¬ (part.withAlign hd).logical = true := by
      simp [Partition.withAlign, logical]
    rw [show runningEnd hd state.now (part.withAlign hd) =
      reserveEbr hd state.now (part.withAlign hd) from if_neg grounded, reserveEbr, if_neg primary]
    exact inv.now

/-- **One step keeps the invariant**, if what it places is limited. -/
theorem EbrInv.step (inv : EbrInv hd limit passed state) (small : limit ≤ 2 ^ 62)
    (nonzero : hd.align ≠ 0) (mbr : part.node ≠ .gptBackup)
    (preceded : part.logical = true →
      512 ≤ hd.align.toNat ∧ ∃ outer ∈ passed, outer.node = .extended)
    (extended : part.node = .extended → hd.tableType = .mbr ∧ ∃ first, part =
      extendedPartition hd.align first)
    (step : Placed env hd size state part placed next) (limited : placed.Limited limit) :
    EbrInv hd limit (passed ++ [part]) next := by
  have fits := inv.stepFits small mbr fun logical => (preceded logical).2
  -- the element `[Extended]` has no size yet
  have placedFits : placed.inPartitionTable = true ∨ placed.logical = true ∨
      placed.node = .extended → placed.Fits := by
    intro recorded
    by_cases isExtended : placed.node = .extended
    · obtain ⟨_, first, same⟩ := extended (step.node_eq ▸ isExtended)
      rw [Partition.Fits, step.extended_size same]
      exact placed.offset.toNat_lt
    · refine limited.fits ?_ isExtended
      rcases recorded with inTable | logical | wrong
      · exact Or.inl inTable
      · exact Or.inr logical
      · exact absurd wrong isExtended
  obtain ⟨keep, done, kept⟩ := step.done_kept
  constructor
  case nodes => rw [nodes_done step, inv.nodes, List.map_append, List.map_singleton]
  case behind => exact inv.behind.trans (step.now_le nonzero fits)
  case now =>
    rw [step.now_eq, toNat_maxUll]
    exact max_le limited.stop (inv.running_le mbr step limited)
  case wide =>
    rw [done]
    intro other member isExtended
    rcases List.mem_append.mp member with member | member
    · obtain ⟨old, among, rfl⟩ := List.mem_map.mp member
      obtain ⟨node, _, offset, _⟩ := kept old
      rw [offset]
      exact inv.wide old among (node ▸ isExtended)
    · rw [List.mem_singleton.mp member] at isExtended ⊢
      obtain ⟨table, first, same⟩ := extended (step.node_eq ▸ isExtended)
      have aligned : placed.align = hd.align := by
        rw [step.align_eq, same]
        exact if_pos nonzero
      have positive := toNat_pos.mpr (step.extended_offset nonzero fits table same inv.behind)
      rw [← aligned]
      exact ⟨Nat.le_of_dvd positive step.offset_dvd, limited.start (Or.inr isExtended)⟩
  case stops =>
    exact step.stops_le_of _ (fun _ _ recorded => recorded) nonzero fits placedFits inv.stops
  case covered =>
    exact step.covered_step nonzero fits (fun logical => placedFits (Or.inr (Or.inl logical)))
      inv.nodes (fun other member recorded => inv.stops other member (Or.inr recorded)) inv.covered
      preceded
  case ordered =>
    rw [done]
    refine List.pairwise_append.mpr ⟨?_, List.pairwise_singleton _ _, ?_⟩
    · refine List.pairwise_map.mpr (inv.ordered.imp fun {old other} earlier logical plain logical' => ?_)
      obtain ⟨node, sameLogical, _, same, _⟩ := kept old
      obtain ⟨_, sameLogical', offset, _⟩ := kept other
      rw [node] at plain
      rw [same plain, offset]
      exact earlier (sameLogical ▸ logical) plain (sameLogical' ▸ logical')
    · intro _ member other last logical plain logical'
      obtain ⟨old, among, rfl⟩ := List.mem_map.mp member
      obtain ⟨node, sameLogical, _, same, _⟩ := kept old
      rw [node] at plain
      rw [sameLogical] at logical
      rw [List.mem_singleton.mp last] at logical' ⊢
      rw [same plain]
      exact (Nat.add_le_add_right (inv.stops old among (Or.inr (Or.inl logical))) _).trans
        (step.ebr_ge nonzero fits logical')

end Step

/-! ### The run -/

namespace Ready

/-- An MBR image has no GPT backup. -/
theorem node_ne_gptBackup {part : Partition} (ready : Ready env config prepared)
    (mbr : prepared.hd.tableType = .mbr) (member : part ∈ prepared.partitions) :
    part.node ≠ .gptBackup := by
  obtain ⟨parts, scanned, list⟩ := ready.list_eq
  rw [list] at member
  rcases List.mem_append.mp member with parsed | area
  · rcases setupLogicalPartitions_mem scanned parsed with ⟨_, _, _, rfl⟩ | ⟨_, first, rfl⟩
    · exact nofun
    · exact nofun
  · rw [(node_of_mem_tableAreas area).2 mbr]
    exact nofun

/-- **The loop behind a state with the invariant**; by induction on the list. -/
theorem ebrInv (ready : Ready env config prepared) {limit : ℕ} (small : limit ≤ 2 ^ 62)
    (mbr : prepared.hd.tableType = .mbr) {final : SetupState}
    (ends : ∀ part ∈ final.done, part.Limited limit) {rest : List Partition} :
    ∀ {passed : List Partition} {state : SetupState}, prepared.partitions = passed ++ rest →
      EbrInv prepared.hd limit passed state →
      rest.foldlM (setupPart env prepared.hd prepared.size) state = .ok final →
      EbrInv prepared.hd limit prepared.partitions final := by
  induction rest with
  | nil =>
    intro passed state split inv run
    obtain rfl : state = final := Except.ok.inj run
    rwa [split, List.append_nil]
  | cons part rest ih =>
    intro passed state split inv run
    rw [List.foldlM_cons, do_eq_ok] at run
    obtain ⟨next, taken, run⟩ := run
    obtain ⟨placed, step⟩ := setupPart_ok taken
    have member : part ∈ prepared.partitions := by simp [split]
    have limited :=
      step.limited_of_final (fun extended => (ready.extended_eq member extended).2) run ends
    refine ih ?_ (inv.step small ready.align_ne_zero (ready.node_ne_gptBackup mbr member)
      (ready.preceded split) (ready.extended_eq member) step limited) run
    rw [split, List.append_assoc, List.singleton_append]

end Ready

/-- **The records lie in the image** where no end has passed the limit. -/
theorem setup_recordsInside (accepted : hdimageSetup env config = .ok layout)
    (mbr : layout.hd.tableType = .mbr) {limit : ℕ} (small : limit ≤ 2 ^ 62)
    (ends : ∀ part ∈ layout.partitions, part.Limited limit) : RecordsInside layout := by
  have area := (setup_areas accepted).1 (by rw [mbr]; decide)
  have room : 512 ≤ limit := (ends mbrArea area).stop
  obtain ⟨prepared, final, prep, ready, loop, finished⟩ := hdimageSetup_ok accepted
  rw [finished.hd_eq] at mbr
  rw [finished.partitions_eq] at ends
  have start : prepared.start.now.toNat = 512 := by
    show (tableEnd prepared.hd.tableType prepared.hd.gptLocation).toNat = 512
    rw [mbr]
    exact show mbrArea.partitionEnd.toNat = 512 by decide
  have inv := ready.ebrInv small mbr ends (List.nil_append _).symm
    ⟨rfl, start.ge, start.le.trans room, by simp [Prepared.start], by simp [Prepared.start],
      by simp [Prepared.start], .nil⟩ loop
  have plain : ∀ part ∈ final.done, part.logical = true → part.node ≠ .extended := by
    intro part member logical extended
    obtain ⟨entered, among, origin⟩ := Related.exists_left (loop_origins rfl loop) member
    obtain ⟨_, first, rfl⟩ := ready.extended_eq among (origin.node_eq ▸ extended)
    cases logical.symm.trans origin.logical_eq
  constructor
  case stops =>
    intro part member inTable
    rw [finished.partitions_eq] at member
    exact (inv.stops part member (Or.inl inTable)).trans finished.now_le
  case behind =>
    intro part member extended
    rw [finished.partitions_eq] at member
    exact (toNat_pos.mpr ready.align_ne_zero).trans_le (inv.wide part member extended).1
  case within =>
    rw [finished.hd_eq, finished.partitions_eq]
    exact inv.covered
  case apart =>
    rw [finished.partitions_eq]
    refine inv.ordered.imp_of_mem fun {part next} member _ earlier logical logical' => Or.inl ?_
    obtain ⟨_, _, _, within⟩ := inv.covered part member logical
    have wide := within.wide
    have above : part.offset.toNat + part.size.toNat + prepared.hd.align.toNat ≤
      next.offset.toNat := earlier logical (plain part member logical) logical'
    omega

end Genimage
