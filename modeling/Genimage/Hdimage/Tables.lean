/-
**The stores into the tables.**

The writers go through the whole partition list and have no bound of their own. For an MBR the bound
comes from the scan for logical partitions, which counts the entries under another filter than the
writer; for a hybrid MBR from the counter `hybrid_entries` of the setup loop; for the GPT there is none
(`tablesInRange_iff`).
-/

import Genimage.Hdimage.Gpt
import Genimage.Hdimage.Origin

namespace Genimage

open Library

variable {env : Env} {hd : Hdimage} {size : UInt64}

/-! ### Hybrid entries -/

/-- A partition that `hybrid_entries` counts. -/
def countsHybrid (hd : Hdimage) (part : Partition) : Bool :=
  hd.tableType.hasGpt && part.inPartitionTable && part.partitionType ≠ 0

/-- **`hybrid_entries` counts the elements passed**: the invariant of the loop. -/
theorem loop_hybridEntries {parts : List Partition} {start final : SetupState}
    (empty : start.done = []) (zero : start.hybridEntries = 0)
    (run : parts.foldlM (setupPart env hd size) start = .ok final) :
    final.hybridEntries = final.done.countP (countsHybrid hd) := by
  refine loop_invariant (fun _ state => state.hybridEntries = state.done.countP (countsHybrid hd))
    ?_ ?_ run
  · rw [empty, zero]
    rfl
  · intro done part rest state placed next _ counted step
    have last : [placed].countP (countsHybrid hd) =
        if hd.tableType.hasGpt ∧ placed.inPartitionTable ∧ placed.partitionType ≠ 0 then 1
        else 0 := by
      rw [List.countP_singleton]
      simp [countsHybrid, and_assoc]
    obtain ⟨keep, same, ⟨_, rfl⟩ | ⟨_, rfl⟩⟩ := step.done_cases
    all_goals rw [same, List.countP_append, last, step.hybrid_eq, counted]
    · rw [List.countP_map]
      rfl
    · rw [List.map_id]

/-! ### The elements with an entry -/

/-- An element has the table flag of its origin when there is a table. -/
theorem Origin.inTable_eq {part placed : Partition} (origin : Origin env hd size part placed)
    (table : hd.tableType ≠ .none) : placed.inPartitionTable = part.inPartitionTable := by
  rw [origin.inPartitionTable_eq]
  simp [Partition.withAlign, table]

/-- An area has no entry. -/
theorem inTable_of_mem_tableAreas {tableType : TableType} {gptLocation length : UInt64}
    {part : Partition} (member : part ∈ tableAreas tableType gptLocation length) :
    part.inPartitionTable = false := by
  unfold tableAreas at member
  split_ifs at member
  · cases member
  · simp only [List.mem_cons, List.not_mem_nil, or_false] at member
    rcases member with rfl | rfl | rfl | rfl <;> rfl
  · rw [List.mem_singleton.mp member]
    rfl

theorem countP_tableAreas {tableType : TableType} {gptLocation length : UInt64}
    {test : Partition → Bool} (inTable : ∀ part, test part = true → part.inPartitionTable = true) :
    (tableAreas tableType gptLocation length).countP test = 0 := by
  refine List.countP_eq_zero.mpr fun part member passes => ?_
  have inside := inTable part passes
  rw [inTable_of_mem_tableAreas member] at inside
  cases inside

/-- A member of a related list passes the test when its partner does. -/
theorem countP_eq {test : Partition → Bool} {left right : List Partition}
    (related : List.Forall₂ (Origin env hd size) left right)
    (same : ∀ part placed, Origin env hd size part placed → test part = test placed) :
    right.countP test = left.countP test := by
  rw [List.countP_eq_length_filter, List.countP_eq_length_filter]
  exact (Related.filter related same).length_eq.symm

/-- **The primary entries of an MBR.** -/
theorem countP_mbr {config : HdimageConfig} {layout : Layout}
    (accepted : hdimageSetup env config = .ok layout) (mbr : layout.hd.tableType = .mbr) :
    layout.partitions.countP (inMbr layout.hd) ≤ 4 := by
  obtain ⟨prepared, run, hdEq, origins⟩ := setup_origins accepted
  rw [hdEq] at mbr ⊢
  have table : prepared.hd.tableType ≠ .none := by rw [mbr]; decide
  have inMbr_eq : ∀ part, inMbr prepared.hd part = (part.inPartitionTable && !part.logical) := by
    intro part
    simp [inMbr, mbr]
  rw [countP_eq origins fun part placed origin => by
    rw [inMbr_eq, inMbr_eq, origin.inTable_eq table, origin.logical_eq]]
  obtain ⟨parts, scanned, list⟩ := (prepare_ok run).list_eq
  have areas : (tableAreas prepared.hd.tableType prepared.hd.gptLocation prepared.size).countP
      (inMbr prepared.hd) = 0 := by
    refine countP_tableAreas fun part passes => ?_
    rw [inMbr_eq, Bool.and_eq_true] at passes
    exact passes.1
  rw [list, List.countP_append, areas, Nat.add_zero]
  have few : ∀ parts : List Partition,
      parts.countP (inMbr prepared.hd) ≤ parts.countP (·.inPartitionTable) := fun parts =>
    List.countP_mono_left fun part _ passes => by
      rw [inMbr_eq, Bool.and_eq_true] at passes
      exact passes.1
  rcases setupLogicalPartitions_ok scanned with
    ⟨same, small⟩ | ⟨_, before, block, rest, first, _, split, new⟩
  · rw [← same] at small
    exact (few parts).trans (small mbr)
  · have marked : (block.map Partition.markLogical).countP (inMbr prepared.hd) = 0 := by
      refine List.countP_eq_zero.mpr fun part member passes => ?_
      obtain ⟨plain, _, rfl⟩ := List.mem_map.mp member
      simp [inMbr_eq, Partition.markLogical] at passes
      exact absurd passes.1 (by simp [passes.2.2])
    have one : inMbr prepared.hd (extendedPartition prepared.hd.align first) = true := by
      rw [inMbr_eq]
      rfl
    have before_le := few before
    have rest_le := few rest
    have entries := split.entries
    simp only at new
    rw [new, extendedList, List.countP_append, List.countP_cons_of_pos one, List.countP_append,
      marked]
    omega

/-- The entries of a hybrid MBR without its last one. -/
theorem countP_hybrid {config : HdimageConfig} {layout : Layout}
    (accepted : hdimageSetup env config = .ok layout) (hybrid : layout.hd.tableType = .hybrid) :
    layout.partitions.countP (inMbr layout.hd) ≤ 3 := by
  obtain ⟨prepared, state, _, _, loop, finished⟩ := hdimageSetup_ok accepted
  have counted := loop_hybridEntries rfl rfl loop
  have small := finished.hybrid_le
  rw [finished.hd_eq] at hybrid
  rw [finished.partitions_eq, finished.hd_eq]
  refine le_trans (List.countP_mono_left fun part _ passes => ?_) (counted ▸ small)
  have gpt : prepared.hd.tableType.hasGpt = true := by rw [hybrid]; rfl
  simp [inMbr, hybrid] at passes
  simp [countsHybrid, gpt, passes]

/-- **The entries of a GPT** are the sections in the table. -/
theorem countP_gpt {config : HdimageConfig} {layout : Layout}
    (accepted : hdimageSetup env config = .ok layout) (gpt : layout.hd.tableType.hasGpt = true) :
    layout.partitions.countP (·.inPartitionTable) =
      config.partitions.countP (·.inPartitionTable) := by
  obtain ⟨prepared, run, hdEq, origins⟩ := setup_origins accepted
  rw [hdEq] at gpt
  have table : prepared.hd.tableType ≠ .none := by
    rintro none
    rw [none] at gpt
    cases gpt
  rw [countP_eq origins fun part placed origin => (origin.inTable_eq table).symm]
  obtain ⟨parts, scanned, list⟩ := (prepare_ok run).list_eq
  rw [list, List.countP_append, countP_tableAreas fun _ passes => passes, Nat.add_zero]
  rcases setupLogicalPartitions_ok scanned with ⟨same, _⟩ | ⟨mbr, _⟩
  · simp only at same
    rw [same, parsePartitions, List.countP_map]
    rfl
  · rw [mbr] at gpt
    cases gpt

/-! ### No store past the end -/

/-- **The stores that `hdimage_generate` makes for a layout are in range.** -/
structure TablesInRange (layout : Layout) : Prop where
  mbr : layout.hd.tableType = .mbr ∨ layout.hd.tableType = .hybrid →
    ∃ entries, mbrEntries layout.hd layout.partitions = .ok entries
  protective : layout.hd.tableType = .gpt →
    ∃ entries, mbrEntries layout.hd [protectivePartition layout.size] = .ok entries
  gpt : layout.hd.tableType.hasGpt = true → ∃ entries, gptTable layout.partitions = .ok entries

theorem mbrEntries_exists {partitions : List Partition}
    (few : partitions.countP (inMbr hd) + (if hd.tableType = .hybrid then 1 else 0) ≤ 4) :
    ∃ entries, mbrEntries hd partitions = .ok entries := by
  refine ⟨_, mbrEntries_ok.mpr ⟨rfl, ?_⟩⟩
  rw [List.length_append, List.length_map, ← List.countP_eq_length_filter]
  split_ifs at few ⊢ <;> exact few

/-- **The tables are indexed in range exactly when** a GPT has at most 128 partitions. -/
theorem tablesInRange_iff {config : HdimageConfig} {layout : Layout} {tableType : TableType}
    (accepted : hdimageSetup env config = .ok layout)
    (parsed : parseTableType config.options = .ok tableType) :
    TablesInRange layout ↔ (tableType.hasGpt = true →
      config.partitions.countP (·.inPartitionTable) ≤ gptEntries) := by
  have same : layout.hd.tableType = tableType := by
    obtain ⟨prepared, _, _, ready, _, finished⟩ := hdimageSetup_ok accepted
    have := ready.table.symm.trans parsed
    rw [finished.hd_eq]
    exact Except.ok.inj this
  subst same
  have table : layout.hd.tableType.hasGpt = true → ((∃ entries, gptTable layout.partitions =
      .ok entries) ↔ config.partitions.countP (·.inPartitionTable) ≤ gptEntries) := by
    intro gpt
    rw [← countP_gpt accepted gpt, List.countP_eq_length_filter]
    simp only [gptTable_ok]
    constructor
    · rintro ⟨_, rfl, few⟩
      rwa [List.length_map] at few
    · exact fun few => ⟨_, rfl, by rwa [List.length_map]⟩
  constructor
  · exact fun inRange gpt => (table gpt).mp (inRange.gpt gpt)
  · intro few
    refine ⟨?_, ?_, fun gpt => (table gpt).mpr (few gpt)⟩
    · rintro (mbr | hybrid)
      · refine mbrEntries_exists ?_
        rw [if_neg (by rw [mbr]; decide)]
        exact countP_mbr accepted mbr
      · refine mbrEntries_exists ?_
        rw [if_pos hybrid]
        exact Nat.succ_le_succ (countP_hybrid accepted hybrid)
    · intro gpt
      refine mbrEntries_exists ?_
      rw [if_neg (by rw [gpt]; decide)]
      exact List.countP_le_length.trans (show 1 ≤ 4 by decide)

/-- One partition more than the table has entries. -/
def crowdedConfig : HdimageConfig where
  options := { partitionTableType := "gpt" }
  partitions := List.replicate 129 { title := "data", size := 512 }

theorem hdimageSetup_accepts_crowded :
    ∃ layout, hdimageSetup .bare crowdedConfig = .ok layout ∧ ¬ TablesInRange layout := by
  obtain ⟨layout, accepted, gpt⟩ := exists_layout .bare crowdedConfig
    (fun layout => layout.hd.tableType.hasGpt && layout.partitions.countP (·.inPartitionTable) = 129)
    (by decide +kernel)
  simp only [Bool.and_eq_true, decide_eq_true_eq] at gpt
  refine ⟨layout, accepted, fun inRange => ?_⟩
  obtain ⟨entries, stored⟩ := inRange.gpt gpt.1
  obtain ⟨rfl, few⟩ := gptTable_ok.mp stored
  rw [List.length_map, ← List.countP_eq_length_filter, gpt.2] at few
  exact absurd few (by decide)

theorem tablesInRange_iff_crowded :
    ∃ layout, hdimageSetup .bare crowdedConfig = .ok layout ∧
      (TablesInRange layout ↔ (TableType.gpt.hasGpt = true →
        crowdedConfig.partitions.countP (·.inPartitionTable) ≤ gptEntries)) := by
  obtain ⟨layout, accepted, _⟩ := exists_layout .bare crowdedConfig (fun _ => true)
    (by decide +kernel)
  exact ⟨layout, accepted, tablesInRange_iff accepted rfl⟩

end Genimage
