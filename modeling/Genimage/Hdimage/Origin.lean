/-
**Where an element of the final list comes from.**

The loop goes through the list once and keeps its length and order. `Origin` is what holds between
the element that went into the loop and the one that came out of it, whatever the rest of the list
was; `setup_origins` says that the two lists are related by it, position by position. Only the size
of the `[Extended]` element changes after its step, so `Origin` says nothing about that size.
-/

import Genimage.Hdimage.Accepted
import Genimage.Library.Related

namespace Genimage

open Library

variable {env : Env} {hd : Hdimage} {size : UInt64}

/-! ### Growing the extended partition -/

@[simp]
theorem grow_node (now : UInt64) (part : Partition) : (part.grow now).node = part.node := rfl

@[simp]
theorem grow_offset (now : UInt64) (part : Partition) : (part.grow now).offset = part.offset := rfl

theorem grow_eq_self (now : UInt64) {part : Partition} (other : part.node ≠ .extended) :
    part.grow now = part := by
  rw [Partition.grow, if_neg other]
  rfl

namespace Placed

variable {state next : SetupState} {part placed : Partition}

theorem node_eq (step : Placed env hd size state part placed next) : placed.node = part.node := by
  rw [step.kept]
  rfl

theorem logical_eq (step : Placed env hd size state part placed next) :
    placed.logical = part.logical := by
  rw [step.kept]
  rfl

theorem align_eq (step : Placed env hd size state part placed next) :
    placed.align = (part.withAlign hd).align := by
  rw [step.kept]
  rfl

theorem inPartitionTable_eq (step : Placed env hd size state part placed next) :
    placed.inPartitionTable = (part.withAlign hd).inPartitionTable := by
  rw [step.kept]
  rfl

theorem autoresize_eq (step : Placed env hd size state part placed next) :
    placed.autoresize = part.autoresize := by
  rw [step.kept]
  rfl

theorem image_eq (step : Placed env hd size state part placed next) :
    placed.image = part.image := by
  rw [step.kept]
  rfl

theorem imageoffset_eq (step : Placed env hd size state part placed next) :
    placed.imageoffset = part.imageoffset := by
  rw [step.kept]
  rfl

theorem mem_done (step : Placed env hd size state part placed next) : placed ∈ next.done := by
  rw [step.done_eq]
  exact List.mem_append_right _ (List.mem_singleton_self _)

/-- The elements passed behind the step: those in front of it, possibly grown, and the new one. -/
theorem done_cases (step : Placed env hd size state part placed next) :
    ∃ keep : Partition → Partition, next.done = state.done.map keep ++ [placed] ∧
      ((placed.logical = true ∧ keep = Partition.grow next.now) ∨
        (placed.logical = false ∧ keep = id)) := by
  cases logical : placed.logical with
  | true =>
    refine ⟨Partition.grow next.now, ?_, Or.inl ⟨rfl, rfl⟩⟩
    rw [step.done_eq, logical]
    rfl
  | false =>
    refine ⟨id, ?_, Or.inr ⟨rfl, rfl⟩⟩
    rw [step.done_eq, logical, List.map_id]
    rfl

end Placed

/-! ### The relation -/

/-- **`part` went into the loop and `placed` came out of it.** -/
structure Origin (env : Env) (hd : Hdimage) (size : UInt64) (part placed : Partition) : Prop where
  kept : placed = (((part.withAlign hd).withUuids placed.partitionUuid
    placed.partitionTypeUuid).withOffset placed.offset).withSize placed.size
  options : checkTableOptions hd.tableType (part.withAlign hd) = .ok ()
  uuids : ∃ drawn drawn', setupPartUuids env hd drawn (part.withAlign hd) =
    .ok ((part.withAlign hd).withUuids placed.partitionUuid placed.partitionTypeUuid, drawn')
  offset_eq : ∃ now, placed.offset = chosenOffset hd now (part.withAlign hd)
  offset_dvd : placed.align.toNat ∣ placed.offset.toNat
  data : ∀ image, placed.image = some image → ∃ child, env.imageGet image = some child ∧
    (child.size ≠ 0 → placed.imageoffset ≤ child.size)
  sized : placed.node ≠ .extended → SizeRule env hd size part.size placed ∧ placed.size ≠ 0 ∧
    (placed.inPartitionTable = true → 512 ∣ placed.size.toNat) ∧
    ∀ image child, placed.image = some image → env.imageGet image = some child →
      child.dataSize placed.imageoffset ≤ placed.size

namespace Origin

variable {part placed : Partition}

theorem of_placed {state next : SetupState} (step : Placed env hd size state part placed next) :
    Origin env hd size part placed where
  kept := step.kept
  options := step.options
  uuids := ⟨_, _, step.uuids⟩
  offset_eq := ⟨_, step.offset_eq⟩
  offset_dvd := step.offset_dvd
  data image named :=
    have ⟨child, known, large, _⟩ := step.data image named
    ⟨child, known, large⟩
  sized other := by
    refine ⟨step.size_rule, fun zero => other (step.size_ne zero), step.sectors, ?_⟩
    intro image child named known
    obtain ⟨_, same, _, enough⟩ := step.data image named
    rw [known, Option.some.injEq] at same
    rw [same]
    exact enough

theorem grow (origin : Origin env hd size part placed) (now : UInt64) :
    Origin env hd size part (placed.grow now) := by
  by_cases extended : placed.node = .extended
  · have grown : placed.grow now = placed.withSize (now - placed.offset) := by
      rw [Partition.grow, if_pos extended]
    rw [grown]
    refine ⟨?_, origin.options, origin.uuids, origin.offset_eq, origin.offset_dvd, origin.data,
      fun other => absurd extended other⟩
    conv_lhs => rw [origin.kept]
    rfl
  · rw [grow_eq_self now extended]
    exact origin

theorem node_eq (origin : Origin env hd size part placed) : placed.node = part.node := by
  rw [origin.kept]
  rfl

theorem name_eq (origin : Origin env hd size part placed) : placed.name = part.name := by
  rw [origin.kept]
  rfl

theorem logical_eq (origin : Origin env hd size part placed) : placed.logical = part.logical := by
  rw [origin.kept]
  rfl

theorem align_eq (origin : Origin env hd size part placed) :
    placed.align = (part.withAlign hd).align := by
  rw [origin.kept]
  rfl

theorem inPartitionTable_eq (origin : Origin env hd size part placed) :
    placed.inPartitionTable = (part.withAlign hd).inPartitionTable := by
  rw [origin.kept]
  rfl

/-- An explicit offset is kept. -/
theorem offset_explicit (origin : Origin env hd size part placed) (explicit : part.offset ≠ 0) :
    placed.offset = part.offset := by
  obtain ⟨now, chosen⟩ := origin.offset_eq
  rw [chosen]
  exact chosenOffset_explicit now explicit

/-- An explicit size is kept, unless the partition is resized. -/
theorem size_explicit (origin : Origin env hd size part placed) (other : placed.node ≠ .extended)
    (explicit : part.size ≠ 0) (fixed : part.autoresize = false) : placed.size = part.size := by
  have off : placed.autoresize = false := by
    rw [origin.kept]
    exact fixed
  cases (origin.sized other).1 with
  | autoresize on => exact absurd on (by simp [off])
  | option _ _ same => exact same
  | unset _ unset => exact absurd unset explicit
  | data _ unset => exact absurd unset explicit

end Origin

/-- Of an area of the table only the offset can change. -/
theorem origin_fake {node : Node} {name : String} {offset length : UInt64} {placed : Partition}
    (origin : Origin env hd size (fakePartition node name offset length) placed)
    (other : node ≠ .extended) (nonempty : length ≠ 0) :
    placed = fakePartition node name placed.offset length := by
  have size_eq := origin.size_explicit (by rw [origin.node_eq]; exact other) nonempty rfl
  have aligned : (fakePartition node name offset length).withAlign hd =
      fakePartition node name offset length := by
    simp [Partition.withAlign, fakePartition]
  have kept := origin.kept
  obtain ⟨drawn, drawn', uuids⟩ := origin.uuids
  rw [aligned] at kept uuids
  have same : (fakePartition node name offset length).withUuids placed.partitionUuid
      placed.partitionTypeUuid = fakePartition node name offset length := by
    simp only [setupPartUuids, fakePartition, Bool.and_false, Bool.false_eq_true, if_false,
      Except.ok.injEq, Prod.mk.injEq] at uuids
    exact uuids.1.symm
  rw [same, size_eq] at kept
  exact kept

/-- The areas of the table itself come out of the loop as they went in, the backup apart. -/
theorem origin_fakePartition {node : Node} {name : String} {offset length : UInt64}
    {placed : Partition} (origin : Origin env hd size (fakePartition node name offset length) placed)
    (other : node ≠ .extended) (explicit : offset ≠ 0) (nonempty : length ≠ 0) :
    placed = fakePartition node name offset length := by
  have kept := origin_fake origin other nonempty
  rwa [origin.offset_explicit explicit] at kept

/-! ### The whole list -/

/-- **The final list is the list that went into the loop, element by element.** -/
theorem loop_origins {parts : List Partition} {start final : SetupState} (empty : start.done = [])
    (run : parts.foldlM (setupPart env hd size) start = .ok final) :
    List.Forall₂ (Origin env hd size) parts final.done := by
  refine loop_invariant (fun passed state => List.Forall₂ (Origin env hd size) passed state.done)
    ?_ ?_ run
  · rw [empty]
    exact .nil
  · intro done part rest state placed next _ related step
    have last : List.Forall₂ (Origin env hd size) [part] [placed] :=
      .cons (.of_placed step) .nil
    obtain ⟨keep, same, ⟨_, rfl⟩ | ⟨_, rfl⟩⟩ := step.done_cases
    all_goals rw [same]
    · refine List.rel_append ?_ last
      exact List.forall₂_map_right_iff.mpr (related.imp fun _ _ origin => origin.grow next.now)
    · rw [List.map_id]
      exact List.rel_append related last

/-- The partitions the loop comes to, each with the state in front of it. -/
def setupVisits (env : Env) (prepared : Prepared) : List (SetupState × Partition) :=
  visits (setupPart env prepared.hd prepared.size) prepared.start prepared.partitions

/-- **`placed` is what a step of the loop left**, the size of `[Extended]` apart. -/
def PlacedBy (env : Env) (hd : Hdimage) (size : UInt64) (visit : SetupState × Partition)
    (placed : Partition) : Prop :=
  ∃ length next, Placed env hd size visit.1 visit.2 (placed.withSize length) next ∧
    (placed.node ≠ .extended → length = placed.size)

theorem PlacedBy.grow {visit : SetupState × Partition} {placed : Partition}
    (left : PlacedBy env hd size visit placed) (now : UInt64) :
    PlacedBy env hd size visit (placed.grow now) := by
  obtain ⟨length, next, step, same⟩ := left
  refine ⟨length, next, step, fun other => ?_⟩
  have other : placed.node ≠ .extended := other
  rw [same other, grow_eq_self now other]

/-- **Every step leaves its element in the final list.** -/
theorem loop_visits {parts : List Partition} {start final : SetupState} (empty : start.done = [])
    (run : parts.foldlM (setupPart env hd size) start = .ok final) :
    List.Forall₂ (PlacedBy env hd size) (visits (setupPart env hd size) start parts)
      final.done := by
  refine (foldlM_invariant (fun passed state =>
    passed.foldlM (setupPart env hd size) start = .ok state ∧
      List.Forall₂ (PlacedBy env hd size) (visits (setupPart env hd size) start passed) state.done)
    ⟨rfl, ?_⟩ ?_ run).2
  · rw [empty]
    exact .nil
  · rintro done part rest state next _ ⟨reached, related⟩ taken
    obtain ⟨placed, step⟩ := setupPart_ok taken
    refine ⟨foldlM_append_ok.mpr ⟨state, reached, ?_⟩, ?_⟩
    · rw [List.foldlM_cons, taken]
      rfl
    have last : List.Forall₂ (PlacedBy env hd size) (visits (setupPart env hd size) state [part])
        [placed] := by
      rw [visits, taken]
      exact .cons ⟨placed.size, next, step, fun _ => rfl⟩ .nil
    rw [visits_append reached]
    obtain ⟨keep, same, ⟨_, rfl⟩ | ⟨_, rfl⟩⟩ := step.done_cases
    all_goals rw [same]
    · refine List.rel_append ?_ last
      exact List.forall₂_map_right_iff.mpr (related.imp fun _ _ left => left.grow next.now)
    · rw [List.map_id]
      exact List.rel_append related last

theorem setup_origins {config : HdimageConfig} {layout : Layout}
    (accepted : hdimageSetup env config = .ok layout) :
    ∃ prepared, prepare env config = .ok prepared ∧ layout.hd = prepared.hd ∧
      List.Forall₂ (Origin env prepared.hd prepared.size) prepared.partitions
        layout.partitions := by
  obtain ⟨prepared, state, run, _, loop, finished⟩ := hdimageSetup_ok accepted
  refine ⟨prepared, run, finished.hd_eq, ?_⟩
  rw [finished.partitions_eq]
  exact loop_origins rfl loop

/-! ### The partitions of the configuration -/

/-- The elements that come from the configuration. -/
def userPartitions (parts : List Partition) : List Partition := parts.filter (·.node = .parsed)

theorem userPartitions_append (parts more : List Partition) :
    userPartitions (parts ++ more) = userPartitions parts ++ userPartitions more :=
  List.filter_append ..

theorem userPartitions_tableAreas (tableType : TableType) (gptLocation length : UInt64) :
    userPartitions (tableAreas tableType gptLocation length) = [] := by
  unfold tableAreas
  split_ifs <;> rfl

/-- An element stands for a section. -/
def FromSection (partsec : PartitionSection) (part : Partition) : Prop :=
  ∃ logical, part = (parsePartition partsec).withLogical logical

theorem parsePartitions_fromSection (sections : List PartitionSection) :
    List.Forall₂ FromSection sections (parsePartitions sections) := by
  rw [parsePartitions, List.forall₂_map_right_iff, List.forall₂_same]
  exact fun partsec _ => ⟨false, rfl⟩

theorem userPartitions_eq_self {sections : List PartitionSection} {parts : List Partition}
    (related : List.Forall₂ FromSection sections parts) : userPartitions parts = parts := by
  refine List.filter_eq_self.mpr fun part member => ?_
  obtain ⟨partsec, _, logical, rfl⟩ := Related.exists_left related member
  rfl

theorem userPartitions_extendedList (align : UInt64) (before block rest : List Partition)
    (first : Partition) : userPartitions (extendedList align before block rest first) =
      userPartitions (before ++ block.map Partition.markLogical ++ rest) := by
  rw [extendedList, List.append_assoc, userPartitions_append, userPartitions_append]
  rfl

/-- Marking a block changes nothing but `logical`. -/
theorem fromSection_marked {sections : List PartitionSection} {before block rest : List Partition}
    (related : List.Forall₂ FromSection sections (before ++ block ++ rest)) :
    List.Forall₂ FromSection sections (before ++ block.map Partition.markLogical ++ rest) := by
  let Marked (part new : Partition) : Prop := ∃ logical, new = part.withLogical logical
  have refl : ∀ parts : List Partition, List.Forall₂ Marked parts parts := fun parts =>
    List.forall₂_same.mpr fun part _ => ⟨part.logical, rfl⟩
  have marked : List.Forall₂ Marked block (block.map Partition.markLogical) :=
    List.forall₂_map_right_iff.mpr (List.forall₂_same.mpr fun part _ => ⟨_, rfl⟩)
  have whole := List.rel_append (List.rel_append (refl before) marked) (refl rest)
  refine (Related.trans related whole).imp ?_
  rintro partsec _ ⟨_, ⟨_, rfl⟩, logical, rfl⟩
  exact ⟨logical, rfl⟩

/-- The scan for logical partitions keeps the partitions of the configuration. -/
theorem setupLogicalPartitions_fromSection {tableType : TableType} {align : UInt64}
    {index : UInt32} {sections : List PartitionSection} {result : UInt32 × List Partition}
    (run : setupLogicalPartitions tableType align index (parsePartitions sections) = .ok result) :
    List.Forall₂ FromSection sections (userPartitions result.2) := by
  have parsed := parsePartitions_fromSection sections
  rcases setupLogicalPartitions_ok run with ⟨same, _⟩ | ⟨_, before, block, rest, first, same, _, new⟩
  · rw [same, userPartitions_eq_self parsed]
    exact parsed
  · rw [same] at parsed
    have marked := fromSection_marked parsed
    rw [new, userPartitions_extendedList, userPartitions_eq_self marked]
    exact marked

/-- The elements in front of the areas of the table: partitions of the configuration and, in an MBR
table, `[Extended]`. -/
theorem setupLogicalPartitions_mem {tableType : TableType} {align : UInt64} {index : UInt32}
    {sections : List PartitionSection} {result : UInt32 × List Partition} {part : Partition}
    (run : setupLogicalPartitions tableType align index (parsePartitions sections) = .ok result)
    (member : part ∈ result.2) :
    (∃ partsec ∈ sections, FromSection partsec part) ∨
      (tableType = .mbr ∧ ∃ first, part = extendedPartition align first) := by
  have users := setupLogicalPartitions_fromSection run
  by_cases parsed : part.node = .parsed
  · exact Or.inl (Related.exists_left users (List.mem_filter.mpr ⟨member, by simpa using parsed⟩))
  have listed (parts : List Partition) (stands : List.Forall₂ FromSection sections parts) :
      part ∉ parts := by
    intro among
    obtain ⟨_, _, _, rfl⟩ := Related.exists_left stands among
    exact parsed rfl
  rcases setupLogicalPartitions_ok run with ⟨same, _⟩ | ⟨mbr, before, block, rest, first, split, _, new⟩
  · rw [same] at member
    exact absurd member (listed _ (parsePartitions_fromSection sections))
  · have marked := fromSection_marked (split ▸ parsePartitions_fromSection sections)
    rw [new, extendedList, List.mem_append, List.mem_cons] at member
    rcases member with member | rfl | member
    · refine absurd ?_ (listed _ marked)
      exact List.mem_append_left _ (List.mem_append_left _ member)
    · exact Or.inr ⟨mbr, first, rfl⟩
    · refine absurd ?_ (listed _ marked)
      rw [List.append_assoc]
      exact List.mem_append_right _ member

/-- Every element of the final list comes from a section, from `[Extended]` or from an area of the
table. -/
theorem setup_entered {config : HdimageConfig} {layout : Layout} {part : Partition}
    (accepted : hdimageSetup env config = .ok layout) (member : part ∈ layout.partitions) :
    ∃ size entered, Origin env layout.hd size entered part ∧
      ((∃ partsec ∈ config.partitions, FromSection partsec entered) ∨
        (layout.hd.tableType = .mbr ∧ ∃ first, entered = extendedPartition layout.hd.align first) ∨
        entered ∈ tableAreas layout.hd.tableType layout.hd.gptLocation size) := by
  obtain ⟨prepared, run, same, origins⟩ := setup_origins accepted
  obtain ⟨entered, among, origin⟩ := Related.exists_left origins member
  obtain ⟨parts, scanned, list⟩ := (prepare_ok run).list_eq
  rw [list] at among
  rw [same]
  refine ⟨prepared.size, entered, origin, ?_⟩
  rcases List.mem_append.mp among with parsed | area
  · rcases setupLogicalPartitions_mem scanned parsed with section_ | extended
    · exact Or.inl section_
    · exact Or.inr (Or.inl extended)
  · exact Or.inr (Or.inr area)

/-- **Every section of the configuration has its partition in the final list**, in order, and the
list has no other partitions but the areas of the table and `[Extended]`. -/
theorem setup_sections {config : HdimageConfig} {layout : Layout}
    (accepted : hdimageSetup env config = .ok layout) :
    ∃ prepared, prepare env config = .ok prepared ∧ layout.hd = prepared.hd ∧
      List.Forall₂ (fun partsec placed => ∃ part, FromSection partsec part ∧
          Origin env prepared.hd prepared.size part placed)
        config.partitions (userPartitions layout.partitions) := by
  obtain ⟨prepared, run, hdEq, origins⟩ := setup_origins accepted
  refine ⟨prepared, run, hdEq, ?_⟩
  obtain ⟨parts, scanned, list⟩ := (prepare_ok run).list_eq
  have sections := setupLogicalPartitions_fromSection scanned
  have users : List.Forall₂ (Origin env prepared.hd prepared.size) (userPartitions parts)
      (userPartitions layout.partitions) := by
    rw [← List.append_nil (userPartitions parts),
      ← userPartitions_tableAreas prepared.hd.tableType prepared.hd.gptLocation prepared.size,
      ← userPartitions_append, ← list]
    refine Related.filter origins fun part placed origin => ?_
    rw [origin.node_eq]
  exact Related.trans sections users

end Genimage
