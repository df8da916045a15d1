/-
**Which lists of partitions `setup_logical_partitions` accepts.**

The scan is read phase by phase, each as an equivalence between its success and the form of the list:
in front of the extended partition (`scan_front_iff`), among the logical partitions
(`scan_block_iff`), and behind them (`scan_rest_iff`). A list with at least `index` table partitions is
cut at the one with that number (`exists_cut`).

`setupLogicalPartitions_classifies_iff` compares this with the rule for primary and logical
partitions. The scan opens the extended partition before it looks at `forced-primary`, so that it can
end up with nothing in it (`EmptyRun`).
-/

import Genimage.Hdimage.Extended

namespace Genimage

open Library

/-- The number of table partitions. -/
abbrev tableCount (parts : List Partition) : Nat := parts.countP (·.inPartitionTable)

/-- No table partition is `forced-primary`. -/
def Plain (parts : List Partition) : Prop :=
  ∀ part ∈ parts, part.inPartitionTable = true → part.forcedPrimary = false

/-- Every table partition is `forced-primary`. -/
def Forced (parts : List Partition) : Prop :=
  ∀ part ∈ parts, part.inPartitionTable = true → part.forcedPrimary = true

/-- **The list is cut at position `k`**: `first` is its table partition with the number `k`. -/
structure Cut (k : Nat) (parts before : List Partition) (first : Partition)
    (after : List Partition) : Prop where
  split : parts = before ++ first :: after
  position : tableCount before + 1 = k
  inTable : first.inPartitionTable = true

/-- **A run of logical partitions from position `k` on**, with forced ones behind it. -/
structure LogicalRun (k : Nat) (parts before : List Partition) (first : Partition)
    (block rest : List Partition) : Prop extends Cut k parts before first (block ++ rest) where
  before_plain : Plain before
  first_plain : first.forcedPrimary = false
  block_plain : Plain block
  rest_forced : Forced rest
  entries : tableCount before + 1 + tableCount rest ≤ 4

/-- The index that the scan uses. -/
def effectiveIndex (index : UInt32) (parts : List Partition) : Nat :=
  (ensureExtendedPartitionIndex index parts).toNat

/-- There is no extended partition. -/
def Unextended (index : UInt32) (parts : List Partition) : Prop :=
  effectiveIndex index parts = 0 ∨ tableCount parts < effectiveIndex index parts

instance (index : UInt32) (parts : List Partition) : Decidable (Unextended index parts) :=
  inferInstanceAs (Decidable (_ ∨ _))

/-- **The partitions can be sorted into primary and logical ones.** -/
structure Sortable (index : UInt32) (parts : List Partition) : Prop where
  index_le : index ≤ 4
  unextended : Unextended index parts → tableCount parts ≤ 4 ∧
    (0 < effectiveIndex index parts → Plain parts)
  extended : ¬ Unextended index parts → ∃ before first block rest,
    LogicalRun (effectiveIndex index parts) parts before first block rest

/-- **The rule for primary and logical partitions** on one list. -/
structure Classifies (align : UInt64) (index : UInt32) (parts : List Partition) : Prop where
  accepted : (∃ result, setupLogicalPartitions .mbr align index parts = .ok result) ↔
    Sortable index parts
  index_eq : ∀ result, setupLogicalPartitions .mbr align index parts = .ok result →
    result.1.toNat = effectiveIndex index parts
  unextended : ∀ result, setupLogicalPartitions .mbr align index parts = .ok result →
    Unextended index parts → result.2 = parts
  extended : ∀ result, setupLogicalPartitions .mbr align index parts = .ok result →
    ¬ Unextended index parts → ∃ before first block rest,
      LogicalRun (effectiveIndex index parts) parts before first block rest ∧
      result.2 = extendedList align before (first :: block) rest first

/-- **The extended partition would be empty**: from its position on all partitions are forced. -/
structure EmptyRun (k : Nat) (parts before : List Partition) (first : Partition)
    (after : List Partition) : Prop extends Cut k parts before first after where
  before_plain : Plain before
  first_forced : first.forcedPrimary = true
  after_forced : Forced after
  entries : tableCount parts + 1 ≤ 4

/-! ### One partition -/

section Scan

variable {align : UInt64} {index : UInt32} {scan next : LogicalScan} {part first : Partition}
  {parts before after done out : List Partition} {k count entries : Nat}

theorem plain_nil : Plain [] := fun _ member => absurd member List.not_mem_nil

theorem forced_nil : Forced [] := fun _ member => absurd member List.not_mem_nil

theorem plain_cons : Plain (part :: parts) ↔
    (part.inPartitionTable = true → part.forcedPrimary = false) ∧ Plain parts :=
  List.forall_mem_cons

theorem forced_cons : Forced (part :: parts) ↔
    (part.inPartitionTable = true → part.forcedPrimary = true) ∧ Forced parts :=
  List.forall_mem_cons

theorem tableCount_cons_inTable (inTable : part.inPartitionTable = true) :
    tableCount (part :: parts) = tableCount parts + 1 := List.countP_cons_of_pos inTable

theorem tableCount_cons_outside (outside : part.inPartitionTable = false) :
    tableCount (part :: parts) = tableCount parts :=
  List.countP_cons_of_neg (by rw [outside]; exact Bool.false_ne_true)

theorem logicalStep_outside (outside : part.inPartitionTable = false) :
    logicalStep align index scan part = .ok { scan with done := scan.done ++ [part] } := by
  rw [logicalStep, outside]
  rfl

/-- Three checks and a result. -/
theorem checks_eq_ok {ε α : Type} {first second third : Prop} [Decidable first] [Decidable second]
    [Decidable third] {one two three : ε} {value result : α} :
    (do failIf first one; failIf second two; failIf third three; return value) =
      Except.ok result ↔ ¬first ∧ ¬second ∧ ¬third ∧ result = value := by
  simp only [do_eq_ok, failIf_ok, pure_eq_ok]
  constructor
  · rintro ⟨_, one, _, two, _, three, same⟩
    exact ⟨one, two, three, same.symm⟩
  · rintro ⟨one, two, three, same⟩
    exact ⟨(), one, (), two, (), three, same.symm⟩

theorem markLogical_of_inTable (inTable : part.inPartitionTable = true) :
    part.markLogical = part.withLogical true := by
  rw [Partition.markLogical, inTable, Bool.or_true]

theorem markLogical_of_outside (outside : part.inPartitionTable = false) :
    part.markLogical = part := by
  rw [Partition.markLogical, outside, Bool.or_false, Partition.withLogical_self]

/-- In front of the extended partition. -/
theorem logicalStep_front_iff (inTable : part.inPartitionTable = true)
    (early : index.toNat ≠ count + 1) (few : entries + 1 ≤ 4) :
    logicalStep align index ⟨false, false, count, entries, done⟩ part = .ok next ↔
      part.forcedPrimary = false ∧ next = ⟨false, false, count + 1, entries + 1, done ++ [part]⟩ := by
  rw [logicalStep, inTable]
  simp only [Bool.not_true, Bool.false_eq_true, if_false, checks_eq_ok]
  cases forced : part.forcedPrimary <;> simp [early, Nat.lt_of_succ_le few]

/-- At the extended partition. -/
theorem logicalStep_opens_iff (inTable : part.inPartitionTable = true)
    (opens : index.toNat = count + 1) (few : entries + 1 ≤ 4) :
    logicalStep align index ⟨false, false, count, entries, done⟩ part = .ok next ↔
      (part.forcedPrimary = false ∧ next = ⟨true, true, count + 1, entries + 1,
        done ++ [extendedPartition align part, part.markLogical]⟩) ∨
      (part.forcedPrimary = true ∧ entries + 1 < 4 ∧ next = ⟨false, true, count + 1, entries + 1 + 1,
        done ++ [extendedPartition align part, part]⟩) := by
  rw [markLogical_of_inTable inTable, logicalStep, inTable]
  simp only [Bool.not_true, Bool.false_eq_true, if_false, checks_eq_ok]
  have three : entries < 3 ↔ entries + 1 < 4 := by omega
  cases forced : part.forcedPrimary <;> simp [opens, Nat.lt_of_succ_le few, three]

/-- Among the logical partitions. -/
theorem logicalStep_block_iff (inTable : part.inPartitionTable = true)
    (late : index.toNat ≠ count + 1) (few : entries ≤ 4) :
    logicalStep align index ⟨true, true, count, entries, done⟩ part = .ok next ↔
      (part.forcedPrimary = false ∧
        next = ⟨true, true, count + 1, entries, done ++ [part.markLogical]⟩) ∨
      (part.forcedPrimary = true ∧ entries < 4 ∧
        next = ⟨false, true, count + 1, entries + 1, done ++ [part]⟩) := by
  rw [markLogical_of_inTable inTable, logicalStep, inTable]
  simp only [Bool.not_true, Bool.false_eq_true, if_false, checks_eq_ok]
  cases forced : part.forcedPrimary <;> simp [late, few]

/-- Behind them. -/
theorem logicalStep_rest_iff (inTable : part.inPartitionTable = true)
    (late : index.toNat ≠ count + 1) :
    logicalStep align index ⟨false, true, count, entries, done⟩ part = .ok next ↔
      part.forcedPrimary = true ∧ entries < 4 ∧
        next = ⟨false, true, count + 1, entries + 1, done ++ [part]⟩ := by
  rw [logicalStep, inTable]
  simp only [Bool.not_true, Bool.false_eq_true, if_false, checks_eq_ok]
  cases forced : part.forcedPrimary <;> simp [late]

/-! ### The phases -/

/-- **In front of the extended partition** all table partitions are plain. -/
theorem scan_front_iff (parts : List Partition) : ∀ (count entries : Nat) (done : List Partition),
    count + tableCount parts < index.toNat → entries + tableCount parts ≤ 4 →
    (parts.foldlM (logicalStep align index) ⟨false, false, count, entries, done⟩ = .ok next ↔
      Plain parts ∧ next = ⟨false, false, count + tableCount parts, entries + tableCount parts,
        done ++ parts⟩) := by
  induction parts with
  | nil =>
    intro count entries done _ _
    rw [List.foldlM_nil, pure_eq_ok, List.append_nil]
    exact ⟨fun same => ⟨plain_nil, same.symm⟩, fun both => both.2.symm⟩
  | cons part rest ih =>
    intro count entries done early few
    rw [List.foldlM_cons, do_eq_ok, plain_cons]
    cases inTable : part.inPartitionTable with
    | false =>
      rw [tableCount_cons_outside inTable] at early few ⊢
      simp only [logicalStep_outside inTable, Except.ok.injEq, exists_eq_left']
      rw [ih count entries _ early few, List.append_assoc]
      simp
    | true =>
      rw [tableCount_cons_inTable inTable] at early few ⊢
      simp only [logicalStep_front_iff inTable (show index.toNat ≠ count + 1 by omega)
        (show entries + 1 ≤ 4 by omega), and_assoc, exists_and_left, exists_eq_left, forall_const]
      rw [ih (count + 1) (entries + 1) _ (by omega) (by omega), List.append_assoc,
        Nat.add_assoc, Nat.add_assoc, Nat.add_comm 1, List.singleton_append]

/-- The rest of the scan succeeds with the list `out`. -/
def ScanEnds (align : UInt64) (index : UInt32) (scan : LogicalScan) (parts out : List Partition) :
    Prop :=
  ∃ next, parts.foldlM (logicalStep align index) scan = .ok next ∧ next.done = out

theorem scanEnds_nil : ScanEnds align index scan [] out ↔ scan.done = out := by
  simp only [ScanEnds, List.foldlM_nil, pure_eq_ok, exists_eq_left']

theorem scanEnds_cons : ScanEnds align index scan (part :: parts) out ↔
    ∃ next, logicalStep align index scan part = .ok next ∧ ScanEnds align index next parts out := by
  simp only [ScanEnds, List.foldlM_cons, do_eq_ok]
  constructor
  · rintro ⟨last, ⟨next, step, run⟩, same⟩
    exact ⟨next, step, last, run, same⟩
  · rintro ⟨next, step, last, run, same⟩
    exact ⟨last, ⟨next, step, run⟩, same⟩

theorem scanEnds_append : ScanEnds align index scan (before ++ after) out ↔
    ∃ next, before.foldlM (logicalStep align index) scan = .ok next ∧
      ScanEnds align index next after out := by
  simp only [ScanEnds, foldlM_append_ok]
  constructor
  · rintro ⟨last, ⟨next, front, run⟩, same⟩
    exact ⟨next, front, last, run, same⟩
  · rintro ⟨next, front, last, run, same⟩
    exact ⟨last, ⟨next, front, run⟩, same⟩

theorem scanEnds_outside (outside : part.inPartitionTable = false) :
    ScanEnds align index scan (part :: parts) out ↔
      ScanEnds align index { scan with done := scan.done ++ [part] } parts out := by
  simp only [scanEnds_cons, logicalStep_outside outside, Except.ok.injEq, exists_eq_left']

/-- **Behind the logical partitions** all table partitions are forced. -/
theorem scan_rest_iff (parts : List Partition) : ∀ (count entries : Nat) (done : List Partition),
    index.toNat ≤ count → entries ≤ 4 →
    (ScanEnds align index ⟨false, true, count, entries, done⟩ parts out ↔
      Forced parts ∧ entries + tableCount parts ≤ 4 ∧ out = done ++ parts) := by
  induction parts with
  | nil =>
    intro count entries done _ few
    rw [scanEnds_nil, List.append_nil]
    exact ⟨fun same => ⟨forced_nil, few, same.symm⟩, fun all => all.2.2.symm⟩
  | cons part rest ih =>
    intro count entries done late few
    rw [forced_cons]
    cases inTable : part.inPartitionTable with
    | false =>
      rw [tableCount_cons_outside inTable, scanEnds_outside inTable, ih count entries _ late few,
        List.append_assoc]
      simp
    | true =>
      have behind : index.toNat ≠ count + 1 := by omega
      rw [tableCount_cons_inTable inTable, scanEnds_cons]
      constructor
      · rintro ⟨next, step, run⟩
        obtain ⟨forced, more, rfl⟩ := (logicalStep_rest_iff inTable behind).mp step
        obtain ⟨others, fit, rfl⟩ := (ih (count + 1) _ _ (by omega) more).mp run
        refine ⟨⟨fun _ => forced, others⟩, by omega, ?_⟩
        rw [List.append_assoc, List.singleton_append]
      · rintro ⟨⟨forced, others⟩, fit, rfl⟩
        have more : entries < 4 := by omega
        refine ⟨_, (logicalStep_rest_iff inTable behind).mpr ⟨forced rfl, more, rfl⟩, ?_⟩
        refine (ih (count + 1) _ _ (by omega) more).mpr ⟨others, by omega, ?_⟩
        rw [List.append_assoc, List.singleton_append]

/-- **Among the logical partitions** plain ones are followed by forced ones. -/
theorem scan_block_iff (parts : List Partition) : ∀ (count entries : Nat) (done : List Partition),
    index.toNat ≤ count → entries ≤ 4 →
    (ScanEnds align index ⟨true, true, count, entries, done⟩ parts out ↔
      ∃ block rest, parts = block ++ rest ∧ Plain block ∧ Forced rest ∧
        entries + tableCount rest ≤ 4 ∧ out = done ++ (block.map Partition.markLogical ++ rest)) := by
  induction parts with
  | nil =>
    intro count entries done _ few
    rw [scanEnds_nil]
    constructor
    · rintro rfl
      exact ⟨[], [], rfl, plain_nil, forced_nil, few, (List.append_nil _).symm⟩
    · rintro ⟨block, rest, split, -, -, -, rfl⟩
      obtain ⟨rfl, rfl⟩ := List.append_eq_nil_iff.mp split.symm
      exact (List.append_nil _).symm
  | cons part parts ih =>
    intro count entries done late few
    cases inTable : part.inPartitionTable with
    | false =>
      rw [scanEnds_outside inTable, ih count entries _ late few]
      constructor
      · rintro ⟨block, rest, rfl, plain, forced, fit, rfl⟩
        refine ⟨part :: block, rest, rfl, plain_cons.mpr ⟨?_, plain⟩, forced, fit, ?_⟩
        · rw [inTable]
          exact nofun
        · rw [List.map_cons, markLogical_of_outside inTable, List.append_assoc]
          rfl
      · rintro ⟨block, rest, split, plain, forced, fit, rfl⟩
        cases block with
        | nil =>
          obtain rfl : part :: parts = rest := split
          rw [tableCount_cons_outside inTable] at fit
          refine ⟨[], parts, rfl, plain_nil, (forced_cons.mp forced).2, fit, ?_⟩
          rw [List.append_assoc]
          rfl
        | cons first block =>
          obtain ⟨rfl, rfl⟩ : part = first ∧ parts = block ++ rest := List.cons.inj split
          refine ⟨block, rest, rfl, (plain_cons.mp plain).2, forced, fit, ?_⟩
          rw [List.map_cons, markLogical_of_outside inTable, List.append_assoc]
          rfl
    | true =>
      have behind : index.toNat ≠ count + 1 := by omega
      rw [scanEnds_cons]
      constructor
      · rintro ⟨next, step, run⟩
        rcases (logicalStep_block_iff inTable behind few).mp step with
          ⟨unforced, rfl⟩ | ⟨pushed, more, rfl⟩
        · obtain ⟨block, rest, rfl, plain, forced, fit, rfl⟩ :=
            (ih (count + 1) _ _ (by omega) few).mp run
          refine ⟨part :: block, rest, rfl, plain_cons.mpr ⟨fun _ => unforced, plain⟩, forced, fit, ?_⟩
          rw [List.append_assoc]
          rfl
        · obtain ⟨forced, fit, rfl⟩ := (scan_rest_iff _ (count + 1) _ _ (by omega) more).mp run
          refine ⟨[], part :: parts, rfl, plain_nil, forced_cons.mpr ⟨fun _ => pushed, forced⟩, ?_, ?_⟩
          · rw [tableCount_cons_inTable inTable]
            omega
          · rw [List.append_assoc]
            rfl
      · rintro ⟨block, rest, split, plain, forced, fit, rfl⟩
        cases block with
        | nil =>
          obtain rfl : part :: parts = rest := split
          rw [tableCount_cons_inTable inTable] at fit
          have ⟨pushed, others⟩ := forced_cons.mp forced
          have more : entries < 4 := by omega
          refine ⟨_, (logicalStep_block_iff inTable behind few).mpr
            (Or.inr ⟨pushed inTable, more, rfl⟩), ?_⟩
          refine (scan_rest_iff _ (count + 1) _ _ (by omega) more).mpr ⟨others, by omega, ?_⟩
          rw [List.append_assoc]
          rfl
        | cons first block =>
          obtain ⟨rfl, rfl⟩ : part = first ∧ parts = block ++ rest := List.cons.inj split
          have ⟨unforced, others⟩ := plain_cons.mp plain
          refine ⟨_, (logicalStep_block_iff inTable behind few).mpr
            (Or.inl ⟨unforced inTable, rfl⟩), ?_⟩
          refine (ih (count + 1) _ _ (by omega) few).mpr ⟨block, rest, rfl, others, forced, fit, ?_⟩
          rw [List.append_assoc]
          rfl

/-! ### The whole scan -/

theorem tableCount_append : tableCount (before ++ after) = tableCount before + tableCount after :=
  List.countP_append

/-- A list with at least `k` table partitions can be cut at position `k`. -/
theorem exists_cut (parts : List Partition) : ∀ k, 0 < k → k ≤ tableCount parts →
    ∃ before first after, Cut k parts before first after := by
  induction parts with
  | nil => exact fun k positive most => absurd most (Nat.not_le.mpr positive)
  | cons part rest ih =>
    intro k positive most
    cases inTable : part.inPartitionTable with
    | false =>
      rw [tableCount_cons_outside inTable] at most
      obtain ⟨before, first, after, cut⟩ := ih k positive most
      refine ⟨part :: before, first, after, by rw [cut.split]; rfl, ?_, cut.inTable⟩
      rw [tableCount_cons_outside inTable, cut.position]
    | true =>
      rw [tableCount_cons_inTable inTable] at most
      by_cases here : k = 1
      · exact ⟨[], part, rest, rfl, here.symm, inTable⟩
      · obtain ⟨before, first, after, cut⟩ := ih (k - 1) (by omega) (by omega)
        refine ⟨part :: before, first, after, by rw [cut.split]; rfl, ?_, cut.inTable⟩
        rw [tableCount_cons_inTable inTable, cut.position]
        omega

/-- The cut at a position is unique. -/
theorem Cut.unique {others : List Partition} {second : Partition} {behind : List Partition}
    (one : Cut k parts before first after) (two : Cut k parts others second behind) :
    before = others ∧ first = second ∧ after = behind := by
  obtain ⟨rfl, position, inTable⟩ := one
  obtain ⟨split, position', inTable'⟩ := two
  induction before generalizing others k with
  | nil =>
    cases others with
    | nil => exact ⟨rfl, List.cons.inj split⟩
    | cons head others =>
      obtain ⟨rfl, -⟩ := List.cons.inj split
      rw [tableCount_cons_inTable inTable] at position'
      exact absurd (position.trans position'.symm) (by simp)
  | cons head before ih =>
    cases others with
    | nil =>
      obtain ⟨rfl, -⟩ := List.cons.inj split
      rw [tableCount_cons_inTable inTable'] at position
      exact absurd (position.trans position'.symm) (by simp)
    | cons other others =>
      obtain ⟨rfl, rest⟩ := List.cons.inj split
      have same : tableCount others + 1 = tableCount before + 1 := by
        have := position'.trans position.symm
        simp only [tableCount, List.countP_cons] at this ⊢
        omega
      obtain ⟨rfl, others⟩ := ih rfl rest same
      exact ⟨rfl, others⟩

/-- **A scan with an extended partition.** -/
theorem Cut.scanEnds_iff (cut : Cut index.toNat parts before first after) (small : index.toNat ≤ 4) :
    ScanEnds align index {} parts out ↔ Plain before ∧
      ((first.forcedPrimary = false ∧ ∃ block rest, after = block ++ rest ∧ Plain block ∧
          Forced rest ∧ tableCount before + 1 + tableCount rest ≤ 4 ∧
          out = extendedList align before (first :: block) rest first) ∨
        (first.forcedPrimary = true ∧ Forced after ∧ tableCount parts + 1 ≤ 4 ∧
          out = extendedList align before [] (first :: after) first)) := by
  have position := cut.position
  have entries : tableCount parts = tableCount before + (tableCount after + 1) := by
    rw [cut.split, tableCount_append, tableCount_cons_inTable cut.inTable]
  have opens : index.toNat = 0 + tableCount before + 1 := by omega
  rw [entries, cut.split, scanEnds_append]
  constructor
  · rintro ⟨middle, front, run⟩
    obtain ⟨plain, rfl⟩ := (scan_front_iff before 0 0 [] (by omega) (by omega)).mp front
    obtain ⟨next, step, run⟩ := scanEnds_cons.mp run
    refine ⟨plain, ?_⟩
    rcases (logicalStep_opens_iff cut.inTable opens (by omega)).mp step with
      ⟨unforced, rfl⟩ | ⟨pushed, more, rfl⟩
    · obtain ⟨block, rest, split, plain, forced, fit, rfl⟩ :=
        (scan_block_iff after _ _ _ (by omega) (by omega)).mp run
      refine Or.inl ⟨unforced, block, rest, split, plain, forced, by omega, ?_⟩
      rw [extendedList, List.nil_append, List.append_assoc]
      rfl
    · obtain ⟨forced, fit, rfl⟩ := (scan_rest_iff after _ _ _ (by omega) (by omega)).mp run
      refine Or.inr ⟨pushed, forced, by omega, ?_⟩
      rw [extendedList, List.nil_append, List.append_assoc]
      rfl
  · rintro ⟨plain, way⟩
    refine ⟨_, (scan_front_iff before 0 0 [] (by omega) (by omega)).mpr ⟨plain, rfl⟩, ?_⟩
    rcases way with ⟨unforced, block, rest, split, plain, forced, fit, rfl⟩ | ⟨pushed, forced, fit, rfl⟩
    · refine scanEnds_cons.mpr ⟨_, (logicalStep_opens_iff cut.inTable opens (by omega)).mpr
        (Or.inl ⟨unforced, rfl⟩), ?_⟩
      refine (scan_block_iff after _ _ _ (by omega) (by omega)).mpr
        ⟨block, rest, split, plain, forced, by omega, ?_⟩
      rw [extendedList, List.nil_append, List.append_assoc]
      rfl
    · refine scanEnds_cons.mpr ⟨_, (logicalStep_opens_iff cut.inTable opens (by omega)).mpr
        (Or.inr ⟨pushed, by omega, rfl⟩), ?_⟩
      refine (scan_rest_iff after _ _ _ (by omega) (by omega)).mpr ⟨forced, by omega, ?_⟩
      rw [extendedList, List.nil_append, List.append_assoc]
      rfl

/-- A scan without one. -/
theorem scanEnds_without_iff (short : tableCount parts < index.toNat) (small : index.toNat ≤ 4) :
    ScanEnds align index {} parts out ↔ Plain parts ∧ out = parts := by
  constructor
  · rintro ⟨next, run, rfl⟩
    obtain ⟨plain, rfl⟩ := (scan_front_iff parts 0 0 [] (by omega) (by omega)).mp run
    exact ⟨plain, rfl⟩
  · rintro ⟨plain, rfl⟩
    exact ⟨_, (scan_front_iff out 0 0 [] (by omega) (by omega)).mpr ⟨plain, rfl⟩, rfl⟩

/-- **`setup_logical_partitions` on an MBR image.** -/
theorem setupLogicalPartitions_iff {result : UInt32 × List Partition} :
    setupLogicalPartitions .mbr align index parts = .ok result ↔ index ≤ 4 ∧
      result.1 = ensureExtendedPartitionIndex index parts ∧
      if effectiveIndex index parts = 0 then result.2 = parts
      else ScanEnds align (ensureExtendedPartitionIndex index parts) {} parts result.2 := by
  have zero : ensureExtendedPartitionIndex index parts = 0 ↔ effectiveIndex index parts = 0 := by
    rw [effectiveIndex, ← UInt32.toNat_inj]
    rfl
  obtain ⟨used, list⟩ := result
  simp only [setupLogicalPartitions, ne_eq, not_true_eq_false, if_false, do_eq_ok, failIf_ok,
    UInt32.not_lt, gt_iff_lt]
  by_cases none : ensureExtendedPartitionIndex index parts = 0
  · rw [if_pos none, if_pos (zero.mp none), pure_eq_ok, Prod.mk.injEq]
    constructor
    · rintro ⟨_, small, same, rfl⟩
      exact ⟨small, same.symm, rfl⟩
    · rintro ⟨small, same, rfl⟩
      exact ⟨(), small, same.symm, rfl⟩
  · simp only [if_neg none, if_neg (zero.not.mp none), do_eq_ok, pure_eq_ok, Prod.mk.injEq]
    constructor
    · rintro ⟨_, small, scan, run, same, rfl⟩
      exact ⟨small, same.symm, scan, run, rfl⟩
    · rintro ⟨small, same, scan, run, rfl⟩
      exact ⟨(), small, scan, run, same.symm, rfl⟩

/-- The index 4 is used when it is not given. -/
theorem effectiveIndex_le (small : index ≤ 4) : effectiveIndex index parts ≤ 4 :=
  UInt32.le_iff_toNat_le.mp (ensureExtendedPartitionIndex_le parts small)

theorem tableCount_le_of_effectiveIndex (none : effectiveIndex index parts = 0) :
    tableCount parts ≤ 4 :=
  countP_le_of_ensure (UInt32.toNat_inj.mp none)

/-- Without an extended partition. -/
theorem setupLogicalPartitions_unextended (without : Unextended index parts)
    {result : UInt32 × List Partition} :
    setupLogicalPartitions .mbr align index parts = .ok result ↔ index ≤ 4 ∧
      result.1 = ensureExtendedPartitionIndex index parts ∧
      (0 < effectiveIndex index parts → Plain parts) ∧ result.2 = parts := by
  rw [setupLogicalPartitions_iff]
  refine and_congr_right fun small => and_congr_right fun _ => ?_
  split_ifs with none
  · rw [none]
    exact ⟨fun same => ⟨nofun, same⟩, And.right⟩
  · rw [scanEnds_without_iff (without.resolve_left none) (effectiveIndex_le small),
      forall_prop_of_true (Nat.pos_of_ne_zero none)]

/-- With one, cut at its position. -/
theorem Cut.setupLogicalPartitions_iff (cut : Cut (effectiveIndex index parts) parts before first after)
    {result : UInt32 × List Partition} :
    setupLogicalPartitions .mbr align index parts = .ok result ↔ index ≤ 4 ∧
      result.1 = ensureExtendedPartitionIndex index parts ∧
      ((∃ block rest, LogicalRun (effectiveIndex index parts) parts before first block rest ∧
          after = block ++ rest ∧ result.2 = extendedList align before (first :: block) rest first) ∨
        (EmptyRun (effectiveIndex index parts) parts before first after ∧
          result.2 = extendedList align before [] (first :: after) first)) := by
  have some : effectiveIndex index parts ≠ 0 := by
    have := cut.position
    omega
  rw [Genimage.setupLogicalPartitions_iff, if_neg some]
  refine and_congr_right fun small => and_congr_right fun _ => ?_
  rw [Cut.scanEnds_iff cut (effectiveIndex_le small)]
  constructor
  · rintro ⟨plain, ⟨unforced, block, rest, rfl, others, forced, fit, same⟩ | ⟨pushed, forced, fit, same⟩⟩
    · exact Or.inl ⟨block, rest, ⟨cut, plain, unforced, others, forced, fit⟩, rfl, same⟩
    · exact Or.inr ⟨⟨cut, plain, pushed, forced, fit⟩, same⟩
  · rintro (⟨block, rest, run, split, same⟩ | ⟨empty, same⟩)
    · exact ⟨run.before_plain, Or.inl ⟨run.first_plain, block, rest, split, run.block_plain,
        run.rest_forced, run.entries, same⟩⟩
    · exact ⟨empty.before_plain, Or.inr ⟨empty.first_forced, empty.after_forced, empty.entries, same⟩⟩

/-- There is no cut without an extended partition. -/
theorem Cut.not_unextended (cut : Cut (effectiveIndex index parts) parts before first after) :
    ¬Unextended index parts := by
  have position := cut.position
  have count : tableCount parts = tableCount before + (tableCount after + 1) := by
    rw [cut.split, tableCount_append, tableCount_cons_inTable cut.inTable]
  rintro (none | few) <;> omega

/-- Without an extended partition the rule is followed. -/
theorem classifies_of_unextended (without : Unextended index parts) :
    Classifies align index parts where
  accepted := by
    simp only [setupLogicalPartitions_unextended without]
    constructor
    · rintro ⟨result, small, _, plain, _⟩
      refine ⟨small, fun _ => ⟨?_, plain⟩, fun extended => absurd without extended⟩
      rcases without with none | few
      · exact tableCount_le_of_effectiveIndex none
      · exact few.le.trans (effectiveIndex_le small)
    · rintro ⟨small, plain, _⟩
      exact ⟨(_, parts), small, rfl, (plain without).2, rfl⟩
  index_eq result ok := by
    rw [((setupLogicalPartitions_unextended without).mp ok).2.1]
    rfl
  unextended result ok _ := ((setupLogicalPartitions_unextended without).mp ok).2.2.2
  extended result ok extended := absurd without extended

/-- **`setup_logical_partitions` follows the rule** exactly if it does not end up with an empty
extended partition. -/
theorem setupLogicalPartitions_classifies_iff (align : UInt64) (index : UInt32)
    (parts : List Partition) : Classifies align index parts ↔
      ¬∃ before first after, EmptyRun (effectiveIndex index parts) parts before first after := by
  by_cases without : Unextended index parts
  · refine iff_of_true (classifies_of_unextended without) ?_
    rintro ⟨before, first, after, empty⟩
    exact empty.not_unextended without
  · have ⟨extended, many⟩ := not_or.mp without
    constructor
    · rintro follows ⟨before, first, after, empty⟩
      have small : index ≤ 4 := by
        by_contra large
        have count : tableCount parts ≤ 3 := Nat.le_of_succ_le_succ empty.entries
        have given : effectiveIndex index parts = index.toNat := by
          rw [effectiveIndex, ensureExtendedPartitionIndex, if_pos]
          rintro rfl
          exact large (by decide)
        rw [UInt32.not_le, UInt32.lt_iff_toNat_lt, ← given] at large
        have four : (4 : UInt32).toNat = 4 := rfl
        omega
      obtain ⟨front, head, block, rest, run⟩ := (follows.accepted.mp ⟨(_, _),
        empty.setupLogicalPartitions_iff.mpr ⟨small, rfl, Or.inr ⟨empty, rfl⟩⟩⟩).extended without
      obtain ⟨-, rfl, -⟩ := empty.toCut.unique run.toCut
      exact Bool.false_ne_true (run.first_plain.symm.trans empty.first_forced)
    · intro nonempty
      obtain ⟨before, first, after, cut⟩ := exists_cut parts (effectiveIndex index parts)
        (Nat.pos_of_ne_zero extended) (Nat.not_lt.mp many)
      have accepted (result : UInt32 × List Partition)
          (ok : setupLogicalPartitions .mbr align index parts = .ok result) :
          index ≤ 4 ∧ result.1 = ensureExtendedPartitionIndex index parts ∧ ∃ block rest,
            LogicalRun (effectiveIndex index parts) parts before first block rest ∧
            result.2 = extendedList align before (first :: block) rest first := by
        obtain ⟨small, used, ⟨block, rest, run, -, same⟩ | ⟨empty, -⟩⟩ :=
          cut.setupLogicalPartitions_iff.mp ok
        · exact ⟨small, used, block, rest, run, same⟩
        · exact absurd ⟨before, first, after, empty⟩ nonempty
      refine ⟨⟨?_, ?_⟩, ?_, fun _ _ without' => absurd without' without, ?_⟩
      · rintro ⟨result, ok⟩
        obtain ⟨small, -, block, rest, run, -⟩ := accepted result ok
        exact ⟨small, fun without' => absurd without' without, fun _ => ⟨_, _, _, _, run⟩⟩
      · rintro ⟨small, -, runs⟩
        obtain ⟨front, head, block, rest, run⟩ := runs without
        exact ⟨(_, _), run.toCut.setupLogicalPartitions_iff.mpr
          ⟨small, rfl, Or.inl ⟨block, rest, run, rfl, rfl⟩⟩⟩
      · intro result ok
        rw [(accepted result ok).2.1]
        rfl
      · intro result ok _
        obtain ⟨-, -, block, rest, run, same⟩ := accepted result ok
        exact ⟨before, first, block, rest, run, same⟩

/-- One partition, forced to be primary, at the position of the extended partition. -/
theorem setupLogicalPartitions_emptyExtended :
    setupLogicalPartitions .mbr 512 1 (parsePartitions [{ title := "boot", forcedPrimary := true }]) =
        .ok (1, extendedPartition 512 (parsePartition { title := "boot", forcedPrimary := true }) ::
          parsePartitions [{ title := "boot", forcedPrimary := true }]) ∧
      ¬Sortable 1 (parsePartitions [{ title := "boot", forcedPrimary := true }]) := by
  refine ⟨rfl, fun sortable => ?_⟩
  have extended : ¬Unextended 1 (parsePartitions [{ title := "boot", forcedPrimary := true }]) := by
    decide
  obtain ⟨before, first, block, rest, run⟩ := sortable.extended extended
  have cut : Cut 1 (parsePartitions [{ title := "boot", forcedPrimary := true }]) []
    (parsePartition { title := "boot", forcedPrimary := true }) [] := ⟨rfl, rfl, rfl⟩
  obtain ⟨-, rfl, -⟩ := cut.unique run.toCut
  exact absurd run.first_plain (by decide)

end Scan

end Genimage
