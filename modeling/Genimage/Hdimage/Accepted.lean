/-
**Accepted configurations.**

`hdimageSetup_ok` takes a successful `hdimage_setup` apart: `Ready` is what the part in front of the
loop has checked and chosen, `Finished` what follows behind it, and in between is the loop.

`NoWrap` is the assumption that no 64-bit sum of the run wraps around. It is a predicate on the run
of the loop: `StepFits` lists the sums of one step, and every partition set up so far ends below
`2 ^ 64`. `loop_invariant` and `fitting_invariant` are the induction rules of the loop without and
with that assumption.
-/

import Genimage.Hdimage.Extended
import Genimage.Hdimage.Step

namespace Genimage

open Library

/-! ### In front of the loop and behind it -/

/-- **The state in front of the loop.** -/
structure Ready (env : Env) (config : HdimageConfig) (prepared : Prepared) : Prop where
  size : outputSize env config.size = .ok prepared.size
  table : parseTableType config.options = .ok prepared.hd.tableType
  align_eq : prepared.hd.align = effectiveAlign prepared.hd.tableType config.options.align
  sectors : prepared.hd.tableType ≠ .none → 512 ∣ prepared.hd.align.toNat
  gptLocation_eq : prepared.hd.gptLocation =
    if config.options.gptLocation = 0 then 2 * 512 else config.options.gptLocation
  gptNoBackup_eq : prepared.hd.gptNoBackup = config.options.gptNoBackup
  fill_eq : prepared.hd.fill = config.options.fill
  diskUuid_eq : ∃ drawn, setupDiskUuid env prepared.hd.tableType config.options =
    .ok (prepared.hd.diskUuid, drawn)
  list_eq : ∃ parts, setupLogicalPartitions prepared.hd.tableType prepared.hd.align
      (UInt32.ofNat (config.options.extendedPartition % 2 ^ 32).toNat)
      (parsePartitions config.partitions) = .ok (prepared.hd.extendedPartitionIndex, parts) ∧
    prepared.partitions =
      parts ++ tableAreas prepared.hd.tableType prepared.hd.gptLocation prepared.size

theorem prepare_ok {env : Env} {config : HdimageConfig} {prepared : Prepared}
    (run : prepare env config = .ok prepared) : Ready env config prepared := by
  simp only [prepare, do_eq_ok, failIf_ok, pure_eq_ok] at run
  obtain ⟨size, sized, tableType, table, _, align, ⟨index, parts⟩, list, ⟨uuid, _⟩, uuids,
    ⟨_, _⟩, _, rfl⟩ := run
  exact {
    size := sized
    table := table
    align_eq := rfl
    sectors := fun other => mod_eq_zero_iff.mp (by_contra fun off => align ⟨other, Or.inl off⟩)
    gptLocation_eq := rfl
    gptNoBackup_eq := rfl
    fill_eq := rfl
    diskUuid_eq := ⟨_, uuids⟩
    list_eq := ⟨parts, list, rfl⟩ }

namespace Ready

variable {env : Env} {config : HdimageConfig} {prepared : Prepared}

theorem align_ne_zero (ready : Ready env config prepared) : prepared.hd.align ≠ 0 := by
  rw [ready.align_eq, effectiveAlign]
  split_ifs <;> first | assumption | decide

theorem align_ge (ready : Ready env config prepared) (table : prepared.hd.tableType ≠ .none) :
    512 ≤ prepared.hd.align.toNat :=
  Nat.le_of_dvd (toNat_pos.mpr ready.align_ne_zero) (ready.sectors table)

theorem gptLocation_ne_zero (ready : Ready env config prepared) : prepared.hd.gptLocation ≠ 0 := by
  rw [ready.gptLocation_eq]
  split_ifs
  · decide
  · assumption

end Ready

/-- **What `hdimage_setup` returns, from the state behind the loop.** -/
structure Finished (prepared : Prepared) (state : SetupState) (layout : Layout) : Prop where
  hd_eq : layout.hd = prepared.hd
  partitions_eq : layout.partitions = state.done
  size_eq : layout.size = if prepared.size = 0 then state.now else prepared.size
  now_le : state.now.toNat ≤ layout.size.toNat
  fileSize_eq : layout.fileSize =
    if prepared.hd.fill = true ∨ (prepared.hd.tableType.hasGpt = true ∧
      ¬ prepared.hd.gptNoBackup = true) then layout.size else state.fileSize
  hybrid_le : state.hybridEntries ≤ 3
  hybrid_ne : prepared.hd.tableType = .hybrid → state.hybridEntries ≠ 0

theorem finishSetup_ok {prepared : Prepared} {state : SetupState} {layout : Layout}
    (run : finishSetup prepared state = .ok layout) : Finished prepared state layout := by
  simp only [finishSetup, do_eq_ok, failIf_ok, pure_eq_ok] at run
  obtain ⟨_, few, _, some, _, small, rfl⟩ := run
  refine ⟨rfl, rfl, rfl, ?_, rfl, not_lt.mp few, fun hybrid zero => some ⟨hybrid, zero⟩⟩
  show state.now.toNat ≤ (if prepared.size = 0 then state.now else prepared.size).toNat
  split_ifs with zero
  · exact le_rfl
  · refine not_lt.mp fun larger => small ⟨?_, UInt64.lt_iff_toNat_lt.mpr larger⟩
    exact UInt64.lt_iff_toNat_lt.mpr (toNat_pos.mpr zero)

/-- **The inversion of `hdimage_setup`.** -/
theorem hdimageSetup_ok {env : Env} {config : HdimageConfig} {layout : Layout}
    (accepted : hdimageSetup env config = .ok layout) :
    ∃ prepared state, prepare env config = .ok prepared ∧ Ready env config prepared ∧
      prepared.partitions.foldlM (setupPart env prepared.hd prepared.size) prepared.start =
        .ok state ∧
      Finished prepared state layout := by
  simp only [hdimageSetup, do_eq_ok] at accepted
  obtain ⟨prepared, ready, state, loop, finish⟩ := accepted
  exact ⟨prepared, state, ready, prepare_ok ready, loop, finishSetup_ok finish⟩

/-- A run of `hdimage_setup` that can be evaluated. -/
theorem exists_layout (env : Env) (config : HdimageConfig) (check : Layout → Bool)
    (run : (hdimageSetup env config).toOption.any check = true) :
    ∃ layout, hdimageSetup env config = .ok layout ∧ check layout = true :=
  exists_ok _ check run

/-! ### No sum wraps -/

/-- **The sums of one step.** -/
structure StepFits (hd : Hdimage) (now : UInt64) (part : Partition) : Prop where
  ebr : part.logical = true → now.toNat + hd.align.toNat < 2 ^ 64 ∧
    RoundupFits (now + hd.align) part.align
  backup : part.isFloatingBackup →
    (reserveEbr hd now part).toNat + part.size.toNat < 2 ^ 64 ∧
    RoundupFits (reserveEbr hd now part + part.size) 4096
  automatic : part.offset = 0 → part.inPartitionTable = true ∨ hd.tableType = .none →
    RoundupFits (runningEnd hd now part) part.align

instance (hd : Hdimage) (now : UInt64) (part : Partition) : Decidable (StepFits hd now part) :=
  decidable_of_iff ((part.logical = true → now.toNat + hd.align.toNat < 2 ^ 64 ∧
      RoundupFits (now + hd.align) part.align) ∧
    (part.isFloatingBackup → (reserveEbr hd now part).toNat + part.size.toNat < 2 ^ 64 ∧
      RoundupFits (reserveEbr hd now part + part.size) 4096) ∧
    (part.offset = 0 → part.inPartitionTable = true ∨ hd.tableType = .none →
      RoundupFits (runningEnd hd now part) part.align))
    ⟨fun ⟨ebr, backup, automatic⟩ => ⟨ebr, backup, automatic⟩,
     fun fits => ⟨fits.ebr, fits.backup, fits.automatic⟩⟩

/-- **No sum wraps while the loop runs over a list.** -/
def RunFits (env : Env) (hd : Hdimage) (size : UInt64) : SetupState → List Partition → Prop
  | _, [] => True
  | state, part :: rest =>
    StepFits hd state.now (part.withAlign hd) ∧
      match setupPart env hd size state part with
      | .ok next => (∀ placed ∈ next.done, placed.Fits) ∧ RunFits env hd size next rest
      | .error _ => True

/-- The run over two blocks is the run over the first, then over the second. -/
theorem RunFits.append {env : Env} {hd : Hdimage} {size : UInt64} {rest : List Partition}
    {middle : SetupState} : ∀ {before : List Partition} {start : SetupState},
      RunFits env hd size start (before ++ rest) →
      before.foldlM (setupPart env hd size) start = .ok middle →
      RunFits env hd size start before ∧ RunFits env hd size middle rest
  | [], start, fits, run => by
    rw [List.foldlM_nil, pure_eq_ok] at run
    subst run
    exact ⟨trivial, fits⟩
  | part :: before, start, fits, run => by
    rw [List.foldlM_cons, do_eq_ok] at run
    obtain ⟨next, taken, run⟩ := run
    rw [List.cons_append, RunFits, taken] at fits
    rw [RunFits, taken]
    obtain ⟨first, second⟩ := RunFits.append fits.2.2 run
    exact ⟨⟨fits.1, fits.2.1, first⟩, second⟩

instance decidableRunFits (env : Env) (hd : Hdimage) (size : UInt64) :
    (state : SetupState) → (parts : List Partition) → Decidable (RunFits env hd size state parts)
  | _, [] => inferInstanceAs (Decidable True)
  | state, part :: rest =>
    match taken : setupPart env hd size state part with
    | .ok next =>
      have := decidableRunFits env hd size next rest
      decidable_of_iff (StepFits hd state.now (part.withAlign hd) ∧
        (∀ placed ∈ next.done, placed.Fits) ∧ RunFits env hd size next rest)
        (by rw [RunFits, taken])
    | .error _ =>
      decidable_of_iff (StepFits hd state.now (part.withAlign hd)) (by
        rw [RunFits, taken]
        exact (and_iff_left trivial).symm)

/-- **No 64-bit sum of `hdimage_setup` wraps.** -/
def NoWrap (env : Env) (config : HdimageConfig) : Prop :=
  match prepare env config with
  | .ok prepared => RunFits env prepared.hd prepared.size prepared.start prepared.partitions
  | .error _ => True

instance (env : Env) (config : HdimageConfig) : Decidable (NoWrap env config) :=
  match ready : prepare env config with
  | .ok prepared =>
    decidable_of_iff (RunFits env prepared.hd prepared.size prepared.start prepared.partitions)
      (by rw [NoWrap, ready])
  | .error _ => isTrue (by simp only [NoWrap, ready])

theorem NoWrap.runFits {env : Env} {config : HdimageConfig} {prepared : Prepared}
    (noWrap : NoWrap env config) (ready : prepare env config = .ok prepared) :
    RunFits env prepared.hd prepared.size prepared.start prepared.partitions := by
  rw [NoWrap, ready] at noWrap
  exact noWrap

/-! ### The induction rules -/

section Rules

variable {env : Env} {hd : Hdimage} {size : UInt64} {parts : List Partition}
  {start final : SetupState}

/-- **The induction rule of the loop.** -/
theorem loop_invariant (Inv : List Partition → SetupState → Prop) (base : Inv [] start)
    (preserved : ∀ done part rest state placed next, parts = done ++ part :: rest →
      Inv done state → Placed env hd size state part placed next → Inv (done ++ [part]) next)
    (run : parts.foldlM (setupPart env hd size) start = .ok final) : Inv parts final := by
  refine foldlM_invariant Inv base ?_ run
  intro done part rest state next split holds taken
  obtain ⟨placed, step⟩ := setupPart_ok taken
  exact preserved done part rest state placed next split holds step

/-- **The induction rule of the loop when no sum wraps.** -/
theorem fitting_invariant (Inv : List Partition → SetupState → Prop) (base : Inv [] start)
    (preserved : ∀ done part rest state placed next, parts = done ++ part :: rest →
      Inv done state → Placed env hd size state part placed next →
      StepFits hd state.now (part.withAlign hd) → (∀ placed ∈ next.done, placed.Fits) →
      Inv (done ++ [part]) next)
    (fits : RunFits env hd size start parts)
    (run : parts.foldlM (setupPart env hd size) start = .ok final) : Inv parts final := by
  refine (foldlM_invariant
    (fun done state => Inv done state ∧ RunFits env hd size state (parts.drop done.length))
    ⟨base, fits⟩ ?_ run).1
  rintro done part rest state next split ⟨holds, fits⟩ taken
  obtain ⟨placed, step⟩ := setupPart_ok taken
  rw [split, List.drop_left, RunFits, taken] at fits
  refine ⟨preserved done part rest state placed next split holds step fits.1 fits.2.1, ?_⟩
  rw [split, List.length_append, ← List.drop_drop, List.drop_left]
  exact fits.2.2

end Rules

end Genimage
