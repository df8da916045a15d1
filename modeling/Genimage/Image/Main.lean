/-
**The exit status of a run (`main`).**

`main` from the image sections of the parsed configuration on: the loop over the sections, the check of
the partitions, the setup pass, the generate pass. Every step jumps to `cleanup` with its return value
when it fails, and the exit status is `0` when that is `0`; an invalid size and a section without exactly
one handler end the program with `1`. `main_exit_iff` says for which configurations and runs the status
is `0`.

The refusal of a section with `srcpath` and a mountpoint jumps to `cleanup` without a return value, so
that a run without any image then exits with `0` (`Conflicted`).
-/

import Genimage.Image.Calls
import Genimage.Image.Implicit

namespace Genimage

open Library Library.Walk

/-! ### The sections -/

/-- What `main` reads of an image section, and what `handler->parse` returns, if it does. `entry` is the
image behind that. -/
structure MainSection where
  size : Option String := none
  srcpath : Option String := none
  mountpoint : Option String := none
  /-- The number of handler sections. -/
  handlers : Nat := 1
  parse : Option Int := some 0
  entry : ListEntry

/-- The sizes that `parse_partitions` reads of a section, or its exit. -/
def PartSpec.sizes (part : PartSpec) : Option (UInt64 × UInt64 × UInt64 × UInt64) := do
  let size ← cfgGetintSuffix part.size
  let offset ← cfgGetintSuffix part.offset
  let align ← cfgGetintSuffix part.align
  let imageoffset ← cfgGetintSuffix part.imageoffset
  return (size, offset, align, imageoffset)

namespace MainSection

/-- The mountpoint without its leading slash. -/
def strippedMountpoint (imagesec : MainSection) : Option (List Char) :=
  imagesec.mountpoint.map fun mountpoint =>
    if mountpoint.toList.head? = some '/' then mountpoint.toList.tail else mountpoint.toList

/-- `srcpath` and a mountpoint at the same time. -/
def conflict (imagesec : MainSection) : Bool :=
  imagesec.srcpath.isSome && imagesec.strippedMountpoint.any (0 < ·.length)

/-- The body of the loop over the sections: `main` ends with an error, which may be `0`, or the program
with the status of an exit. -/
def read (imagesec : MainSection) : Except Int ListEntry :=
  match cfgGetintSuffixPercent imagesec.size with
  | none => .error 1
  | some _ =>
    if imagesec.conflict then .error 0
    else if imagesec.handlers ≠ 1 then .error 1
    else
      match imagesec.entry.parts.mapM PartSpec.sizes, imagesec.parse with
      | some _, some ret => if ret ≠ 0 then .error ret else .ok imagesec.entry
      | _, _ => .error 1

/-- The size of the image can be read. -/
def Sized (imagesec : MainSection) : Prop := (cfgGetintSuffixPercent imagesec.size).isSome

/-- The section is accepted. -/
structure Fine (imagesec : MainSection) : Prop where
  sized : imagesec.Sized
  conflict : imagesec.conflict = false
  handlers : imagesec.handlers = 1
  sizes : ∀ part ∈ imagesec.entry.parts, part.sizes.isSome
  parse : imagesec.parse = some 0

theorem mapM_sizes_isSome (parts : List PartSpec) :
    (parts.mapM PartSpec.sizes).isSome ↔ ∀ part ∈ parts, part.sizes.isSome := by
  induction parts with
  | nil => simp
  | cons part rest ih =>
    rw [List.forall_mem_cons, ← ih, List.mapM_cons]
    cases part.sizes with
    | none => simp
    | some sizes => cases rest.mapM PartSpec.sizes <;> simp

theorem read_ok_iff (imagesec : MainSection) {entry : ListEntry} :
    imagesec.read = .ok entry ↔ imagesec.Fine ∧ entry = imagesec.entry := by
  unfold read
  constructor
  · intro run
    split at run
    next => cases run
    next size sized =>
      split_ifs at run with conflict handlers
      split at run
      next sizes ret read parsed =>
        split_ifs at run with parse
        refine ⟨⟨Option.isSome_iff_exists.mpr ⟨_, sized⟩, Bool.not_eq_true _ ▸ conflict,
          not_not.mp handlers, ?_, by rw [parsed, not_not.mp parse]⟩, (Except.ok.inj run).symm⟩
        exact (mapM_sizes_isSome _).mp (Option.isSome_iff_exists.mpr ⟨_, read⟩)
      next => cases run
  · rintro ⟨⟨sized, conflict, handlers, sizes, parse⟩, rfl⟩
    obtain ⟨size, sized⟩ := Option.isSome_iff_exists.mp sized
    obtain ⟨all, sizes⟩ := Option.isSome_iff_exists.mp ((mapM_sizes_isSome _).mpr sizes)
    rw [sized, sizes, parse]
    simp only
    rw [if_neg (by rw [conflict]; decide), if_neg (not_not.mpr handlers), if_neg (not_not.mpr rfl)]

/-- The loop ends with `0` at a conflict; the size is read in front of it. -/
theorem read_zero_iff (imagesec : MainSection) :
    imagesec.read = .error 0 ↔ imagesec.Sized ∧ imagesec.conflict = true := by
  unfold read Sized
  split
  next unsized =>
    rw [unsized]
    exact iff_of_false (fun same => absurd (Except.error.inj same) (by decide)) (by simp)
  next size sized =>
    rw [sized, and_iff_right (by rfl)]
    split_ifs with conflict handlers
    · exact iff_of_true rfl conflict
    · exact iff_of_false (fun same => absurd (Except.error.inj same) (by decide)) conflict
    · refine iff_of_false (fun same => ?_) conflict
      split at same
      next ret _ _ =>
        split_ifs at same with parse
        exact parse (Except.error.inj same)
      next => exact absurd (Except.error.inj same) (by decide)

end MainSection

/-- **The first section that is not accepted has a conflict.** -/
def Conflicted (sections : List MainSection) : Prop :=
  ∃ before imagesec after, sections = before ++ imagesec :: after ∧
    (∀ other ∈ before, other.Fine) ∧ imagesec.Sized ∧ imagesec.conflict = true

theorem conflicted_cons {imagesec : MainSection} {rest : List MainSection} :
    Conflicted (imagesec :: rest) ↔
      (imagesec.Sized ∧ imagesec.conflict = true) ∨ (imagesec.Fine ∧ Conflicted rest) := by
  constructor
  · rintro ⟨before, other, after, split, fine, conflict⟩
    cases before with
    | nil =>
      obtain ⟨rfl, _⟩ := List.cons.inj split
      exact Or.inl conflict
    | cons first before =>
      obtain ⟨rfl, rest⟩ := List.cons.inj split
      rw [List.forall_mem_cons] at fine
      exact Or.inr ⟨fine.1, before, other, after, rest, fine.2, conflict⟩
  · rintro (conflict | ⟨fine, before, other, after, rfl, others, conflict⟩)
    · exact ⟨[], imagesec, rest, rfl, nofun, conflict⟩
    · exact ⟨imagesec :: before, other, after, rfl, List.forall_mem_cons.mpr ⟨fine, others⟩, conflict⟩

/-- **The loop over the sections** succeeds when they are accepted, and ends the run with `0` when there
is a conflict; by induction on the sections. -/
theorem mapM_read (sections : List MainSection) :
    (∀ entries, sections.mapM MainSection.read = .ok entries ↔
      (∀ imagesec ∈ sections, imagesec.Fine) ∧ entries = sections.map (·.entry)) ∧
    (sections.mapM MainSection.read = .error 0 ↔ Conflicted sections) := by
  induction sections with
  | nil =>
    refine ⟨fun entries => ?_, iff_of_false (fun run => by cases run) ?_⟩
    · rw [List.mapM_nil, pure_eq_ok]
      simp [eq_comm]
    · rintro ⟨before, imagesec, after, split, _⟩
      simp at split
  | cons imagesec rest ih =>
    obtain ⟨fine, conflicted⟩ := ih
    refine ⟨fun entries => ?_, ?_⟩
    · simp only [List.mapM_cons, do_eq_ok, pure_eq_ok, MainSection.read_ok_iff, fine,
        List.forall_mem_cons, List.map_cons]
      constructor
      · rintro ⟨_, ⟨first, rfl⟩, _, ⟨others, rfl⟩, rfl⟩
        exact ⟨⟨first, others⟩, rfl⟩
      · rintro ⟨⟨first, others⟩, rfl⟩
        exact ⟨_, ⟨first, rfl⟩, _, ⟨others, rfl⟩, rfl⟩
    · rw [conflicted_cons, ← conflicted, List.mapM_cons]
      cases run : imagesec.read with
      | error ret =>
        have unfine : ¬ imagesec.Fine := fun first => by
          rw [imagesec.read_ok_iff.mpr ⟨first, rfl⟩] at run
          cases run
        rw [← imagesec.read_zero_iff, run, or_iff_left fun both => unfine both.1]
        show Except.error ret = Except.error 0 ↔ _
        rw [Except.error.injEq, Except.error.injEq]
      | ok entry =>
        have first := imagesec.read_ok_iff.mp run
        rw [← imagesec.read_zero_iff, run, or_iff_right (fun same => by cases same),
          and_iff_right first.1]
        cases others : rest.mapM MainSection.read with
        | error ret => rfl
        | ok entries => exact iff_of_false (fun same => by cases same) fun same => by cases same

/-! ### `main` -/

/-- What the steps return that are not about single images: `set_flash_type`, `collect_mountpoints`,
`setenv_paths`, and the command that makes the output directory. -/
structure Between where
  flashTypes : Int := 0
  mountpoints : Int := 0
  paths : Int := 0
  directory : Int := 0
deriving DecidableEq, Repr

/-- Both passes, with the steps between them. -/
def passesRet (between : Between) (images : List Image) (outside : Outside (Fin images.length)) :
    Option Int :=
  match setupAll images outside (Marks.fresh images) with
  | none => none
  | some (ret, marks) =>
    if ret ≠ 0 then some ret
    else if between.paths ≠ 0 then some between.paths
    else if between.directory ≠ 0 then some between.directory
    else (generateAll images outside marks).map Prod.fst

/-- `ret` at `cleanup`. -/
def mainRet (len : String → Nat → Int32) (sections : List MainSection) (between : Between)
    (outside : (images : List Image) → Outside (Fin images.length)) : Option Int :=
  match sections.mapM MainSection.read with
  | .error ret => some ret
  | .ok entries =>
    match checkImages len entries with
    | .error error => some error.code
    | .ok result =>
      if between.flashTypes ≠ 0 then some between.flashTypes
      else if between.mountpoints ≠ 0 then some between.mountpoints
      else passesRet between (result.map (·.image)) (outside _)

/-- `return ret ? 1 : 0;` -/
def exitStatus (ret : Int) : Nat := if ret ≠ 0 then 1 else 0

/-- **Both passes have succeeded**: there is no cycle, and every image is done. -/
def AllDone (images : List Image) (outside : Outside (Fin images.length)) : Prop :=
  ∃ marks final, setupAll images outside (Marks.fresh images) = some (0, marks) ∧
    generateAll images outside marks = some (0, final) ∧ Acyclic (refs images) ∧
    ∀ image, Done generatePass final image

/-- **The run has done everything.** -/
structure Successful (len : String → Nat → Int32) (sections : List MainSection) (between : Between)
    (outside : (images : List Image) → Outside (Fin images.length)) : Prop where
  fine : ∀ imagesec ∈ sections, imagesec.Fine
  accepted : ∀ before part after, allParts (sections.map (·.entry)) = before ++ part :: after →
    Accepted len (sections.map (·.entry)) before part
  between : between = {}
  generated : ∀ result, checkImages len (sections.map (·.entry)) = .ok result →
    AllDone (result.map (·.image)) (outside _)

/-- **The passes end**, and return `0` when everything is done. -/
theorem passesRet_zero_iff (between : Between) (images : List Image)
    (outside : Outside (Fin images.length)) :
    ∃ ret, passesRet between images outside = some ret ∧
      (ret = 0 ↔ between.paths = 0 ∧ between.directory = 0 ∧ AllDone images outside) := by
  obtain ⟨ret, marks, setup⟩ : ∃ ret marks, setupAll images outside (Marks.fresh images) =
    some (ret, marks) := pass_total (by simp)
  obtain ⟨ret', final, generate⟩ : ∃ ret' final, generateAll images outside marks =
    some (ret', final) := pass_total (by simp)
  have negative : MarksIn (· ≤ 0) marks :=
    pass_marksIn (by decide) setup fun _ => ⟨le_rfl, le_rfl⟩
  have all : AllDone images outside ↔ ret = 0 ∧ ret' = 0 := by
    constructor
    · rintro ⟨marks', final', setup', generate', _⟩
      obtain ⟨rfl, rfl⟩ := Prod.mk.inj (Option.some.inj (setup.symm.trans setup'))
      exact ⟨rfl, congrArg Prod.fst (Option.some.inj (generate.symm.trans generate'))⟩
    · rintro ⟨rfl, rfl⟩
      obtain ⟨order, extended, every⟩ :=
        pass_extends List.mem_finRange (done_clean negative) generate
      refine ⟨marks, final, setup, generate, ?_, fun image => ?_⟩
      · exact acyclic_of_extends extended every (done_clean negative)
      · exact (extended.done image).mpr (Or.inr (every image))
  unfold passesRet
  rw [setup, all]
  simp only
  split_ifs with failed paths directory
  · exact ⟨ret, rfl, iff_of_false failed fun both => failed both.2.2.1⟩
  · exact ⟨_, rfl, iff_of_false paths fun both => paths both.1⟩
  · exact ⟨_, rfl, iff_of_false directory fun both => directory both.2.1⟩
  · rw [generate]
    refine ⟨ret', rfl, ?_⟩
    rw [and_iff_right (not_not.mp paths), and_iff_right (not_not.mp directory),
      and_iff_right (not_not.mp failed)]

/-- **The exit status of every run**: it is `0` when everything has been done, and when the first section
that is not accepted has both `srcpath` and a mountpoint. -/
theorem main_exit_iff (len : String → Nat → Int32) (sections : List MainSection) (between : Between)
    (outside : (images : List Image) → Outside (Fin images.length)) :
    ∃ ret, mainRet len sections between outside = some ret ∧
      (exitStatus ret = 0 ↔
        Conflicted sections ∨ Successful len sections between outside) := by
  have status : ∀ ret, exitStatus ret = 0 ↔ ret = 0 := by
    intro ret
    unfold exitStatus
    split_ifs with failed
    · exact iff_of_false (by decide) failed
    · exact iff_of_true rfl (not_not.mp failed)
  obtain ⟨fine, conflicted⟩ := mapM_read sections
  simp only [status]
  unfold mainRet
  cases run : sections.mapM MainSection.read with
  | error ret =>
    refine ⟨ret, rfl, ?_⟩
    have refused : ¬ Successful len sections between outside := fun success => by
      rw [(fine _).mpr ⟨success.fine, rfl⟩] at run
      cases run
    rw [or_iff_left refused, ← conflicted, run, Except.error.injEq]
  | ok entries =>
    obtain ⟨all, rfl⟩ := (fine entries).mp run
    have quiet : ¬ Conflicted sections := fun conflict => by
      rw [conflicted.mpr conflict] at run
      cases run
    rw [or_iff_right quiet]
    obtain ⟨_, accepted⟩ := checkParts_completed len (sections.map (·.entry))
      (allParts (sections.map (·.entry)))
    rw [← checkImages_eq] at accepted
    simp only
    cases check : checkImages len (sections.map (·.entry)) with
    | error error =>
      refine ⟨error.code, rfl, iff_of_false (by cases error <;> decide) fun success => ?_⟩
      obtain ⟨result, checked⟩ := accepted.mpr success.accepted
      rw [check] at checked
      cases checked
    | ok result =>
      obtain ⟨ret, passes, zero⟩ := passesRet_zero_iff between (result.map (·.image)) (outside _)
      have success : Successful len sections between outside ↔ between = {} ∧
          AllDone (result.map (·.image)) (outside _) := by
        constructor
        · exact fun success => ⟨success.between, success.generated result check⟩
        · rintro ⟨none, done⟩
          refine ⟨all, accepted.mp ⟨result, check⟩, none, fun result' check' => ?_⟩
          obtain rfl := Except.ok.inj (check.symm.trans check')
          exact done
      have none : between = {} ↔ between.flashTypes = 0 ∧ between.mountpoints = 0 ∧
          between.paths = 0 ∧ between.directory = 0 := by
        cases between
        simp
      rw [success, none]
      simp only
      split_ifs with flash mountpoints
      · exact ⟨_, rfl, iff_of_false flash fun both => flash both.1.1⟩
      · exact ⟨_, rfl, iff_of_false mountpoints fun both => mountpoints both.1.2.1⟩
      · refine ⟨ret, passes, zero.trans ?_⟩
        rw [and_iff_right (not_not.mp flash), and_iff_right (not_not.mp mountpoints), and_assoc]

end Genimage
