/-
**The calls of one image (`image_generate`).**

Behind its loop `image_generate` sets the environment, runs the commands of the image and calls its
handler, and stops at the first one that fails. `generateBody_calls` says what that adds to the calls
so far, in every case.
-/

import Genimage.Image.Verity
import Genimage.Library.UpToDate

namespace Genimage

open Library Library.Walk

/-- The image that a call is made for. -/
def Call.image {ι : Type} : Call ι → ι
  | .setup image => image
  | .setenv image => image
  | .execPre image => image
  | .generate image => image
  | .remove image => image
  | .execPost image => image

/-- A call of a handler or a command. -/
def Call.isRun {ι : Type} : Call ι → Bool
  | .setup _ => false
  | .setenv _ => false
  | _ => true

section Calls

variable {images : List Image} (outside : Outside (Fin images.length)) (image : Fin images.length)

/-- A part of a body adds runs for its image. -/
def AddsRuns (log : List (Call (Fin images.length)))
    (result : Int × List (Call (Fin images.length))) : Prop :=
  ∃ runs, result.2 = log ++ runs ∧ ∀ event ∈ runs, event.isRun = true ∧ event.image = image

/-- What comes behind the handler of an image that succeeds: its last command, which has succeeded. -/
def PostCalls (behind after : List (Call (Fin images.length))) : Prop :=
  ((images.get image).execPost = false ∧ after = []) ∨
    ((images.get image).execPost = true ∧ after = [.execPost image] ∧
      outside.reply behind (.execPost image) = 0)

/-- **The calls of one image**: the environment is set first, and the others are made when that has
succeeded. When the image succeeds its handler has, and nothing but the last command comes behind. -/
structure BodyCalls (log : List (Call (Fin images.length)))
    (result : Int × List (Call (Fin images.length))) : Prop where
  runs : ∃ runs, result.2 = log ++ .setenv image :: runs ∧
    (∀ event ∈ runs, event.isRun = true ∧ event.image = image) ∧
    (runs ≠ [] → outside.reply log (.setenv image) = 0)
  success : result.1 = 0 → ∃ before after, result.2 = before ++ .generate image :: after ∧
    log <+: before ∧ (∀ event ∈ before.drop log.length, event.image = image) ∧
    outside.reply before (.generate image) = 0 ∧
    PostCalls outside image (before ++ [.generate image]) after

variable {outside image} {log : List (Call (Fin images.length))}

theorem AddsRuns.nil (ret : Int) : AddsRuns image log (ret, log) :=
  ⟨[], (List.append_nil log).symm, nofun⟩

theorem AddsRuns.trans {first : Int × List (Call (Fin images.length))}
    {rest : List (Call (Fin images.length)) → Int × List (Call (Fin images.length))}
    (one : AddsRuns image log first) (two : AddsRuns image first.2 (rest first.2)) :
    AddsRuns image log (andThen first rest) := by
  unfold andThen
  split_ifs
  · exact one
  · obtain ⟨runs, same, own⟩ := one
    obtain ⟨more, same', own'⟩ := two
    refine ⟨runs ++ more, by rw [same', same, List.append_assoc], fun event member => ?_⟩
    exact (List.mem_append.mp member).elim (own event) (own' event)

theorem callIf_adds {event : Call (Fin images.length)} (condition : Bool)
    (run : event.isRun = true) (own : event.image = image) :
    AddsRuns image log (callIf images outside condition event log) := by
  unfold callIf
  split_ifs
  · refine ⟨[event], rfl, fun other member => ?_⟩
    rw [List.mem_singleton.mp member]
    exact ⟨run, own⟩
  · exact .nil 0

theorem generateHandler_addsRuns : AddsRuns image log (generateHandler images outside image log) := by
  unfold generateHandler
  split_ifs
  · exact .nil einval
  · show AddsRuns image log (_, ite _ _ _)
    split_ifs
    · refine ⟨[.generate image, .remove image], by simp [call], ?_⟩
      simp [Call.isRun, Call.image]
    · exact ⟨[.generate image], rfl, by simp [Call.isRun, Call.image]⟩

theorem andThen_success {first : Int × List (Call (Fin images.length))}
    {rest : List (Call (Fin images.length)) → Int × List (Call (Fin images.length))}
    (zero : (andThen first rest).1 = 0) : first.1 = 0 ∧ andThen first rest = rest first.2 := by
  unfold andThen at zero ⊢
  split_ifs at zero ⊢ with failed
  · exact absurd zero failed
  · exact ⟨not_not.mp failed, rfl⟩

/-- The handler calls of an image that succeeds. -/
theorem generateHandler_success (zero : (generateHandler images outside image log).1 = 0) :
    (generateHandler images outside image log).2 = log ++ [.generate image] ∧
      outside.reply log (.generate image) = 0 := by
  unfold generateHandler at zero ⊢
  split_ifs at zero ⊢
  · exact absurd (show einval = 0 from zero) (by decide)
  · have answer : outside.reply log (.generate image) = 0 := zero
    simp only [call, answer, ne_eq, not_true_eq_false, false_and, if_false]
    exact ⟨trivial, trivial⟩

/-- The last command of an image that succeeds. -/
theorem callIf_post {behind : List (Call (Fin images.length))}
    (zero : (callIf images outside (images.get image).execPost (.execPost image) behind).1 = 0) :
    ∃ after, (callIf images outside (images.get image).execPost (.execPost image) behind).2 =
      behind ++ after ∧ PostCalls outside image behind after := by
  unfold callIf at zero ⊢
  split_ifs at zero ⊢ with post
  · exact ⟨[.execPost image], rfl, Or.inr ⟨post, rfl, zero⟩⟩
  · exact ⟨[], (List.append_nil _).symm, Or.inl ⟨Bool.not_eq_true _ ▸ post, rfl⟩⟩

theorem generateBody_calls : BodyCalls outside image log (generateBody images outside image log) := by
  have commands : AddsRuns image (log ++ [.setenv image])
      (andThen (callIf images outside (images.get image).execPre (.execPre image)
        (log ++ [.setenv image])) fun log => andThen (generateHandler images outside image log)
          fun log => callIf images outside (images.get image).execPost (.execPost image) log) :=
    (callIf_adds _ rfl rfl).trans (generateHandler_addsRuns.trans (callIf_adds _ rfl rfl))
  constructor
  · unfold generateBody andThen
    split_ifs with failed
    · exact ⟨[], rfl, nofun, fun some => absurd rfl some⟩
    · obtain ⟨runs, same, own⟩ := commands
      exact ⟨runs, same.trans (by rw [List.append_assoc, List.singleton_append]), own,
        fun _ => not_not.mp failed⟩
  · intro zero
    obtain ⟨_, same⟩ := andThen_success zero
    unfold generateBody at zero ⊢
    rw [same] at zero ⊢
    obtain ⟨_, same⟩ := andThen_success zero
    rw [same] at zero ⊢
    obtain ⟨answered, same⟩ := andThen_success zero
    rw [same] at zero ⊢
    obtain ⟨generated, answer⟩ := generateHandler_success answered
    rw [generated]
    have pre : AddsRuns image (log ++ [.setenv image]) (callIf images outside
        (images.get image).execPre (.execPre image) (call images outside (.setenv image) log).2) :=
      callIf_adds _ rfl rfl
    obtain ⟨runs, before, own⟩ := pre
    rw [generated] at zero
    rw [before] at answer zero ⊢
    obtain ⟨after, added, post⟩ := callIf_post zero
    refine ⟨log ++ [.setenv image] ++ runs, after, ?_, ?_, ?_, answer, post⟩
    · rw [added, List.append_assoc, List.singleton_append]
    · rw [List.append_assoc]
      exact List.prefix_append _ _
    · intro event member
      rw [List.append_assoc, List.drop_left] at member
      rcases List.mem_append.mp member with first | later
      · rw [List.mem_singleton.mp first]
        rfl
      · exact (own event later).2

/-- At the start of the generate pass no image is done. -/
theorem done_clean {marks : Marks images} (negative : MarksIn (· ≤ 0) marks)
    (image : Fin images.length) : ¬ Done generatePass marks image := by
  intro done
  have positive : marks.done image > 0 := by simpa [Done, generatePass] using done
  exact absurd positive (not_lt.mpr (negative image).2)

/-- **At the end of a run** the images that are done are up to date, and so are those they refer to. When
the run succeeds all images are done. -/
theorem runPasses_tasks {same : Fin images.length → List (Call (Fin images.length)) →
      List (Call (Fin images.length)) → Prop}
    {fresh : Fin images.length → List (Call (Fin images.length)) → Prop}
    (tasks : Tasks (refs images) (generateBody images outside) same fresh) {ret : Int}
    {final : Marks images} (run : runPasses images outside = some (ret, final)) :
    (ret = 0 → Acyclic (refs images) ∧ ∀ image, Done generatePass final image) ∧
      UpToDate generatePass (refs images) fresh final := by
  have negative : MarksIn (· ≤ 0) (Marks.fresh images) := fun _ => ⟨le_rfl, le_rfl⟩
  unfold runPasses at run
  split at run
  next => cases run
  next ret' marks setup =>
    have small : MarksIn (· ≤ 0) marks := pass_marksIn (by decide) setup negative
    have none : UpToDate generatePass (refs images) fresh marks := .of_clean (done_clean small)
    split_ifs at run with failed
    · obtain ⟨rfl, rfl⟩ := Prod.mk.inj (Option.some.inj run)
      exact ⟨fun zero => absurd zero failed, none⟩
    · refine ⟨fun zero => ?_, tasks.pass_upToDate run none⟩
      rw [zero] at run
      obtain ⟨order, extended, all⟩ := pass_extends List.mem_finRange (done_clean small) run
      exact ⟨acyclic_of_extends extended all (done_clean small),
        fun image => (extended.done image).mpr (Or.inr (all image))⟩

/-- A complete setup pass has called the setup functions. -/
theorem setupAll_calls {marks : Marks images}
    (run : setupAll images outside (Marks.fresh images) = some (0, marks)) {image : Fin images.length}
    (has : (images.get image).hasSetup = true) : .setup image ∈ marks.world := by
  have tasks : Tasks (refs images) (setupBody images outside)
      (fun image log next => .setup image ∈ log → .setup image ∈ next)
      (fun image log => (images.get image).hasSetup = true → .setup image ∈ log) := by
    refine ⟨fun node other log _ member => ?_, fun node log _ _ has => ?_, fun node log next own _ now has =>
      own (now has)⟩
    · rw [setupBody_log]
      exact List.mem_append_left _ member
    · rw [setupBody_log, setupCalls, if_pos has]
      simp
  have clean : ∀ image, ¬ Done setupPass (Marks.fresh images) image := by
    intro image
    simp [Done, setupPass, Marks.fresh]
  obtain ⟨order, extended, all⟩ := pass_extends List.mem_finRange clean run
  exact (tasks.pass_upToDate run (.of_clean clean) image
    ((extended.done image).mpr (Or.inr (all image)))).2 has

/-- **A run that succeeds has called the setup functions.** -/
theorem runPasses_setup {final : Marks images} (run : runPasses images outside = some (0, final))
    {image : Fin images.length} (has : (images.get image).hasSetup = true) :
    .setup image ∈ final.world := by
  unfold runPasses at run
  split at run
  next => cases run
  next ret marks setup =>
    split_ifs at run with failed
    · exact absurd (Prod.mk.inj (Option.some.inj run)).1 failed
    · rw [not_not.mp failed] at setup
      have member := setupAll_calls setup has
      refine pass_keeps (P := fun log => .setup image ∈ log) (fun node log old => ?_) run member
      obtain ⟨⟨runs, same, _⟩, _⟩ : BodyCalls outside node log _ := generateBody_calls
      rw [same]
      exact List.mem_append_left _ old

end Calls

end Genimage
