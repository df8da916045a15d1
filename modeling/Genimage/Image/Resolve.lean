/-
**Dependency resolution (`image_setup`, `image_generate` and their loops in `main`).**

Both passes are walks over the images along the image names of their partitions. They share the
marks: `image_setup` writes and tests for negative values, `image_generate` for positive ones. An
image is its place in the list; `image_get` finds the first one of a name. What handlers and
commands return is an `Outside`, and may depend on everything that ran before.

`passes_correct` is the result: both passes end; on a graph without cycles, when nothing fails, each
runs every handler once, children first; on a graph with a cycle each fails. The generate pass starts
from the marks that the setup pass leaves behind, whatever its outcome.
-/

import Genimage.Library.Walk
import Genimage.Util.Errno
import Mathlib.Data.Fintype.Basic

namespace Genimage

open Library Library.Walk

/-- The fields of `struct image` that the passes read. `partitions` has `part->image` of each
partition; the elements that a setup handler adds to the list have none. -/
structure Image where
  file : String
  partitions : List (Option String) := []
  hasSetup : Bool := true
  hasGenerate : Bool := true
  execPre : Bool := false
  execPost : Bool := false
deriving DecidableEq, Repr

/-- Calls that leave the model. -/
inductive Call (ι : Type) where
  | setup (image : ι)
  | setenv (image : ι)
  | execPre (image : ι)
  | generate (image : ι)
  | remove (image : ι)
  | execPost (image : ι)
deriving DecidableEq, Repr

/-- What the calls return, after the calls so far, and whether a failed image leaves a file that is
removed. -/
structure Outside (ι : Type) where
  reply : List (Call ι) → Call ι → Int
  removable : List (Call ι) → ι → Bool

/-- `image_get` -/
def imageGet (images : List Image) (filename : String) : Option (Fin images.length) :=
  images.findFinIdx? (·.file = filename)

/-- The references that the loops of the passes follow. -/
def refs (images : List Image) (image : Fin images.length) : List (Option (Fin images.length)) :=
  (images.get image).partitions.filterMap fun name => name.map (imageGet images)

section Passes

variable (images : List Image) (outside : Outside (Fin images.length))

/-- One call. -/
def call (event : Call (Fin images.length)) (log : List (Call (Fin images.length))) :
    Int × List (Call (Fin images.length)) :=
  (outside.reply log event, log ++ [event])

/-- A call that is only made when there is something to call. -/
def callIf (condition : Bool) (event : Call (Fin images.length))
    (log : List (Call (Fin images.length))) : Int × List (Call (Fin images.length)) :=
  if condition then call images outside event log else (0, log)

/-- `if (ret) return ret;` between two parts of a function. -/
def andThen {ι : Type} (first : Int × List (Call ι)) (rest : List (Call ι) → Int × List (Call ι)) :
    Int × List (Call ι) :=
  if first.1 ≠ 0 then first else rest first.2

/-- `image_setup` behind its loop. -/
def setupBody (image : Fin images.length) (log : List (Call (Fin images.length))) :
    Int × List (Call (Fin images.length)) :=
  callIf images outside (images.get image).hasSetup (.setup image) log

/-- The handler call of `image_generate`: a failed image leaves no file behind. -/
def generateHandler (image : Fin images.length) (log : List (Call (Fin images.length))) :
    Int × List (Call (Fin images.length)) :=
  if !(images.get image).hasGenerate then (einval, log)
  else
    let (ret, log) := call images outside (.generate image) log
    (ret, if ret ≠ 0 ∧ outside.removable log image then (call images outside (.remove image) log).2
      else log)

/-- `image_generate` behind its loop. -/
def generateBody (image : Fin images.length) (log : List (Call (Fin images.length))) :
    Int × List (Call (Fin images.length)) :=
  andThen (call images outside (.setenv image) log) fun log =>
    andThen (callIf images outside (images.get image).execPre (.execPre image) log) fun log =>
      andThen (generateHandler images outside image log) fun log =>
        callIf images outside (images.get image).execPost (.execPost image) log

/-- The marks of `image_setup`. -/
def setupPass : Pass where
  mark := -1
  hit mark := mark < 0
  hit_mark := rfl
  error := einval
  error_ne := by decide

/-- The marks of `image_generate`. -/
def generatePass : Pass where
  mark := 1
  hit mark := mark > 0
  hit_mark := rfl
  error := einval
  error_ne := by decide

/-- The marks and the calls so far. -/
abbrev Marks := State (Fin images.length) (List (Call (Fin images.length)))

/-- `image_setup` -/
def imageSetup (fuel : Nat) (image : Fin images.length) (marks : Marks images) :
    Option (Int × Marks images) :=
  visit setupPass (refs images) (setupBody images outside) fuel image marks

/-- `image_generate` -/
def imageGenerate (fuel : Nat) (image : Fin images.length) (marks : Marks images) :
    Option (Int × Marks images) :=
  visit generatePass (refs images) (generateBody images outside) fuel image marks

/-- The marks of freshly allocated images. -/
def Marks.fresh : Marks images := ⟨fun _ => 0, fun _ => 0, []⟩

/-- The loop over `image_setup` in `main`. -/
def setupAll (marks : Marks images) : Option (Int × Marks images) :=
  visitAll setupPass (imageSetup images outside (images.length + 1))
    ((List.finRange images.length).map some) marks

/-- The loop over `image_generate` in `main`. -/
def generateAll (marks : Marks images) : Option (Int × Marks images) :=
  visitAll generatePass (imageGenerate images outside (images.length + 1))
    ((List.finRange images.length).map some) marks

end Passes

/-! ### The calls of a pass -/

section Calls

variable {images : List Image} {outside : Outside (Fin images.length)}

/-- **Every image that has the handler calls it exactly once**, behind the calls of the images it
refers to. -/
def CalledOnce (images : List Image) (event : Fin images.length → Call (Fin images.length))
    (has : Image → Bool) (log : List (Call (Fin images.length))) : Prop :=
  ∀ image, has (images.get image) = true →
    ∃ before after, log = before ++ event image :: after ∧ event image ∉ before ∧
      event image ∉ after ∧ ∀ child, Refers (refs images) image child →
        has (images.get child) = true → event child ∈ before

/-- The calls of `image_setup` for one image. -/
def setupCalls (images : List Image) (image : Fin images.length) :
    List (Call (Fin images.length)) :=
  if (images.get image).hasSetup then [.setup image] else []

/-- The calls of `image_generate` for one image, when nothing fails. -/
def generateCalls (images : List Image) (image : Fin images.length) :
    List (Call (Fin images.length)) :=
  .setenv image :: ((if (images.get image).execPre then [.execPre image] else []) ++
    .generate image :: if (images.get image).execPost then [.execPost image] else [])

theorem setupBody_log (image : Fin images.length) (log : List (Call (Fin images.length))) :
    (setupBody images outside image log).2 = log ++ setupCalls images image := by
  unfold setupBody setupCalls callIf
  split_ifs
  · rfl
  · exact (List.append_nil _).symm

theorem setupBody_ret (image : Fin images.length) (log : List (Call (Fin images.length))) :
    (setupBody images outside image log).1 = 0 ∨
      (setupBody images outside image log).1 = outside.reply log (.setup image) := by
  unfold setupBody callIf
  split_ifs
  · exact Or.inr rfl
  · exact Or.inl rfl

theorem andThen_zero {ι : Type} (log : List (Call ι))
    (rest : List (Call ι) → Int × List (Call ι)) : andThen (0, log) rest = rest log :=
  if_neg (not_not.mpr rfl)

theorem generateBody_eq (succeed : ∀ log event, outside.reply log event = 0)
    (image : Fin images.length) (has : (images.get image).hasGenerate = true)
    (log : List (Call (Fin images.length))) :
    generateBody images outside image log = (0, log ++ generateCalls images image) := by
  have optional : ∀ condition event log, callIf images outside condition event log =
      (0, log ++ if condition then [event] else []) := by
    intro condition event log
    cases condition
    · exact congrArg (Prod.mk 0) (List.append_nil log).symm
    · exact congrArg (·, log ++ [event]) (succeed log event)
  have handler : ∀ log, generateHandler images outside image log = (0, log ++ [.generate image]) := by
    intro log
    simp only [generateHandler, has, call, succeed, Bool.not_true, Bool.false_eq_true, if_false,
      ne_eq, not_true_eq_false, false_and]
  simp only [generateBody, call, succeed, optional, handler, andThen_zero, generateCalls]
  simp

section Possible

variable {Possible : Int → Prop} (zero : Possible 0)
  (replies : ∀ log event, Possible (outside.reply log event))

include zero replies

theorem callIf_ret (condition : Bool) (event : Call (Fin images.length))
    (log : List (Call (Fin images.length))) :
    Possible (callIf images outside condition event log).1 := by
  unfold callIf
  split_ifs
  · exact replies log event
  · exact zero

omit zero replies in
theorem andThen_ret {ι : Type} {first : Int × List (Call ι)}
    {rest : List (Call ι) → Int × List (Call ι)} (one : Possible first.1)
    (two : ∀ log, Possible (rest log).1) : Possible (andThen first rest).1 := by
  unfold andThen
  split_ifs
  · exact one
  · exact two first.2

/-- `image_generate` returns `0`, `-EINVAL`, or what a call returned. -/
theorem generateBody_ret (invalid : Possible einval) (image : Fin images.length)
    (log : List (Call (Fin images.length))) :
    Possible (generateBody images outside image log).1 := by
  refine andThen_ret (replies log _) fun log =>
    andThen_ret (callIf_ret zero replies _ _ log) fun log =>
      andThen_ret ?_ fun log => callIf_ret zero replies _ _ log
  unfold generateHandler
  split_ifs
  · exact invalid
  · exact replies log _

end Possible

/-- The calls of bodies that append their calls to the log. -/
theorem runBodies_log {body : Fin images.length → List (Call (Fin images.length)) →
      Int × List (Call (Fin images.length))}
    {calls : Fin images.length → List (Call (Fin images.length))}
    (appends : ∀ image log, (body image log).2 = log ++ calls image)
    (order : List (Fin images.length)) : ∀ log : List (Call (Fin images.length)),
      runBodies body order log = log ++ order.flatMap calls := by
  induction order with
  | nil => exact fun log => (List.append_nil log).symm
  | cons image rest ih =>
    intro log
    show runBodies body rest (body image log).2 = _
    rw [ih, appends, List.flatMap_cons, List.append_assoc]

/-- Calls in an order that has every image once, children first. -/
theorem calledOnce_flatMap {event : Fin images.length → Call (Fin images.length)}
    {has : Image → Bool} {calls : Fin images.length → List (Call (Fin images.length))}
    {start next : Marks images} {pass : Pass} {body : Fin images.length →
      List (Call (Fin images.length)) → Int × List (Call (Fin images.length))}
    {order : List (Fin images.length)}
    (own : ∀ image other, event image ∈ calls other → image = other)
    (once : ∀ image, has (images.get image) = true →
      ∃ before after, calls image = before ++ event image :: after ∧ event image ∉ before ∧
        event image ∉ after)
    (extended : Extends pass (refs images) body start next order) (all : ∀ image, image ∈ order)
    (clean : ∀ image, ¬ Done pass start image) :
    CalledOnce images event has (order.flatMap calls) := by
  intro image handler
  obtain ⟨before, after, split⟩ := List.append_of_mem (all image)
  obtain ⟨pre, post, same, notPre, notPost⟩ := once image handler
  have nodup := extended.nodup
  rw [split] at nodup
  have notBefore : image ∉ before := fun member =>
    (List.nodup_append.mp nodup).2.2 image member image List.mem_cons_self rfl
  have notAfter : image ∉ after := (List.nodup_cons.mp (List.nodup_append.mp nodup).2.1).1
  have outsideOf : ∀ {block : List (Fin images.length)}, image ∉ block →
      event image ∉ block.flatMap calls := by
    intro block absent member
    obtain ⟨other, among, listed⟩ := List.mem_flatMap.mp member
    exact absent (own image other listed ▸ among)
  refine ⟨before.flatMap calls ++ pre, post ++ after.flatMap calls, ?_, ?_, ?_, ?_⟩
  · rw [split, List.flatMap_append, List.flatMap_cons, same]
    simp only [List.append_assoc, List.cons_append]
  · exact fun member => (List.mem_append.mp member).elim (outsideOf notBefore) notPre
  · exact fun member => (List.mem_append.mp member).elim notPost (outsideOf notAfter)
  · intro child refers handler'
    have earlier := (extended.children before image after split child refers).resolve_right
      (clean child)
    obtain ⟨pre', post', same', _⟩ := once child handler'
    refine List.mem_append_left _ (List.mem_flatMap.mpr ⟨child, earlier, ?_⟩)
    rw [same']
    exact List.mem_append_right _ List.mem_cons_self

end Calls

/-! ### The two passes -/

section Correct

variable {images : List Image} {outside : Outside (Fin images.length)}

/-- **The setup pass** over fresh images, and what it leaves for the generate pass. -/
structure SetupCorrect (images : List Image) (outside : Outside (Fin images.length)) (ret : Int)
    (marks : Marks images) : Prop where
  acyclic : Acyclic (refs images) → (∀ log image, outside.reply log (.setup image) = 0) →
    ret = 0 ∧ CalledOnce images .setup (·.hasSetup) marks.world
  cyclic : ¬ Acyclic (refs images) → ret ≠ 0 ∧
    (ret = einval ∨ ∃ log image, ret = outside.reply log (.setup image))
  marks : MarksIn (· ≤ 0) marks

/-- **The generate pass** over images without marks of its own. -/
structure GenerateCorrect (images : List Image) (outside : Outside (Fin images.length))
    (start : Marks images) (ret : Int) (marks : Marks images) : Prop where
  acyclic : Acyclic (refs images) → (∀ log event, outside.reply log event = 0) →
    (∀ image, (images.get image).hasGenerate = true) →
    ret = 0 ∧ ∃ log, marks.world = start.world ++ log ∧
      CalledOnce images .generate (·.hasGenerate) log
  cyclic : ¬ Acyclic (refs images) → ret ≠ 0 ∧
    (ret = einval ∨ ∃ log event, ret = outside.reply log event)

theorem setupAll_correct (resolvable : ∀ image, none ∉ refs images image) :
    ∃ ret marks, setupAll images outside (Marks.fresh images) = some (ret, marks) ∧
      SetupCorrect images outside ret marks := by
  have clean : ∀ image, ¬ Done setupPass (Marks.fresh images) image := fun _ => by
    simp [Done, Marks.fresh, setupPass]
  have clean' : ∀ image, ¬ Seen setupPass (Marks.fresh images) image := fun _ => by
    simp [Seen, Marks.fresh, setupPass]
  obtain ⟨ret, marks, run⟩ : ∃ ret marks, setupAll images outside (Marks.fresh images) =
    some (ret, marks) := pass_total (by simp)
  refine ⟨ret, marks, run, ?_, ?_, ?_⟩
  · intro acyclic succeed
    have bodies : ∀ image log, (setupBody images outside image log).1 = 0 := fun image log =>
      (setupBody_ret image log).elim id fun same => same.trans (succeed log image)
    obtain rfl := pass_succeeds acyclic resolvable bodies clean' run
    obtain ⟨order, extended, all⟩ := pass_extends List.mem_finRange clean run
    refine ⟨rfl, ?_⟩
    rw [extended.world, runBodies_log setupBody_log]
    refine calledOnce_flatMap ?_ ?_ extended all clean
    · intro image other member
      unfold setupCalls at member
      split_ifs at member
      · simpa using member
      · cases member
    · intro image has
      exact ⟨[], [], by rw [setupCalls, if_pos has]; rfl, by simp, by simp⟩
  · intro cyclic
    obtain ⟨failed, source⟩ := pass_fails cyclic List.mem_finRange clean run
    refine ⟨failed, source.imp id ?_⟩
    rintro ⟨image, log, rfl⟩
    exact ⟨log, image, (setupBody_ret image log).resolve_left failed⟩
  · exact pass_marksIn (by decide) run fun image => ⟨le_rfl, le_rfl⟩

theorem generateAll_correct (resolvable : ∀ image, none ∉ refs images image)
    {start : Marks images} (marks : MarksIn (· ≤ 0) start) :
    ∃ ret marks, generateAll images outside start = some (ret, marks) ∧
      GenerateCorrect images outside start ret marks := by
  have clean : ∀ image, ¬ Done generatePass start image := fun image => by
    simpa [Done, generatePass] using (marks image).2
  have clean' : ∀ image, ¬ Seen generatePass start image := fun image => by
    simpa [Seen, generatePass] using (marks image).1
  obtain ⟨ret, marks, run⟩ : ∃ ret marks, generateAll images outside start =
    some (ret, marks) := pass_total (by simp)
  refine ⟨ret, marks, run, ?_, ?_⟩
  · intro acyclic succeed has
    have bodies := fun image => generateBody_eq succeed image (has image)
    obtain rfl := pass_succeeds acyclic resolvable (fun image log => by rw [bodies]) clean' run
    obtain ⟨order, extended, all⟩ := pass_extends List.mem_finRange clean run
    refine ⟨rfl, order.flatMap (generateCalls images), ?_, ?_⟩
    · rw [extended.world, runBodies_log fun image log => by rw [bodies]]
    · refine calledOnce_flatMap ?_ ?_ extended all clean
      · intro image other member
        unfold generateCalls at member
        split_ifs at member <;> simpa using member
      · intro image _
        unfold generateCalls
        exact ⟨.setenv image :: if (images.get image).execPre then [.execPre image] else [],
          if (images.get image).execPost then [.execPost image] else [], rfl,
          by split_ifs <;> simp, by split_ifs <;> simp⟩
  · intro cyclic
    obtain ⟨failed, source⟩ := pass_fails cyclic List.mem_finRange clean run
    refine ⟨failed, source.elim Or.inl ?_⟩
    rintro ⟨image, log, same⟩
    let Possible (value : Int) : Prop :=
      value = 0 ∨ value = einval ∨ ∃ log event, value = outside.reply log event
    have possible : Possible (generateBody images outside image log).1 :=
      generateBody_ret (Or.inl rfl) (fun log event => Or.inr (Or.inr ⟨log, event, rfl⟩))
        (Or.inr (Or.inl rfl)) image log
    rw [← same] at possible
    exact possible.resolve_left failed

/-- **Dependency resolution is a correct walk in both passes.** -/
theorem passes_correct (images : List Image) (outside : Outside (Fin images.length))
    (resolvable : ∀ image, none ∉ refs images image) :
    ∃ ret marks, setupAll images outside (Marks.fresh images) = some (ret, marks) ∧
      SetupCorrect images outside ret marks ∧
      ∃ ret' marks', generateAll images outside marks = some (ret', marks') ∧
        GenerateCorrect images outside marks ret' marks' := by
  obtain ⟨ret, marks, run, correct⟩ := setupAll_correct resolvable
  exact ⟨ret, marks, run, correct, generateAll_correct resolvable correct.marks⟩

/-- Two images that share a file system, behind an image that refers to both. -/
def sharedImages : List Image := [
  { file := "disk.img", partitions := [some "a.img", none, some "b.img"] },
  { file := "a.img", partitions := [some "root.ext4"], execPost := true },
  { file := "b.img", partitions := [some "root.ext4"], execPre := true },
  { file := "root.ext4", hasSetup := false }]

theorem passes_correct_sharedImages :
    ∃ ret marks, setupAll sharedImages ⟨fun _ _ => 0, fun _ _ => true⟩
        (Marks.fresh sharedImages) = some (ret, marks) ∧
      SetupCorrect sharedImages ⟨fun _ _ => 0, fun _ _ => true⟩ ret marks ∧
      ∃ ret' marks', generateAll sharedImages ⟨fun _ _ => 0, fun _ _ => true⟩ marks =
          some (ret', marks') ∧
        GenerateCorrect sharedImages ⟨fun _ _ => 0, fun _ _ => true⟩ marks ret' marks' :=
  passes_correct sharedImages ⟨fun _ _ => 0, fun _ _ => true⟩ (by decide +kernel)

end Correct

end Genimage
