/-
**The environment of the commands (`setenv_paths`, `setenv_image`).**

Between the passes `setenv_paths` sets the variables of the directories, and `main` ends when that fails.
`setenv_image` sets the variables of an image in front of its commands. Any call of `setenv` may fail,
which leaves the variables in front of it. `runPasses_environment` says what every command and every
handler of the generate pass finds in the environment, in all runs: the directories, the variables of
its own image and of no other, and nothing else has changed.

`IMAGESIZE` is printed into a buffer of 20 bytes, so it loses the last digit of a size from `10 ^ 19` on.
-/

import Genimage.Image.Calls
import Genimage.Image.Verity
import Genimage.Library.UpToDate
import Genimage.Util.Sys

namespace Genimage

open Library Library.Walk

/-! ### `setenv_paths` and `setenv_image` -/

/-- The environment of the process. -/
abbrev Environ := String → Option String

/-- The directories as `imagepath`, `inputpath`, `rootpath` and `tmppath` return them. -/
structure Directories where
  imagepath : Option String
  inputpath : Option String
  rootpath : Option String
  tmppath : Option String

/-- What `setenv_image` reads of an image; `mountpath` is the result of that function. -/
structure ImageSettings where
  file : String
  outfile : Option String
  name : Option String
  size : UInt64
  mountpoint : Option String
  empty : Bool
  mountpath : String

/-- `sizestr`: the terminating zero takes the last byte of the buffer. -/
def sizestr (size : UInt64) : String := String.ofList ((toString size.toNat).toList.take 19)

/-- The variables in the order in which they are set. -/
def imageVariables (image : ImageSettings) : List (String × String) := [
  ("IMAGE", image.file),
  ("IMAGEOUTFILE", image.outfile.getD ""),
  ("IMAGENAME", image.name.getD ""),
  ("IMAGESIZE", sizestr image.size),
  ("IMAGEMOUNTPOINT", image.mountpoint.getD ""),
  ("IMAGEMOUNTPATH", if image.empty then "" else image.mountpath)]

/-- Calls of `overwriteenv` up to the first one that fails; `fails` says which one does. -/
def overwriteAll (fails : Nat → Option Errno) : Nat → List (String × String) → Environ → Int × Environ
  | _, [], environ => (0, environ)
  | index, (name, value) :: rest, environ =>
    match fails index with
    | some errno => (-(errno.1 : Int), environ)
    | none => overwriteAll fails (index + 1) rest (Function.update environ name (some value))

/-- The variables of `setenv_paths`, in its order. -/
def pathVariables (paths : Directories) : List (String × String) := [
  ("OUTPUTPATH", paths.imagepath.getD ""),
  ("INPUTPATH", paths.inputpath.getD ""),
  ("ROOTPATH", paths.rootpath.getD ""),
  ("TMPPATH", paths.tmppath.getD "")]

/-- `setenv_paths` -/
def setenvPaths (fails : Nat → Option Errno) (paths : Directories) (environ : Environ) : Int × Environ :=
  overwriteAll fails 0 (pathVariables paths) environ

/-- `setenv_image` -/
def setenvImage (fails : Nat → Option Errno) (image : ImageSettings) (environ : Environ) :
    Int × Environ :=
  overwriteAll fails 0 (imageVariables image) environ

/-- The names of the variables do not depend on the image. -/
def variableNames : List String :=
  ["IMAGE", "IMAGEOUTFILE", "IMAGENAME", "IMAGESIZE", "IMAGEMOUNTPOINT", "IMAGEMOUNTPATH"]

theorem imageVariables_names (image : ImageSettings) :
    (imageVariables image).map Prod.fst = variableNames := rfl

/-- The names of the variables of the directories. -/
def pathNames : List String := ["OUTPUTPATH", "INPUTPATH", "ROOTPATH", "TMPPATH"]

theorem pathVariables_names (paths : Directories) :
    (pathVariables paths).map Prod.fst = pathNames := rfl

/-- **Other variables stay**, also when a call fails; by induction on the list. -/
theorem overwriteAll_other {fails : Nat → Option Errno} {name : String}
    {pairs : List (String × String)} (other : name ∉ pairs.map Prod.fst) :
    ∀ (index : Nat) (environ : Environ),
      (overwriteAll fails index pairs environ).2 name = environ name := by
  induction pairs with
  | nil => exact fun _ _ => rfl
  | cons pair rest ih =>
    obtain ⟨own, value⟩ := pair
    simp only [List.map_cons, List.mem_cons, not_or] at other
    intro index environ
    rw [overwriteAll]
    split
    next => rfl
    next => rw [ih other.2, Function.update_of_ne other.1]

/-- **When all calls succeed every variable has its value.** -/
theorem overwriteAll_success {fails : Nat → Option Errno} {name : String}
    {pairs : List (String × String)} (nodup : (pairs.map Prod.fst).Nodup) :
    ∀ (index : Nat) (environ : Environ), (overwriteAll fails index pairs environ).1 = 0 →
      (overwriteAll fails index pairs environ).2 name =
        (pairs.lookup name).or (environ name) := by
  induction pairs with
  | nil => exact fun _ _ _ => rfl
  | cons pair rest ih =>
    obtain ⟨own, value⟩ := pair
    rw [List.map_cons, List.nodup_cons] at nodup
    intro index environ zero
    rw [overwriteAll] at zero ⊢
    split at zero
    next errno _ =>
      have := errno.2
      omega
    next none =>
      by_cases same : name = own
      · rw [same, overwriteAll_other nodup.1, Function.update_self, List.lookup_cons_self]
        rfl
      · rw [ih nodup.2 _ _ zero, Function.update_of_ne same, List.lookup_cons,
          beq_false_of_ne same]

/-- A variable of the directories is found under its name. -/
theorem lookup_pathVariables {paths : Directories} {name value : String}
    (member : (name, value) ∈ pathVariables paths) : (pathVariables paths).lookup name = some value := by
  simp only [pathVariables, List.mem_cons, Prod.mk.injEq, List.not_mem_nil, or_false] at member
  rcases member with ⟨rfl, rfl⟩ | ⟨rfl, rfl⟩ | ⟨rfl, rfl⟩ | ⟨rfl, rfl⟩ <;> rfl

/-- A variable of an image is found under its name. -/
theorem lookup_imageVariables {image : ImageSettings} {name value : String}
    (member : (name, value) ∈ imageVariables image) :
    (imageVariables image).lookup name = some value := by
  simp only [imageVariables, List.mem_cons, Prod.mk.injEq, List.not_mem_nil, or_false] at member
  rcases member with ⟨rfl, rfl⟩ | ⟨rfl, rfl⟩ | ⟨rfl, rfl⟩ | ⟨rfl, rfl⟩ | ⟨rfl, rfl⟩ | ⟨rfl, rfl⟩ <;> rfl

/-- **The buffer holds the size** when it has at most 19 digits. -/
theorem sizestr_eq_iff (size : UInt64) :
    sizestr size = toString size.toNat ↔ size.toNat < 10 ^ 19 := by
  rw [sizestr, Nat.toString_eq_ofList_toDigits, String.toList_ofList, String.ofList_inj,
    List.take_eq_self_iff]
  exact Nat.length_toDigits_le_iff (by decide) (by decide)

/-! ### The environment in a run -/

/-- **What the calls of `setenv` depend on**: the directories and the fields of the images, and the calls
that fail; those for an image depend on the calls so far. -/
structure Settings (images : List Image) where
  paths : Directories
  pathFails : Nat → Option Errno
  fails : List (Call (Fin images.length)) → Nat → Option Errno
  image : List (Call (Fin images.length)) → Fin images.length → ImageSettings

namespace Settings

variable {images : List Image} (settings : Settings images)

/-- `setenv_paths` between the passes. -/
def setPaths (environ : Environ) : Int × Environ :=
  setenvPaths settings.pathFails settings.paths environ

/-- `setenv_image` behind the calls `log`. -/
def set (log : List (Call (Fin images.length))) (image : Fin images.length) (environ : Environ) :
    Int × Environ :=
  setenvImage (settings.fails log) (settings.image log image) environ

/-- What a call behind `log` does to the environment of the process: a command works on a copy. -/
def step (log : List (Call (Fin images.length))) (event : Call (Fin images.length))
    (environ : Environ) : Environ :=
  match event with
  | .setenv image => (settings.set log image environ).2
  | _ => environ

/-- The environment behind the calls `log ++ more`, from that behind `log`. -/
def environFrom (log : List (Call (Fin images.length))) :
    List (Call (Fin images.length)) → Environ → Environ
  | [], environ => environ
  | event :: more, environ => environFrom (log ++ [event]) more (settings.step log event environ)

/-- **The environment of the generate pass** behind the calls `log`, which begin with those of the setup
pass; those leave the environment alone, and `setenv_paths` comes behind them. -/
def environAt (start : Environ) (log : List (Call (Fin images.length))) : Environ :=
  settings.environFrom [] log (settings.setPaths start).2

/-- The answers of `setenv_image` in a run are those of its calls of `setenv`. -/
def Answers (start : Environ) (outside : Outside (Fin images.length)) : Prop :=
  ∀ log image, outside.reply log (.setenv image) =
    (settings.set log image (settings.environAt start log)).1

variable {settings}

theorem environFrom_append (log first second : List (Call (Fin images.length))) (environ : Environ) :
    settings.environFrom log (first ++ second) environ =
      settings.environFrom (log ++ first) second (settings.environFrom log first environ) := by
  induction first generalizing log environ with
  | nil => rw [List.append_nil]; rfl
  | cons event rest ih =>
    rw [List.cons_append, environFrom, environFrom, ih, List.append_assoc, List.singleton_append]

/-- Commands and handlers leave the environment alone. -/
theorem environFrom_runs {runs : List (Call (Fin images.length))}
    (all : ∀ event ∈ runs, event.isRun = true) (log : List (Call (Fin images.length)))
    (environ : Environ) : settings.environFrom log runs environ = environ := by
  induction runs generalizing log environ with
  | nil => rfl
  | cons event rest ih =>
    rw [List.forall_mem_cons] at all
    have same : settings.step log event environ = environ := by
      cases event with
      | setenv image => cases all.1
      | setup | execPre | generate | remove | execPost => rfl
    rw [environFrom, same]
    exact ih all.2 _ _

/-- No call changes a variable of another name. -/
theorem environFrom_other {name : String} (other : name ∉ variableNames)
    (log more : List (Call (Fin images.length))) (environ : Environ) :
    settings.environFrom log more environ name = environ name := by
  induction more generalizing log environ with
  | nil => rfl
  | cons event rest ih =>
    rw [environFrom, ih]
    cases event with
    | setenv image => exact overwriteAll_other (by rwa [imageVariables_names]) 0 environ
    | setup | execPre | generate | remove | execPost => rfl

end Settings

/-! ### The calls of a run -/

section Runs

variable {images : List Image} {outside : Outside (Fin images.length)}

/-- **In front of every command and handler** the environment has been set for its image, and nothing
but runs for that image is between. -/
def SetBefore (outside : Outside (Fin images.length)) (log : List (Call (Fin images.length))) : Prop :=
  ∀ front event back, log = front ++ event :: back → event.isRun = true →
    ∃ before own, front = before ++ .setenv event.image :: own ∧
      (∀ other ∈ own, other.isRun = true ∧ other.image = event.image) ∧
      outside.reply before (.setenv event.image) = 0

theorem SetBefore.append {log more : List (Call (Fin images.length))} (set : SetBefore outside log)
    (new : ∀ front event back, more = front ++ event :: back → event.isRun = true →
      ∃ before own, log ++ front = before ++ .setenv event.image :: own ∧
        (∀ other ∈ own, other.isRun = true ∧ other.image = event.image) ∧
        outside.reply before (.setenv event.image) = 0) : SetBefore outside (log ++ more) := by
  intro front event back split run
  rcases List.append_eq_append_iff.mp split with ⟨rest, rfl, later⟩ | ⟨rest, early, later⟩
  · exact new rest event back later run
  · cases rest with
    | nil =>
      rw [List.append_nil] at early
      obtain ⟨before, own, same, facts⟩ := new [] event back later.symm run
      exact ⟨before, own, by rw [← early, ← same, List.append_nil], facts⟩
    | cons first rest =>
      obtain ⟨rfl, _⟩ := List.cons.inj later
      exact set front _ rest early run

theorem setupBody_setBefore {image : Fin images.length} {log : List (Call (Fin images.length))}
    (set : SetBefore outside log) : SetBefore outside (setupBody images outside image log).2 := by
  rw [setupBody_log]
  refine set.append fun front event back split run => ?_
  have member : event ∈ setupCalls images image := by
    rw [split]
    simp
  unfold setupCalls at member
  split_ifs at member
  · rw [List.mem_singleton.mp member] at run
    cases run
  · cases member

theorem generateBody_setBefore {image : Fin images.length} {log : List (Call (Fin images.length))}
    (set : SetBefore outside log) : SetBefore outside (generateBody images outside image log).2 := by
  obtain ⟨⟨runs, same, own, answered⟩, _⟩ : BodyCalls outside image log _ := generateBody_calls
  rw [same]
  refine set.append fun front event back split run => ?_
  cases front with
  | nil =>
    rw [List.nil_append] at split
    rw [← (List.cons.inj split).1] at run
    cases run
  | cons first front =>
    obtain ⟨rfl, rest⟩ := List.cons.inj split
    have member : ∀ other ∈ front, other ∈ runs := by
      intro other among
      rw [rest]
      exact List.mem_append_left _ among
    have listed : event ∈ runs := by
      rw [rest]
      simp
    have image_eq : event.image = image := (own event listed).2
    rw [image_eq]
    refine ⟨log, front, rfl, fun other among => own other (member other among), ?_⟩
    exact answered (List.ne_nil_of_mem listed)

/-- **What a command or handler finds in the environment.** -/
structure Sees (settings : Settings images) (start : Environ) (front : List (Call (Fin images.length)))
    (image : Fin images.length) (read : List (Call (Fin images.length))) (environ : Environ) :
    Prop where
  begun : read ++ [.setenv image] <+: front
  own : ∀ name value, (name, value) ∈ imageVariables (settings.image read image) →
    environ name = some value
  paths : ∀ name value, (name, value) ∈ pathVariables settings.paths → environ name = some value
  other : ∀ name, name ∉ variableNames → name ∉ pathNames → environ name = start name

/-- **Every command and every handler of a run finds the variables of its image**, with the values that
the image had when they were set, and those of the directories; no other variable has changed. -/
theorem runPasses_environment {settings : Settings images} {start : Environ}
    (paths : (settings.setPaths start).1 = 0) (answers : settings.Answers start outside) {ret : Int}
    {final : Marks images} (run : runPasses images outside = some (ret, final))
    {front back : List (Call (Fin images.length))} {event : Call (Fin images.length)} (split : final.world = front ++ event :: back)
    (runs : event.isRun = true) :
    ∃ read, Sees settings start front event.image read (settings.environAt start front) ∧
      (settings.environAt start front "IMAGESIZE" =
        some (toString (settings.image read event.image).size.toNat) ↔
        (settings.image read event.image).size.toNat < 10 ^ 19) := by
  have fresh : SetBefore outside (Marks.fresh images).world := by
    intro front event back split
    exact absurd split (by simp [Marks.fresh])
  have set : SetBefore outside final.world := by
    unfold runPasses at run
    split at run
    next => cases run
    next ret' marks setup =>
      have between : SetBefore outside marks.world :=
        pass_keeps (fun _ _ => setupBody_setBefore) setup fresh
      split_ifs at run
      · obtain ⟨_, rfl⟩ := Prod.mk.inj (Option.some.inj run)
        exact between
      · exact pass_keeps (fun _ _ => generateBody_setBefore) run between
  obtain ⟨before, own, same, between, answered⟩ := set front event back split runs
  have environ : settings.environAt start front =
      (settings.set before event.image (settings.environAt start before)).2 := by
    unfold Settings.environAt
    rw [same, Settings.environFrom_append, Settings.environFrom,
      Settings.environFrom_runs fun other member => (between other member).1]
    rfl
  rw [answers] at answered
  have success : ∀ name, settings.environAt start front name =
      ((imageVariables (settings.image before event.image)).lookup name).or
        (settings.environAt start before name) := by
    intro name
    rw [environ]
    exact overwriteAll_success (by rw [imageVariables_names]; decide) 0 _ answered
  have others : ∀ name, name ∉ variableNames →
      settings.environAt start front name = (settings.setPaths start).2 name :=
    fun name other => Settings.environFrom_other other [] front _
  refine ⟨before, ⟨⟨own, by rw [same]; simp⟩, fun name value member => ?_, fun name value member => ?_,
    fun name image path => ?_⟩, ?_⟩
  · rw [success, lookup_imageVariables member, Option.some_or]
  · have apart : name ∉ variableNames := by
      have path : name ∈ pathNames := List.mem_map_of_mem (f := Prod.fst) member
      exact fun image => (show ∀ name ∈ pathNames, name ∉ variableNames by decide) name path image
    have found : (settings.setPaths start).2 name =
        ((pathVariables settings.paths).lookup name).or (start name) :=
      overwriteAll_success (by rw [pathVariables_names]; decide) 0 start paths
    rw [others name apart, found, lookup_pathVariables member, Option.some_or]
  · rw [others name image]
    exact overwriteAll_other (by rwa [pathVariables_names]) 0 start
  · rw [success]
    have size : (imageVariables (settings.image before event.image)).lookup "IMAGESIZE" =
        some (sizestr (settings.image before event.image).size) := rfl
    rw [size, Option.some_or, Option.some_inj]
    exact sizestr_eq_iff _

end Runs

/-- Settings of the images in `sharedImages`; the size takes 20 digits. -/
def sharedSettings : Settings sharedImages where
  paths := ⟨some "images", some "input", some "root", some "tmp"⟩
  pathFails _ := none
  fails _ _ := none
  image _ image := {
    file := (sharedImages.get image).file
    outfile := "images/" ++ (sharedImages.get image).file
    name := none
    size := 0xffffffffffffffff
    mountpoint := none
    empty := true
    mountpath := "" }

theorem runPasses_environment_sharedImages : ∃ final front back,
    runPasses sharedImages ⟨fun _ _ => 0, fun _ _ => true⟩ = some (0, final) ∧
      final.world = front ++ .execPost ⟨1, by decide⟩ :: back ∧
      ∃ read, Sees sharedSettings (fun _ => none) front ⟨1, by decide⟩ read
        (sharedSettings.environAt (fun _ => none) front) := by
  have done : ((runPasses sharedImages ⟨fun _ _ => 0, fun _ _ => true⟩).any fun result =>
      result.1 = 0 ∧ .execPost ⟨1, by decide⟩ ∈ result.2.world) = true := by decide +kernel
  obtain ⟨⟨ret, final⟩, run, facts⟩ := (Option.any_eq_true _ _).mp done
  obtain ⟨rfl, member⟩ : ret = 0 ∧ _ ∈ final.world := of_decide_eq_true facts
  obtain ⟨front, back, split⟩ := List.append_of_mem member
  have answers : sharedSettings.Answers (fun _ => none) ⟨fun _ _ => 0, fun _ _ => true⟩ :=
    fun _ _ => rfl
  obtain ⟨read, sees, _⟩ := runPasses_environment rfl answers run split rfl
  exact ⟨final, front, back, run, split, read, sees⟩

end Genimage
