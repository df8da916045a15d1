/-
**The commands of a custom image (`systemp`, `custom_generate`, `image_generate`).**

`systemp` returns the exit code in the wait status of a command. A command that was terminated by a
signal has none: the bits read as `0`, which is success. `imageGenerate_honest_iff` says when
`image_generate` nevertheless tells failed commands from successful ones.

What a command does to the files is not modelled, but what `prepare_image` and `stat` find before and
behind it is arbitrary. One run makes each call of an image at most once, so that what they return
can be given for each image once and for all.
-/

import Genimage.Image.Resolve
import Mathlib.Data.PNat.Basic

namespace Genimage

open Library Library.Walk

/-! ### `systemp` -/

/-- How a process ends: with an exit code, or by one of the signals, which are numbered from `1`. -/
inductive Termination where
  | exited (code : Fin 256)
  | killed (signal : Fin 126) (core : Bool)
deriving DecidableEq

/-- The wait status. -/
def Termination.status : Termination → Nat
  | .exited code => code.val <<< 8
  | .killed signal core => signal.val + 1 ||| if core then 0x80 else 0

/-- `WEXITSTATUS` -/
def wexitstatus (status : Nat) : Nat := (status &&& 0xff00) >>> 8

/-- What `waitpid` finds: the end of the command, or an error. Without a `fork` there is no child to
wait for. -/
inductive Awaited where
  | ended (termination : Termination)
  | failed (errno : ℕ+)
deriving DecidableEq

/-- `systemp` -/
def systemp : Awaited → Int
  | .ended termination => wexitstatus termination.status
  | .failed errno => -errno

/-- The command has ended with the exit code `0`. -/
def Awaited.Succeeded (awaited : Awaited) : Prop := awaited = .ended (.exited 0)

/-- The command was terminated by a signal. -/
def Awaited.Killed (awaited : Awaited) : Prop :=
  ∃ signal core, awaited = .ended (.killed signal core)

theorem wexitstatus_exited (code : Fin 256) : wexitstatus (Termination.exited code).status = code := by
  revert code
  decide +kernel

theorem wexitstatus_killed (signal : Fin 126) (core : Bool) :
    wexitstatus (Termination.killed signal core).status = 0 := by
  revert signal core
  decide +kernel

/-- **What `systemp` takes for success.** -/
theorem systemp_eq_zero {awaited : Awaited} :
    systemp awaited = 0 ↔ awaited.Succeeded ∨ awaited.Killed := by
  unfold Awaited.Succeeded Awaited.Killed
  cases awaited with
  | ended termination =>
    cases termination with
    | exited code =>
      rw [systemp, wexitstatus_exited, Int.natCast_eq_zero]
      constructor
      · intro zero
        have none : code = 0 := Fin.ext zero
        exact Or.inl (by rw [none])
      · rintro (same | ⟨_, _, other⟩)
        · cases same
          rfl
        · cases other
    | killed signal core =>
      rw [systemp, wexitstatus_killed]
      simp
  | failed errno =>
    rw [systemp]
    simp

theorem Awaited.not_killed_of_succeeded {awaited : Awaited} (succeeded : awaited.Succeeded) :
    ¬awaited.Killed := by
  rintro ⟨signal, core, same⟩
  rw [Awaited.Succeeded, same] at succeeded
  cases succeeded

/-! ### The handler and its place in `image_generate` -/

/-- The commands of an image. -/
inductive Command where
  | execPre
  | exec
  | remove
  | execPost
deriving DecidableEq

/-- What the calls for one image return: of `setenv_image`, of `prepare_image`, the ends of the
commands, `stat` with an error number or the size, and whether `lstat` finds something that is
removed. -/
structure Replies where
  setenv : Int
  prepare : Int
  ended : Command → Awaited
  stat : Except ℕ+ UInt64
  removable : Bool

/-- The result of `custom_generate`: its return value, the commands that ran, and `image->size`. -/
structure CustomRun where
  ret : Int
  ran : List Command
  size : UInt64

/-- `custom_generate` -/
def customGenerate (replies : Replies) (size : UInt64) : CustomRun :=
  if replies.prepare < 0 then ⟨replies.prepare, [], size⟩
  else
    let ret := systemp (replies.ended .exec)
    if ret ≠ 0 then ⟨ret, [.exec], size⟩
    else match replies.stat with
      | .error errno => ⟨-errno, [.exec], size⟩
      | .ok stSize => ⟨0, [.exec], if size = 0 then stSize else size⟩

/-- The handler of an image: the custom one, with the size of the image, or one that returns `ret`. -/
inductive Handler where
  | custom (size : UInt64)
  | other (ret : Int)

section Run

variable {images : List Image} (handlers : Fin images.length → Handler)
  (replies : Fin images.length → Replies)

/-- The replies to the calls of `image_generate`. -/
def commandsOutside : Outside (Fin images.length) where
  reply _
    | .setup _ => 0
    | .setenv image => (replies image).setenv
    | .execPre image => systemp ((replies image).ended .execPre)
    | .generate image => match handlers image with
      | .custom size => (customGenerate (replies image) size).ret
      | .other ret => ret
    | .remove image => systemp ((replies image).ended .remove)
    | .execPost image => systemp ((replies image).ended .execPost)
  removable _ image := (replies image).removable

/-- The commands that a call runs for a custom image. -/
def commandsOf (image : Fin images.length) (size : UInt64) :
    Call (Fin images.length) → List Command
  | .execPre other => if other = image then [.execPre] else []
  | .generate other => if other = image then (customGenerate (replies image) size).ran else []
  | .remove other => if other = image then [.remove] else []
  | .execPost other => if other = image then [.execPost] else []
  | _ => []

/-- The loop over the partitions in `image_generate`. -/
def generateChildren (fuel : Nat) (image : Fin images.length) (marks : Marks images) :
    Option (Int × Marks images) :=
  visitAll generatePass (imageGenerate images (commandsOutside handlers replies) fuel)
    (refs images image) (enter generatePass image marks)

end Run

/-- The commands that are configured for a custom image. -/
def configured (image : Image) : List Command :=
  (if image.execPre then [.execPre] else []) ++ .exec ::
    if image.execPost then [.execPost] else []

/-- **Failed commands are not taken for success.** The image is done exactly if `image_generate`
returns `0`, and then every configured command has run and succeeded. The commands run in order, with
the removal at the end, and behind one that fails there is nothing else. -/
structure Honest (configured : List Command) (ended : Command → Awaited) (ret : Int) (done : Prop)
    (ran : List Command) : Prop where
  done_iff : done ↔ ret = 0
  success : ret = 0 → ran = configured ∧ ∀ command ∈ configured, (ended command).Succeeded
  kept : ∃ kept, kept <+: configured ∧ (ran = kept ∨ ran = kept ++ [.remove])
  stops : ∀ command after, command :: after <:+ ran → command ≠ .remove →
    ¬(ended command).Succeeded → ret ≠ 0 ∧ (after = [] ∨ after = [.remove])

/-- **No signal is mistaken for success**: `exec-pre` is not killed in front of an image that can be
prepared, `exec` is not killed when it leaves a file, and `exec-post` is not killed. -/
structure SignalsSeen (image : Image) (replies : Replies) : Prop where
  execPre : image.execPre = true → (replies.ended .execPre).Killed → replies.prepare < 0
  exec : (image.execPre = true → (replies.ended .execPre).Succeeded) → 0 ≤ replies.prepare →
    (replies.ended .exec).Killed → ∃ errno, replies.stat = .error errno
  execPost : (image.execPre = true → (replies.ended .execPre).Succeeded) → 0 ≤ replies.prepare →
    (replies.ended .exec).Succeeded → (∃ size, replies.stat = .ok size) → image.execPost = true →
    ¬(replies.ended .execPost).Killed

/-! ### The ways through `image_generate` -/

section Outcomes

/-- The commands up to the handler. -/
def preCommands (image : Image) : List Command := if image.execPre then [.execPre] else []

/-- The commands after a failure of the handler. -/
def removal (replies : Replies) : List Command := if replies.removable then [.remove] else []

/-- The handler is called. -/
structure Entered (image : Image) (replies : Replies) : Prop where
  setenv : replies.setenv = 0
  execPre : image.execPre = true → systemp (replies.ended .execPre) = 0

/-- The handler returns `0`. -/
structure HandlerSucceeded (image : Image) (replies : Replies) : Prop extends Entered image replies where
  prepare : 0 ≤ replies.prepare
  exec : systemp (replies.ended .exec) = 0
  stat : ∃ size, replies.stat = .ok size

/-- **The return value of `image_generate` behind its loop, and the commands.** -/
inductive Outcome (image : Image) (replies : Replies) : Int → List Command → Prop
  | setenv (failed : replies.setenv ≠ 0) : Outcome image replies replies.setenv []
  | execPre (setenv : replies.setenv = 0) (has : image.execPre = true)
      (failed : systemp (replies.ended .execPre) ≠ 0) :
      Outcome image replies (systemp (replies.ended .execPre)) [.execPre]
  | prepare (entered : Entered image replies) (failed : replies.prepare < 0) :
      Outcome image replies replies.prepare (preCommands image ++ removal replies)
  | exec (entered : Entered image replies) (prepared : 0 ≤ replies.prepare)
      (failed : systemp (replies.ended .exec) ≠ 0) :
      Outcome image replies (systemp (replies.ended .exec))
        (preCommands image ++ .exec :: removal replies)
  | stat (entered : Entered image replies) (prepared : 0 ≤ replies.prepare)
      (exec : systemp (replies.ended .exec) = 0) {errno : ℕ+} (failed : replies.stat = .error errno) :
      Outcome image replies (-errno) (preCommands image ++ .exec :: removal replies)
  | execPost (generated : HandlerSucceeded image replies) (has : image.execPost = true) :
      Outcome image replies (systemp (replies.ended .execPost))
        (preCommands image ++ [.exec, .execPost])
  | returns (generated : HandlerSucceeded image replies) (without : image.execPost = false) :
      Outcome image replies 0 (preCommands image ++ [.exec])

variable {images : List Image} {handlers : Fin images.length → Handler}
  {replies : Fin images.length → Replies} {image : Fin images.length} {size : UInt64}

variable (replies) in
theorem generateHandler_custom (custom : handlers image = .custom size)
    (has : (images.get image).hasGenerate = true) (log : List (Call (Fin images.length))) :
    ∃ calls, generateHandler images (commandsOutside handlers replies) image log =
        ((customGenerate (replies image) size).ret, log ++ calls) ∧
      calls.flatMap (commandsOf replies image size) = (customGenerate (replies image) size).ran ++
        if (customGenerate (replies image) size).ret ≠ 0 then removal (replies image) else [] := by
  have reply : (commandsOutside handlers replies).reply log (.generate image) =
      (customGenerate (replies image) size).ret := by
    show (match handlers image with
      | .custom size => (customGenerate (replies image) size).ret
      | .other ret => ret) = _
    rw [custom]
  have ran : commandsOf replies image size (.generate image) =
      (customGenerate (replies image) size).ran := if_pos rfl
  have removed : commandsOf replies image size (.remove image) = [.remove] := if_pos rfl
  rw [generateHandler, has, call, reply]
  generalize (customGenerate (replies image) size).ret = ret
  by_cases cleared : ret ≠ 0 ∧ (replies image).removable = true
  · refine ⟨[.generate image, .remove image], ?_, ?_⟩
    · exact Prod.ext rfl ((if_pos cleared).trans (List.append_assoc _ _ _))
    · rw [List.flatMap_cons, List.flatMap_singleton, ran, removed, if_pos cleared.1, removal,
        if_pos cleared.2]
  · refine ⟨[.generate image], Prod.ext rfl (if_neg cleared), ?_⟩
    rw [List.flatMap_singleton, ran]
    by_cases failed : ret ≠ 0
    · rw [if_pos failed, removal, if_neg fun removable => cleared ⟨failed, removable⟩, List.append_nil]
    · rw [if_neg failed, List.append_nil]

/-- The way through the handler and behind it. -/
theorem Entered.outcome {config : Image} {replies : Replies} (entered : Entered config replies)
    (size : UInt64) :
    ∃ run, customGenerate replies size = run ∧ ((run.ret ≠ 0 ∧
        Outcome config replies run.ret (preCommands config ++ (run.ran ++ removal replies))) ∨
      (run.ret = 0 ∧ run.ran = [.exec] ∧ HandlerSucceeded config replies)) := by
  refine ⟨_, rfl, ?_⟩
  rw [customGenerate]
  by_cases prepared : replies.prepare < 0
  · rw [if_pos prepared]
    exact Or.inl ⟨prepared.ne, .prepare entered prepared⟩
  · rw [if_neg prepared]
    have positive := Int.not_lt.mp prepared
    by_cases failed : systemp (replies.ended .exec) ≠ 0
    · rw [if_pos failed]
      exact Or.inl ⟨failed, .exec entered positive failed⟩
    · rw [if_neg failed]
      have exec := not_not.mp failed
      cases found : replies.stat with
      | error errno =>
        exact Or.inl ⟨by simp, .stat entered positive exec found⟩
      | ok stSize => exact Or.inr ⟨rfl, rfl, entered, positive, exec, stSize, found⟩

theorem callIf_true {outside : Outside (Fin images.length)} {condition : Bool}
    (holds : condition = true) (event : Call (Fin images.length))
    (log : List (Call (Fin images.length))) :
    callIf images outside condition event log = (outside.reply log event, log ++ [event]) :=
  if_pos holds

theorem callIf_false {outside : Outside (Fin images.length)} {condition : Bool}
    (fails : condition = false) (event : Call (Fin images.length))
    (log : List (Call (Fin images.length))) :
    callIf images outside condition event log = (0, log) := by
  rw [callIf, fails]
  rfl

variable (replies) in
/-- **The ways through `image_generate` behind its loop.** -/
theorem generateBody_outcome (custom : handlers image = .custom size)
    (has : (images.get image).hasGenerate = true) (log : List (Call (Fin images.length))) :
    ∃ ret calls, generateBody images (commandsOutside handlers replies) image log =
        (ret, log ++ calls) ∧
      Outcome (images.get image) (replies image) ret
        (calls.flatMap (commandsOf replies image size)) := by
  have pre : commandsOf replies image size (.execPre image) = [.execPre] := if_pos rfl
  have post : commandsOf replies image size (.execPost image) = [.execPost] := if_pos rfl
  rw [generateBody]
  by_cases setenv : (replies image).setenv = 0
  · rw [call, show (commandsOutside handlers replies).reply log (.setenv image) = 0 from setenv,
      andThen_zero]
    by_cases failed : (images.get image).execPre = true ∧
        systemp ((replies image).ended .execPre) ≠ 0
    · refine ⟨systemp ((replies image).ended .execPre), [.setenv image, .execPre image], ?_, ?_⟩
      · rw [callIf_true failed.1]
        exact (if_pos failed.2).trans (Prod.ext rfl (List.append_assoc _ _ _))
      · rw [List.flatMap_cons, List.flatMap_singleton, pre]
        exact .execPre setenv failed.1 failed.2
    · have entered : Entered (images.get image) (replies image) :=
        ⟨setenv, fun has => by_contra fun nonzero => failed ⟨has, nonzero⟩⟩
      obtain ⟨first, called, preCalls⟩ : ∃ first, callIf images (commandsOutside handlers replies)
          (images.get image).execPre (.execPre image) (log ++ [.setenv image]) = (0, log ++ first) ∧
          first.flatMap (commandsOf replies image size) = preCommands (images.get image) := by
        unfold preCommands
        cases has : (images.get image).execPre with
        | false => exact ⟨[.setenv image], rfl, rfl⟩
        | true =>
          refine ⟨[.setenv image, .execPre image], ?_, ?_⟩
          · rw [callIf_true rfl]
            exact Prod.ext (entered.execPre has) (List.append_assoc _ _ _)
          · rw [List.flatMap_cons, List.flatMap_singleton, pre]
            rfl
      rw [called, andThen_zero]
      obtain ⟨second, handled, ran⟩ := generateHandler_custom replies custom has (log ++ first)
      rw [handled]
      obtain ⟨run, same, way⟩ := entered.outcome size
      rw [same] at ran ⊢
      rcases way with ⟨nonzero, outcome⟩ | ⟨zero, only, generated⟩
      · refine ⟨run.ret, first ++ second, ?_, ?_⟩
        · exact (if_pos nonzero).trans (Prod.ext rfl (List.append_assoc _ _ _))
        · rw [List.flatMap_append, preCalls, ran, if_pos nonzero]
          exact outcome
      · rw [zero, andThen_zero]
        rw [only, zero, if_neg (not_not.mpr rfl), List.append_nil] at ran
        cases has : (images.get image).execPost with
        | false =>
          refine ⟨0, first ++ second, ?_, ?_⟩
          · exact (callIf_false rfl _ _).trans (Prod.ext rfl (List.append_assoc _ _ _))
          · rw [List.flatMap_append, preCalls, ran]
            exact .returns generated has
        | true =>
          refine ⟨systemp ((replies image).ended .execPost),
            first ++ (second ++ [.execPost image]), ?_, ?_⟩
          · exact (callIf_true rfl _ _).trans (Prod.ext rfl (by simp only [List.append_assoc]))
          · rw [List.flatMap_append, List.flatMap_append, preCalls, ran, List.flatMap_singleton, post]
            exact .execPost generated has
  · refine ⟨_, [.setenv image], ?_, .setenv setenv⟩
    exact if_pos setenv

end Outcomes

/-! ### Which of them are honest -/

section Honesty

variable {image : Image} {replies : Replies} {ret : Int} {done : Prop}
  {ran good last removed : List Command} {ended : Command → Awaited}

/-- Behind the first command that fails there is only the removal. -/
theorem stops_of_good (clearing : removed = [] ∨ removed = [.remove])
    (fine : ∀ command ∈ good, (ended command).Succeeded) (single : last.length ≤ 1)
    {command : Command} {after : List Command} (suffix : command :: after <:+ good ++ (last ++ removed))
    (other : command ≠ .remove) (failed : ¬(ended command).Succeeded) :
    after = [] ∨ after = [.remove] := by
  have notRemoval : ¬command :: after <:+ removed := by
    intro inside
    have member := inside.subset List.mem_cons_self
    rcases clearing with rfl | rfl
    · cases member
    · exact other (List.mem_singleton.mp member)
  induction good with
  | nil =>
    match last, single with
    | [], _ => exact absurd suffix notRemoval
    | [only], _ =>
      rcases List.suffix_cons_iff.mp suffix with same | inside
      · rw [List.cons.injEq] at same
        exact same.2 ▸ clearing
      · exact absurd inside notRemoval
  | cons first rest ih =>
    rw [List.cons_append, List.suffix_cons_iff] at suffix
    rcases suffix with same | later
    · rw [List.cons.injEq] at same
      exact absurd (same.1 ▸ fine first List.mem_cons_self) failed
    · exact ih (fun command among => fine command (List.mem_cons_of_mem _ among)) later

/-- **A run that fails with its last command is honest.** -/
theorem Honest.of_failed (nonzero : ret ≠ 0) (doneIff : done ↔ ret = 0)
    (clearing : removed = [] ∨ removed = [.remove]) (among : good ++ last <+: configured image)
    (single : last.length ≤ 1) (fine : ∀ command ∈ good, (ended command).Succeeded) :
    Honest (configured image) ended ret done (good ++ (last ++ removed)) where
  done_iff := doneIff
  success zero := absurd zero nonzero
  kept := by
    refine ⟨good ++ last, among, ?_⟩
    rcases clearing with rfl | rfl
    · exact Or.inl (by rw [List.append_nil])
    · exact Or.inr (List.append_assoc _ _ _).symm
  stops command after suffix other failed :=
    ⟨nonzero, stops_of_good clearing fine single suffix other failed⟩

/-- A run without a failing command is honest. -/
theorem Honest.of_succeeded (doneIff : done ↔ ret = 0)
    (fine : ∀ command ∈ configured image, (ended command).Succeeded) :
    Honest (configured image) ended ret done (configured image) where
  done_iff := doneIff
  success _ := ⟨rfl, fine⟩
  kept := ⟨_, List.prefix_rfl, Or.inl rfl⟩
  stops command _ suffix _ failed := absurd (fine command (suffix.subset List.mem_cons_self)) failed

/-- In front of the handler nothing has failed. -/
def PreSucceeded (image : Image) (replies : Replies) : Prop :=
  image.execPre = true → (replies.ended .execPre).Succeeded

theorem preCommands_fine (pre : PreSucceeded image replies) :
    ∀ command ∈ preCommands image, (replies.ended command).Succeeded := by
  intro command member
  unfold preCommands at member
  split_ifs at member with has
  · rw [List.mem_singleton.mp member]
    exact pre has
  · cases member

/-- A command behind `exec-pre` is honest only if that has succeeded. -/
theorem Honest.preSucceeded {rest : List Command}
    (honest : Honest (configured image) replies.ended ret done
      (preCommands image ++ .exec :: rest)) : PreSucceeded image replies := by
  intro has
  by_contra failed
  rw [preCommands, if_pos has] at honest
  rcases (honest.stops _ _ (List.suffix_refl _) nofun failed).2 with none | removal
  · cases none
  · cases removal

/-- The condition, when `image_generate` reaches `exec`. -/
theorem Entered.signalsSeen_iff (entered : Entered image replies) (prepared : 0 ≤ replies.prepare) :
    SignalsSeen image replies ↔ PreSucceeded image replies ∧
      ((replies.ended .exec).Killed → ∃ errno, replies.stat = .error errno) ∧
      ((replies.ended .exec).Succeeded → (∃ size, replies.stat = .ok size) → image.execPost = true →
        ¬(replies.ended .execPost).Killed) := by
  constructor
  · intro seen
    have pre : PreSucceeded image replies := fun has =>
      (systemp_eq_zero.mp (entered.execPre has)).resolve_right fun killed =>
        absurd (seen.execPre has killed) (Int.not_lt.mpr prepared)
    exact ⟨pre, seen.exec pre prepared, seen.execPost pre prepared⟩
  · rintro ⟨pre, exec, post⟩
    exact ⟨fun has killed => absurd killed (Awaited.not_killed_of_succeeded (pre has)),
      fun _ _ => exec, fun _ _ => post⟩

theorem removal_eq : removal replies = [] ∨ removal replies = [.remove] := by
  unfold removal
  split_ifs
  · exact Or.inr rfl
  · exact Or.inl rfl

theorem configured_eq : configured image =
    preCommands image ++ Command.exec :: if image.execPost then [.execPost] else [] := rfl

/-- A run that `exec` or `stat` lets fail. -/
theorem Honest.exec_iff (nonzero : ret ≠ 0) (doneIff : done ↔ ret = 0) :
    Honest (configured image) replies.ended ret done (preCommands image ++ .exec :: removal replies) ↔
      PreSucceeded image replies := by
  refine ⟨Honest.preSucceeded, fun pre => ?_⟩
  have among : preCommands image ++ [Command.exec] <+: configured image := by
    rw [configured_eq, List.prefix_append_right_inj]
    exact List.prefix_append [Command.exec] _
  exact .of_failed nonzero doneIff removal_eq among le_rfl (preCommands_fine pre)

/-- **The ways through `image_generate` that are honest.** -/
theorem Outcome.honest_iff (outcome : Outcome image replies ret ran) (doneIff : done ↔ ret = 0) :
    Honest (configured image) replies.ended ret done ran ↔
      (replies.setenv = 0 → SignalsSeen image replies) := by
  have succeeded : ∀ command, systemp (replies.ended command) = 0 →
      ((replies.ended command).Succeeded ↔ ¬(replies.ended command).Killed) := fun command zero =>
    ⟨Awaited.not_killed_of_succeeded, (systemp_eq_zero.mp zero).resolve_right⟩
  cases outcome with
  | setenv failed =>
    refine iff_of_true ?_ fun zero => absurd zero failed
    show Honest _ _ _ _ ([] ++ ([] ++ []))
    exact .of_failed failed doneIff (Or.inl rfl) List.nil_prefix (Nat.zero_le 1) nofun
  | execPre setenv has failed =>
    have notSucceeded : ¬(replies.ended .execPre).Succeeded := fun fine =>
      failed (systemp_eq_zero.mpr (Or.inl fine))
    refine iff_of_true ?_ fun _ => ⟨?_, ?_, ?_⟩
    · show Honest _ _ _ _ ([] ++ ([.execPre] ++ []))
      refine .of_failed failed doneIff (Or.inl rfl) ?_ le_rfl nofun
      rw [configured_eq, preCommands, if_pos has]
      exact List.prefix_append [Command.execPre] _
    · exact fun _ killed => absurd (systemp_eq_zero.mpr (Or.inr killed)) failed
    · exact fun pre => absurd (pre has) notSucceeded
    · exact fun pre => absurd (pre has) notSucceeded
  | prepare entered failed =>
    refine iff_of_true ?_ fun _ => ⟨?_, ?_, ?_⟩
    · show Honest _ _ _ _ ([] ++ (preCommands image ++ removal replies))
      refine .of_failed failed.ne doneIff removal_eq (List.prefix_append _ _) ?_ nofun
      unfold preCommands
      split_ifs
      · exact le_rfl
      · exact Nat.zero_le 1
    · exact fun _ _ => failed
    · exact fun _ prepared => absurd failed (Int.not_lt.mpr prepared)
    · exact fun _ prepared => absurd failed (Int.not_lt.mpr prepared)
  | exec entered prepared failed =>
    rw [Honest.exec_iff failed doneIff, imp_iff_right entered.setenv, entered.signalsSeen_iff prepared]
    refine (and_iff_left ⟨fun killed => ?_, fun fine => ?_⟩).symm
    · exact absurd (systemp_eq_zero.mpr (Or.inr killed)) failed
    · exact absurd (systemp_eq_zero.mpr (Or.inl fine)) failed
  | stat entered prepared exec failed =>
    rw [Honest.exec_iff (by simp) doneIff, imp_iff_right entered.setenv,
      entered.signalsSeen_iff prepared]
    refine (and_iff_left ⟨fun _ => ⟨_, failed⟩, ?_⟩).symm
    rintro _ ⟨size, found⟩
    rw [failed] at found
    cases found
  | execPost generated has =>
    obtain ⟨size, found⟩ := generated.stat
    rw [imp_iff_right generated.setenv, generated.signalsSeen_iff generated.prepare]
    have all : configured image = preCommands image ++ [.exec, .execPost] := by
      rw [configured_eq, if_pos has]
    constructor
    · intro honest
      have exec : (replies.ended .exec).Succeeded := by
        by_contra failed
        rcases (honest.stops _ _ (List.suffix_append _ _) nofun failed).2 with none | removal
        · cases none
        · cases removal
      refine ⟨honest.preSucceeded, fun killed => ?_, fun _ _ _ killed => ?_⟩
      · exact absurd killed (Awaited.not_killed_of_succeeded exec)
      · have zero := systemp_eq_zero.mpr (Or.inr killed)
        refine Awaited.not_killed_of_succeeded ((honest.success zero).2 _ ?_) killed
        rw [all]
        exact List.mem_append_right _ (List.mem_cons_of_mem _ List.mem_cons_self)
    · rintro ⟨pre, exec, post⟩
      have fine : (replies.ended .exec).Succeeded := by
        refine (succeeded .exec generated.exec).mpr fun killed => ?_
        obtain ⟨errno, missing⟩ := exec killed
        rw [found] at missing
        cases missing
      have good : ∀ command ∈ preCommands image ++ [.exec], (replies.ended command).Succeeded := by
        intro command member
        rcases List.mem_append.mp member with before | same
        · exact preCommands_fine pre command before
        · exact List.mem_singleton.mp same ▸ fine
      have split : preCommands image ++ [Command.exec, .execPost] =
          (preCommands image ++ [.exec]) ++ [.execPost] := by
        rw [List.append_assoc]
        rfl
      by_cases zero : systemp (replies.ended .execPost) = 0
      · rw [← all]
        refine .of_succeeded doneIff fun command member => ?_
        rw [all, split] at member
        rcases List.mem_append.mp member with before | same
        · exact good command before
        · rw [List.mem_singleton.mp same]
          exact (succeeded .execPost zero).mpr (post fine ⟨size, found⟩ has)
      · rw [split, ← List.append_nil [Command.execPost]]
        refine .of_failed zero doneIff (Or.inl rfl) ?_ le_rfl good
        rw [all, split]
  | returns generated without =>
    obtain ⟨size, found⟩ := generated.stat
    rw [imp_iff_right generated.setenv, generated.signalsSeen_iff generated.prepare]
    have all : configured image = preCommands image ++ [.exec] := by
      rw [configured_eq, without]
      rfl
    constructor
    · intro honest
      have fine := (honest.success rfl).2
      rw [all] at fine
      refine ⟨honest.preSucceeded, fun killed => ?_, fun _ _ has => ?_⟩
      · refine absurd killed (Awaited.not_killed_of_succeeded (fine _ ?_))
        exact List.mem_append_right _ List.mem_cons_self
      · rw [without] at has
        cases has
    · rintro ⟨pre, exec, -⟩
      rw [← all]
      refine .of_succeeded doneIff fun command member => ?_
      rw [all] at member
      rcases List.mem_append.mp member with before | same
      · exact preCommands_fine pre command before
      · rw [List.mem_singleton.mp same, succeeded .exec generated.exec]
        intro killed
        obtain ⟨errno, missing⟩ := exec killed
        rw [found] at missing
        cases missing

end Honesty

/-! ### The whole of `image_generate` -/

section Whole

variable {images : List Image} {handlers : Fin images.length → Handler}
  {replies : Fin images.length → Replies} {image : Fin images.length} {size : UInt64}

/-- Calls without a command of `image` are added. -/
def AddsNothing (replies : Fin images.length → Replies) (image : Fin images.length) (size : UInt64)
    (log next : List (Call (Fin images.length))) : Prop :=
  ∃ calls, next = log ++ calls ∧ calls.flatMap (commandsOf replies image size) = []

theorem AddsNothing.refl (log : List (Call (Fin images.length))) :
    AddsNothing replies image size log log := ⟨[], (List.append_nil log).symm, rfl⟩

theorem AddsNothing.trans {first second third : List (Call (Fin images.length))}
    (one : AddsNothing replies image size first second)
    (two : AddsNothing replies image size second third) :
    AddsNothing replies image size first third := by
  obtain ⟨calls, rfl, none⟩ := one
  obtain ⟨others, rfl, empty⟩ := two
  refine ⟨calls ++ others, List.append_assoc _ _ _, ?_⟩
  rw [List.flatMap_append, none, empty, List.append_nil]

theorem addsNothing_call {outside : Outside (Fin images.length)} {event : Call (Fin images.length)}
    (none : commandsOf replies image size event = []) (log : List (Call (Fin images.length))) :
    AddsNothing replies image size log (call images outside event log).2 :=
  ⟨[event], rfl, by rw [List.flatMap_singleton, none]⟩

theorem addsNothing_callIf {outside : Outside (Fin images.length)} {event : Call (Fin images.length)}
    (none : commandsOf replies image size event = []) (condition : Bool)
    (log : List (Call (Fin images.length))) :
    AddsNothing replies image size log (callIf images outside condition event log).2 := by
  unfold callIf
  split_ifs
  · exact addsNothing_call none log
  · exact .refl log

theorem addsNothing_andThen {log : List (Call (Fin images.length))}
    {first : Int × List (Call (Fin images.length))}
    {rest : List (Call (Fin images.length)) → Int × List (Call (Fin images.length))}
    (one : AddsNothing replies image size log first.2)
    (two : ∀ log, AddsNothing replies image size log (rest log).2) :
    AddsNothing replies image size log (andThen first rest).2 := by
  unfold andThen
  split_ifs
  · exact one
  · exact one.trans (two first.2)

/-- The calls for another image run no command of this one. -/
theorem generateBody_others {outside : Outside (Fin images.length)} {other : Fin images.length}
    (different : other ≠ image) (log : List (Call (Fin images.length))) :
    AddsNothing replies image size log (generateBody images outside other log).2 := by
  have pre : commandsOf replies image size (.execPre other) = [] := if_neg different
  have generated : commandsOf replies image size (.generate other) = [] := if_neg different
  have removed : commandsOf replies image size (.remove other) = [] := if_neg different
  have post : commandsOf replies image size (.execPost other) = [] := if_neg different
  refine addsNothing_andThen (addsNothing_call rfl log) fun log => ?_
  refine addsNothing_andThen (addsNothing_callIf pre _ log) fun log => ?_
  refine addsNothing_andThen ?_ fun log => addsNothing_callIf post _ log
  unfold generateHandler
  split_ifs
  · exact .refl log
  · have first : AddsNothing replies image size log (log ++ [.generate other]) :=
      ⟨_, rfl, by rw [List.flatMap_singleton, generated]⟩
    rw [call]
    refine first.trans ?_
    show AddsNothing replies image size _ (ite _ _ _)
    split_ifs
    · exact addsNothing_call removed _
    · exact .refl _

/-- **When failed commands are not taken for success.** -/
theorem imageGenerate_honest_iff (custom : handlers image = .custom size)
    (has : (images.get image).hasGenerate = true) {marks : Marks images}
    (notDone : ¬ Done generatePass marks image) (notSeen : ¬ Seen generatePass marks image) :
    ∃ ret next calls, imageGenerate images (commandsOutside handlers replies) (images.length + 1)
        image marks = some (ret, next) ∧
      next.world = marks.world ++ calls ∧
      (Honest (configured (images.get image)) (replies image).ended ret
          (Done generatePass next image) (calls.flatMap (commandsOf replies image size)) ↔
        ((∃ middle, generateChildren handlers replies images.length image marks = some (0, middle)) →
          (replies image).setenv = 0 → SignalsSeen (images.get image) (replies image))) := by
  obtain ⟨⟨ret, next⟩, run⟩ : ∃ result, imageGenerate images (commandsOutside handlers replies)
      (images.length + 1) image marks = some result := by
    refine visit_total _ image marks ((pending_le_card marks).trans_lt ?_)
    rw [Fintype.card_fin]
    exact Nat.lt_succ_self _
  rcases visit_cases run with ⟨finished, _⟩ | ⟨_, started, _⟩ | ⟨_, _, ret', middle, children, rest⟩
  · exact absurd finished notDone
  · exact absurd started notSeen
  · have kept : ∀ child state ret next, visit generatePass (refs images)
        (generateBody images (commandsOutside handlers replies)) images.length child state =
          some (ret, next) →
        OpenKeeps generatePass (AddsNothing replies image size) image state next :=
      visit_openKeeps AddsNothing.refl (fun _ _ _ => AddsNothing.trans)
        (fun _ different => generateBody_others different) images.length
    obtain ⟨opened, calls, same, none⟩ := visitAll_openKeeps AddsNothing.refl
      (fun _ _ _ => AddsNothing.trans) kept (refs images image) children
      ⟨(seen_enter marks image image).mpr (Or.inr rfl), notDone⟩
    rcases rest with ⟨failed, rfl, rfl⟩ | ⟨rfl, rfl, rest⟩
    · refine ⟨ret, next, calls, run, same, iff_of_true ?_ ?_⟩
      · rw [none]
        show Honest _ _ _ _ ([] ++ ([] ++ []))
        refine .of_failed failed ?_ (Or.inl rfl) List.nil_prefix (Nat.zero_le 1) nofun
        exact iff_of_false opened.2 failed
      · rintro ⟨other, succeeded⟩
        have both := children.symm.trans succeeded
        rw [Option.some_inj, Prod.mk.injEq] at both
        exact absurd both.1 failed
    · obtain ⟨ret, own, body, outcome⟩ := generateBody_outcome replies custom has middle.world
      rw [body] at rest run
      have added : (middle.world ++ own) = marks.world ++ (calls ++ own) := by
        rw [same, List.append_assoc]
        rfl
      have ran : (calls ++ own).flatMap (commandsOf replies image size) =
          own.flatMap (commandsOf replies image size) := by
        rw [List.flatMap_append, none, List.nil_append]
      have reached : (∃ middle, generateChildren handlers replies images.length image marks =
          some (0, middle)) := ⟨middle, children⟩
      rcases rest with ⟨failed, rfl⟩ | ⟨zero, rfl⟩
      · refine ⟨ret, _, calls ++ own, run, added, ?_⟩
        rw [ran, imp_iff_right reached]
        exact outcome.honest_iff (iff_of_false opened.2 failed)
      · refine ⟨ret, _, calls ++ own, run, added, ?_⟩
        rw [ran, imp_iff_right reached]
        refine outcome.honest_iff (iff_of_true ?_ zero)
        exact (done_leave middle _ image image).mpr (Or.inr rfl)

/-- An image with all three commands. -/
def execImage : List Image := [{ file := "exec.img", execPre := true, execPost := true }]

/-- The image can be prepared and leaves a file of 512 bytes; `exec` ends as given. -/
def execReplies (exec : Termination) : Fin execImage.length → Replies := fun _ => {
  setenv := 0
  prepare := 0
  ended := fun command => .ended (if command = .exec then exec else .exited 0)
  stat := .ok 512
  removable := true }

/-- `exec` exits with `3`. -/
theorem imageGenerate_honest_exitCode :
    ∃ ret next calls, imageGenerate execImage
        (commandsOutside (fun _ => .custom 0) (execReplies (.exited 3))) 2 ⟨0, Nat.one_pos⟩
        (Marks.fresh execImage) = some (ret, next) ∧
      next.world = [] ++ calls ∧
      Honest [.execPre, .exec, .execPost] (execReplies (.exited 3) ⟨0, Nat.one_pos⟩).ended ret
        (Done generatePass next ⟨0, Nat.one_pos⟩)
        (calls.flatMap (commandsOf (execReplies (.exited 3)) ⟨0, Nat.one_pos⟩ 0)) := by
  have alive : ∀ command, ¬((execReplies (.exited 3) ⟨0, Nat.one_pos⟩).ended command).Killed := by
    rintro command ⟨signal, core, killed⟩
    cases command <;> cases killed
  obtain ⟨ret, next, calls, run, added, honest⟩ :=
    @imageGenerate_honest_iff execImage (fun _ => .custom 0) (execReplies (.exited 3))
      ⟨0, Nat.one_pos⟩ 0 rfl rfl (Marks.fresh execImage) nofun nofun
  refine ⟨ret, next, calls, run, added, honest.mpr fun _ _ => ⟨?_, ?_, ?_⟩⟩
  · exact fun _ killed => absurd killed (alive .execPre)
  · exact fun _ _ killed => absurd killed (alive .exec)
  · exact fun _ _ _ _ _ => alive .execPost

/-- `exec` is killed by the signal `9` in the middle of its image. -/
theorem imageGenerate_ships_killed :
    ∃ next, imageGenerate execImage
        (commandsOutside (fun _ => .custom 0) (execReplies (.killed 8 false))) 2 ⟨0, Nat.one_pos⟩
        (Marks.fresh execImage) = some (0, next) ∧
      Done generatePass next ⟨0, Nat.one_pos⟩ ∧
      next.world.flatMap (commandsOf (execReplies (.killed 8 false)) ⟨0, Nat.one_pos⟩ 0) =
        [.execPre, .exec, .execPost] :=
  ⟨_, rfl, rfl, rfl⟩

end Whole

end Genimage
