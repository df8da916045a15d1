/-
**Every early stop has an error number.**

A function of `util.c` that stops early returns `-errno`, which is `0`, success, where no call has set
`errno`. `Reports failed x` says that `x` does not stop with `0` when it is started with `errno` set
in the case `failed`. `Answers bad call` says of a system call that it returns, and that an answer that
is `bad` comes with an `errno`; the `return -errno` behind the call is then an error.
-/

import Genimage.Util.FileOps

namespace Genimage

open Library Effect

/-- **`x` stops early with an error only**; in the case `failed` it is started with `errno` set. -/
def Reports {α : Type} (failed : Prop) (x : Sys α) : Prop :=
  ∀ world, (failed → world.errno ≠ 0) → Ends x world fun result _ => result ≠ .error 0

/-- **The call returns**, and sets `errno` where its answer is `bad`. -/
def Answers {α : Type} (bad : α → Prop) (call : Sys α) : Prop :=
  ∀ world, Ends call world fun result next =>
    ∃ value, result = .ok value ∧ (bad value → next.errno ≠ 0)

section Rules

variable {α β : Type} {failed : Prop} {bad : α → Prop} {x : Sys α} {f : α → Sys β}

theorem reports_pure (value : α) : Reports failed (pure value : Sys α) := fun _ _ => nofun

theorem reports_throw {error : Int} (nonzero : error ≠ 0) :
    Reports failed (throw error : Sys α) := by
  intro world _
  rw [ends_throw]
  exact fun same => nonzero (Except.error.inj same)

/-- `return -errno` behind a failed call. -/
theorem reports_throwErrno (set : failed) : Reports failed (Sys.throwErrno : Sys α) := by
  intro world errno
  rw [Sys.throwErrno, ends_bind, ends_get]
  simp only [ends_throw]
  refine fun same => errno set ?_
  have := Except.error.inj same
  omega

theorem reports_returnErrno : Reports failed returnErrno := by
  intro world _
  rw [returnErrno, ends_bind, ends_get]
  simp only
  split
  next nonzero =>
    rw [ends_throw]
    refine fun same => nonzero ?_
    have := Except.error.inj same
    omega
  next => exact nofun

/-- An error that is caught. -/
theorem reports_tryCatch {x : Sys Unit} : Reports failed (tryCatch x fun _ => return) := by
  intro world _
  have caught : (tryCatch x fun _ => return : Sys Unit).outcome world =
      match x.outcome world with
      | (.ok _, final) => (.ok (), final)
      | (.error _, final) => (.ok (), final) := by
    show (ExceptT.run (tryCatch x fun _ => return)).run world = match x.run.run world with
      | (.ok _, final) => (.ok (), final)
      | (.error _, final) => (.ok (), final)
    rw [ExceptT.run_tryCatch, StateT.run_bind]
    cases x.run.run world with
    | mk result middle => cases result <;> rfl
  rw [Ends, caught]
  split <;> exact nofun

theorem Reports.weaken (reports : Reports False x) : Reports failed x :=
  fun world _ => reports world False.elim

/-- **One function after another.** -/
theorem Reports.bind (left : Reports failed x) (right : ∀ value, Reports False (f value)) :
    Reports failed (x >>= f) := by
  intro world errno
  refine (left world errno).bind (fun value middle _ => right value middle False.elim) ?_
  exact fun error middle nonzero same => nonzero (by rw [Except.error.inj same])

/-- **A call and what is done with its answer.** -/
theorem Answers.bind (call : Answers bad x) (right : ∀ value, Reports (bad value) (f value)) :
    Reports failed (x >>= f) := by
  intro world _
  refine (call world).bind (fun value middle answer => ?_) fun error middle answer => ?_
  · obtain ⟨_, same, errno⟩ := answer
    rw [← Except.ok.inj same] at errno
    exact right value middle errno
  · obtain ⟨_, same, _⟩ := answer
    cases same

end Rules

/-! ### The calls -/

section Calls

variable {os : Os} {α : Type} {bad : α → Prop}

/-- A call is what it does with the reply of the system. -/
theorem answers_reply {rest : Reply → Sys α} (answers : ∀ reply, Answers bad (rest reply)) :
    Answers bad (Sys.nextReply os >>= rest) := fun world =>
  answers (os.reply world.calls) { world with calls := world.calls + 1 }

theorem answers_refuse (errno : Errno) {bad : Int → Prop} : Answers bad (Sys.refuse errno) :=
  fun _ => ⟨-1, rfl, fun _ => errno.2⟩

theorem answers_refuse_none (errno : Errno) {bad : Option α → Prop} :
    Answers bad (do let _ ← Sys.refuse errno; return none) :=
  fun _ => ⟨none, rfl, fun _ => errno.2⟩

theorem openOut_answers (truncate : Bool) : Answers (· < 0) (Sys.openOut os truncate) := by
  refine answers_reply fun reply => ?_
  cases reply with
  | fail errno => exact answers_refuse errno
  | full | short => exact fun world => ⟨0, rfl, fun negative => absurd negative (by decide)⟩

theorem lseekSet_answers (offset : UInt64) : Answers (· < 0) (Sys.lseekSet os offset) := by
  refine answers_reply fun reply => ?_
  cases reply with
  | fail errno => exact answers_refuse errno
  | full | short =>
    simp only
    split
    next => exact fun world => ⟨_, rfl, fun negative => absurd negative (by simp)⟩
    next => exact answers_refuse .inval

theorem lseekIn_answers (offset : UInt64) : Answers (· < 0) (Sys.lseekIn os offset) := by
  refine answers_reply fun reply => ?_
  cases reply with
  | fail errno => exact answers_refuse errno
  | full | short =>
    simp only
    split
    next => exact fun world => ⟨_, rfl, fun negative => absurd negative (by simp)⟩
    next => exact answers_refuse .inval

theorem lseekCur_answers : Answers (fun _ => False) Sys.lseekCur :=
  fun world => ⟨world.position, rfl, False.elim⟩

theorem lseekEnd_answers : Answers (· < 0) (Sys.lseekEnd os) := by
  refine answers_reply fun reply => ?_
  cases reply with
  | fail errno => exact answers_refuse errno
  | full | short =>
    intro world
    rw [ends_bind, ends_get]
    simp only
    split
    next => exact ⟨_, rfl, fun negative => absurd negative (by simp)⟩
    next => exact answers_refuse .overflow world

theorem pwrite_answers (offset : Nat) (data : List UInt8) :
    Answers (· < 0) (Sys.pwrite os offset data) := by
  intro world
  have outcome : Ensures False (Sys.pwrite os offset data) world _ := Sys.pwrite_ensures
  obtain ⟨ret, next, run, -, failed | ⟨count, rfl, -⟩⟩ := outcome.returns
  · rw [Ends, run]
    exact ⟨ret, rfl, fun _ => failed.2.1⟩
  · rw [Ends, run]
    exact ⟨_, rfl, fun negative => absurd negative (by simp)⟩

theorem write_answers (data : List UInt8) : Answers (· < 0) (Sys.write os data) := by
  intro world
  have outcome : Ensures False (Sys.write os data) world _ := Sys.write_ensures
  obtain ⟨ret, next, run, failed | ⟨count, rfl, -⟩⟩ := outcome.returns
  · rw [Ends, run]
    exact ⟨ret, rfl, fun _ => failed.2.1⟩
  · rw [Ends, run]
    exact ⟨_, rfl, fun negative => absurd negative (by simp)⟩

theorem ftruncate_answers (length : UInt64) : Answers (· < 0) (Sys.ftruncate os length) := by
  refine answers_reply fun reply => ?_
  cases reply with
  | fail errno => exact answers_refuse errno
  | full | short =>
    simp only
    split
    next => exact answers_refuse .inval
    next => exact fun world => ⟨0, rfl, fun negative => absurd negative (by decide)⟩

theorem unlink_answers : Answers (· < 0) (Sys.unlink os) := by
  refine answers_reply fun reply => ?_
  cases reply with
  | fail errno => exact answers_refuse errno
  | full | short =>
    intro world
    rw [ends_bind, ends_get]
    simp only
    split
    next => exact answers_refuse .noent world
    next => exact ⟨0, rfl, fun negative => absurd negative (by decide)⟩

theorem statOut_answers : Answers (· = none) (Sys.statOut os) := by
  refine answers_reply fun reply => ?_
  cases reply with
  | fail errno => exact answers_refuse_none errno
  | full | short =>
    intro world
    rw [ends_bind, ends_get]
    simp only
    split
    next => exact answers_refuse_none .noent world
    next =>
      split
      next => exact ⟨_, rfl, nofun⟩
      next => exact answers_refuse_none .overflow world

theorem isBlockDevice_answers : Answers (fun _ => False) (isBlockDevice os) := by
  intro world
  refine (statOut_answers world).bind (fun stat next _ => ?_) fun error next ⟨_, same, _⟩ => by cases same
  rw [ends_pure]
  exact ⟨_, rfl, False.elim⟩

theorem punchHole_answers (offset count : Nat) :
    Answers (fun _ => False) (Sys.punchHole os offset count) := by
  intro world
  have outcome : Ensures False (Sys.punchHole os offset count) world _ := Sys.punchHole_ensures
  obtain ⟨ret, next, run, _⟩ := outcome.returns
  rw [Ends, run]
  exact ⟨ret, rfl, False.elim⟩

theorem read_answers (input : File) (offset count : Nat) :
    Answers (· = none) (Sys.read os input offset count) := by
  refine answers_reply fun reply => ?_
  cases reply with
  | fail errno => exact answers_refuse_none errno
  | full | short => exact fun world => ⟨_, rfl, nofun⟩

theorem pread_answers (input : File) (offset : UInt64) (count : Nat) :
    Answers (· = none) (Sys.pread os input offset count) := by
  unfold Sys.pread
  split
  next => exact read_answers input _ _
  next => exact answers_refuse_none .inval

theorem openIn_answers (input : Option File) : Answers (· = none) (Sys.openIn os input) := by
  refine answers_reply fun reply => ?_
  cases reply with
  | fail errno => exact answers_refuse_none errno
  | full | short =>
    cases input with
    | none => exact fun world => ⟨none, rfl, fun _ => Errno.noent.2⟩
    | some file => exact fun world => ⟨some file, rfl, nofun⟩

end Calls

/-! ### The functions of `util.c` -/

section Functions

variable {os : Os} {failed : Prop}

theorem openFile_reports (truncate : Bool) : Reports failed (openFile os truncate) := by
  refine isBlockDevice_answers.bind fun _ => (openOut_answers truncate).bind fun ret => ?_
  split
  next negative => exact reports_throwErrno negative
  next => exact reports_pure ()

/-- The loop of `insert_data`, by induction on the fuel: a short write without an `errno` stops it with
success, as `insert_data` does. -/
theorem insertLoop_reports (fuel : Nat) (data : List UInt8) :
    Reports failed (insertLoop os fuel data) := by
  induction fuel generalizing data failed with
  | zero => exact reports_pure ()
  | succ fuel ih =>
    rw [insertLoop]
    split
    next => exact reports_pure ()
    next =>
      refine (write_answers _).bind fun written => ?_
      split
      next => exact reports_returnErrno
      next => exact ih _

theorem insertData_reports (data : List UInt8) (offset : UInt64) :
    Reports failed (insertData os data offset) := by
  refine (openFile_reports false).bind fun _ => (lseekSet_answers offset).bind fun ret => ?_
  split
  next negative => exact reports_throwErrno negative
  next => exact insertLoop_reports _ _

theorem extendFile_reports (size : UInt64) : Reports failed (extendFile os size) := by
  refine (openFile_reports false).bind fun _ => lseekEnd_answers.bind fun offset => ?_
  split
  next negative => exact reports_throwErrno negative
  next =>
    simp only
    split_ifs
    · exact reports_throw (by decide)
    · exact reports_pure ()
    · refine (ftruncate_answers size).bind fun ret => ?_
      split
      next failed => exact reports_throwErrno (by omega)
      next => exact reports_pure ()

theorem fillLoop_reports (byte : UInt8) (fuel : Nat) (size offset : UInt64) :
    Reports failed (fillLoop os byte fuel size offset) := by
  induction fuel generalizing size offset failed with
  | zero => exact reports_pure ()
  | succ fuel ih =>
    rw [fillLoop]
    split
    next => exact reports_pure ()
    next =>
      refine (pwrite_answers _ _).bind fun written => ?_
      split
      next negative => exact reports_throwErrno negative
      next => exact ih _ _

theorem punchOrFill_reports (size offset : UInt64) : Reports failed (punchOrFill os size offset) := by
  refine (punchHole_answers _ _).bind fun ret => ?_
  split
  next => exact reports_pure ()
  next => exact fillLoop_reports _ _ _ _

theorem writeBytes_reports (size offset : UInt64) (byte : UInt8) (sparse : Bool) :
    Reports failed (writeBytes os size offset byte sparse) := by
  rw [writeBytes]
  split
  next => exact reports_pure ()
  next =>
    refine statOut_answers.bind fun length => ?_
    cases length with
    | none => exact reports_throwErrno rfl
    | some length =>
      simp only
      split_ifs with holes longer behind
      · refine (ftruncate_answers _).bind fun ret => ?_
        split
        next negative => exact (reports_throwErrno negative).bind fun _ => reports_pure ()
        next => exact reports_pure ()
      · refine (ftruncate_answers _).bind fun ret => ?_
        split
        next negative =>
          exact (reports_throwErrno negative).bind fun _ => punchOrFill_reports _ _
        next => exact punchOrFill_reports _ _
      · exact punchOrFill_reports _ _
      · exact fillLoop_reports _ _ _ _

theorem copyStep_reports (input : File) (stop : UInt64) (loop : CopyLoop) :
    Reports failed (copyStep os input stop loop) := by
  refine (pread_answers _ _ _).bind fun data => ?_
  cases data with
  | none => exact reports_throwErrno rfl
  | some data =>
    simp only
    split
    next => exact reports_pure none
    next =>
      refine (pwrite_answers _ _).bind fun written => ?_
      split_ifs with short negative
      · exact reports_throwErrno negative
      · exact reports_throw (by decide)
      · exact reports_pure _

theorem copyLoop_reports (input : File) (stop : UInt64) (fuel : Nat) (loop : CopyLoop) :
    Reports failed (copyLoop os input stop fuel loop) := by
  induction fuel generalizing loop failed with
  | zero => exact reports_pure loop
  | succ fuel ih =>
    rw [copyLoop]
    split
    next =>
      refine (copyStep_reports input stop loop).bind fun next => ?_
      cases next with
      | none => exact reports_pure loop
      | some next => exact ih next
    next => exact reports_pure loop

theorem copyExtent_reports (input : File) (sparse : Bool) (loop : CopyLoop) (extent : Extent) :
    Reports failed (copyExtent os input sparse loop extent) := by
  rw [copyExtent, skipGap]
  split
  next => exact reports_pure loop
  next =>
    split
    next =>
      exact ((writeBytes_reports _ _ _ _).bind fun _ => reports_pure _).bind fun loop =>
        copyLoop_reports _ _ _ loop
    next => exact (reports_pure loop).bind fun loop => copyLoop_reports _ _ _ loop

theorem copyExtents_reports (input : File) (sparse : Bool) (extents : List Extent) (loop : CopyLoop) :
    Reports failed (extents.foldlM (copyExtent os input sparse) loop) := by
  induction extents generalizing loop failed with
  | nil => exact reports_pure loop
  | cons extent rest ih =>
    rw [List.foldlM_cons]
    exact (copyExtent_reports input sparse loop extent).bind fun loop => ih loop

/-- **The answers of `map_file_extents`** are extents, or errors. -/
def ChildOutput.Reported (child : ChildOutput) : Prop := ∀ size, child.mapped size ≠ .error 0

theorem copySub_reports {sub : Option ChildOutput} (reported : ∀ child ∈ sub, child.Reported)
    (sparse : Bool) (loop : CopyLoop) : Reports failed (copySub os sub sparse loop) := by
  cases sub with
  | none => exact reports_pure loop
  | some sub =>
    refine (openIn_answers _).bind fun input => ?_
    cases input with
    | none => exact reports_throwErrno rfl
    | some input =>
      simp only
      split
      next ret mapped =>
        refine reports_throw fun zero => reported sub rfl (loop.size + loop.inPos) ?_
        rw [mapped, zero]
      next extents _ => exact copyExtents_reports _ _ _ _

/-- **`insert_image`** stops early with an error only. -/
theorem insertImage_reports {sub : Option ChildOutput} (reported : ∀ child ∈ sub, child.Reported)
    (size offset imageoffset : UInt64) (byte : UInt8) (sparse : Bool) :
    Reports failed (insertImage os sub size offset imageoffset byte sparse) := by
  refine (openFile_reports false).bind fun _ => (lseekSet_answers offset).bind fun ret => ?_
  split
  next negative => exact reports_throwErrno negative
  next => exact (copySub_reports reported sparse _).bind fun loop => writeBytes_reports _ _ _ _

theorem removeFile_reports : Reports failed (removeFile os) := by
  refine unlink_answers.bind fun ret => ?_
  split
  next negative =>
    intro world errno
    rw [ends_bind, ends_get]
    simp only
    split
    next => exact reports_throwErrno negative world errno
    next => exact nofun
  next => exact reports_pure ()

/-- **`prepare_image`** does too; on a device no error is passed on. -/
theorem prepareImage_reports (size : UInt64) : Reports failed (prepareImage os size) := by
  rw [prepareImage]
  split_ifs
  · exact reports_tryCatch
  · exact removeFile_reports
  · refine (openFile_reports true).bind fun _ => (ftruncate_answers size).bind fun ret => ?_
    split
    next negative => exact reports_throwErrno negative
    next => exact reports_pure ()

end Functions

end Genimage
