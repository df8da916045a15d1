/-
**`insert_data` against the results of its writes.**

A write may be complete, short, also of no byte at all, or fail. `insert_data` returns `-errno` after
every incomplete write, and a short one leaves `errno` as it is. Where that is `0` a part of the data
is missing and the caller is told that all went well. The `stat` of `open_file` sets `errno` where there
is no file yet.

`insertDataBy` is `insert_data` with the results of the writes given; `insertData_eq` says that it is
the function of the other modules when the results are those of the system.
-/

import Genimage.Util.FileSpecs

namespace Genimage

open Library Effect

/-- What a call of `write` returns: the number of bytes that it has written, or an error. -/
inductive WriteResult where
  | wrote (count : Nat)
  | failed (errno : Errno)
deriving DecidableEq

/-- `write` with the given result, at the offset of the descriptor. -/
def WriteResult.write (result : WriteResult) (data : List UInt8) : Sys Int :=
  match result with
  | .failed errno => Sys.refuse errno
  | .wrote count => do
    modify fun world => { world with
      file := some (world.contents.pwrite world.position (data.take count))
      position := world.position + (data.take count).length }
    return (data.take count).length

section InsertData

variable (os : Os)

/-- The loop of `insert_data`; `write index` is the call with that number. -/
def insertLoopBy (write : Nat → List UInt8 → Sys Int) : Nat → Nat → List UInt8 → Sys Unit
  | 0, _, _ => return
  | fuel + 1, index, data =>
    if data = [] then return
    else do
      let now := min data.length 4096
      let written ← write index (data.take now)
      if written < now then returnErrno
      else insertLoopBy write fuel (index + 1) (data.drop now)

/-- `insert_data` -/
def insertDataBy (write : Nat → List UInt8 → Sys Int) (data : List UInt8) (offset : UInt64) :
    Sys Unit := do
  openFile os false
  if (← Sys.lseekSet os offset) < 0 then Sys.throwErrno
  else insertLoopBy write data.length 0 data

theorem insertLoop_eq (fuel index : Nat) (data : List UInt8) :
    insertLoopBy (fun _ => Sys.write os) fuel index data = insertLoop os fuel data := by
  induction fuel generalizing index data with
  | zero => rfl
  | succ fuel ih => simp only [insertLoopBy, insertLoop, ih]

/-- **On the results of the system it is the same function.** -/
theorem insertData_eq (data : List UInt8) (offset : UInt64) :
    insertDataBy os (fun _ => Sys.write os) data offset = insertData os data offset := by
  simp only [insertDataBy, insertData, insertLoop_eq]

end InsertData

/-! ### The results -/

/-- The number of bytes that writes with these results write, of `size`. -/
def writtenBytes (results : Nat → WriteResult) : Nat → Nat → Nat → Nat
  | 0, _, _ => 0
  | fuel + 1, index, size =>
    if size = 0 then 0
    else match results index with
      | .failed _ => 0
      | .wrote count =>
        if count < min size 4096 then count
        else min size 4096 + writtenBytes results fuel (index + 1) (size - min size 4096)

/-- The first result that is not complete. -/
def firstIncomplete (results : Nat → WriteResult) : Nat → Nat → Nat → Option WriteResult
  | 0, _, _ => none
  | fuel + 1, index, size =>
    if size = 0 then none
    else match results index with
      | .failed errno => some (.failed errno)
      | .wrote count =>
        if count < min size 4096 then some (.wrote count)
        else firstIncomplete results fuel (index + 1) (size - min size 4096)

/-- The first incomplete write is short and has not failed. -/
def StopsShort (results : Nat → WriteResult) (fuel index size : Nat) : Prop :=
  ∃ count, firstIncomplete results fuel index size = some (.wrote count)

variable {results : Nat → WriteResult} {fuel index size : Nat}

/-- **All bytes are written exactly when no write is incomplete.** -/
theorem writtenBytes_eq_iff (enough : size ≤ fuel) :
    writtenBytes results fuel index size = size ↔ firstIncomplete results fuel index size = none := by
  induction fuel generalizing index size with
  | zero => exact iff_of_true (Nat.le_zero.mp enough).symm rfl
  | succ fuel ih =>
    rw [writtenBytes, firstIncomplete]
    split_ifs with none
    · exact iff_of_true none.symm rfl
    · cases results index with
      | failed errno => exact iff_of_false (Ne.symm none) nofun
      | wrote count =>
        simp only
        split_ifs with short
        · exact iff_of_false (by omega) nofun
        · rw [← ih (by omega)]
          omega

/-! ### The loop -/

theorem returnErrno_ends {world : World} {post : Except Int Unit → World → Prop}
    (failed : world.errno ≠ 0 → post (.error (-(world.errno : Int))) world)
    (returned : world.errno = 0 → post (.ok ()) world) : Ends returnErrno world post := by
  rw [returnErrno, ends_bind, ends_get]
  simp only
  split
  next nonzero => exact failed nonzero
  next zero => exact returned (not_not.mp zero)

/-- **One call** writes the bytes of its result, or fails with `errno`. -/
theorem WriteResult.write_ends {world : World} {result : WriteResult} {data : List UInt8} :
    Ends (result.write data) world fun ret final => match result with
      | .failed errno => ret = .ok (-1) ∧ final.contents = world.contents ∧ final.errno = errno.1
      | .wrote count => ret = .ok (min count data.length : Nat) ∧ final.errno = world.errno ∧
        final.contents = world.contents.pwrite world.position (data.take count) ∧
        final.position = world.position + min count data.length := by
  cases result with
  | failed errno => exact ⟨rfl, rfl, rfl⟩
  | wrote count =>
    rw [write, ends_bind, ends_modify]
    simp only [ends_pure, List.length_take]
    exact ⟨trivial, trivial, rfl, trivial⟩

/-- **The loop writes what the results say**, and returns `0` when no write is incomplete, or when the
first one is short and `errno` is `0`; by induction on the fuel. -/
theorem insertLoopBy_ends {world : World} {data : List UInt8} (enough : data.length ≤ fuel) :
    Ends (insertLoopBy (fun index => (results index).write) fuel index data) world fun ret final =>
      final.contents = world.contents.pwrite world.position
        (data.take (writtenBytes results fuel index data.length)) ∧
      (ret = .ok () ↔ firstIncomplete results fuel index data.length = none ∨
        (StopsShort results fuel index data.length ∧ world.errno = 0)) := by
  have nothing : Ends (pure () : Sys Unit) world fun ret final =>
      final.contents = world.contents.pwrite world.position (data.take 0) ∧
        (ret = .ok () ↔ True) := by
    rw [ends_pure, List.take_zero, File.pwrite_nil]
    exact ⟨rfl, iff_of_true rfl trivial⟩
  induction fuel generalizing index world data with
  | zero => exact nothing.mono fun _ _ ⟨contents, ret⟩ => ⟨contents, ret.trans (by simp [firstIncomplete])⟩
  | succ fuel ih =>
    unfold StopsShort
    rw [insertLoopBy, writtenBytes, firstIncomplete]
    split
    next empty =>
      rw [if_pos (by rw [empty]; rfl), if_pos (by rw [empty]; rfl)]
      exact nothing.mono fun _ _ ⟨contents, ret⟩ => ⟨contents, ret.trans (by simp)⟩
    next some =>
      have positive := List.length_pos_of_ne_nil some
      have now : (data.take (min data.length 4096)).length = min data.length 4096 := by
        rw [List.length_take]
        omega
      rw [if_neg (by omega), if_neg (by omega)]
      refine WriteResult.write_ends.bind (fun ret middle written => ?_) ?_
      · cases result : results index with
        | failed errno =>
          rw [result] at written
          obtain ⟨same, contents, errno_eq⟩ := written
          rw [Except.ok.inj same, if_pos (by omega)]
          simp only
          refine returnErrno_ends (fun _ => ?_) fun zero => absurd (errno_eq.symm.trans zero) errno.2
          rw [List.take_zero, File.pwrite_nil]
          exact ⟨contents, by simp⟩
        | wrote count =>
          rw [result, now] at written
          obtain ⟨same, errno_eq, contents, position⟩ := written
          rw [Except.ok.inj same]
          simp only
          by_cases short : count < min data.length 4096
          · rw [if_pos (by omega), if_pos short, if_pos short]
            have taken : (data.take (min data.length 4096)).take count = data.take count := by
              rw [List.take_take]
              congr 1
              omega
            rw [taken] at contents
            refine returnErrno_ends (fun nonzero => ?_) fun zero => ?_
            · rw [errno_eq] at nonzero
              exact ⟨contents, by simp [nonzero]⟩
            · exact ⟨contents, by simp [← errno_eq, zero]⟩
          · rw [if_neg (by omega), if_neg short, if_neg short]
            have rest : (data.drop (min data.length 4096)).length =
                data.length - min data.length 4096 := List.length_drop
            rw [List.take_of_length_le (by omega)] at contents
            rw [show min count (min data.length 4096) = min data.length 4096 by omega] at position
            refine (ih (by omega) ?_).mono fun ret final ⟨written, returned⟩ => ?_
            · simp [File.pwrite_nil]
            · have joined := world.contents.pwrite_pwrite world.position
                (data.take (min data.length 4096))
                ((data.drop (min data.length 4096)).take (writtenBytes results fuel (index + 1)
                  (data.length - min data.length 4096)))
              rw [now, ← List.take_add] at joined
              rw [rest, contents, position, joined] at written
              rw [rest, errno_eq] at returned
              exact ⟨written, returned⟩
      · intro error middle written
        cases result : results index with
        | failed | wrote =>
          rw [result] at written
          exact nomatch written.1

/-! ### `insert_data` -/

section Result

variable (os : Os) (world : World) (results : Nat → WriteResult) (data : List UInt8) (offset : UInt64)

/-- The `stat` of `open_file` finds the file, and leaves `errno` alone. -/
def Stats : Prop :=
  (∀ errno, os.reply world.calls ≠ .fail errno) ∧ world.file.isSome ∧ world.contents.length < offLimit

/-- The file is opened, and its descriptor is moved to `offset`. -/
def Reached : Prop :=
  (∀ errno, os.reply (world.calls + 1) ≠ .fail errno) ∧
    (∀ errno, os.reply (world.calls + 2) ≠ .fail errno) ∧ offset.toNat < offLimit

/-- **Success is a complete write**: `insert_data` returns `0` if and only if the file has been opened
and positioned and all bytes have been written at `offset`, and the other bytes stay. -/
structure CompleteWrite (ret : Except Int Unit) (final : World) : Prop where
  success : ret = .ok () ↔ Reached os world offset ∧
    writtenBytes results data.length 0 data.length = data.length
  written : Reached os world offset → final.contents = world.contents.pwrite offset.toNat
    (data.take (writtenBytes results data.length 0 data.length))
  outside : ∀ i, ¬ (offset.toNat ≤ i ∧ i < offset.toNat + data.length) →
    final.contents.byte i = world.contents.byte i

/-- The run of `insert_data` keeps `CompleteWrite`. -/
def InsertsAll : Prop :=
  Ends (insertDataBy os (fun index => (results index).write) data offset) world
    (CompleteWrite os world results data offset)

end Result

variable {os : Os} {world : World} {data : List UInt8} {offset : UInt64}

/-- **`is_block_device`** sets `errno` where `stat` does not find the file. -/
theorem isBlockDevice_ends : Ends (isBlockDevice os) world fun ret next =>
    (∃ device, ret = .ok device) ∧ next.file = world.file ∧ next.calls = world.calls + 1 ∧
      (next.errno = 0 ↔ Stats os world ∧ world.errno = 0) := by
  have refused : ∀ errno : Errno, ¬ Stats os world →
      (errno.1 = 0 ↔ Stats os world ∧ world.errno = 0) :=
    fun errno lost => iff_of_false errno.2 fun both => lost both.1
  rw [isBlockDevice, Sys.statOut, Sys.nextReply]
  simp only [ends_bind, ends_get, ends_modify, ends_pure]
  cases reply : os.reply world.calls with
  | fail errno => exact ⟨⟨_, rfl⟩, rfl, rfl, refused errno fun stats => stats.1 errno reply⟩
  | full | short =>
    have answered : ∀ errno, os.reply world.calls ≠ .fail errno := by
      intro errno failed
      cases reply.symm.trans failed
    cases found : world.file with
    | none =>
      have lost : ¬ Stats os world := fun stats => by simpa [found] using stats.2.1
      simp only [ends_bind, ends_get]
      exact ⟨⟨_, rfl⟩, rfl, rfl, refused .noent lost⟩
    | some file =>
      have contents : world.contents = file := by rw [World.contents, found, Option.getD_some]
      simp only [ends_bind, ends_get]
      split
      next inside =>
        have stats : Stats os world := ⟨answered, by rw [found]; rfl, by rwa [contents]⟩
        exact ⟨⟨_, rfl⟩, rfl, rfl, (and_iff_right stats).symm⟩
      next large =>
        have lost : ¬ Stats os world := fun stats => large (contents ▸ stats.2.2)
        exact ⟨⟨_, rfl⟩, rfl, rfl, refused .overflow lost⟩

theorem openFile_ends : Ends (openFile os false) world fun ret next =>
    next.contents = world.contents ∧
      ((ret = .ok () ∧ (∀ errno, os.reply (world.calls + 1) ≠ .fail errno) ∧
        next.calls = world.calls + 2 ∧ (next.errno = 0 ↔ Stats os world ∧ world.errno = 0)) ∨
      (ret ≠ .ok () ∧ ∃ errno, os.reply (world.calls + 1) = .fail errno)) := by
  refine isBlockDevice_ends.bind (fun _ middle ⟨_, kept, calls, stats⟩ => ?_)
    fun error middle ⟨⟨_, same⟩, _⟩ => by cases same
  simp only [Sys.openOut, Sys.nextReply, ends_bind, ends_get, ends_modify, ends_pure]
  rw [← calls, ← World.contents_congr kept]
  cases reply : os.reply middle.calls with
  | fail errno =>
    simp only [Sys.refuse, Sys.throwErrno, ends_bind, ends_modify, ends_pure]
    rw [if_pos (by decide)]
    exact ⟨rfl, Or.inr ⟨nofun, errno, rfl⟩⟩
  | full | short =>
    simp only [ends_bind, ends_modify, ends_pure]
    rw [if_neg (by decide), ends_pure]
    refine ⟨?_, Or.inl ⟨rfl, nofun, by rw [calls], stats⟩⟩
    cases device : os.blockDevice <;> rfl

theorem lseekSet_ends : Ends (Sys.lseekSet os offset) world fun ret next =>
    next.contents = world.contents ∧
      ((ret = .ok (offset.toNat : Int) ∧ (∀ errno, os.reply world.calls ≠ .fail errno) ∧
        offset.toNat < offLimit ∧ next.position = offset.toNat ∧ next.errno = world.errno) ∨
      (ret = .ok (-1) ∧ ((∃ errno, os.reply world.calls = .fail errno) ∨
        offLimit ≤ offset.toNat))) := by
  simp only [Sys.lseekSet, Sys.nextReply, ends_bind, ends_get, ends_modify, ends_pure]
  cases reply : os.reply world.calls with
  | fail errno => exact ⟨rfl, Or.inr ⟨rfl, Or.inl ⟨errno, rfl⟩⟩⟩
  | full | short =>
    simp only
    split
    next below => exact ⟨rfl, Or.inl ⟨rfl, (fun errno wrong => by cases wrong), below, rfl, rfl⟩⟩
    next beyond => exact ⟨rfl, Or.inr ⟨rfl, Or.inr (not_lt.mp beyond)⟩⟩

/-- **A run of `insert_data`**: it fails before the first write, or the loop decides. -/
theorem insertDataBy_ends :
    Ends (insertDataBy os (fun index => (results index).write) data offset) world fun ret final =>
      (Reached os world offset ∧ final.contents = world.contents.pwrite offset.toNat
          (data.take (writtenBytes results data.length 0 data.length)) ∧
        (ret = .ok () ↔ firstIncomplete results data.length 0 data.length = none ∨
          (StopsShort results data.length 0 data.length ∧ Stats os world ∧ world.errno = 0))) ∨
      (¬ Reached os world offset ∧ final.contents = world.contents ∧ ret ≠ .ok ()) := by
  refine openFile_ends.bind (fun _ opened ⟨kept, answer⟩ => ?_) fun error next ⟨kept, answer⟩ => ?_
  · obtain ⟨_, opens, calls, errno⟩ | ⟨failed, _⟩ := answer
    · refine lseekSet_ends.bind (fun position moved ⟨kept', answer'⟩ => ?_) fun error next post => ?_
      · rw [kept] at kept'
        rw [calls] at answer'
        obtain ⟨same, seeks, below, position_eq, errno'⟩ | ⟨same, failed⟩ := answer'
        · rw [Except.ok.inj same, if_neg (by omega)]
          refine (insertLoopBy_ends le_rfl).mono fun ret final ⟨contents, returned⟩ => ?_
          rw [kept', position_eq] at contents
          rw [errno', errno] at returned
          exact Or.inl ⟨⟨opens, seeks, below⟩, contents, returned⟩
        · rw [Except.ok.inj same, if_pos (by decide)]
          refine Or.inr ⟨fun ⟨_, seeks, below⟩ => ?_, kept', nofun⟩
          exact failed.elim (fun ⟨errno, fail⟩ => seeks errno fail) fun far => absurd below (not_lt.mpr far)
      · obtain ⟨_, ⟨same, _⟩ | ⟨same, _⟩⟩ := post <;> cases same
    · exact absurd rfl failed
  · obtain ⟨same, _⟩ | ⟨failed, errno, fail⟩ := answer
    · cases same
    · exact Or.inr ⟨fun ⟨opens, _⟩ => opens errno fail, kept, nofun⟩

/-- The bytes outside of the range stay. -/
theorem pwrite_take_outside (before : File) (count : Nat) {i : Nat}
    (outside : ¬ (offset.toNat ≤ i ∧ i < offset.toNat + data.length)) :
    (before.pwrite offset.toNat (data.take count)).byte i = before.byte i := by
  have short : (data.take count).length ≤ data.length := by
    rw [List.length_take]
    exact min_le_right _ _
  exact File.pwrite_byte_of_not_mem (by omega)

/-- **`insert_data` reports success exactly for a complete write**, unless the first incomplete write
is short, and `errno` is `0` and stays so when `open_file` looks at the file. -/
theorem insertData_complete_iff : InsertsAll os world results data offset ↔
    ¬ (Reached os world offset ∧ StopsShort results data.length 0 data.length ∧
      Stats os world ∧ world.errno = 0) := by
  have run : Ends (insertDataBy os (fun index => (results index).write) data offset) world _ :=
    insertDataBy_ends
  have complete : writtenBytes results data.length 0 data.length = data.length ↔
      firstIncomplete results data.length 0 data.length = none := writtenBytes_eq_iff le_rfl
  unfold InsertsAll Ends
  unfold Ends at run
  generalize (outcome _ world).1 = ret at run ⊢
  generalize (outcome _ world).2 = final at run ⊢
  constructor
  · rintro write ⟨reached, ⟨count, short⟩, found, zero⟩
    obtain ⟨_, _, returned⟩ | ⟨far, _⟩ := run
    · have all := (write.success.mp (returned.mpr (Or.inr ⟨⟨count, short⟩, found, zero⟩))).2
      rw [complete.mp all] at short
      cases short
    · exact far reached
  · intro exempt
    obtain ⟨reached, contents, returned⟩ | ⟨far, contents, failed⟩ := run
    · refine ⟨?_, fun _ => contents, fun i outside => ?_⟩
      · rw [returned, complete]
        constructor
        · rintro (all | ⟨short, zero⟩)
          · exact ⟨reached, all⟩
          · exact absurd ⟨reached, short, zero⟩ exempt
        · exact fun both => Or.inl both.2
      · rw [contents]
        exact pwrite_take_outside _ _ outside
    · refine ⟨iff_of_false failed fun both => far both.1, fun reached => absurd reached far, ?_⟩
      intro i _
      rw [contents]

/-- A write of no byte into an empty file where `errno` is `0`. -/
theorem insertData_short_success :
    ¬ InsertsAll ⟨fun _ => .full, false⟩ ⟨some .empty, 0, 0, 0⟩ (fun _ => .wrote 0) [1] 0 := by
  intro all
  have returned : (outcome (insertDataBy ⟨fun _ => .full, false⟩
      (fun index => ((fun _ => WriteResult.wrote 0) index).write) [1] 0) ⟨some .empty, 0, 0, 0⟩).1 =
        .ok () := rfl
  exact absurd (all.success.mp returned).2 (by decide)

end Genimage
