/-
**The system calls on the output file.**

`World` is the output file with the offset of its open descriptor and `errno`; input files are
constants. What a call does is the POSIX behaviour on contents, cut short or refused as `Os.reply`
says for the call with that number, so a statement for every `Os` covers every way calls can fail.
As in C a call returns `-1` on an error and sets `errno`. `off_t` is signed: offsets and lengths from
`2 ^ 63` on are refused, and a block device has a fixed length. A transfer that is cut short moves at
least one byte; a write that would pass the largest offset or the end of a device is cut short there
or refused.
-/

import Genimage.Library.Effect
import Genimage.Library.File

namespace Genimage

open Library

/-- An error number of a failed call. -/
abbrev Errno := { errno : Nat // errno ≠ 0 }

/-- What happens to a system call: it is carried out in full, it moves at most `count + 1` bytes, or
it fails. -/
inductive Reply where
  | full
  | short (count : Nat)
  | fail (errno : Errno)
deriving DecidableEq, Repr

/-- The answers of the system, by the number of the call, and the kind of the output file. -/
structure Os where
  reply : Nat → Reply
  blockDevice : Bool := false

/-- Every call is carried out, on a regular file. -/
def Os.Reliable (os : Os) : Prop := (∀ call, os.reply call = .full) ∧ os.blockDevice = false

/-- No call fails; a transfer may be cut short, and a hole is refused then. -/
def Os.Willing (os : Os) : Prop := ∀ call errno, os.reply call ≠ .fail errno

theorem Os.Reliable.willing {os : Os} (reliable : os.Reliable) : os.Willing := by
  intro call errno fail
  rw [reliable.1 call] at fail
  cases fail

/-- No transfer is cut short; calls may fail. -/
def Os.Whole (os : Os) : Prop := ∀ call count, os.reply call ≠ .short count

theorem Os.Reliable.whole {os : Os} (reliable : os.Reliable) : os.Whole := by
  intro call count short
  rw [reliable.1 call] at short
  cases short

/-- The system that carries every call out. -/
def Os.calm : Os where
  reply _ := .full

theorem Os.calm_reliable : Os.calm.Reliable := ⟨fun _ => rfl, rfl⟩

/-- The output file and the state of its descriptor. -/
structure World where
  file : Option File
  position : Nat := 0
  calls : Nat := 0
  errno : Nat := 0

/-- A function of the program that returns `0` or a negative error number. -/
abbrev Sys := Effect Int World

/-- `ENOENT` -/
def Errno.noent : Errno := ⟨2, by decide⟩

/-- `EINVAL` -/
def Errno.inval : Errno := ⟨22, by decide⟩

/-- `EFBIG` -/
def Errno.fbig : Errno := ⟨27, by decide⟩

/-- `ENOSPC` -/
def Errno.nospc : Errno := ⟨28, by decide⟩

/-- `EOVERFLOW` -/
def Errno.overflow : Errno := ⟨75, by decide⟩

/-- The first value that is not an `off_t`. -/
def offLimit : Nat := 2 ^ 63

/-- The contents of the output file; a missing one has none. -/
def World.contents (world : World) : File := world.file.getD .empty

theorem World.contents_congr {world next : World} (same : next.file = world.file) :
    next.contents = world.contents := by
  rw [World.contents, same, World.contents]

namespace Sys

variable (os : Os)

/-- The answer to the next call. -/
def nextReply : Sys Reply := do
  let world ← get
  modify fun world => { world with calls := world.calls + 1 }
  return os.reply world.calls

/-- A failed call. -/
def refuse (errno : Errno) : Sys Int := do
  modify fun world => { world with errno := errno.1 }
  return -1

/-- `return -errno` -/
def throwErrno {α : Type} : Sys α := do
  let world ← get
  throw (-(world.errno : Int))

/-- `open` for writing, with `O_TRUNC` or without; creates a missing regular file. -/
def openOut (truncate : Bool) : Sys Int := do
  match ← nextReply os with
  | .fail errno => refuse errno
  | _ =>
    modify fun world => { world with
      position := 0
      file := if os.blockDevice then world.file
        else some (if truncate then .empty else world.contents) }
    return 0

/-- `lseek(fd, offset, SEEK_SET)` -/
def lseekSet (offset : UInt64) : Sys Int := do
  match ← nextReply os with
  | .fail errno => refuse errno
  | _ =>
    if offset.toNat < offLimit then
      modify fun world => { world with position := offset.toNat }
      return offset.toNat
    else refuse .inval

/-- `lseek(fd, offset, SEEK_SET)` on an input file. -/
def lseekIn (offset : UInt64) : Sys Int := do
  match ← nextReply os with
  | .fail errno => refuse errno
  | _ => if offset.toNat < offLimit then return offset.toNat else refuse .inval

/-- `lseek(fd, 0, SEEK_CUR)`; on the descriptor of a file or a device it does not fail. -/
def lseekCur : Sys Int := do
  let world ← get
  return world.position

/-- `lseek(fd, 0, SEEK_END)` -/
def lseekEnd : Sys Int := do
  match ← nextReply os with
  | .fail errno => refuse errno
  | _ =>
    let world ← get
    if world.contents.length < offLimit then
      modify fun world => { world with position := world.contents.length }
      return world.contents.length
    else refuse .overflow

/-- The bytes that still fit behind `offset`. -/
def room (file : File) (offset : Nat) : Nat :=
  (if os.blockDevice then file.length else offLimit - 1) - offset

/-- `pwrite`: a regular file may not grow to `2 ^ 63` bytes, a device not at all. -/
def pwrite (offset : Nat) (data : List UInt8) : Sys Int := do
  match ← nextReply os with
  | .fail errno => refuse errno
  | reply =>
    let world ← get
    let space := room os world.contents offset
    let count : Nat := match reply with
      | .short count => min (min (count + 1) data.length) space
      | _ => if data.length ≤ space then data.length else 0
    if 0 < data.length ∧ count = 0 then refuse (if os.blockDevice then .nospc else .fbig)
    else
      modify fun world => { world with
        file := some (world.contents.pwrite offset (data.take count)) }
      return count

/-- `write`, at the offset of the descriptor. -/
def write (data : List UInt8) : Sys Int := do
  let world ← get
  let written ← pwrite os world.position data
  modify fun world => { world with position := world.position + written.toNat }
  return written

/-- `ftruncate` -/
def ftruncate (length : UInt64) : Sys Int := do
  match ← nextReply os with
  | .fail errno => refuse errno
  | _ =>
    if os.blockDevice ∨ offLimit ≤ length.toNat then refuse .inval
    else
      modify fun world => { world with file := some (world.contents.truncate length.toNat) }
      return 0

/-- `fallocate` with `FALLOC_FL_PUNCH_HOLE | FALLOC_FL_KEEP_SIZE` -/
def punchHole (offset count : Nat) : Sys Int := do
  match ← nextReply os with
  | .full =>
    if offLimit ≤ offset ∨ offLimit ≤ count then refuse .inval
    else if offLimit ≤ offset + count then refuse .fbig
    else
      modify fun world => { world with file := some (world.contents.punch offset count) }
      return 0
  | .fail errno => refuse errno
  | .short _ => refuse .nospc

/-- `unlink` -/
def unlink : Sys Int := do
  match ← nextReply os with
  | .fail errno => refuse errno
  | _ =>
    let world ← get
    if world.file.isNone then refuse .noent
    else
      modify fun world => { world with file := none }
      return 0

/-- `stat` or `fstat`: the length of the output file. -/
def statOut : Sys (Option Nat) := do
  match ← nextReply os with
  | .fail errno => do
    let _ ← refuse errno
    return none
  | _ =>
    let world ← get
    match world.file with
    | none => do
      let _ ← refuse .noent
      return none
    | some file =>
      if file.length < offLimit then return some file.length
      else
        let _ ← refuse .overflow
        return none

/-- `read` on an input file, at `offset`: `none` is an error, and past the end there is nothing to
read. -/
def read (input : File) (offset count : Nat) : Sys (Option (List UInt8)) := do
  match ← nextReply os with
  | .fail errno => do
    let _ ← refuse errno
    return none
  | .short wanted =>
    return some (input.slice offset (min (min (wanted + 1) count) (input.length - offset)))
  | .full => return some (input.slice offset (min count (input.length - offset)))

/-- `pread` on an input file. -/
def pread (input : File) (offset : UInt64) (count : Nat) : Sys (Option (List UInt8)) := do
  if offset.toNat < offLimit then read os input offset.toNat count
  else do
    let _ ← refuse .inval
    return none

/-- `open` for reading, of an input file that may be missing. -/
def openIn (input : Option File) : Sys (Option File) := do
  match ← nextReply os with
  | .fail errno => do
    let _ ← refuse errno
    return none
  | _ => do
    if input.isNone then
      let _ ← refuse .noent
    return input

/-! ### What a call ensures -/

section Ensures

open Effect

variable {os : Os} {world : World} {fault : Prop}

theorem nextReply_ensures : Ensures fault (nextReply os) world fun reply next =>
    next = { world with calls := world.calls + 1 } ∧ (os.Reliable → reply = .full) ∧
      os.reply world.calls = reply := by
  rw [nextReply, ensures_bind, ensures_get, ensures_bind, ensures_modify, ensures_pure]
  exact ⟨rfl, fun reliable => reliable.1 _, rfl⟩

@[simp]
theorem throwErrno_ensures {α : Type} {post : α → World → Prop} :
    Ensures fault (throwErrno : Sys α) world post ↔ fault := Iff.rfl

theorem refuse_ensures {errno : Errno} : Ensures fault (refuse errno) world fun ret next =>
    ret = -1 ∧ next = { world with errno := errno.1 } := by
  rw [refuse, ensures_bind, ensures_modify, ensures_pure]
  exact ⟨rfl, rfl⟩

/-- **`open`** truncates or creates a regular file and opens a device at its beginning. -/
theorem openOut_ensures {truncate : Bool} :
    Ensures fault (openOut os truncate) world fun ret next =>
      (ret = -1 ∧ ¬ os.Reliable) ∨ (ret = 0 ∧ next.position = 0 ∧ next.file =
        if os.blockDevice then world.file
        else some (if truncate then .empty else world.contents)) := by
  rw [openOut]
  refine nextReply_ensures.bind fun reply middle ⟨same, full, _⟩ => ?_
  subst same
  cases reply with
  | fail errno =>
    exact refuse_ensures.mono fun ret next ⟨failed, _⟩ =>
      Or.inl ⟨failed, fun reliable => nomatch full reliable⟩
  | full | short =>
    simp only [ensures_bind, ensures_modify, ensures_pure]
    exact Or.inr ⟨trivial, trivial, rfl⟩

theorem lseekSet_ensures {offset : UInt64} :
    Ensures fault (lseekSet os offset) world fun ret next => next.file = world.file ∧
      ((ret = -1 ∧ ¬ (os.Reliable ∧ offset.toNat < offLimit)) ∨
        (ret = offset.toNat ∧ next.position = offset.toNat ∧ offset.toNat < offLimit)) := by
  rw [lseekSet]
  refine nextReply_ensures.bind fun reply middle facts => ?_
  obtain ⟨same, full, _⟩ := facts
  subst same
  cases reply with
  | fail errno =>
    refine refuse_ensures.mono fun ret next facts => ?_
    refine ⟨by rw [facts.2], Or.inl ⟨facts.1, ?_⟩⟩
    exact fun reliable => by cases full reliable.1
  | full | short =>
    simp only
    split
    next inside =>
      simp only [ensures_bind, ensures_modify, ensures_pure]
      exact ⟨trivial, Or.inr ⟨trivial, trivial, inside⟩⟩
    next large =>
      refine refuse_ensures.mono fun ret next facts => ?_
      refine ⟨by rw [facts.2], Or.inl ⟨facts.1, ?_⟩⟩
      exact fun reliable => large reliable.2

theorem lseekIn_ensures {offset : UInt64} :
    Ensures fault (lseekIn os offset) world fun ret next =>
      next.file = world.file ∧ next.position = world.position ∧
        (0 ≤ ret ∨ ¬ (os.Reliable ∧ offset.toNat < offLimit)) := by
  rw [lseekIn]
  refine nextReply_ensures.bind fun reply middle ⟨same, full, _⟩ => ?_
  subst same
  cases reply with
  | fail errno =>
    refine refuse_ensures.mono fun ret next ⟨_, same⟩ => ⟨by rw [same], by rw [same], Or.inr ?_⟩
    exact fun reliable => nomatch full reliable.1
  | full | short =>
    simp only
    split
    next =>
      rw [ensures_pure]
      exact ⟨rfl, rfl, Or.inl (Int.natCast_nonneg _)⟩
    next large =>
      refine refuse_ensures.mono fun ret next ⟨_, same⟩ => ⟨by rw [same], by rw [same], Or.inr ?_⟩
      exact fun reliable => large reliable.2

theorem lseekCur_ensures {post : Int → World → Prop} :
    Ensures fault lseekCur world post ↔ post world.position world := Iff.rfl

theorem lseekEnd_ensures : Ensures fault (lseekEnd os) world fun ret next =>
    next.file = world.file ∧
      ((ret = -1 ∧ ¬ (os.Reliable ∧ world.contents.length < offLimit)) ∨
        (ret = world.contents.length ∧ next.position = world.contents.length ∧
          world.contents.length < offLimit)) := by
  rw [lseekEnd]
  refine nextReply_ensures.bind fun reply middle facts => ?_
  obtain ⟨same, full, _⟩ := facts
  subst same
  cases reply with
  | fail errno =>
    refine refuse_ensures.mono fun ret next facts => ?_
    refine ⟨by rw [facts.2], Or.inl ⟨facts.1, ?_⟩⟩
    exact fun both => by cases full both.1
  | full | short =>
    rw [ensures_bind, ensures_get]
    split
    next inside =>
      simp only [ensures_bind, ensures_modify, ensures_pure]
      exact ⟨trivial, Or.inr ⟨rfl, rfl, inside⟩⟩
    next large =>
      refine refuse_ensures.mono fun ret next facts => ?_
      refine ⟨by rw [facts.2], Or.inl ⟨facts.1, ?_⟩⟩
      exact fun both => large both.2

/-- Up to the largest offset there is room in a regular file. -/
theorem le_room (regular : os.blockDevice = false) {file : File} {offset count : Nat}
    (fits : offset + count < offLimit) : count ≤ room os file offset := by
  rw [room, if_neg (by rw [regular]; decide)]
  omega

/-- A byte for which there is room lies below the largest offset. -/
theorem add_room_lt {file : File} {offset count : Nat} (small : file.length < offLimit)
    (positive : 0 < count) (fits : count ≤ room os file offset) : offset + count < offLimit := by
  rw [room] at fits
  split_ifs at fits <;> omega

/-- The room behind a write. -/
theorem room_pwrite (os : Os) (file : File) (offset : Nat) (data : List UInt8) :
    room os (file.pwrite offset data) (offset + data.length) =
      room os file offset - data.length := by
  by_cases none : data = []
  · rw [none, File.pwrite_nil]
    rfl
  · rw [room, room, File.length_pwrite none]
    split_ifs <;> omega

/-- **`pwrite`** fails, or writes a part of the data from its beginning; all of it when no transfer
is cut short. It does not fail where there is room and no call is refused. -/
theorem pwrite_ensures {offset : Nat} {data : List UInt8} :
    Ensures fault (pwrite os offset data) world fun ret next =>
      next.position = world.position ∧
      ((ret = -1 ∧ next.errno ≠ 0 ∧ next.file = world.file ∧
          ¬ (os.Willing ∧ data.length ≤ room os world.contents offset)) ∨
        ∃ count : Nat, ret = count ∧ count ≤ data.length ∧ (data ≠ [] → 0 < count) ∧
          count ≤ room os world.contents offset ∧ (os.Whole → count = data.length) ∧
          next.file = some (world.contents.pwrite offset (data.take count))) := by
  rw [pwrite]
  refine nextReply_ensures.bind fun reply middle ⟨same, _, answer⟩ => ?_
  subst same
  have refused := (if os.blockDevice then Errno.nospc else .fbig).2
  cases reply with
  | fail errno =>
    refine refuse_ensures.mono fun ret next ⟨failed, same⟩ => ?_
    subst same
    exact ⟨rfl, Or.inl ⟨failed, errno.2, rfl, fun both => both.1 _ _ answer⟩⟩
  | full =>
    rw [ensures_bind, ensures_get]
    simp only
    split
    next fits =>
      rw [if_neg (by omega), ensures_bind, ensures_modify, ensures_pure]
      exact ⟨rfl, Or.inr ⟨_, rfl, le_rfl, List.length_pos_of_ne_nil, fits, fun _ => rfl, rfl⟩⟩
    next large =>
      rw [if_pos ⟨by omega, rfl⟩]
      refine refuse_ensures.mono fun ret next ⟨failed, same⟩ => ?_
      subst same
      exact ⟨rfl, Or.inl ⟨failed, refused, rfl, fun both => large both.2⟩⟩
  | short wanted =>
    rw [ensures_bind, ensures_get]
    simp only
    split
    next none =>
      refine refuse_ensures.mono fun ret next ⟨failed, same⟩ => ?_
      subst same
      refine ⟨rfl, Or.inl ⟨failed, refused, rfl, fun both => ?_⟩⟩
      have fits : data.length ≤ room os world.contents offset := both.2
      have : min (min (wanted + 1) data.length) (room os world.contents offset) = 0 := none.2
      omega
    next carried =>
      rw [ensures_bind, ensures_modify, ensures_pure]
      refine ⟨rfl, Or.inr ⟨_, rfl, by omega, fun given => ?_, min_le_right _ _, ?_, rfl⟩⟩
      · have := List.length_pos_of_ne_nil given
        omega
      · exact fun whole => absurd answer (whole _ _)

/-- **`write`** is `pwrite` at the offset of the descriptor, which moves behind the data. -/
theorem write_ensures {data : List UInt8} :
    Ensures fault (write os data) world fun ret next =>
      (ret = -1 ∧ next.errno ≠ 0 ∧ next.file = world.file ∧
          ¬ (os.Reliable ∧ world.position + data.length < offLimit)) ∨
        ∃ count : Nat, ret = count ∧ count ≤ data.length ∧ (data ≠ [] → 0 < count) ∧
          (os.Whole → count = data.length) ∧ next.position = world.position + count ∧
          next.file = some (world.contents.pwrite world.position (data.take count)) := by
  rw [write, ensures_bind, ensures_get]
  refine pwrite_ensures.bind fun ret middle ⟨position, written⟩ => ?_
  rw [ensures_bind, ensures_modify, ensures_pure]
  rcases written with ⟨rfl, errno, kept, failed⟩ | ⟨count, rfl, small, some, _, whole, file⟩
  · exact Or.inl ⟨rfl, errno, kept, fun both => failed ⟨both.1.willing, le_room both.1.2 both.2⟩⟩
  · refine Or.inr ⟨count, rfl, small, some, whole, ?_, file⟩
    show middle.position + count = _
    rw [position]

/-- **`read`** fails, or reads bytes of the input that are there, at least one unless it is at the
end; all of them on a reliable system. -/
theorem read_ensures {input : File} {offset count : Nat} :
    Ensures fault (read os input offset count) world fun data next =>
      next.file = world.file ∧ next.position = world.position ∧
      ((data = none ∧ ¬ os.Reliable) ∨ ∃ got, data = some (input.slice offset got) ∧ got ≤ count ∧
        (0 < count → offset < input.length → 0 < got) ∧ offset + got ≤ max offset input.length) ∧
      (os.Reliable → data = some (input.slice offset (min count (input.length - offset)))) := by
  rw [read]
  refine nextReply_ensures.bind fun reply middle ⟨same, full, _⟩ => ?_
  subst same
  cases reply with
  | fail errno =>
    refine refuse_ensures.bind fun ret next ⟨_, same⟩ => ?_
    subst same
    rw [ensures_pure]
    exact ⟨rfl, rfl, Or.inl ⟨rfl, fun reliable => nomatch full reliable⟩,
      fun reliable => nomatch full reliable⟩
  | full =>
    rw [ensures_pure]
    exact ⟨rfl, rfl, Or.inr ⟨_, rfl, by omega, by omega, by omega⟩, fun _ => rfl⟩
  | short wanted =>
    rw [ensures_pure]
    exact ⟨rfl, rfl, Or.inr ⟨_, rfl, by omega, by omega, by omega⟩,
      fun reliable => nomatch full reliable⟩

theorem pread_ensures {input : File} {offset : UInt64} {count : Nat} :
    Ensures fault (pread os input offset count) world fun data next =>
      next.file = world.file ∧
      ((data = none ∧ ¬ (os.Reliable ∧ offset.toNat < offLimit)) ∨
        ∃ got, data = some (input.slice offset.toNat got) ∧ got ≤ count ∧
          (0 < count → offset.toNat < input.length → 0 < got) ∧
          offset.toNat + got ≤ max offset.toNat input.length) := by
  unfold pread
  split
  next inside =>
    refine read_ensures.mono fun data next ⟨file, _, got, _⟩ => ⟨file, ?_⟩
    exact got.imp_left fun ⟨failed, unreliable⟩ => ⟨failed, fun both => unreliable both.1⟩
  next outside =>
    refine refuse_ensures.bind fun ret next ⟨_, same⟩ => ?_
    rw [ensures_pure, same]
    exact ⟨rfl, Or.inl ⟨rfl, fun both => outside both.2⟩⟩

/-- Behind the largest offset nothing is read. -/
theorem pread_beyond {input : File} {offset : UInt64} {count : Nat}
    (beyond : offLimit ≤ offset.toNat) :
    Ensures fault (pread os input offset count) world fun data _ => data = none := by
  rw [pread, if_neg (not_lt.mpr beyond)]
  exact refuse_ensures.bind fun _ _ _ => rfl

theorem openIn_ensures {input : Option File} :
    Ensures fault (openIn os input) world fun opened next => next.file = world.file ∧
      ((opened = none ∧ ¬ (os.Reliable ∧ input.isSome)) ∨ (opened = input ∧ input.isSome)) := by
  rw [openIn]
  refine nextReply_ensures.bind fun reply middle ⟨same, full, _⟩ => ?_
  subst same
  cases reply with
  | fail errno =>
    refine refuse_ensures.bind fun ret next ⟨_, same⟩ => ?_
    rw [ensures_pure, same]
    exact ⟨rfl, Or.inl ⟨rfl, fun both => nomatch full both.1⟩⟩
  | full | short =>
    cases input with
    | none =>
      simp only [Option.isNone_none, if_true]
      refine refuse_ensures.bind fun ret next ⟨_, same⟩ => ?_
      rw [ensures_pure, same]
      exact ⟨rfl, Or.inl ⟨rfl, fun both => absurd both.2 (by decide)⟩⟩
    | some file =>
      simp only [Option.isNone_some, Bool.false_eq_true, if_false, ensures_pure]
      exact ⟨trivial, Or.inr ⟨trivial, rfl⟩⟩

/-- **`ftruncate`** fails, or sets the length. -/
theorem ftruncate_ensures {length : UInt64} :
    Ensures fault (ftruncate os length) world fun ret next =>
      (ret = -1 ∧ next.file = world.file ∧
        ¬ (os.Willing ∧ os.blockDevice = false ∧ length.toNat < offLimit)) ∨
      (ret = 0 ∧ length.toNat < offLimit ∧
        next.file = some (world.contents.truncate length.toNat)) := by
  rw [ftruncate]
  refine nextReply_ensures.bind fun reply middle ⟨same, _, answer⟩ => ?_
  subst same
  cases reply with
  | fail errno =>
    refine refuse_ensures.mono fun ret next ⟨failed, same⟩ => Or.inl ⟨failed, by rw [same], ?_⟩
    exact fun all => all.1 _ _ answer
  | full | short =>
    simp only
    split
    next outside =>
      refine refuse_ensures.mono fun ret next ⟨failed, same⟩ => Or.inl ⟨failed, by rw [same], ?_⟩
      rintro ⟨_, regular, inside⟩
      rw [regular] at outside
      exact outside.elim Bool.false_ne_true fun large => absurd inside (not_lt.mpr large)
    next inside =>
      rw [not_or] at inside
      simp only [ensures_bind, ensures_modify, ensures_pure]
      exact Or.inr ⟨trivial, not_le.mp inside.2, rfl⟩

/-- **`fallocate`** fails, or writes zeros. -/
theorem punchHole_ensures {offset count : Nat} :
    Ensures fault (punchHole os offset count) world fun ret next =>
      (ret = -1 ∧ next.file = world.file) ∨ (ret = 0 ∧ offset + count < offLimit ∧
        next.file = some (world.contents.punch offset count)) := by
  rw [punchHole]
  refine nextReply_ensures.bind fun reply middle facts => ?_
  obtain ⟨same, _, _⟩ := facts
  subst same
  cases reply with
  | full =>
    simp only
    split_ifs with invalid large
    · exact refuse_ensures.mono fun ret next facts => Or.inl ⟨facts.1, by rw [facts.2]⟩
    · exact refuse_ensures.mono fun ret next facts => Or.inl ⟨facts.1, by rw [facts.2]⟩
    · simp only [ensures_bind, ensures_modify, ensures_pure]
      exact Or.inr ⟨trivial, not_le.mp large, rfl⟩
  | fail | short =>
    exact refuse_ensures.mono fun ret next facts => Or.inl ⟨facts.1, by rw [facts.2]⟩

/-- **`unlink`** fails, or removes the file. -/
theorem unlink_ensures : Ensures fault (unlink os) world fun ret next =>
    (ret = -1 ∧ next.file = world.file ∧
      (os.Reliable → world.file = none ∧ next.errno = Errno.noent.1)) ∨
    (ret = 0 ∧ next.file = none) := by
  rw [unlink]
  refine nextReply_ensures.bind fun reply middle ⟨same, full, _⟩ => ?_
  subst same
  cases reply with
  | fail errno =>
    refine refuse_ensures.mono fun ret next ⟨failed, same⟩ => Or.inl ⟨failed, by rw [same], ?_⟩
    exact fun reliable => nomatch full reliable
  | full | short =>
    rw [ensures_bind, ensures_get]
    simp only
    split
    next missing =>
      refine refuse_ensures.mono fun ret next ⟨failed, same⟩ => Or.inl ⟨failed, by rw [same], ?_⟩
      exact fun _ => ⟨Option.isNone_iff_eq_none.mp missing, by rw [same]⟩
    next =>
      simp only [ensures_bind, ensures_modify, ensures_pure]
      exact Or.inr ⟨trivial, trivial⟩

/-- **`stat`** fails, or returns the length of the file. -/
theorem statOut_ensures : Ensures fault (statOut os) world fun length next =>
    next.file = world.file ∧
      ((length = none ∧
          ¬ (os.Willing ∧ world.file.isSome ∧ world.contents.length < offLimit)) ∨
        (length = some world.contents.length ∧ world.file.isSome ∧
          world.contents.length < offLimit)) := by
  rw [statOut]
  refine nextReply_ensures.bind fun reply middle ⟨same, _, answer⟩ => ?_
  subst same
  cases reply with
  | fail errno =>
    refine refuse_ensures.bind fun ret next ⟨_, same⟩ => ?_
    rw [ensures_pure, same]
    exact ⟨rfl, Or.inl ⟨rfl, fun all => all.1 _ _ answer⟩⟩
  | full | short =>
    rw [ensures_bind, ensures_get]
    simp only [World.contents]
    cases found : world.file with
    | none =>
      refine refuse_ensures.bind fun ret next ⟨_, same⟩ => ?_
      rw [ensures_pure, same]
      exact ⟨rfl, Or.inl ⟨rfl, fun both => absurd both.2.1 (by decide)⟩⟩
    | some file =>
      simp only [Option.getD_some]
      split
      next inside =>
        rw [ensures_pure]
        exact ⟨rfl, Or.inr ⟨rfl, rfl, inside⟩⟩
      next large =>
        refine refuse_ensures.bind fun ret next ⟨_, same⟩ => ?_
        rw [ensures_pure, same]
        exact ⟨rfl, Or.inl ⟨rfl, fun both => large both.2.2⟩⟩

end Ensures

end Sys

/-! ### Where a call has to succeed -/

/-- The calls are carried out up to file position `bound`, or a fault is allowed. -/
def Safe (fault : Prop) (os : Os) (bound : Nat) : Prop := fault ∨ (os.Reliable ∧ bound < offLimit)

section Safe

variable {os : Os} {fault : Prop} {bound : Nat}

theorem Safe.mono (safe : Safe fault os bound) {smaller : Nat} (le : smaller ≤ bound) :
    Safe fault os smaller :=
  safe.imp_right fun ⟨reliable, below⟩ => ⟨reliable, le.trans_lt below⟩

/-- What a reliable system excludes needs a fault. -/
theorem Safe.allowed (safe : Safe fault os bound) (failed : ¬ (os.Reliable ∧ bound < offLimit)) :
    fault := safe.resolve_right failed

/-- No call is refused and there is room for `size` bytes at `offset`, or a fault is allowed. -/
def Roomy (fault : Prop) (os : Os) (contents : File) (offset size : Nat) : Prop :=
  fault ∨ (os.Willing ∧ size ≤ Sys.room os contents offset)

theorem Safe.roomy {contents : File} {offset size : Nat} (safe : Safe fault os (offset + size)) :
    Roomy fault os contents offset size :=
  safe.imp_right fun ⟨reliable, below⟩ => ⟨reliable.willing, Sys.le_room reliable.2 below⟩

/-- Behind a part of the bytes there is room for the others. -/
theorem Roomy.rest {contents : File} {offset size : Nat} (roomy : Roomy fault os contents offset size)
    (data : List UInt8) :
    Roomy fault os (contents.pwrite offset data) (offset + data.length) (size - data.length) := by
  refine roomy.imp_right fun ⟨willing, room⟩ => ⟨willing, ?_⟩
  rw [Sys.room_pwrite os]
  exact Nat.sub_le_sub_right room _

end Safe

end Genimage
