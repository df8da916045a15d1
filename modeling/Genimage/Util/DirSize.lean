/-
**Sizes in percent of a directory (`dir_size`, `image_dir_size`, `image_setup`).**

An image size in percent is taken of what the mountpoint of the image occupies: its regular files in
blocks of 4096 bytes, and one more block for each directory. `percentSize_exact_iff` says that the
result does not depend on the order in which `readdir` returns the entries, and when it is what it is
meant to be: the product with the percentage has to fit into 64 bits.

A directory that cannot be opened and a file that cannot be looked at are left out, and the walk goes
on.
-/

import Genimage.Library.Word
import Mathlib.Tactic

namespace Genimage

open Library

/-! ### The walk -/

/-- What `readdir` and the calls behind it say of an entry: whether a directory can be opened, and what
`fstatat` says is the size of a regular file. -/
inductive DirEntry where
  | dir (name : String) (opens : Bool) (entries : List DirEntry)
  | file (size : Option UInt64)
  | other

/-- `.` and `..` -/
def isDots (name : String) : Bool := name = "." || name = ".."

/-- `ROUND_UP` -/
def roundUp (num align : UInt64) : UInt64 := (num + (align - 1)) &&& ~~~ (align - 1)

mutual

/-- What an entry adds in the loop of `dir_size`; an entry that is skipped adds nothing. -/
def entrySize (blocksize : UInt64) : DirEntry → UInt64
  | .dir name opens entries =>
    if isDots name then 0 else if opens then dirSizeLoop blocksize entries 0 else 0
  | .file size => size.elim 0 (roundUp · blocksize)
  | .other => 0

/-- The loop of `dir_size` with `size` so far, and what is returned behind it. -/
def dirSizeLoop (blocksize : UInt64) : List DirEntry → UInt64 → UInt64
  | [], size => size + blocksize
  | entry :: rest, size => dirSizeLoop blocksize rest (size + entrySize blocksize entry)

end

/-- `dir_size` -/
def dirSize (opens : Bool) (entries : List DirEntry) (blocksize : UInt64) : UInt64 :=
  if opens then dirSizeLoop blocksize entries 0 else 0

/-- `image_dir_size` of an image with this directory as its mountpath. -/
def imageDirSize (empty opens : Bool) (entries : List DirEntry) : UInt64 :=
  if empty then 0 else dirSize opens entries 4096

/-- The size that `image_setup` makes of a percentage. -/
def percentSize (dirSize percent : UInt64) : UInt64 := dirSize * percent / 100

/-! ### What a directory occupies -/

mutual

/-- The bytes in blocks of 4096 that an entry occupies. -/
def DirEntry.occupied : DirEntry → Nat
  | .dir name _ entries => if isDots name then 0 else entriesOccupied entries + 4096
  | .file size => size.elim 0 fun st => (st.toNat + 4095) / 4096 * 4096
  | .other => 0

def entriesOccupied : List DirEntry → Nat
  | [] => 0
  | entry :: rest => entry.occupied + entriesOccupied rest

end

/-- What a directory occupies. -/
def occupied (entries : List DirEntry) : Nat := entriesOccupied entries + 4096

mutual

/-- No call fails in an entry, and no file is as large as the 64 bits of `off_t` allow. -/
def DirEntry.Readable : DirEntry → Prop
  | .dir name opens entries => isDots name = true ∨ opens = true ∧ Readable entries
  | .file size => ∃ st, size = some st ∧ st.toNat < 2 ^ 63
  | .other => True

def Readable : List DirEntry → Prop
  | [] => True
  | entry :: rest => entry.Readable ∧ Readable rest

end

/-- **The same directory**, with its entries and those of its subdirectories in another order. -/
inductive Reordered : List DirEntry → List DirEntry → Prop
  | nil : Reordered [] []
  | dir (name : String) (opens : Bool) {inside inside' rest rest' : List DirEntry} :
    Reordered inside inside' → Reordered rest rest' →
    Reordered (.dir name opens inside :: rest) (.dir name opens inside' :: rest')
  | keep (entry : DirEntry) {rest rest' : List DirEntry} :
    Reordered rest rest' → Reordered (entry :: rest) (entry :: rest')
  | swap (first second : DirEntry) (rest : List DirEntry) :
    Reordered (first :: second :: rest) (second :: first :: rest)
  | trans {first second third : List DirEntry} :
    Reordered first second → Reordered second third → Reordered first third

/-! ### The size of a directory -/

/-- Masking the low bits off rounds down to a block. -/
theorem and_blockMask {n : Nat} (small : n < 2 ^ 64) : n &&& (2 ^ 64 - 4096) = n / 4096 * 4096 := by
  have mask : 2 ^ 64 - 4096 = (2 ^ 52 - 1) <<< 12 := by decide
  have low : n / 2 ^ 12 < 2 ^ 52 := by omega
  have block : n / 4096 * 4096 = (n / 2 ^ 12 &&& (2 ^ 52 - 1)) <<< 12 := by
    rw [Nat.and_two_pow_sub_one_eq_mod, Nat.mod_eq_of_lt low, Nat.shiftLeft_eq]
    rfl
  rw [mask, block]
  refine Nat.eq_of_testBit_eq fun i => ?_
  rw [Nat.testBit_and, Nat.testBit_shiftLeft, Nat.testBit_shiftLeft, Nat.testBit_and,
    Nat.testBit_div_two_pow]
  by_cases high : 12 ≤ i
  · rw [decide_eq_true high, Bool.true_and, Bool.true_and, Nat.sub_add_cancel high]
  · rw [decide_eq_false high, Bool.false_and, Bool.false_and, Bool.and_false]

theorem toNat_roundUp (size : UInt64) :
    (roundUp size 4096).toNat = (size.toNat + 4095) % 2 ^ 64 / 4096 * 4096 := by
  have sum : (size + (4096 - 1)).toNat = (size.toNat + 4095) % 2 ^ 64 := UInt64.toNat_add _ _
  rw [roundUp, UInt64.toNat_and, sum, ← and_blockMask (Nat.mod_lt _ (by decide))]
  rfl

/-- The loop adds to what there is. -/
theorem dirSizeLoop_add (blocksize size : UInt64) (entries : List DirEntry) :
    dirSizeLoop blocksize entries size = size + dirSizeLoop blocksize entries 0 := by
  induction entries generalizing size with
  | nil => rw [dirSizeLoop, dirSizeLoop, UInt64.zero_add]
  | cons entry rest ih =>
    rw [dirSizeLoop, ih, dirSizeLoop, ih (0 + _), UInt64.zero_add, UInt64.add_assoc]

mutual

/-- What a readable entry adds, modulo the width of the sum. -/
theorem toNat_entrySize (entry : DirEntry) (readable : entry.Readable) :
    (entrySize 4096 entry).toNat = entry.occupied % 2 ^ 64 := by
  cases entry with
  | dir name opens entries =>
    rw [entrySize, DirEntry.occupied]
    split_ifs with dots opened
    · rfl
    · rcases readable with same | ⟨_, inside⟩
      · exact absurd same dots
      · exact toNat_dirSizeLoop entries inside
    · rcases readable with same | ⟨opened', _⟩
      · exact absurd same dots
      · exact absurd opened' opened
  | file size =>
    obtain ⟨st, rfl, small⟩ := readable
    rw [entrySize, DirEntry.occupied, Option.elim_some, Option.elim_some, toNat_roundUp]
    omega
  | other => rfl

/-- **The size of a readable directory**, modulo the width of the sum. -/
theorem toNat_dirSizeLoop (entries : List DirEntry) (readable : Readable entries) :
    (dirSizeLoop 4096 entries 0).toNat = occupied entries % 2 ^ 64 := by
  cases entries with
  | nil => rfl
  | cons entry rest =>
    obtain ⟨own, others⟩ := readable
    rw [dirSizeLoop, dirSizeLoop_add, UInt64.zero_add, UInt64.toNat_add, toNat_entrySize entry own,
      toNat_dirSizeLoop rest others, occupied, occupied, entriesOccupied]
    omega

end

mutual

/-- No entry adds more than it occupies, whatever fails. -/
theorem entrySize_le (entry : DirEntry) : (entrySize 4096 entry).toNat ≤ entry.occupied := by
  cases entry with
  | dir name opens entries =>
    rw [entrySize, DirEntry.occupied]
    split_ifs
    · exact le_rfl
    · exact dirSizeLoop_le entries
    · exact Nat.zero_le _
  | file size =>
    cases size with
    | none => exact le_rfl
    | some st =>
      rw [entrySize, DirEntry.occupied, Option.elim_some, Option.elim_some, toNat_roundUp]
      omega
  | other => exact le_rfl

theorem dirSizeLoop_le (entries : List DirEntry) :
    (dirSizeLoop 4096 entries 0).toNat ≤ occupied entries := by
  cases entries with
  | nil => exact le_rfl
  | cons entry rest =>
    have own := entrySize_le entry
    have others := dirSizeLoop_le rest
    rw [occupied] at others
    rw [dirSizeLoop, dirSizeLoop_add, UInt64.zero_add, UInt64.toNat_add, occupied, entriesOccupied]
    omega

end

/-! ### The order of the entries -/

/-- **Another order** gives the same sum, whatever fails; by induction on the exchanges. -/
theorem Reordered.dirSizeLoop_eq {entries entries' : List DirEntry}
    (same : Reordered entries entries') (blocksize size : UInt64) :
    dirSizeLoop blocksize entries' size = dirSizeLoop blocksize entries size := by
  induction same generalizing size with
  | nil => rfl
  | dir name opens _ _ inside rest =>
    have own : ∀ entries, entrySize blocksize (.dir name opens entries) =
        if isDots name then 0 else if opens then dirSizeLoop blocksize entries 0 else 0 :=
      fun _ => by rw [entrySize]
    rw [dirSizeLoop, dirSizeLoop, own, own, inside, rest]
  | keep entry _ rest => rw [dirSizeLoop, dirSizeLoop, rest]
  | swap first second rest =>
    rw [dirSizeLoop, dirSizeLoop, dirSizeLoop, dirSizeLoop, UInt64.add_assoc, UInt64.add_assoc,
      UInt64.add_comm (entrySize blocksize second)]
  | trans _ _ one two => rw [two, one]

theorem Reordered.imageDirSize_eq {entries entries' : List DirEntry}
    (same : Reordered entries entries') (empty opens : Bool) :
    imageDirSize empty opens entries' = imageDirSize empty opens entries := by
  rw [imageDirSize, imageDirSize, dirSize, dirSize, same.dirSizeLoop_eq]

/-! ### Percentages -/

/-- **A size in percent**: it does not depend on the order of the entries, it is exact exactly when the
product fits into 64 bits, and what cannot be read makes the size of a directory smaller only. -/
theorem percentSize_exact_iff (entries : List DirEntry) (percent : UInt64) :
    (∀ entries', Reordered entries entries' → ∀ empty opens,
      percentSize (imageDirSize empty opens entries') percent =
        percentSize (imageDirSize empty opens entries) percent) ∧
      (Readable entries → ((percentSize (imageDirSize false true entries) percent).toNat =
          occupied entries * percent.toNat / 100 ↔ occupied entries * percent.toNat < 2 ^ 64)) ∧
      ∀ opens, (imageDirSize false opens entries).toNat ≤ occupied entries := by
  refine ⟨fun entries' same empty opens => ?_, fun readable => ?_, fun opens => ?_⟩
  · rw [same.imageDirSize_eq]
  · have size : (imageDirSize false true entries).toNat = occupied entries % 2 ^ 64 :=
      toNat_dirSizeLoop entries readable
    have product : (imageDirSize false true entries * percent).toNat =
        occupied entries * percent.toNat % 2 ^ 64 := by
      rw [UInt64.toNat_mul, size, Nat.mod_mul_mod]
    rw [percentSize, UInt64.toNat_div, product]
    generalize occupied entries * percent.toNat = whole
    show whole % 2 ^ 64 / 100 = whole / 100 ↔ _
    omega
  · cases opens with
    | true => exact dirSizeLoop_le entries
    | false => exact Nat.zero_le _

/-- A file and a subdirectory; in the second listing nothing of them can be read. -/
theorem percentSize_exact_usr :
    (percentSize (imageDirSize false true [.file (some 5000), .dir "usr" true [.file (some 1)]])
      120).toNat = 24576 ∧
    percentSize (imageDirSize false true [.file none, .dir "usr" false [.file (some 1)]]) 120 =
      percentSize (imageDirSize false true [.dir "usr" false [.file (some 1)], .file none]) 120 := by
  have readable : Readable [.file (some 5000), .dir "usr" true [.file (some 1)]] :=
    ⟨⟨5000, rfl, by decide⟩, Or.inr ⟨rfl, ⟨1, rfl, by decide⟩, trivial⟩, trivial⟩
  obtain ⟨_, exact, _⟩ := percentSize_exact_iff
    [.file (some 5000), .dir "usr" true [.file (some 1)]] 120
  refine ⟨?_, ?_⟩
  · rw [(exact readable).mpr (by decide)]
    decide
  · exact (percentSize_exact_iff [.dir "usr" false [.file (some 1)], .file none] 120).1 _
      (.swap _ _ []) false true

end Genimage
