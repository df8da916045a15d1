/-
**A file behind several writes.**

`File.writes` carries a list of writes out one after the other. A byte is the one of the last write
that covers its position (`writes_byte_last`), or the old one (`writes_byte_untouched`), and the file
ends within a bound exactly when it did before and every write does (`length_writes_le_iff`).

`Keeps span` looks at one range only: what is written apart from it leaves it (`Keeps.pwrite`), and
what is written into it leaves the same there, whatever the rest of the file is (`Keeps.writes`).
-/

import Genimage.Library.File
import Genimage.Library.Span

namespace Genimage.Library

/-- Bytes and the place they are written to. -/
structure Write where
  offset : Nat
  data : List UInt8

namespace Write

/-- The positions that are written. -/
def span (write : Write) : Span Nat := ⟨write.offset, write.offset + write.data.length⟩

/-- The position `i` is written. -/
def Covers (write : Write) (i : Nat) : Prop := write.span.start ≤ i ∧ i < write.span.stop

end Write

namespace File

/-- The file behind the writes, the first one first. -/
def writes (file : File) (writes : List Write) : File :=
  writes.foldl (fun file write => file.pwrite write.offset write.data) file

variable {file : File} {write : Write} {first second before after list : List Write} {i limit : Nat}

@[simp]
theorem writes_nil (file : File) : file.writes [] = file := rfl

@[simp]
theorem writes_cons (file : File) (write : Write) (rest : List Write) :
    file.writes (write :: rest) = (file.pwrite write.offset write.data).writes rest := rfl

theorem writes_append (file : File) (first second : List Write) :
    file.writes (first ++ second) = (file.writes first).writes second := List.foldl_append

/-- **A position that no write covers** keeps its byte. -/
theorem writes_byte_untouched (untouched : ∀ write ∈ list, ¬ write.Covers i) :
    (file.writes list).byte i = file.byte i := by
  induction list generalizing file with
  | nil => rfl
  | cons write rest ih =>
    rw [List.forall_mem_cons] at untouched
    rw [writes_cons, ih untouched.2]
    exact pwrite_byte_of_not_mem untouched.1

/-- **The last write that covers a position** decides its byte. -/
theorem writes_byte_last (covers : write.Covers i) (untouched : ∀ later ∈ after, ¬ later.Covers i) :
    (file.writes (before ++ write :: after)).byte i = write.data.getD (i - write.offset) 0 := by
  rw [writes_append, writes_cons, writes_byte_untouched untouched]
  exact pwrite_byte_of_mem covers

/-- A slice that no write meets. -/
theorem slice_writes_apart {start count : Nat}
    (apart : ∀ write ∈ list, write.span.Apart ⟨start, start + count⟩) :
    (file.writes list).slice start count = file.slice start count := by
  induction list generalizing file with
  | nil => rfl
  | cons write rest ih =>
    rw [List.forall_mem_cons] at apart
    rw [writes_cons, ih apart.2]
    exact slice_pwrite_apart apart.1.symm

/-- **What a write leaves at its place**, if no later one meets it. -/
theorem slice_writes_last (apart : ∀ later ∈ after, later.span.Apart write.span) :
    (file.writes (before ++ write :: after)).slice write.offset write.data.length = write.data := by
  rw [writes_append, writes_cons, slice_writes_apart apart, slice_pwrite_self]

theorem length_le_writes (file : File) (list : List Write) :
    file.length ≤ (file.writes list).length := by
  induction list generalizing file with
  | nil => exact le_rfl
  | cons write rest ih => exact (file.length_pwrite_le _ _).trans (ih _)

/-- **The file ends within `limit`** exactly when it did and every write of some bytes does. -/
theorem length_writes_le_iff : (file.writes list).length ≤ limit ↔ file.length ≤ limit ∧
    ∀ write ∈ list, write.data ≠ [] → write.span.stop ≤ limit := by
  induction list generalizing file with
  | nil => simp
  | cons write rest ih =>
    have here : (file.pwrite write.offset write.data).length ≤ limit ↔
        file.length ≤ limit ∧ (write.data ≠ [] → write.span.stop ≤ limit) := by
      by_cases none : write.data = []
      · rw [none, pwrite_nil]
        exact (and_iff_left fun some => absurd rfl some).symm
      · rw [length_pwrite none, max_le_iff, forall_prop_of_true none]
        rfl
    rw [writes_cons, ih, here, List.forall_mem_cons, and_assoc]

/-! ### One range -/

/-- **The bytes of `span` are the same**, and the file has not become shorter. -/
structure Keeps (span : Span Nat) (before after : File) : Prop where
  length : before.length ≤ after.length
  byte : ∀ i, span.start ≤ i → i < span.stop → after.byte i = before.byte i

namespace Keeps

variable {span : Span Nat} {before middle after : File} {offset length : Nat} {data : List UInt8}

theorem refl (file : File) : Keeps span file file := ⟨le_rfl, fun _ _ _ => rfl⟩

theorem trans (first : Keeps span before middle) (second : Keeps span middle after) :
    Keeps span before after :=
  ⟨first.length.trans second.length, fun i above below =>
    (second.byte i above below).trans (first.byte i above below)⟩

/-- A write that is apart from the range. -/
theorem pwrite (file : File) (apart : Span.Apart ⟨offset, offset + data.length⟩ span) :
    Keeps span file (file.pwrite offset data) := by
  refine ⟨file.length_pwrite_le _ _, fun i above below => pwrite_byte_of_not_mem ?_⟩
  rintro ⟨after, before⟩
  rcases apart with front | behind
  · exact absurd (before.trans_le front) (not_lt.mpr above)
  · exact absurd (below.trans_le behind) (not_lt.mpr after)

/-- A file that is made longer. -/
theorem truncate {file : File} (longer : file.length ≤ length) :
    Keeps span file (file.truncate length) :=
  ⟨longer, fun i _ _ => by rw [truncate_byte longer]⟩

/-- The same write on both sides. -/
theorem both (same : Keeps span before after) (offset : Nat) (data : List UInt8) :
    Keeps span (before.pwrite offset data) (after.pwrite offset data) := by
  constructor
  · by_cases none : data = []
    · rw [none, pwrite_nil, pwrite_nil]
      exact same.length
    · rw [length_pwrite none, length_pwrite none]
      exact max_le_max same.length le_rfl
  · intro i above below
    by_cases covered : offset ≤ i ∧ i < offset + data.length
    · rw [pwrite_byte_of_mem covered, pwrite_byte_of_mem covered]
    · rw [pwrite_byte_of_not_mem covered, pwrite_byte_of_not_mem covered]
      exact same.byte i above below

/-- The same writes on both sides; by induction on the list. -/
theorem writes (same : Keeps span before after) (list : List Write) :
    Keeps span (before.writes list) (after.writes list) := by
  induction list generalizing before after with
  | nil => exact same
  | cons write rest ih => exact ih (same.both write.offset write.data)

end Keeps

end File

end Genimage.Library
