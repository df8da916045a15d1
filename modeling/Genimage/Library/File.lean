/-
**File contents.**

A `File` has a length and a byte at every position, `0` past the end, so that two files are equal as
soon as their lengths and bytes are. The operations are the POSIX ones on contents: `pwrite`,
`truncate` and `punch` (a hole, with the length kept). `slice` reads bytes, and `toList` is the whole
file, which a write at the end extends (`toList_append`) and a write inside patches
(`toList_patch`).
-/

import Mathlib.Data.List.GetD
import Mathlib.Tactic

namespace Genimage.Library

/-- The contents of a file. -/
@[ext]
structure File where
  length : Nat
  byte : Nat → UInt8
  beyond : ∀ i, length ≤ i → byte i = 0

namespace File

/-- The file without bytes. -/
def empty : File := ⟨0, fun _ => 0, fun _ _ => rfl⟩

/-- The file with the given bytes. -/
def ofList (bytes : List UInt8) : File where
  length := bytes.length
  byte i := bytes.getD i 0
  beyond _ above := List.getD_eq_default _ _ above

/-- The bytes of `[offset, offset + count)`. -/
def slice (file : File) (offset count : Nat) : List UInt8 :=
  (List.range count).map fun i => file.byte (offset + i)

/-- The bytes of the file. -/
def toList (file : File) : List UInt8 := file.slice 0 file.length

/-- The bytes at `offset` replaced by `data`; a gap in front of them reads as zeros. -/
def pwrite (file : File) (offset : Nat) (data : List UInt8) : File where
  length := if data = [] then file.length else max file.length (offset + data.length)
  byte i := if offset ≤ i ∧ i < offset + data.length then data.getD (i - offset) 0 else file.byte i
  beyond i above := by
    split_ifs at above with none
    · rw [if_neg (by rw [none, List.length_nil]; omega)]
      exact file.beyond i above
    · rw [if_neg (by omega)]
      exact file.beyond i (le_trans (le_max_left _ _) above)

/-- The file with another length; new bytes are zeros. -/
def truncate (file : File) (length : Nat) : File where
  length := length
  byte i := if i < length then file.byte i else 0
  beyond _ above := if_neg (not_lt.mpr above)

/-- Zeros in `[offset, offset + count)`, as far as the file reaches. -/
def punch (file : File) (offset count : Nat) : File where
  length := file.length
  byte i := if offset ≤ i ∧ i < offset + count then 0 else file.byte i
  beyond i above := by
    split_ifs
    · rfl
    · exact file.beyond i above

@[simp]
theorem length_slice (file : File) (offset count : Nat) :
    (file.slice offset count).length = count := by
  rw [slice, List.length_map, List.length_range]

@[simp]
theorem length_toList (file : File) : file.toList.length = file.length := file.length_slice 0 _

theorem slice_getD (file : File) (offset : Nat) {count i : Nat} (inside : i < count) :
    (file.slice offset count).getD i 0 = file.byte (offset + i) := by
  simp [slice, inside]

/-- Two slices in a row are one. -/
theorem slice_append (file : File) (offset first second : Nat) :
    file.slice offset first ++ file.slice (offset + first) second =
      file.slice offset (first + second) := by
  rw [slice, slice, slice, List.range_add, List.map_append, List.map_map]
  refine congrArg _ (List.map_congr_left fun i _ => ?_)
  rw [Function.comp_apply, Nat.add_assoc]

/-- A slice of a slice. -/
theorem slice_drop_take (file : File) (offset : Nat) {count skip width : Nat}
    (inside : skip + width ≤ count) :
    ((file.slice offset count).drop skip).take width = file.slice (offset + skip) width := by
  have split : file.slice offset count = file.slice offset skip ++
      (file.slice (offset + skip) width ++
        file.slice (offset + skip + width) (count - skip - width)) := by
    rw [slice_append, slice_append]
    congr 1
    omega
  rw [split, List.drop_left' (file.length_slice _ _), List.take_left' (file.length_slice _ _)]

/-- A slice of zeros. -/
theorem slice_eq_replicate {file : File} {offset count : Nat}
    (zero : ∀ i, offset ≤ i → i < offset + count → file.byte i = 0) :
    file.slice offset count = List.replicate count 0 := by
  refine List.eq_replicate_iff.mpr ⟨file.length_slice _ _, fun byte member => ?_⟩
  obtain ⟨i, inside, rfl⟩ := List.mem_map.mp member
  exact zero _ (Nat.le_add_right _ _) (Nat.add_lt_add_left (List.mem_range.mp inside) _)

theorem toList_getD (file : File) (i : Nat) : file.toList.getD i 0 = file.byte i := by
  by_cases inside : i < file.length
  · rw [toList, file.slice_getD 0 inside, Nat.zero_add]
  · rw [file.beyond i (not_lt.mp inside)]
    exact List.getD_eq_default _ _ (by rw [length_toList]; exact not_lt.mp inside)

/-- Lists of one length with the same bytes are equal. -/
theorem list_ext {first second : List UInt8} (same : first.length = second.length)
    (bytes : ∀ i, i < first.length → first.getD i 0 = second.getD i 0) : first = second := by
  refine List.ext_getElem same fun i inside inside' => ?_
  have := bytes i inside
  rwa [List.getD_eq_getElem _ _ inside, List.getD_eq_getElem _ _ inside'] at this

/-- What a write leaves at its place. -/
theorem slice_pwrite_self (file : File) (offset : Nat) (data : List UInt8) :
    (file.pwrite offset data).slice offset data.length = data := by
  refine list_ext (file.pwrite offset data |>.length_slice _ _) fun i inside => ?_
  rw [length_slice] at inside
  rw [slice_getD _ _ inside]
  show (if offset ≤ offset + i ∧ offset + i < offset + data.length then _ else _) = _
  rw [if_pos (by omega), Nat.add_sub_cancel_left]

/-- A write leaves what is apart from it. -/
theorem slice_pwrite_apart {file : File} {offset start count : Nat} {data : List UInt8}
    (apart : start + count ≤ offset ∨ offset + data.length ≤ start) :
    (file.pwrite offset data).slice start count = file.slice start count := by
  refine List.map_congr_left fun i inside => ?_
  have := List.mem_range.mp inside
  exact if_neg (by omega)

@[simp]
theorem ofList_toList (file : File) : ofList file.toList = file := by
  refine File.ext ?_ (funext fun i => ?_)
  · exact file.length_toList
  · exact toList_getD file i

@[simp]
theorem toList_ofList (bytes : List UInt8) : (ofList bytes).toList = bytes :=
  list_ext (length_toList _) fun i _ => toList_getD _ i

theorem pwrite_nil (file : File) (offset : Nat) : file.pwrite offset [] = file := by
  refine File.ext ?_ (funext fun i => ?_)
  · rfl
  · exact if_neg (by simp)

theorem pwrite_byte_of_mem {file : File} {offset i : Nat} {data : List UInt8}
    (inside : offset ≤ i ∧ i < offset + data.length) :
    (file.pwrite offset data).byte i = data.getD (i - offset) 0 := if_pos inside

theorem pwrite_byte_of_not_mem {file : File} {offset i : Nat} {data : List UInt8}
    (outside : ¬ (offset ≤ i ∧ i < offset + data.length)) :
    (file.pwrite offset data).byte i = file.byte i := if_neg outside

theorem length_pwrite {file : File} {offset : Nat} {data : List UInt8} (some : data ≠ []) :
    (file.pwrite offset data).length = max file.length (offset + data.length) := if_neg some

/-- **Two writes in a row are one.** -/
theorem pwrite_pwrite (file : File) (offset : Nat) (first second : List UInt8) :
    (file.pwrite offset first).pwrite (offset + first.length) second =
      file.pwrite offset (first ++ second) := by
  by_cases none : second = []
  · rw [none, pwrite_nil, List.append_nil]
  by_cases none' : first = []
  · rw [none', pwrite_nil, List.nil_append, List.length_nil, Nat.add_zero]
  refine File.ext ?_ (funext fun i => ?_)
  · rw [length_pwrite none, length_pwrite none', length_pwrite (by simp [none]),
      List.length_append]
    omega
  · simp only [pwrite, List.length_append]
    by_cases later : offset + first.length ≤ i ∧ i < offset + first.length + second.length
    · rw [if_pos later, if_pos (by omega), List.getD_append_right _ _ _ _ (by omega),
        Nat.sub_add_eq]
    · rw [if_neg later]
      by_cases early : offset ≤ i ∧ i < offset + first.length
      · rw [if_pos early, if_pos (by omega), List.getD_append _ _ _ _ (by omega)]
      · rw [if_neg early, if_neg (by omega)]

theorem length_pwrite_le (file : File) (offset : Nat) (data : List UInt8) :
    file.length ≤ (file.pwrite offset data).length := by
  show file.length ≤ if data = [] then file.length else max file.length (offset + data.length)
  split_ifs
  · exact le_rfl
  · exact le_max_left _ _

theorem length_pwrite_le_max (file : File) (offset : Nat) (data : List UInt8) :
    (file.pwrite offset data).length ≤ max file.length (offset + data.length) := by
  show (if data = [] then file.length else max file.length (offset + data.length)) ≤ _
  split_ifs
  · exact le_max_left _ _
  · exact le_rfl

@[simp]
theorem length_truncate (file : File) (length : Nat) : (file.truncate length).length = length := rfl

/-- Making a file longer changes no byte. -/
theorem truncate_byte {file : File} {length : Nat} (longer : file.length ≤ length) :
    (file.truncate length).byte = file.byte := by
  funext i
  show (if i < length then file.byte i else 0) = file.byte i
  split_ifs with inside
  · rfl
  · exact (file.beyond i (by omega)).symm

/-- Zeros past the end are a longer file. -/
theorem truncate_eq_pwrite {file : File} {offset count : Nat} (positive : 0 < count)
    (behind : file.length ≤ offset + count) (zero : ∀ i, offset ≤ i → file.byte i = 0) :
    file.truncate (offset + count) = file.pwrite offset (List.replicate count 0) := by
  have some : List.replicate count (0 : UInt8) ≠ [] := by simp; omega
  refine File.ext ?_ (funext fun i => ?_)
  · rw [length_pwrite some, List.length_replicate, length_truncate]
    omega
  · rw [truncate_byte behind]
    by_cases inside : offset ≤ i ∧ i < offset + (List.replicate count (0 : UInt8)).length
    · rw [pwrite_byte_of_mem inside, List.getD_replicate _ (by simp at inside; omega)]
      exact zero i inside.1
    · rw [pwrite_byte_of_not_mem inside]

/-- Zeros across the end: the file is made longer and its end is zeroed. -/
theorem truncate_pwrite_zeros {file : File} {offset length : Nat} (inside : offset < file.length)
    (longer : file.length ≤ length) :
    (file.truncate length).pwrite offset (List.replicate (file.length - offset) 0) =
      file.pwrite offset (List.replicate (length - offset) 0) := by
  have some : ∀ {count}, 0 < count → List.replicate count (0 : UInt8) ≠ [] := by
    intro count positive
    simp
    omega
  refine File.ext ?_ (funext fun i => ?_)
  · rw [length_pwrite (some (by omega)), length_pwrite (some (by omega)), length_truncate,
      List.length_replicate, List.length_replicate]
    omega
  · simp only [pwrite, List.length_replicate, truncate_byte longer]
    split_ifs with first second second
    · rw [List.getD_replicate _ (by omega), List.getD_replicate _ (by omega)]
    · omega
    · rw [List.getD_replicate _ (by omega)]
      exact file.beyond i (by omega)
    · rfl

/-- A hole inside the file is a write of zeros. -/
theorem punch_eq_pwrite {file : File} {offset count : Nat} (inside : offset + count ≤ file.length) :
    file.punch offset count = file.pwrite offset (List.replicate count 0) := by
  refine File.ext ?_ (funext fun i => ?_)
  · by_cases none : List.replicate count (0 : UInt8) = []
    · rw [none, pwrite_nil]
      rfl
    · rw [length_pwrite none, List.length_replicate, max_eq_left inside]
      rfl
  · show (if offset ≤ i ∧ i < offset + count then (0 : UInt8) else file.byte i) = _
    by_cases within : offset ≤ i ∧ i < offset + (List.replicate count (0 : UInt8)).length
    · rw [pwrite_byte_of_mem within, List.getD_replicate _ (by simp at within; omega)]
      rw [List.length_replicate] at within
      rw [if_pos within]
    · rw [pwrite_byte_of_not_mem within]
      rw [List.length_replicate] at within
      rw [if_neg within]

/-- **A write at the end extends the file.** -/
theorem toList_append (file : File) (data : List UInt8) :
    (file.pwrite file.length data).toList = file.toList ++ data := by
  by_cases none : data = []
  · rw [none, pwrite_nil, List.append_nil]
  have length : (file.pwrite file.length data).length = file.length + data.length := by
    rw [length_pwrite none]
    omega
  refine list_ext (by simp [length]) fun i inside => ?_
  rw [length_toList, length] at inside
  rw [toList_getD]
  by_cases old : i < file.length
  · rw [pwrite_byte_of_not_mem (by omega), List.getD_append _ _ _ _ (by simpa using old),
      toList_getD]
  · rw [pwrite_byte_of_mem (by omega), List.getD_append_right _ _ _ _ (by simpa using old),
      length_toList]

/-- **A write inside replaces a block.** -/
theorem toList_patch {file : File} {front block rest data : List UInt8}
    (split : file.toList = front ++ block ++ rest) (fits : data.length = block.length) :
    (file.pwrite front.length data).toList = front ++ data ++ rest := by
  by_cases none : data = []
  · have : block = [] := List.length_eq_zero_iff.mp (by rw [← fits, none, List.length_nil])
    rw [none, pwrite_nil, split, this]
  have total : file.length = front.length + block.length + rest.length := by
    rw [← length_toList, split, List.length_append, List.length_append]
  have length : (file.pwrite front.length data).length = file.length := by
    rw [length_pwrite none]
    omega
  refine list_ext (by simp [length, total, fits, Nat.add_assoc]) fun i inside => ?_
  rw [length_toList, length] at inside
  rw [toList_getD]
  by_cases before : i < front.length
  · rw [pwrite_byte_of_not_mem (by omega), ← toList_getD, split, List.append_assoc,
      List.append_assoc, List.getD_append _ _ _ _ before, List.getD_append _ _ _ _ before]
  · by_cases middle : i < front.length + data.length
    · rw [pwrite_byte_of_mem (by omega), List.append_assoc,
        List.getD_append_right _ _ _ _ (by omega), List.getD_append _ _ _ _ (by omega)]
    · rw [pwrite_byte_of_not_mem (by omega), ← toList_getD, split,
        List.getD_append_right _ _ _ _ (by rw [List.length_append]; omega),
        List.getD_append_right _ _ _ _ (by rw [List.length_append]; omega),
        List.length_append, List.length_append, fits]

end File

end Genimage.Library
