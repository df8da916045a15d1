/-
**Little-endian numbers in byte strings.**

`leBytes width value` are the bytes of `value` in `width` bytes, `leValue` reads them back. A record
of fixed-width fields is the `flatten` of a list of blocks; `field` reads the number at a place in it,
and `field_block` says that it is the block written there.
-/

import Mathlib.Tactic

namespace Genimage.Library

/-- The `width` low bytes of `value`, lowest first. -/
def leBytes : Nat → Nat → List UInt8
  | 0, _ => []
  | width + 1, value => UInt8.ofNat value :: leBytes width (value / 256)

/-- The number with these bytes, lowest first. -/
def leValue : List UInt8 → Nat
  | [] => 0
  | byte :: rest => byte.toNat + 256 * leValue rest

@[simp]
theorem length_leBytes (width value : Nat) : (leBytes width value).length = width := by
  induction width generalizing value with
  | zero => rfl
  | succ width ih => rw [leBytes, List.length_cons, ih]

/-- **Reading back gives the number**, cut to the width. -/
theorem leValue_leBytes_mod (width value : Nat) :
    leValue (leBytes width value) = value % 256 ^ width := by
  induction width generalizing value with
  | zero => rw [leBytes, leValue, pow_zero, Nat.mod_one]
  | succ width ih =>
    have low : (UInt8.ofNat value).toNat = value % 256 := UInt8.toNat_ofNat'
    rw [leBytes, leValue, ih, low, show 256 ^ (width + 1) = 256 * 256 ^ width from pow_succ' 256 _,
      Nat.mod_mul]

theorem leValue_leBytes {width value : Nat} (small : value < 256 ^ width) :
    leValue (leBytes width value) = value := by
  rw [leValue_leBytes_mod, Nat.mod_eq_of_lt small]

@[simp]
theorem leValue_leBytes_uint32 (word : UInt32) : leValue (leBytes 4 word.toNat) = word.toNat :=
  leValue_leBytes word.toNat_lt

@[simp]
theorem leValue_leBytes_uint64 (word : UInt64) : leValue (leBytes 8 word.toNat) = word.toNat :=
  leValue_leBytes word.toNat_lt

@[simp]
theorem leValue_leBytes_uint16 (word : UInt16) : leValue (leBytes 2 word.toNat) = word.toNat :=
  leValue_leBytes word.toNat_lt

/-- **The number determines its bytes.** -/
theorem leValue_inj : ∀ {first second : List UInt8}, first.length = second.length →
    leValue first = leValue second → first = second
  | [], [], _, _ => rfl
  | byte :: rest, byte' :: rest', length, same => by
    have small := byte.toNat_lt
    have small' := byte'.toNat_lt
    rw [leValue, leValue] at same
    rw [UInt8.toNat_inj.mp (show byte.toNat = byte'.toNat by omega),
      leValue_inj (Nat.succ.inj length) (by omega)]

theorem leValue_lt (bytes : List UInt8) : leValue bytes < 256 ^ bytes.length := by
  induction bytes with
  | nil => decide
  | cons byte rest ih =>
    have := byte.toNat_lt
    rw [leValue, List.length_cons, pow_succ]
    omega

/-- The number in the `width` bytes at `offset`. -/
def field (bytes : List UInt8) (offset width : Nat) : Nat := leValue ((bytes.drop offset).take width)

theorem field_lt (bytes : List UInt8) (offset width : Nat) :
    field bytes offset width < 256 ^ width := by
  refine (leValue_lt _).trans_le (Nat.pow_le_pow_right (by decide) ?_)
  exact List.length_take_le _ _

/-- **A block of a record**, read at its place. -/
theorem field_block (front : List (List UInt8)) {block : List UInt8} {back : List (List UInt8)}
    {rest : List UInt8} {offset width : Nat} (place : offset = front.flatten.length)
    (exact : block.length = width) :
    field ((front ++ block :: back).flatten ++ rest) offset width = leValue block := by
  rw [field, List.flatten_append, List.flatten_cons, List.append_assoc, place, List.drop_left,
    List.append_assoc, ← exact, List.take_left]

/-- **A block of a table** whose blocks all have one width. -/
theorem flatMap_block {α : Type} {f : α → List UInt8} {width : Nat}
    (exact : ∀ a, (f a).length = width) (rest : List UInt8) :
    ∀ {items : List α} {i : Nat} (inside : i < items.length),
      ((items.flatMap f ++ rest).drop (width * i)).take width = f items[i]
  | item :: items, 0, _ => by
    rw [Nat.mul_zero, List.drop_zero, List.flatMap_cons, List.append_assoc,
      List.take_left' (exact item)]
    rfl
  | item :: items, i + 1, inside => by
    rw [List.flatMap_cons, List.append_assoc, Nat.mul_succ, Nat.add_comm, ← List.drop_drop,
      List.drop_left' (exact item), flatMap_block exact rest (Nat.lt_of_succ_lt_succ inside)]
    rfl

theorem length_flatMap_block {α : Type} {f : α → List UInt8} {width : Nat}
    (exact : ∀ a, (f a).length = width) (items : List α) :
    (items.flatMap f).length = width * items.length := by
  induction items with
  | nil => rfl
  | cons item items ih =>
    rw [List.flatMap_cons, List.length_append, exact, ih, List.length_cons, Nat.mul_succ,
      Nat.add_comm]

/-- The first `count` blocks of `width` bytes. -/
def chunks (width : Nat) : Nat → List UInt8 → List (List UInt8)
  | 0, _ => []
  | count + 1, bytes => bytes.take width :: chunks width count (bytes.drop width)

/-- **A table is cut into its blocks.** -/
theorem chunks_flatten {width : Nat} (rest : List UInt8) :
    ∀ {blocks : List (List UInt8)}, (∀ block ∈ blocks, block.length = width) →
      chunks width blocks.length (blocks.flatten ++ rest) = blocks
  | [], _ => rfl
  | block :: blocks, exact => by
    rw [List.forall_mem_cons] at exact
    rw [List.length_cons, chunks, List.flatten_cons, List.append_assoc, List.take_left' exact.1,
      List.drop_left' exact.1, chunks_flatten rest exact.2]

/-- A string that is the same word at every place repeats it. -/
theorem eq_replicate_of_words {width : Nat} {word : List UInt8} :
    ∀ {count : Nat} {bytes : List UInt8}, bytes.length = count * width →
      (∀ i < count, (bytes.drop (width * i)).take width = word) →
      bytes = (List.replicate count word).flatten
  | 0, bytes, length, _ => by
    rw [Nat.zero_mul] at length
    exact List.length_eq_zero_iff.mp length
  | count + 1, bytes, length, words => by
    have first : bytes.take width = word := words 0 (Nat.succ_pos _)
    have rest : bytes.drop width = (List.replicate count word).flatten := by
      have short : (bytes.drop width).length = count * width := by
        rw [List.length_drop, length, Nat.succ_mul, Nat.add_sub_cancel]
      refine eq_replicate_of_words short fun i inside => ?_
      rw [List.drop_drop, Nat.add_comm, ← Nat.mul_succ]
      exact words (i + 1) (Nat.succ_lt_succ inside)
    rw [List.replicate_succ, List.flatten_cons, ← rest, ← first, List.take_append_drop]

/-- The same for the numbers of the words. -/
theorem eq_replicate_of_field {width count : Nat} {bytes : List UInt8}
    (length : bytes.length = count * width)
    (same : ∀ i < count, field bytes (width * i) width = field bytes 0 width) :
    bytes = (List.replicate count (bytes.take width)).flatten := by
  refine eq_replicate_of_words length fun i inside => leValue_inj ?_ (same i inside)
  have room : width * i + width ≤ count * width := by
    rw [← Nat.mul_succ, Nat.mul_comm]
    exact Nat.mul_le_mul_right _ inside
  rw [List.length_take, List.length_take, List.length_drop, length]
  omega

end Genimage.Library
