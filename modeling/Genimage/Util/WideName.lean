/-
**Names widened byte by byte.**

The names of a GPT are UTF-16, and `hdimage_insert_gpt` widens each byte of a UTF-8 text, with its sign.
For ASCII that is the same. Behind the first other character it is the same in one case only: the
sequence of characters whose own UTF-8 bytes, widened, are the sequence again (`selfUnit`).
-/

import Genimage.Util.CString

namespace Genimage

/-! ### Encodings -/

/-- The characters of a C string. -/
def cChars (text : String) : List Char := text.toList.takeWhile (· ≠ '\x00')

/-- The UTF-16 code units of a character. -/
def utf16Units (c : Char) : List Nat :=
  if c.toNat < 0x10000 then [c.toNat]
  else [0xd800 + (c.toNat - 0x10000) / 0x400, 0xdc00 + (c.toNat - 0x10000) % 0x400]

/-- The UTF-8 bytes of a character, each widened to a code unit. -/
def wideUnits (c : Char) : List Nat :=
  (String.utf8EncodeChar c).map fun byte => (widenChar byte).toNat

theorem toNat_widenChar (byte : UInt8) :
    (widenChar byte).toNat = if byte.toNat < 0x80 then byte.toNat else 0xff00 + byte.toNat := by
  have all : ∀ n < 256, (widenChar (UInt8.ofNat n)).toNat = if n < 0x80 then n else 0xff00 + n := by
    decide +kernel
  have this := all byte.toNat byte.toNat_lt
  rwa [UInt8.ofNat_toNat] at this

theorem toNat_widenChar_ofNat {n : Nat} (small : n < 256) :
    (widenChar (UInt8.ofNat n)).toNat = if n < 0x80 then n else 0xff00 + n := by
  rw [toNat_widenChar, UInt8.toNat_ofNat_of_lt' small]

/-- Only NUL has a NUL among its bytes. -/
theorem utf8EncodeChar_ne_zero {c : Char} (nonzero : c ≠ '\x00') :
    ∀ byte ∈ String.utf8EncodeChar c, byte ≠ 0 := by
  have positive : 0 < c.val.toNat := by
    refine Nat.pos_of_ne_zero fun zero => nonzero ?_
    exact Char.ext (UInt32.toNat_inj.mp zero)
  have kept : ∀ n, 0 < n → n < 256 → UInt8.ofNat n ≠ 0 := by
    intro n above below zero
    have value := congrArg UInt8.toNat zero
    rw [UInt8.toNat_ofNat_of_lt' below] at value
    exact absurd value (Nat.ne_of_gt above)
  unfold String.utf8EncodeChar
  dsimp only
  split_ifs
  all_goals
    simp only [List.forall_mem_cons, List.not_mem_nil, false_imp_iff, implies_true, and_true]
    repeat' refine And.intro ?_ ?_
    all_goals exact kept _ (by omega) (by omega)

/-- The characters in front of the NUL have no NUL among their bytes. -/
theorem cBytes_eq (text : String) : cBytes text = (cChars text).flatMap String.utf8EncodeChar := by
  unfold cBytes cChars
  induction text.toList with
  | nil => rfl
  | cons c chars ih =>
    by_cases zero : c = '\x00'
    · rw [zero, List.takeWhile_cons_of_neg (by decide)]
      rfl
    · rw [List.takeWhile_cons_of_pos (by simpa using zero), List.flatMap_cons, List.flatMap_cons,
        List.takeWhile_append_of_pos (by simpa using utf8EncodeChar_ne_zero zero), ih]

/-! ### The sequence that is its own widening -/

/-- The low byte of the unit `i` of the sequence: the UTF-8 encoding of `U+FFxx` is three bytes. -/
def selfByte (i : Nat) : Nat :=
  if i % 3 = 0 then 0xef
  else if i % 3 = 1 then 0xbc + selfByte (i / 3) / 64
  else 0x80 + selfByte (i / 3) % 64
termination_by i
decreasing_by all_goals omega

/-- `U+FFEF U+FFBF U+FFAF U+FFEF U+FFBE U+FFBF ...` -/
def selfUnit (i : Nat) : Nat := 0xff00 + selfByte i

theorem selfByte_bounds (i : Nat) : 0x80 ≤ selfByte i ∧ selfByte i < 256 := by
  induction i using selfByte.induct with
  | case1 i first => rw [selfByte, if_pos first]; decide
  | case2 i first second ih => rw [selfByte, if_neg first, if_pos second]; omega
  | case3 i first second ih => rw [selfByte, if_neg first, if_neg second]; omega

/-- The three units that a unit of the sequence is widened to. -/
theorem selfUnit_triple (i : Nat) :
    selfUnit (3 * i) = 0xffef ∧ selfUnit (3 * i + 1) = 0xff00 + (0xbc + selfByte i / 64) ∧
      selfUnit (3 * i + 2) = 0xff00 + (0x80 + selfByte i % 64) := by
  refine ⟨?_, ?_, ?_⟩
  · rw [selfUnit, selfByte, if_pos (by omega)]
  · rw [selfUnit, selfByte, if_neg (by omega), if_pos (by omega), show (3 * i + 1) / 3 = i by omega]
  · rw [selfUnit, selfByte, if_neg (by omega), if_neg (by omega), show (3 * i + 2) / 3 = i by omega]

/-- **A character of the sequence**: one unit in UTF-16, three when its bytes are widened. -/
theorem units_of_self {c : Char} {i : Nat} (same : c.toNat = selfUnit i) :
    utf16Units c = [selfUnit i] ∧
      wideUnits c = [selfUnit (3 * i), selfUnit (3 * i + 1), selfUnit (3 * i + 2)] := by
  obtain ⟨low, high⟩ := selfByte_bounds i
  obtain ⟨first, second, third⟩ := selfUnit_triple i
  have value : c.toNat = 0xff00 + selfByte i := same
  constructor
  · rw [utf16Units, if_pos (by omega), same]
  · have encoded : String.utf8EncodeChar c = [UInt8.ofNat 0xef,
        UInt8.ofNat (0xbc + selfByte i / 64), UInt8.ofNat (0x80 + selfByte i % 64)] := by
      unfold String.utf8EncodeChar
      rw [show c.val.toNat = 0xff00 + selfByte i from value, if_neg (by omega), if_neg (by omega),
        if_pos (by omega)]
      rw [show (0xff00 + selfByte i) / 4096 % 16 + 0xe0 = 0xef by omega,
        show (0xff00 + selfByte i) / 64 % 64 + 0x80 = 0xbc + selfByte i / 64 by omega,
        show (0xff00 + selfByte i) % 64 + 0x80 = 0x80 + selfByte i % 64 by omega]
    rw [wideUnits, encoded, first, second, third]
    simp only [List.map_cons, List.map_nil]
    rw [toNat_widenChar_ofNat (by omega), toNat_widenChar_ofNat (by omega),
      toNat_widenChar_ofNat (by omega), if_neg (by omega), if_neg (by omega), if_neg (by omega)]

/-! ### When a name is kept -/

/-- **The first `count` units of a name are kept**: ASCII, and behind it nothing or the sequence. -/
def NameSurvives : Nat → List Char → Prop
  | 0, _ => True
  | _ + 1, [] => True
  | count + 1, c :: chars =>
    if c.toNat < 0x80 then NameSurvives count chars
    else ((c :: chars).take (count + 1)).map Char.toNat = (List.range (count + 1)).map selfUnit

variable {c : Char} {chars front tail : List Char} {count m : Nat}

/-- An ASCII name is kept. -/
theorem nameSurvives_ascii : ∀ {count : Nat} {chars : List Char},
    (∀ c ∈ chars, c.toNat < 0x80) → NameSurvives count chars
  | 0, _, _ => trivial
  | _ + 1, [], _ => trivial
  | count + 1, c :: chars, ascii => by
    rw [List.forall_mem_cons] at ascii
    rw [NameSurvives, if_pos ascii.1]
    exact nameSurvives_ascii ascii.2

/-- Characters of the sequence, one after the other. -/
theorem units_of_selfs (same : front.map Char.toNat = (List.range m).map selfUnit) :
    front.flatMap utf16Units = (List.range m).map selfUnit ∧
      front.flatMap wideUnits = (List.range (3 * m)).map selfUnit := by
  induction m generalizing front with
  | zero =>
    rw [List.map_eq_nil_iff.mp same]
    exact ⟨rfl, rfl⟩
  | succ m ih =>
    rw [List.range_succ, List.map_append, List.map_singleton] at same
    obtain ⟨earlier, last, rfl, kept, single⟩ := List.map_eq_append_iff.mp same
    obtain ⟨c, rest, rfl, value, none⟩ := List.map_eq_cons_iff.mp single
    rw [List.map_eq_nil_iff.mp none]
    obtain ⟨units, wide⟩ := ih kept
    obtain ⟨unit, triple⟩ := units_of_self value
    constructor
    · rw [List.flatMap_append, units, List.flatMap_singleton, unit, List.range_succ, List.map_append,
        List.map_singleton]
    · rw [List.flatMap_append, wide, List.flatMap_singleton, triple, Nat.mul_succ, List.range_add,
        List.map_append]
      rfl

/-- The first unit of a character that is not a surrogate is the character. -/
theorem toNat_of_utf16 {unit : Nat} (first : (utf16Units c).head? = some unit) (plain : 0xdc00 ≤ unit) :
    c.toNat = unit := by
  have valid : c.toNat < 0xd800 ∨ (0xdfff < c.toNat ∧ c.toNat < 0x110000) := c.valid
  unfold utf16Units at first
  split_ifs at first with small
  · exact Option.some.inj first
  · have := Option.some.inj first
    omega

/-- The first byte of a character that is not ASCII, widened. -/
theorem head_wideUnits (other : ¬ c.toNat < 0x80) : (wideUnits c).head? = some (0xff00 +
    if c.toNat < 0x800 then c.toNat / 64 + 0xc0
    else if c.toNat < 0x10000 then c.toNat / 4096 + 0xe0 else c.toNat / 262144 + 0xf0) := by
  have valid : c.toNat < 0xd800 ∨ (0xdfff < c.toNat ∧ c.toNat < 0x110000) := c.valid
  have value : c.val.toNat = c.toNat := rfl
  unfold wideUnits String.utf8EncodeChar
  rw [value]
  dsimp only
  rw [if_neg (by omega)]
  split_ifs
  all_goals try omega
  all_goals
    simp only [List.map_cons, List.head?_cons]
    rw [toNat_widenChar_ofNat (by omega), if_neg (by omega)]
    exact congrArg some (by omega)

/-- The first character that is not ASCII has to be the first one of the sequence. -/
theorem toNat_of_first (other : ¬ c.toNat < 0x80) {unit : Nat}
    (wide : (wideUnits c).head? = some unit) (first : (utf16Units c).head? = some unit) :
    c.toNat = selfUnit 0 := by
  have zero : selfUnit 0 = 0xffef := (selfUnit_triple 0).1
  rw [head_wideUnits other, Option.some.injEq] at wide
  have same := toNat_of_utf16 first (by rw [← wide]; omega)
  rw [zero]
  split_ifs at wide <;> omega

theorem head_utf16Units (c : Char) (more : List Nat) :
    (utf16Units c ++ more).head? = (utf16Units c).head? := by
  unfold utf16Units
  split_ifs <;> rfl

/-- The next character has to be the next one of the sequence. -/
theorem next_self (same : front.map Char.toNat = (List.range m).map selfUnit) (positive : 0 < m)
    (inside : m < count)
    (kept : ((front ++ tail).flatMap wideUnits).take count =
      ((front ++ tail).flatMap utf16Units).take count) :
    ∃ c rest, tail = c :: rest ∧ c.toNat = selfUnit m := by
  obtain ⟨units, wide⟩ := units_of_selfs same
  rw [List.flatMap_append, List.flatMap_append, units, wide] at kept
  have at_m := congrArg (·[m]?) kept
  simp only [List.getElem?_take, if_pos inside] at at_m
  rw [List.getElem?_append_left (by simp; omega), List.getElem?_append_right (by simp)] at at_m
  simp only [List.length_map, List.length_range, Nat.sub_self, List.getElem?_map,
    List.getElem?_range (show m < 3 * m by omega), Option.map_some] at at_m
  cases tail with
  | nil => cases at_m
  | cons c rest =>
    refine ⟨c, rest, rfl, ?_⟩
    rw [List.flatMap_cons, ← List.head?_eq_getElem?, head_utf16Units] at at_m
    have bounds := selfByte_bounds m
    exact toNat_of_utf16 at_m.symm (by unfold selfUnit; omega)

/-- A name that is not ASCII any more; by induction on the number of characters that are known. -/
theorem selfs_of_kept (other : ¬ c.toNat < 0x80)
    (kept : ((c :: chars).flatMap wideUnits).take (count + 1) =
      ((c :: chars).flatMap utf16Units).take (count + 1)) :
    ∀ m ≤ count, ∃ front tail, c :: chars = front ++ tail ∧
      front.map Char.toNat = (List.range (m + 1)).map selfUnit := by
  intro m within
  induction m with
  | zero =>
    refine ⟨[c], chars, rfl, ?_⟩
    have wide := head_wideUnits other
    have heads := congrArg List.head? kept
    rw [List.head?_take, List.head?_take, if_neg (by omega), if_neg (by omega), List.flatMap_cons,
      List.flatMap_cons, List.head?_append, wide, Option.some_or, head_utf16Units] at heads
    rw [List.map_singleton, toNat_of_first other wide heads.symm]
    rfl
  | succ m ih =>
    obtain ⟨front, tail, split, same⟩ := ih (by omega)
    rw [split] at kept
    obtain ⟨d, rest, rfl, value⟩ := next_self same (Nat.succ_pos m) (by omega) kept
    refine ⟨front ++ [d], rest, by rw [split, List.append_assoc, List.singleton_append], ?_⟩
    rw [List.map_append, same, List.map_singleton, value, List.range_succ (n := m + 1),
      List.map_append, List.map_singleton]

/-- **Widening keeps a name exactly when** it survives. -/
theorem wideUnits_take_iff : ∀ {count : Nat} {chars : List Char},
    (chars.flatMap wideUnits).take count = (chars.flatMap utf16Units).take count ↔
      NameSurvives count chars
  | 0, _ => by simp [NameSurvives]
  | _ + 1, [] => by simp [NameSurvives]
  | count + 1, c :: chars => by
    rw [NameSurvives]
    split_ifs with ascii
    · -- one unit on both sides
      have wide : wideUnits c = [c.toNat] := by
        unfold wideUnits String.utf8EncodeChar
        rw [show c.val.toNat = c.toNat from rfl, if_pos (show c.toNat ≤ 0x7f by omega),
          List.map_singleton, toNat_widenChar_ofNat (by omega), if_pos ascii]
      rw [List.flatMap_cons, List.flatMap_cons, wide, utf16Units, if_pos (by omega),
        List.singleton_append, List.singleton_append, List.take_succ_cons, List.take_succ_cons,
        List.cons_inj_right, wideUnits_take_iff]
    · constructor
      · intro kept
        obtain ⟨front, tail, split, same⟩ := selfs_of_kept ascii kept count le_rfl
        have length : front.length = count + 1 := by
          simpa using congrArg List.length same
        rw [split, ← length, List.take_left, same, length]
      · intro same
        obtain ⟨units, wide⟩ := units_of_selfs same
        rw [← List.take_append_drop (count + 1) (c :: chars), List.flatMap_append, List.flatMap_append,
          units, wide, List.take_append_of_le_length (by simp),
          List.take_append_of_le_length (by simp), ← List.map_take, ← List.map_take, List.take_range,
          List.take_range, min_eq_left (by omega), min_self]

end Genimage
