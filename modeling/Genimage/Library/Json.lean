/-
**JSON objects of plain strings.**

The part of JSON that a program writes with `printf`: objects without white space whose keys and values
are strings without escapes. `readObject` accepts it and nothing else, and it reads back what
`writeObject` writes for plain strings (`readObject_writeObject`).
-/

import Mathlib.Tactic

namespace Genimage.Library.Json

/-- A byte that stands for itself in a string: printable ASCII, and neither `"` nor the backslash. -/
def isPlain (c : UInt8) : Bool := 0x20 ≤ c && c < 0x7f && c ≠ 0x22 && c ≠ 0x5c

/-! ### The writer -/

def writeString (text : List UInt8) : List UInt8 := 0x22 :: (text ++ [0x22])

def writeNamed (member : List UInt8 × List UInt8) : List UInt8 :=
  writeString member.1 ++ 0x3a :: writeString member.2

/-- The members behind the brace, and the one that closes. -/
def writeMembers : List (List UInt8 × List UInt8) → List UInt8
  | [] => [0x7d]
  | [member] => writeNamed member ++ [0x7d]
  | member :: rest => writeNamed member ++ 0x2c :: writeMembers rest

def writeObject (members : List (List UInt8 × List UInt8)) : List UInt8 :=
  0x7b :: writeMembers members

/-! ### The reader -/

/-- A string, and the text behind it. -/
def readString : List UInt8 → Option (List UInt8 × List UInt8)
  | 0x22 :: text =>
    match text.dropWhile isPlain with
    | 0x22 :: rest => some (text.takeWhile isPlain, rest)
    | _ => none
  | _ => none

def readMember (text : List UInt8) : Option ((List UInt8 × List UInt8) × List UInt8) :=
  match readString text with
  | some (key, 0x3a :: text) => (readString text).map fun value => ((key, value.1), value.2)
  | _ => none

/-- At most `fuel` members. -/
def readMembers : Nat → List UInt8 → Option (List (List UInt8 × List UInt8) × List UInt8)
  | 0, _ => none
  | fuel + 1, text =>
    match readMember text with
    | some (member, 0x2c :: text) =>
      (readMembers fuel text).map fun members => (member :: members.1, members.2)
    | some (member, 0x7d :: rest) => some ([member], rest)
    | _ => none

/-- An object, and the text behind it. -/
def readObject : List UInt8 → Option (List (List UInt8 × List UInt8) × List UInt8)
  | 0x7b :: 0x7d :: rest => some ([], rest)
  | 0x7b :: text => readMembers text.length text
  | _ => none

/-! ### The round trip -/

/-- Both strings of a member are plain. -/
def PlainMember (member : List UInt8 × List UInt8) : Prop :=
  member.1.all isPlain = true ∧ member.2.all isPlain = true

theorem readString_writeString {text : List UInt8} (plain : text.all isPlain = true)
    (rest : List UInt8) : readString (writeString text ++ rest) = some (text, rest) := by
  have all : ∀ c ∈ text, isPlain c = true := List.all_eq_true.mp plain
  have quote : isPlain 0x22 = false := rfl
  rw [writeString, List.cons_append, List.append_assoc, List.singleton_append, readString,
    List.dropWhile_append_of_pos all, List.takeWhile_append_of_pos all,
    List.dropWhile_cons_of_neg (by rw [quote]; decide),
    List.takeWhile_cons_of_neg (by rw [quote]; decide), List.append_nil]
  rfl

theorem readMember_writeNamed {member : List UInt8 × List UInt8} (plain : PlainMember member)
    (rest : List UInt8) : readMember (writeNamed member ++ rest) = some (member, rest) := by
  rw [writeNamed, List.append_assoc, List.cons_append, readMember,
    readString_writeString plain.1]
  simp only
  rw [readString_writeString plain.2, Option.map_some]

/-- The members are read back; by induction on them. -/
theorem readMembers_writeMembers {members : List (List UInt8 × List UInt8)} (nonempty : members ≠ [])
    (plain : ∀ member ∈ members, PlainMember member) (rest : List UInt8) :
    ∀ {fuel : Nat}, members.length ≤ fuel →
      readMembers fuel (writeMembers members ++ rest) = some (members, rest) := by
  induction members with
  | nil => exact absurd rfl nonempty
  | cons member members ih =>
    intro fuel enough
    rw [List.length_cons] at enough
    obtain ⟨fuel, rfl⟩ := Nat.exists_eq_succ_of_ne_zero (show fuel ≠ 0 by omega)
    rw [List.forall_mem_cons] at plain
    cases members with
    | nil =>
      rw [writeMembers, List.append_assoc, List.singleton_append, readMembers,
        readMember_writeNamed plain.1]
      rfl
    | cons second members =>
      rw [writeMembers, List.append_assoc, List.cons_append, readMembers,
        readMember_writeNamed plain.1]
      simp only
      rw [ih (List.cons_ne_nil _ _) plain.2 (Nat.le_of_succ_le_succ enough), Option.map_some]
      exact List.cons_ne_nil _ _

theorem length_le_writeMembers (members : List (List UInt8 × List UInt8)) :
    members.length ≤ (writeMembers members).length := by
  induction members with
  | nil => exact Nat.zero_le _
  | cons member members ih =>
    cases members with
    | nil => simp [writeMembers]
    | cons second members =>
      rw [writeMembers, List.length_append, List.length_cons (a := 0x2c), List.length_cons]
      · omega
      · exact List.cons_ne_nil _ _

/-- **An object of plain strings is read back**, and the rest of the text is left. -/
theorem readObject_writeObject {members : List (List UInt8 × List UInt8)}
    (plain : ∀ member ∈ members, PlainMember member) (rest : List UInt8) :
    readObject (writeObject members ++ rest) = some (members, rest) := by
  cases members with
  | nil => rfl
  | cons member members =>
    have enough : (member :: members).length ≤ (writeMembers (member :: members) ++ rest).length := by
      rw [List.length_append]
      exact (length_le_writeMembers _).trans (Nat.le_add_right _ _)
    have run := readMembers_writeMembers (List.cons_ne_nil _ _) plain rest enough
    rw [writeObject, List.cons_append]
    have quote : ∃ text, writeMembers (member :: members) ++ rest = 0x22 :: text := by
      cases members <;> exact ⟨_, rfl⟩
    obtain ⟨text, same⟩ := quote
    rw [same] at run ⊢
    exact run

end Genimage.Library.Json
