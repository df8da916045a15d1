/-
**Xorshift steps.**

A word is added to itself, shifted by `count`. Two equal steps are one step with twice the shift
(`shiftRightStep_twice`, `shiftLeftStep_twice`), and a shift by the whole width is no step at all. So
the step is undone by the steps with `count`, `2 * count`, `4 * count` and so on.
-/

import Mathlib.Tactic

namespace Genimage.Library.Xorshift

variable {w : Nat}

/-- `x ^= x >> count` -/
def shiftRightStep (count : Nat) (x : BitVec w) : BitVec w := x ^^^ x >>> count

/-- `x ^= x << count` -/
def shiftLeftStep (count : Nat) (x : BitVec w) : BitVec w := x ^^^ x <<< count

/-- In a sum the same word twice drops out. -/
theorem xor_xor_cancel_middle (x y z : BitVec w) : x ^^^ y ^^^ (y ^^^ z) = x ^^^ z := by
  rw [BitVec.xor_assoc, ← BitVec.xor_assoc y y, BitVec.xor_self, BitVec.zero_xor]

theorem shiftRightStep_twice (count : Nat) (x : BitVec w) :
    shiftRightStep count (shiftRightStep count x) = shiftRightStep (count + count) x := by
  simp only [shiftRightStep, BitVec.ushiftRight_xor_distrib, xor_xor_cancel_middle,
    BitVec.shiftRight_add]

theorem shiftLeftStep_twice (count : Nat) (x : BitVec w) :
    shiftLeftStep count (shiftLeftStep count x) = shiftLeftStep (count + count) x := by
  simp only [shiftLeftStep, BitVec.shiftLeft_xor_distrib, xor_xor_cancel_middle, BitVec.shiftLeft_add]

theorem shiftRightStep_of_le {count : Nat} (wide : w ≤ count) (x : BitVec w) :
    shiftRightStep count x = x := by
  have none : x >>> count = 0#w := by
    apply BitVec.eq_of_getLsbD_eq
    intro i _
    rw [BitVec.getLsbD_ushiftRight, BitVec.getLsbD_of_ge _ _ (by omega), BitVec.getLsbD_zero]
  rw [shiftRightStep, none, BitVec.xor_zero]

theorem shiftLeftStep_of_le {count : Nat} (wide : w ≤ count) (x : BitVec w) :
    shiftLeftStep count x = x := by
  have none : x <<< count = 0#w := BitVec.shiftLeft_eq_zero wide
  rw [shiftLeftStep, none, BitVec.xor_zero]

/-- The steps that undo a step by `count`: with `count`, twice `count` and so on. -/
def undo (step : Nat → BitVec w → BitVec w) (count : Nat) : Nat → BitVec w → BitVec w
  | 0, x => x
  | rounds + 1, x => undo step (count + count) rounds (step count x)

/-- **Enough doublings undo a step**, where equal steps double and a wide one is nothing. -/
theorem undo_step {step : Nat → BitVec w → BitVec w}
    (twice : ∀ count x, step count (step count x) = step (count + count) x)
    (wide : ∀ count, w ≤ count → ∀ x, step count x = x) :
    ∀ rounds count x, w ≤ count * 2 ^ rounds → undo step count rounds (step count x) = x
  | 0, count, x, enough => wide count (by simpa using enough) x
  | rounds + 1, count, x, enough => by
    rw [undo, twice]
    refine undo_step twice wide rounds (count + count) x ?_
    rw [pow_succ] at enough
    calc w ≤ count * (2 ^ rounds * 2) := enough
      _ = (count + count) * 2 ^ rounds := by ring

/-- The doublings commute with the step, so that they also undo it from the other side. -/
theorem step_undo {step : Nat → BitVec w → BitVec w}
    (twice : ∀ count x, step count (step count x) = step (count + count) x)
    (wide : ∀ count, w ≤ count → ∀ x, step count x = x)
    (comm : ∀ first second x, step first (step second x) = step second (step first x)) :
    ∀ rounds count x, w ≤ count * 2 ^ rounds → step count (undo step count rounds x) = x := by
  have pull : ∀ rounds count other x,
      step other (undo step count rounds x) = undo step count rounds (step other x) := by
    intro rounds
    induction rounds with
    | zero => exact fun _ _ _ => rfl
    | succ rounds ih =>
      intro count other x
      rw [undo, undo, ih, comm]
  intro rounds count x enough
  rw [pull, undo_step twice wide rounds count x enough]

theorem shiftRightStep_comm (first second : Nat) (x : BitVec w) :
    shiftRightStep first (shiftRightStep second x) =
      shiftRightStep second (shiftRightStep first x) := by
  simp only [shiftRightStep, BitVec.ushiftRight_xor_distrib, ← BitVec.shiftRight_add,
    Nat.add_comm second first]
  rw [BitVec.xor_assoc, BitVec.xor_assoc, ← BitVec.xor_assoc (x >>> second),
    BitVec.xor_comm (x >>> second), BitVec.xor_assoc (x >>> first)]

theorem shiftLeftStep_comm (first second : Nat) (x : BitVec w) :
    shiftLeftStep first (shiftLeftStep second x) =
      shiftLeftStep second (shiftLeftStep first x) := by
  simp only [shiftLeftStep, BitVec.shiftLeft_xor_distrib, ← BitVec.shiftLeft_add,
    Nat.add_comm second first]
  rw [BitVec.xor_assoc, BitVec.xor_assoc, ← BitVec.xor_assoc (x <<< second),
    BitVec.xor_comm (x <<< second), BitVec.xor_assoc (x <<< first)]

end Genimage.Library.Xorshift
