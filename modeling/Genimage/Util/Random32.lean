/-
**The seeded generator (`random32.c`).**

A 32-bit xorwow generator: five lanes that are shifted on every step, the last one scrambled into the
first, and a counter. A step can be undone (`prngPrevious`), and the five lanes are never all `0`
behind a seed: the only state that a step takes there has five lanes `0` itself, and the first lane of
a seed is not `0`.
-/

import Genimage.Library.Xorshift

namespace Genimage

open Library

/-- `struct prng_state` -/
structure PrngState where
  lane0 : UInt32
  lane1 : UInt32
  lane2 : UInt32
  lane3 : UInt32
  lane4 : UInt32
  counter : UInt32
deriving DecidableEq, Repr

/-- The two shifts of `prng_getrandom` on the last lane. -/
def scramble (buffer : UInt32) : UInt32 :=
  let buffer := buffer ^^^ buffer >>> 2
  buffer ^^^ buffer <<< 1

/-- `prng_getrandom`: the value and the new state. -/
def prngGetrandom (state : PrngState) : UInt32 × PrngState :=
  let buffer := scramble state.lane4 ^^^ (state.lane0 ^^^ state.lane0 <<< 4)
  let counter := state.counter + 0x587C5
  (buffer + counter, {
    lane0 := buffer
    lane1 := state.lane0
    lane2 := state.lane1
    lane3 := state.lane2
    lane4 := state.lane3
    counter := counter })

/-- The state behind a call. -/
def prngNext (state : PrngState) : PrngState := (prngGetrandom state).2

/-- The state that `prng_seed` fills in. -/
def prngStart (seed : UInt32) : PrngState where
  lane0 := 1 + (seed &&& 0x0FFFFFFF)
  lane1 := 2 + (seed &&& 0xFF0FFFFF)
  lane2 := 3 + (seed &&& 0xFFF00FFF)
  lane3 := 4 + (seed &&& 0xFFFFF0FF)
  lane4 := 5 + (seed &&& 0xFFFFFFF0)
  counter := seed

/-- `prng_seed`, with its eight calls. -/
def prngSeed (seed : UInt32) : PrngState := prngNext^[8] (prngStart seed)

/-- The five lanes are `0`. -/
structure PrngState.Collapsed (state : PrngState) : Prop where
  lane0 : state.lane0 = 0
  lane1 : state.lane1 = 0
  lane2 : state.lane2 = 0
  lane3 : state.lane3 = 0
  lane4 : state.lane4 = 0

/-! ### Undoing a step -/

theorem toBitVec_scramble (buffer : UInt32) : (scramble buffer).toBitVec =
    Xorshift.shiftLeftStep 1 (Xorshift.shiftRightStep 2 buffer.toBitVec) := rfl

/-- The shifts that undo `scramble`. -/
def unscramble (buffer : UInt32) : UInt32 :=
  UInt32.ofBitVec (Xorshift.undo Xorshift.shiftRightStep 2 4
    (Xorshift.undo Xorshift.shiftLeftStep 1 5 buffer.toBitVec))

theorem unscramble_scramble (buffer : UInt32) : unscramble (scramble buffer) = buffer := by
  apply UInt32.toBitVec_inj.mp
  rw [unscramble, toBitVec_scramble,
    Xorshift.undo_step Xorshift.shiftLeftStep_twice (fun _ => Xorshift.shiftLeftStep_of_le) 5 1 _
      (by decide),
    Xorshift.undo_step Xorshift.shiftRightStep_twice (fun _ => Xorshift.shiftRightStep_of_le) 4 2 _
      (by decide)]

theorem scramble_unscramble (buffer : UInt32) : scramble (unscramble buffer) = buffer := by
  apply UInt32.toBitVec_inj.mp
  rw [toBitVec_scramble, unscramble,
    Xorshift.step_undo Xorshift.shiftRightStep_twice (fun _ => Xorshift.shiftRightStep_of_le)
      Xorshift.shiftRightStep_comm 4 2 _ (by decide),
    Xorshift.step_undo Xorshift.shiftLeftStep_twice (fun _ => Xorshift.shiftLeftStep_of_le)
      Xorshift.shiftLeftStep_comm 5 1 _ (by decide)]

/-- **The state in front of a call.** -/
def prngPrevious (state : PrngState) : PrngState where
  lane0 := state.lane1
  lane1 := state.lane2
  lane2 := state.lane3
  lane3 := state.lane4
  lane4 := unscramble (state.lane0 ^^^ (state.lane1 ^^^ state.lane1 <<< 4))
  counter := state.counter - 0x587C5

theorem xor_xor_cancel (a b : UInt32) : a ^^^ b ^^^ b = a := by
  rw [UInt32.xor_assoc, UInt32.xor_self, UInt32.xor_zero]

theorem prngPrevious_prngNext (state : PrngState) : prngPrevious (prngNext state) = state := by
  simp only [prngPrevious, prngNext, prngGetrandom, xor_xor_cancel, unscramble_scramble,
    UInt32.add_sub_cancel]

theorem prngNext_prngPrevious (state : PrngState) : prngNext (prngPrevious state) = state := by
  simp only [prngPrevious, prngNext, prngGetrandom, xor_xor_cancel, scramble_unscramble,
    UInt32.sub_add_cancel]

/-! ### The lanes of a seed -/

/-- **A step does not collapse the lanes.** -/
theorem collapsed_of_prngNext {state : PrngState} (collapsed : (prngNext state).Collapsed) :
    state.Collapsed := by
  have first : state.lane0 = 0 := collapsed.lane1
  have last : state.lane4 = 0 := by
    have buffer : scramble state.lane4 ^^^ (state.lane0 ^^^ state.lane0 <<< 4) = 0 := collapsed.lane0
    have zero : (0 : UInt32) ^^^ (0 : UInt32) <<< 4 = 0 := by decide
    rw [first, zero, UInt32.xor_zero] at buffer
    rw [← unscramble_scramble state.lane4, buffer]
    decide
  exact ⟨first, collapsed.lane2, collapsed.lane3, collapsed.lane4, last⟩

theorem collapsed_of_iterate (steps : Nat) {state : PrngState}
    (collapsed : (prngNext^[steps] state).Collapsed) : state.Collapsed := by
  induction steps with
  | zero => exact collapsed
  | succ steps ih =>
    rw [Function.iterate_succ_apply'] at collapsed
    exact ih (collapsed_of_prngNext collapsed)

/-- The first lane of a seed is not `0`: the mask leaves room for the `1`. -/
theorem prngStart_not_collapsed (seed : UInt32) : ¬ (prngStart seed).Collapsed := by
  intro collapsed
  have lane : 1 + (seed &&& 0x0FFFFFFF) = 0 := collapsed.lane0
  have masked : (seed &&& 0x0FFFFFFF).toNat ≤ 0x0FFFFFFF := by
    rw [UInt32.toNat_and]
    exact Nat.and_le_right
  have value := congrArg UInt32.toNat lane
  rw [UInt32.toNat_add] at value
  have one : (1 : UInt32).toNat = 1 := rfl
  have zero : (0 : UInt32).toNat = 0 := rfl
  omega

/-- **The lanes never collapse.** -/
theorem iterate_not_collapsed (seed : UInt32) (steps : Nat) :
    ¬ (prngNext^[steps] (prngSeed seed)).Collapsed := fun collapsed =>
  prngStart_not_collapsed seed (collapsed_of_iterate 8 (collapsed_of_iterate steps collapsed))

/-- A value that is the bare counter leaves a first lane `0`. -/
theorem lane0_of_bare {state : PrngState}
    (bare : (prngGetrandom state).1 = (prngGetrandom state).2.counter) : (prngNext state).lane0 = 0 := by
  have sum : (prngNext state).lane0 + (prngNext state).counter = (prngNext state).counter := bare
  rw [← UInt32.add_sub_cancel (prngNext state).lane0 (prngNext state).counter, sum, UInt32.sub_self]

/-- Five bare values in a row collapse the lanes. -/
theorem collapsed_of_bare {state : PrngState}
    (bare : ∀ k < 5, (prngGetrandom (prngNext^[k] state)).1 =
      (prngGetrandom (prngNext^[k] state)).2.counter) : (prngNext^[5] state).Collapsed where
  lane0 := lane0_of_bare (bare 4 (by decide))
  lane1 := lane0_of_bare (bare 3 (by decide))
  lane2 := lane0_of_bare (bare 2 (by decide))
  lane3 := lane0_of_bare (bare 1 (by decide))
  lane4 := lane0_of_bare (bare 0 (by decide))

/-- **The seeded generator never degenerates**: a step is a bijection of the states, the lanes of a
seed are never all `0`, and of five values in a row one is not the bare counter. -/
theorem prng_never_degenerates :
    Function.Bijective prngNext ∧
    ∀ seed steps, ¬ (prngNext^[steps] (prngSeed seed)).Collapsed ∧
      ∃ k < 5, (prngGetrandom (prngNext^[k + steps] (prngSeed seed))).1 ≠
        (prngGetrandom (prngNext^[k + steps] (prngSeed seed))).2.counter := by
  refine ⟨Function.bijective_iff_has_inverse.mpr
    ⟨prngPrevious, prngPrevious_prngNext, prngNext_prngPrevious⟩, fun seed steps => ⟨?_, ?_⟩⟩
  · exact iterate_not_collapsed seed steps
  · by_contra all
    push Not at all
    refine iterate_not_collapsed seed (5 + steps) ?_
    rw [Function.iterate_add_apply]
    refine collapsed_of_bare fun k small => ?_
    rw [← Function.iterate_add_apply]
    exact all k small

end Genimage
