/-
**Runs that a division by zero stops.**

`OptionT m` is a run in `m` that may also be stopped by a trap, after which nothing of it happens.
`dividing divisor value` is an expression that divides by `divisor`. A program with its divisors in
view is the lifted plain program where none of them is zero.
-/

import Mathlib.Tactic

namespace Genimage.Library

variable {m : Type → Type} [Monad m] {α β δ : Type}

/-- The value of an expression that divides by `divisor`. -/
def dividing [Zero δ] [DecidableEq δ] (divisor : δ) (value : α) : OptionT m α :=
  if divisor = 0 then failure else pure value

section Divisor

variable [Zero δ] [DecidableEq δ] {divisor : δ} {value : α}

theorem dividing_of_ne (nonzero : divisor ≠ 0) :
    (dividing divisor value : OptionT m α) = pure value := if_neg nonzero

theorem dividing_of_eq (zero : divisor = 0) : (dividing divisor value : OptionT m α) = failure :=
  if_pos zero

end Divisor

variable [LawfulMonad m]

theorem lift_pure (value : α) : (OptionT.lift (pure value : m α)) = pure value := by
  apply OptionT.ext
  simp

theorem lift_bind (first : m α) (rest : α → m β) :
    OptionT.lift (first >>= rest) = OptionT.lift first >>= fun value => OptionT.lift (rest value) := by
  apply OptionT.ext
  simp

/-- A loop whose steps do not trap does not trap. -/
theorem foldlM_lift {step : β → α → OptionT m β} {plain : β → α → m β}
    (same : ∀ state item, step state item = OptionT.lift (plain state item)) (items : List α)
    (state : β) : items.foldlM step state = OptionT.lift (items.foldlM plain state) := by
  induction items generalizing state with
  | nil => exact (lift_pure state).symm
  | cons item rest ih =>
    rw [List.foldlM_cons, List.foldlM_cons, lift_bind, same]
    exact bind_congr fun next => ih next

end Genimage.Library
