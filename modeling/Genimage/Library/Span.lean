/-
**Half-open ranges.**

A `Span` is a range `[start, stop)` of a linear order. Two spans are `Apart` when one ends before
the other starts; for spans with points in them this is disjointness of the point sets
(`Apart.disjoint`, `apart_of_disjoint`). `Apart` passes to smaller spans (`Apart.mono`), and a
list of spans stays pairwise apart when a block is appended that is apart from all of them
(`pairwise_apart_append`).
-/

import Mathlib.Order.Interval.Set.Basic
import Mathlib.Data.List.Pairwise
import Mathlib.Tactic.ByContra
import Mathlib.Order.CompletePartialOrder
import Mathlib.Order.Interval.Set.Disjoint

namespace Genimage.Library

/-- The half-open range `[start, stop)`. -/
structure Span (α : Type*) where
  start : α
  stop : α
deriving DecidableEq, Repr

namespace Span

variable {α : Type*} [LinearOrder α]

/-- The points of a span. -/
def points (span : Span α) : Set α := Set.Ico span.start span.stop

/-- One of the two spans ends before the other starts. -/
def Apart (first second : Span α) : Prop :=
  first.stop ≤ second.start ∨ second.stop ≤ first.start

instance (first second : Span α) : Decidable (first.Apart second) :=
  inferInstanceAs (Decidable (_ ∨ _))

/-- `inner` lies inside `outer`. -/
def Within (inner outer : Span α) : Prop :=
  outer.start ≤ inner.start ∧ inner.stop ≤ outer.stop

instance (inner outer : Span α) : Decidable (inner.Within outer) :=
  inferInstanceAs (Decidable (_ ∧ _))

theorem Apart.symm {first second : Span α} (apart : first.Apart second) : second.Apart first :=
  Or.symm apart

/-- Smaller spans stay apart. -/
theorem Apart.mono {first second inner : Span α} (apart : first.Apart second)
    (within : inner.Within second) : first.Apart inner := by
  rcases apart with before | after
  · exact Or.inl (before.trans within.1)
  · exact Or.inr (within.2.trans after)

theorem Apart.mono_left {first second inner : Span α} (apart : first.Apart second)
    (within : inner.Within first) : inner.Apart second :=
  (apart.symm.mono within).symm

/-- Spans that are apart share no point. -/
theorem Apart.disjoint {first second : Span α} (apart : first.Apart second) :
    Disjoint first.points second.points := by
  rw [Set.disjoint_left]
  rintro point ⟨_, below⟩ ⟨above, below'⟩
  rcases apart with before | after
  · exact absurd (below.trans_le (before.trans above)) (lt_irrefl _)
  · exact absurd (below'.trans_le after) (not_lt.mpr ‹_›)

/-- Non-empty spans without a common point are apart. -/
theorem apart_of_disjoint {first second : Span α} (nonempty : first.start < first.stop)
    (nonempty' : second.start < second.stop) (disjoint : Disjoint first.points second.points) :
    first.Apart second := by
  by_contra together
  simp only [Apart, not_or, not_le] at together
  have common : max first.start second.start ∈ first.points ∩ second.points :=
    ⟨⟨le_max_left _ _, max_lt nonempty together.1⟩, ⟨le_max_right _ _, max_lt together.2 nonempty'⟩⟩
  exact Set.disjoint_left.mp disjoint common.1 common.2

/-- Appending a block that is apart from everything before it keeps a list pairwise apart. -/
theorem pairwise_apart_append {spans block : List (Span α)} (old : spans.Pairwise Apart)
    (new : block.Pairwise Apart) (across : ∀ span ∈ block, ∀ old ∈ spans, span.Apart old) :
    (spans ++ block).Pairwise Apart :=
  List.pairwise_append.mpr ⟨old, new, fun span member span' member' =>
    (across span' member' span member).symm⟩

end Span

end Genimage.Library
