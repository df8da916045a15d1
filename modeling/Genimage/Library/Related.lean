/-
**Lists related element by element.**

`List.Forall₂ R` relates two lists of one length position by position. The lemmas here pass from the
relation to what a proof wants from it: a partner for a member (`exists_right`, `exists_left`), equal
images (`map_eq`), a cut at the same place (`split_right`, `split_left`) and the relation on the
elements selected by a test (`filter`). A successful `mapM` relates its lists (`of_mapM`). A cut of a
list with one more element is behind the list or in it (`snoc_eq_split`).
-/

import Genimage.Library.Run
import Mathlib.Data.List.Forall2

namespace Genimage.Library.Related

variable {α β γ : Type*} {R : α → β → Prop} {left : List α} {right : List β}

theorem exists_right (related : List.Forall₂ R left right) {a : α} (member : a ∈ left) :
    ∃ b ∈ right, R a b := by
  induction related with
  | nil => cases member
  | cons head _ ih =>
    rcases List.mem_cons.mp member with rfl | tail
    · exact ⟨_, List.mem_cons_self, head⟩
    · obtain ⟨b, among, pair⟩ := ih tail
      exact ⟨b, List.mem_cons_of_mem _ among, pair⟩

theorem exists_left (related : List.Forall₂ R left right) {b : β} (member : b ∈ right) :
    ∃ a ∈ left, R a b :=
  exists_right (R := flip R) related.flip member

theorem map_eq {f : α → γ} {g : β → γ} (related : List.Forall₂ R left right)
    (same : ∀ a b, R a b → f a = g b) : left.map f = right.map g := by
  induction related with
  | nil => rfl
  | cons head _ ih => rw [List.map_cons, List.map_cons, same _ _ head, ih]

/-- A cut at an element of the right list cuts the left list at its partner. -/
theorem split_right {before after : List β} {b : β} :
    ∀ {left : List α}, List.Forall₂ R left (before ++ b :: after) →
      ∃ before' a after', left = before' ++ a :: after' ∧ R a b ∧ List.Forall₂ R after' after := by
  induction before with
  | nil =>
    intro left related
    obtain ⟨a, after', head, tail, rfl⟩ := List.forall₂_cons_right_iff.mp related
    exact ⟨[], a, after', rfl, head, tail⟩
  | cons first before ih =>
    intro left related
    obtain ⟨a, rest, _, tail, rfl⟩ := List.forall₂_cons_right_iff.mp related
    obtain ⟨before', a', after', rfl, head, tail⟩ := ih tail
    exact ⟨a :: before', a', after', rfl, head, tail⟩

theorem split_left {before after : List α} {a : α} {right : List β}
    (related : List.Forall₂ R (before ++ a :: after) right) :
    ∃ before' b after', right = before' ++ b :: after' ∧ R a b ∧ List.Forall₂ R after after' := by
  obtain ⟨before', b, after', same, head, tail⟩ := split_right (R := flip R) related.flip
  exact ⟨before', b, after', same, head, tail.flip⟩

/-- The members that pass a test are related when related elements pass it together; that they pass
it may be part of why they are. -/
theorem filter_imp {S : α → β → Prop} {p : α → Bool} {q : β → Bool}
    (related : List.Forall₂ R left right) (same : ∀ a b, R a b → p a = q b)
    (pair : ∀ a b, R a b → q b = true → S a b) :
    List.Forall₂ S (left.filter p) (right.filter q) := by
  induction related with
  | nil => exact .nil
  | @cons a b _ _ head _ ih =>
    have test := same a b head
    cases passes : q b with
    | true =>
      rw [List.filter_cons_of_pos (by rw [test, passes]), List.filter_cons_of_pos passes]
      exact .cons (pair a b head passes) ih
    | false =>
      rw [List.filter_cons_of_neg (by simp [test, passes]),
        List.filter_cons_of_neg (by simp [passes])]
      exact ih

theorem filter {p : α → Bool} {q : β → Bool} (related : List.Forall₂ R left right)
    (same : ∀ a b, R a b → p a = q b) : List.Forall₂ R (left.filter p) (right.filter q) :=
  filter_imp related same fun _ _ holds _ => holds

/-- Tests that agree on related elements hold of all elements together. -/
theorem forall_iff {P : α → Prop} {Q : β → Prop} (related : List.Forall₂ R left right)
    (same : ∀ a b, R a b → (P a ↔ Q b)) : (∀ a ∈ left, P a) ↔ ∀ b ∈ right, Q b := by
  induction related with
  | nil => simp
  | cons head _ ih => rw [List.forall_mem_cons, List.forall_mem_cons, same _ _ head, ih]

/-- A relation that depends on the right element only, on related lists. -/
theorem forall₂_iff {S : α → β → Prop} {Q : β → Prop} (related : List.Forall₂ R left right)
    (same : ∀ a b, R a b → (S a b ↔ Q b)) : List.Forall₂ S left right ↔ ∀ b ∈ right, Q b := by
  induction related with
  | nil => exact iff_of_true .nil fun _ member => absurd member List.not_mem_nil
  | cons head _ ih => rw [List.forall₂_cons, List.forall_mem_cons, same _ _ head, ih]

/-- A list and what is left of it are related when nothing is left out and each pair is. -/
theorem filterMap_iff {f : α → Option β} {items : List α} :
    List.Forall₂ R items (items.filterMap f) ↔ ∀ a ∈ items, ∃ b, f a = some b ∧ R a b := by
  constructor
  · intro related
    have kept : ∀ a ∈ items, (f a).isSome := by
      refine List.filterMap_length_eq_length.mp ?_
      exact related.length_eq.symm
    induction items with
    | nil => exact fun a member => absurd member List.not_mem_nil
    | cons a items ih =>
      rw [List.forall_mem_cons] at kept ⊢
      obtain ⟨b, found⟩ := Option.isSome_iff_exists.mp kept.1
      rw [List.filterMap_cons_some found, List.forall₂_cons] at related
      exact ⟨⟨b, found, related.1⟩, ih related.2 kept.2⟩
  · intro pairs
    induction items with
    | nil => exact .nil
    | cons a items ih =>
      rw [List.forall_mem_cons] at pairs
      obtain ⟨⟨b, found, pair⟩, rest⟩ := pairs
      rw [List.filterMap_cons_some found]
      exact .cons pair (ih rest)

/-- Relations compose. -/
theorem trans {S : β → γ → Prop} {last : List γ} (related : List.Forall₂ R left right)
    (related' : List.Forall₂ S right last) :
    List.Forall₂ (fun a c => ∃ b, R a b ∧ S b c) left last := by
  induction related generalizing last with
  | nil =>
    cases related'
    exact .nil
  | cons head _ ih =>
    cases related' with
    | cons head' tail' => exact .cons ⟨_, head, head'⟩ (ih tail')

/-- **A step that succeeds on every element** relates the list to its results. -/
theorem of_mapM {ε : Type*} {α β : Type _} {step : α → Except ε β} {items : List α}
    {results : List β} (run : items.mapM step = .ok results) :
    List.Forall₂ (fun item result => step item = .ok result) items results := by
  induction items generalizing results with
  | nil =>
    rw [List.mapM_nil, pure_eq_ok] at run
    rw [← run]
    exact .nil
  | cons item items ih =>
    simp only [List.mapM_cons, do_eq_ok, pure_eq_ok] at run
    obtain ⟨result, taken, rest, tail, rfl⟩ := run
    exact .cons taken (ih tail)

/-- What is behind an element of a list with one more element. -/
theorem snoc_eq_split {done before behind : List α} {last item : α}
    (same : done ++ [last] = before ++ item :: behind) :
    (before = done ∧ item = last) ∨ ∃ rest, done = before ++ item :: rest := by
  rcases List.eq_nil_or_concat behind with rfl | ⟨rest, final, rfl⟩
  · obtain ⟨rfl, last'⟩ := List.append_inj' same rfl
    exact Or.inl ⟨rfl, (List.cons.inj last').1.symm⟩
  · rw [List.concat_eq_append, ← List.cons_append, ← List.append_assoc] at same
    exact Or.inr ⟨rest, (List.append_inj' same rfl).1⟩

end Genimage.Library.Related
