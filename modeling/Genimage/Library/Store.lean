/-
**Stores into an array of fixed size.**

A C loop that fills `table[i]` and counts `i` up has no bound of its own. `store` is one such step on
the entries stored so far: it stops with `OutOfRange` where the index is past the array.
`foldlM_store` says that the loop over a list stores the image of the selected elements, and that it
stops exactly when there are too many of them.
-/

import Genimage.Library.Run

namespace Genimage.Library

/-- A store past the end of an array. -/
structure OutOfRange where
  index : Nat
deriving DecidableEq, Repr

/-- `table[i] = entry; i++` in an array of `limit` entries. -/
def store {α : Type} (limit : Nat) (table : List α) (entry : α) : Except OutOfRange (List α) :=
  if table.length < limit then .ok (table ++ [entry]) else .error ⟨table.length⟩

/-- The body of a loop that stores the image of the elements that pass a test. -/
def storeIf {α β : Type} (limit : Nat) (test : β → Bool) (image : β → α) (table : List α)
    (item : β) : Except OutOfRange (List α) :=
  if test item then store limit table (image item) else .ok table

variable {α β : Type} {limit : Nat} {test : β → Bool} {image : β → α} {items : List β}
  {table result : List α} {entry : α}

theorem store_ok : store limit table entry = .ok result ↔
    result = table ++ [entry] ∧ result.length ≤ limit := by
  unfold store
  split
  next inside =>
    rw [Except.ok.injEq]
    constructor
    · rintro rfl
      exact ⟨rfl, by rw [List.length_append, List.length_singleton]; omega⟩
    · rintro ⟨rfl, _⟩
      rfl
  next outside =>
    refine ⟨nofun, ?_⟩
    rintro ⟨rfl, fits⟩
    rw [List.length_append, List.length_singleton] at fits
    omega

/-- **What the loop stores**, and when no store is out of range. -/
theorem foldlM_store (few : table.length ≤ limit) :
    items.foldlM (storeIf limit test image) table = .ok result ↔
      result = table ++ (items.filter test).map image ∧ result.length ≤ limit := by
  induction items generalizing table with
  | nil =>
    rw [List.foldlM_nil, pure_eq_ok, List.filter_nil, List.map_nil, List.append_nil]
    constructor
    · rintro rfl
      exact ⟨rfl, few⟩
    · exact fun both => both.1.symm
  | cons item items ih =>
    rw [List.foldlM_cons, do_eq_ok]
    cases passes : test item with
    | false =>
      simp only [storeIf, passes, Bool.false_eq_true, if_false, Except.ok.injEq, exists_eq_left']
      rw [ih few, List.filter_cons_of_neg (by simp [passes])]
    | true =>
      simp only [storeIf, passes, if_true, store_ok]
      have split : table ++ image item :: (items.filter test).map image =
          table ++ [image item] ++ (items.filter test).map image := List.append_cons ..
      rw [List.filter_cons_of_pos passes, List.map_cons, split]
      constructor
      · rintro ⟨_, ⟨rfl, inside⟩, rest⟩
        exact (ih inside).mp rest
      · rintro ⟨rfl, fits⟩
        have inside : (table ++ [image item]).length ≤ limit :=
          Nat.le_trans (List.prefix_append _ _).length_le fits
        exact ⟨_, ⟨rfl, inside⟩, (ih inside).mpr ⟨rfl, fits⟩⟩

end Genimage.Library
