/-
**A loop over a list that grows.**

`visitFrom` walks over the items of a list and does a step for each part of an item. A step may append
items, and the walk goes on over them. Where the new items have no parts (`Appends`), the walk is the
fold of the step over the parts that were there at the beginning (`visitFrom_eq`).
-/

import Mathlib.Tactic

namespace Genimage.Library.Growing

variable {α β ε : Type}

/-- The walk from the item with this index on, over `fuel` items at most. -/
def visitFrom (parts : α → List β) (step : List α → β → Except ε (List α)) :
    Nat → Nat → List α → Except ε (List α)
  | 0, _, items => .ok items
  | fuel + 1, index, items =>
    match items[index]? with
    | none => .ok items
    | some item =>
      match (parts item).foldlM step items with
      | .error error => .error error
      | .ok items => visitFrom parts step fuel (index + 1) items

/-- **A step appends at most one item**, which has no parts. -/
def Appends (parts : α → List β) (step : List α → β → Except ε (List α)) : Prop :=
  ∀ items part result, step items part = .ok result →
    result = items ∨ ∃ new, parts new = [] ∧ result = items ++ [new]

variable {parts : α → List β} {step : List α → β → Except ε (List α)}

/-- What a fold of the step appends; by induction on the parts. -/
theorem Appends.foldlM (appends : Appends parts step) (more : List β) :
    ∀ {items result : List α}, more.foldlM step items = .ok result →
      ∃ new, result = items ++ new ∧ new.length ≤ more.length ∧ ∀ item ∈ new, parts item = [] := by
  induction more with
  | nil =>
    intro items result run
    rw [List.foldlM_nil] at run
    exact ⟨[], by rw [← Except.ok.inj run, List.append_nil], le_rfl, nofun⟩
  | cons part rest ih =>
    intro items result run
    rw [List.foldlM_cons] at run
    cases first : step items part with
    | error error =>
      rw [first] at run
      cases run
    | ok middle =>
      rw [first] at run
      obtain ⟨new, same, few, none⟩ := ih run
      rcases appends items part middle first with rfl | ⟨item, empty, rfl⟩
      · exact ⟨new, same, few.trans (Nat.le_succ _), none⟩
      · refine ⟨item :: new, by rw [same, List.append_assoc, List.singleton_append], ?_, ?_⟩
        · exact Nat.succ_le_succ few
        · exact List.forall_mem_cons.mpr ⟨empty, none⟩

/-- The rest of a walk over items without parts. -/
theorem visitFrom_idle (fuel index : Nat) {items : List α}
    (none : ∀ item ∈ items.drop index, parts item = []) :
    visitFrom parts step fuel index items = .ok items := by
  induction fuel generalizing index with
  | zero => rfl
  | succ fuel ih =>
    rw [visitFrom]
    split
    next => rfl
    next item found =>
      have split : items.drop index = item :: items.drop (index + 1) := by
        obtain ⟨inside, same⟩ := List.getElem?_eq_some_iff.mp found
        rw [← same]
        exact List.drop_eq_getElem_cons inside
      rw [split] at none
      rw [none item List.mem_cons_self]
      exact ih (index + 1) fun item member => none item (List.mem_cons_of_mem _ member)

/-- **The walk is a fold over the parts that were there at the beginning**; by induction on the items
that are left of them. -/
theorem visitFrom_eq (appends : Appends parts step) (rest : List α) :
    ∀ {fuel : Nat} {done new : List α}, rest.length ≤ fuel → (∀ item ∈ new, parts item = []) →
      visitFrom parts step fuel done.length (done ++ rest ++ new) =
        (rest.flatMap parts).foldlM step (done ++ rest ++ new) := by
  induction rest with
  | nil =>
    intro fuel done new _ none
    rw [List.append_nil]
    refine visitFrom_idle fuel done.length ?_
    rwa [List.drop_left]
  | cons item rest ih =>
    intro fuel done new enough none
    cases fuel with
    | zero => simp at enough
    | succ fuel =>
      have here : (done ++ item :: rest ++ new)[done.length]? = some item := by simp
      rw [visitFrom, here, List.flatMap_cons, List.foldlM_append]
      simp only
      cases run : (parts item).foldlM step (done ++ item :: rest ++ new) with
      | error error => rfl
      | ok items =>
        obtain ⟨more, same, _, empty⟩ := appends.foldlM (parts item) run
        have regroup : items = (done ++ [item]) ++ rest ++ (new ++ more) := by
          rw [same]
          simp
        have index : done.length + 1 = (done ++ [item]).length := by simp
        show visitFrom parts step fuel (done.length + 1) items = (rest.flatMap parts).foldlM step items
        rw [regroup, index]
        refine ih (Nat.le_of_succ_le_succ enough) fun item member => ?_
        exact (List.mem_append.mp member).elim (none item) (empty item)

/-- **The whole walk.** -/
theorem visitFrom_zero (appends : Appends parts step) {items : List α} {fuel : Nat}
    (enough : items.length ≤ fuel) :
    visitFrom parts step fuel 0 items = (items.flatMap parts).foldlM step items := by
  have walk : visitFrom parts step fuel ([] : List α).length ([] ++ items ++ []) =
      (items.flatMap parts).foldlM step ([] ++ items ++ []) :=
    visitFrom_eq appends items enough nofun
  simpa using walk

end Genimage.Library.Growing
