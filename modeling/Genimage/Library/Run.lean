/-
**Checked runs.**

A run that may fail is a chain of `Except` steps. `failIf` is the guard that stops a run;
`bind_eq_ok` takes a successful run apart into its steps. A loop over a list is `List.foldlM`:
`foldlM_append_ok` splits it at an element, and `foldlM_invariant` is its induction rule, where the
invariant may read the elements already consumed. `visits` lists the steps of a loop, for what is
said of the state in front of each of them; `foldl_extremum` is about loops that cannot fail and look
for a largest or smallest value.
-/

import Mathlib.Data.List.Basic

namespace Genimage.Library

variable {ε α β σ : Type*}

/-- Stop with `error` when `condition` holds. -/
def failIf (condition : Prop) [Decidable condition] (error : ε) : Except ε Unit :=
  if condition then .error error else .ok ()

@[simp]
theorem failIf_ok {condition : Prop} [Decidable condition] {error : ε} {result : Unit} :
    failIf condition error = .ok result ↔ ¬ condition := by
  unfold failIf
  split <;> simp_all

/-- A successful run is a successful first step followed by a successful rest. -/
theorem bind_eq_ok {ε α β : Type*} {first : Except ε α} {rest : α → Except ε β} {result : β} :
    first.bind rest = .ok result ↔ ∃ value, first = .ok value ∧ rest value = .ok result := by
  cases first <;> simp [Except.bind]

/-- The same for `do` blocks. -/
theorem do_eq_ok {ε α β : Type _} {first : Except ε α} {rest : α → Except ε β} {result : β} :
    (first >>= rest) = .ok result ↔ ∃ value, first = .ok value ∧ rest value = .ok result :=
  bind_eq_ok

@[simp]
theorem pure_eq_ok {ε α : Type _} {value result : α} :
    (pure value : Except ε α) = .ok result ↔ value = result := by
  simp [pure, Except.pure]

/-- A run that can be evaluated. -/
theorem exists_ok (run : Except ε α) (check : α → Bool) (passes : run.toOption.any check = true) :
    ∃ value, run = .ok value ∧ check value = true := by
  cases run with
  | error _ => cases passes
  | ok value => exact ⟨value, rfl, passes⟩

/-- A chain does not stop with an error that none of its steps stops with. -/
theorem do_ne_error {ε α β : Type _} {first : Except ε α} {rest : α → Except ε β} {error : ε}
    (head : first ≠ .error error) (tail : ∀ value, first = .ok value → rest value ≠ .error error) :
    (first >>= rest) ≠ .error error := by
  cases first with
  | error _ => exact fun stopped => head (congrArg Except.error (Except.error.inj stopped))
  | ok value => exact tail value rfl

theorem failIf_ne_error {condition : Prop} [Decidable condition] {error other : ε}
    (differs : condition → error ≠ other) : failIf condition error ≠ .error other := by
  unfold failIf
  split_ifs with stops
  · exact fun same => differs stops (Except.error.inj same)
  · exact nofun

section Loop

variable {step : σ → α → Except ε σ}

/-- A loop over two blocks is the loop over the first, then over the second. -/
theorem foldlM_append_ok {first second : List α} {start final : σ} :
    (first ++ second).foldlM step start = .ok final ↔
      ∃ middle, first.foldlM step start = .ok middle ∧ second.foldlM step middle = .ok final := by
  rw [List.foldlM_append]
  exact do_eq_ok

/-- **The induction rule of a loop.** What one step preserves, the loop preserves. -/
theorem foldlM_invariant {items : List α} {start final : σ} (Inv : List α → σ → Prop)
    (base : Inv [] start)
    (preserved : ∀ done item rest state next, items = done ++ item :: rest → Inv done state →
      step state item = .ok next → Inv (done ++ [item]) next)
    (run : items.foldlM step start = .ok final) : Inv items final := by
  have general : ∀ rest done state, items = done ++ rest → Inv done state →
      rest.foldlM step state = .ok final → Inv items final := by
    intro rest
    induction rest with
    | nil =>
      intro done state split holds finish
      rw [List.foldlM_nil, pure_eq_ok] at finish
      subst finish
      rw [split, List.append_nil]
      exact holds
    | cons item rest ih =>
      intro done state split holds finish
      rw [List.foldlM_cons, do_eq_ok] at finish
      obtain ⟨next, taken, finish⟩ := finish
      refine ih (done ++ [item]) next ?_ (preserved done item rest state next split holds taken)
        finish
      rw [split, List.append_assoc, List.singleton_append]
  exact general items [] start rfl base run

/-- **The steps of a loop**: every element it comes to, with the state in front of it. -/
def visits (step : σ → α → Except ε σ) : σ → List α → List (σ × α)
  | _, [] => []
  | state, item :: rest =>
    (state, item) :: match step state item with
      | .ok next => visits step next rest
      | .error _ => []

theorem visits_append {first second : List α} {start middle : σ}
    (run : first.foldlM step start = .ok middle) :
    visits step start (first ++ second) = visits step start first ++ visits step middle second := by
  induction first generalizing start with
  | nil =>
    rw [List.foldlM_nil, pure_eq_ok] at run
    rw [run]
    rfl
  | cons item first ih =>
    rw [List.foldlM_cons, do_eq_ok] at run
    obtain ⟨next, taken, run⟩ := run
    rw [List.cons_append, visits, visits, taken, List.cons_append]
    exact congrArg ((start, item) :: ·) (ih run)

/-- A step is a cut of the list that the loop reaches. -/
theorem mem_visits {items : List α} {start state : σ} {item : α} :
    (state, item) ∈ visits step start items ↔
      ∃ before after, items = before ++ item :: after ∧ before.foldlM step start = .ok state := by
  constructor
  · induction items generalizing start with
    | nil => exact fun member => absurd member List.not_mem_nil
    | cons first items ih =>
      intro member
      rw [visits] at member
      rcases List.mem_cons.mp member with same | member
      · obtain ⟨rfl, rfl⟩ := Prod.mk.inj same
        exact ⟨[], items, rfl, rfl⟩
      · cases taken : step start first with
        | error _ =>
          rw [taken] at member
          cases member
        | ok next =>
          rw [taken] at member
          obtain ⟨before, after, rfl, run⟩ := ih member
          refine ⟨first :: before, after, rfl, ?_⟩
          rw [List.foldlM_cons, taken]
          exact run
  · rintro ⟨before, after, rfl, run⟩
    rw [visits_append run]
    exact List.mem_append_right _ List.mem_cons_self

/-- The induction rule with the step among the visits. -/
theorem foldlM_visited {items : List α} {start final : σ} (Inv : List α → σ → Prop)
    (base : Inv [] start)
    (preserved : ∀ done item rest state next, items = done ++ item :: rest →
      (state, item) ∈ visits step start items → Inv done state → step state item = .ok next →
      Inv (done ++ [item]) next)
    (run : items.foldlM step start = .ok final) : Inv items final := by
  refine (foldlM_invariant (fun done state => done.foldlM step start = .ok state ∧ Inv done state)
    ⟨rfl, base⟩ ?_ run).2
  rintro done item rest state next split ⟨reached, holds⟩ taken
  refine ⟨foldlM_append_ok.mpr ⟨state, reached, ?_⟩, ?_⟩
  · rw [List.foldlM_cons, taken]
    rfl
  · have visited := mem_visits.mpr ⟨done, rest, split, reached⟩
    exact preserved done item rest state next split visited holds taken

/-- **A loop whose steps succeed.** -/
theorem foldlM_succeeds {items : List α} {start : σ} (Inv : List α → σ → Prop) (base : Inv [] start)
    (succeeds : ∀ done item rest state, items = done ++ item :: rest → Inv done state →
      ∃ next, step state item = .ok next ∧ Inv (done ++ [item]) next) :
    ∃ final, items.foldlM step start = .ok final ∧ Inv items final := by
  have general : ∀ rest done state, items = done ++ rest → Inv done state →
      ∃ final, rest.foldlM step state = .ok final ∧ Inv items final := by
    intro rest
    induction rest with
    | nil =>
      intro done state split inv
      rw [List.append_nil] at split
      exact ⟨state, rfl, split ▸ inv⟩
    | cons item rest ih =>
      intro done state split inv
      obtain ⟨next, taken, kept⟩ := succeeds done item rest state split inv
      obtain ⟨final, run, reached⟩ := ih (done ++ [item]) next (by simp [split]) kept
      refine ⟨final, ?_, reached⟩
      rw [List.foldlM_cons, taken]
      exact run
  exact general items [] start rfl base

end Loop

/-- **A loop that looks for an extremum.** It keeps the best value so far or takes the value of the item
it is at; then the result is no worse than the start and the items that count, and it is one of
them. -/
theorem foldl_extremum (worse : β → β → Prop) (step : β → α → β) (value : α → β)
    (counts : α → Prop) (refl : ∀ best, worse best best)
    (trans : ∀ first second third, worse first second → worse second third → worse first third)
    (kept : ∀ best item, worse best (step best item))
    (reached : ∀ best item, counts item → worse (value item) (step best item))
    (source : ∀ best item, step best item = best ∨ (counts item ∧ step best item = value item))
    (items : List α) (start : β) :
    worse start (items.foldl step start) ∧
    (∀ item ∈ items, counts item → worse (value item) (items.foldl step start)) ∧
    (items.foldl step start = start ∨
      ∃ item ∈ items, counts item ∧ items.foldl step start = value item) := by
  induction items generalizing start with
  | nil => exact ⟨refl start, nofun, Or.inl rfl⟩
  | cons first items ih =>
    obtain ⟨above, each, from_⟩ := ih (step start first)
    rw [List.foldl_cons]
    refine ⟨trans _ _ _ (kept start first) above, fun item member counted => ?_, ?_⟩
    · rcases List.mem_cons.mp member with rfl | member
      · exact trans _ _ _ (reached start item counted) above
      · exact each item member counted
    · rcases from_ with same | ⟨item, member, counted, same⟩
      · rw [same]
        rcases source start first with unchanged | ⟨counted, taken⟩
        · exact Or.inl unchanged
        · exact Or.inr ⟨first, List.mem_cons_self, counted, taken⟩
      · exact Or.inr ⟨item, List.mem_cons_of_mem _ member, counted, same⟩

end Genimage.Library
