/-
**Runs that change a state and may fail.**

An `Effect` is a function of a state that either returns a value or stops with an error, and keeps the
state in both cases. `Ensures fault x start post` says that the run of `x` from `start` returns a value
with `post`, or stops with an error and `fault` holds. With `fault := True` this is partial
correctness, with `fault := False` the run returns; a proof for any `fault` gives both. The lemmas
`ensures_*` take a program apart, one for each way to build it, and `Ensures.foldlM` is the rule of a
loop over a list.
-/

import Mathlib.Tactic

namespace Genimage.Library

/-- A run on a state `σ` that may stop with an error `ε`. -/
abbrev Effect (ε σ α : Type) := ExceptT ε (StateM σ) α

namespace Effect

variable {ε σ α β : Type}

/-- The outcome and the final state of a run. -/
def outcome (x : Effect ε σ α) (start : σ) : Except ε α × σ := x.run.run start

/-- The run of `x` from `start` returns `value` and ends in `final`. -/
def Returns (x : Effect ε σ α) (start : σ) (value : α) (final : σ) : Prop :=
  x.outcome start = (.ok value, final)

/-- The run of `x` from `start` returns with `post`, or it stops with an error and `fault` holds. -/
def Ensures (fault : Prop) (x : Effect ε σ α) (start : σ) (post : α → σ → Prop) : Prop :=
  match x.outcome start with
  | (.ok value, final) => post value final
  | (.error _, _) => fault

variable {fault : Prop} {x : Effect ε σ α} {start : σ} {post wanted : α → σ → Prop}

/-- The run returns, and `check` accepts its end. -/
def returnsWith (x : Effect ε σ α) (start : σ) (check : α → σ → Bool) : Bool :=
  match x.outcome start with
  | (.ok value, final) => check value final
  | (.error _, _) => false

/-- A run that can be evaluated. -/
theorem exists_returns {check : α → σ → Bool} (run : returnsWith x start check = true) :
    ∃ value final, Returns x start value final ∧ check value final = true := by
  unfold returnsWith at run
  split at run
  next value final same => exact ⟨value, final, same, run⟩
  next => cases run

/-- What a run that returns has ensured. -/
theorem Ensures.of_returns {value : α} {final : σ} (ensured : Ensures fault x start post)
    (run : Returns x start value final) : post value final := by
  rw [Ensures, run] at ensured
  exact ensured

/-- A run that cannot fail returns. -/
theorem Ensures.returns (ensured : Ensures False x start post) :
    ∃ value final, Returns x start value final ∧ post value final := by
  unfold Ensures at ensured
  split at ensured
  next value final run => exact ⟨value, final, run, ensured⟩
  next => exact ensured.elim

theorem Ensures.mono (ensured : Ensures fault x start post)
    (weaken : ∀ value final, post value final → wanted value final) :
    Ensures fault x start wanted := by
  unfold Ensures at ensured ⊢
  split at ensured
  next value final run => exact weaken value final ensured
  next => exact ensured

/-- What holds of every end holds of the one that is returned. -/
theorem Ensures.of_forall (always : ∀ value final, post value final) : Ensures True x start post := by
  unfold Ensures
  split
  next value final _ => exact always value final
  next => trivial

/-- A run that may stop with an error for one reason may do so for a weaker one. -/
theorem Ensures.imp {weaker : Prop} (allowed : fault → weaker) (ensured : Ensures fault x start post) :
    Ensures weaker x start post := by
  unfold Ensures at ensured ⊢
  split at ensured
  next value final run => exact ensured
  next => exact allowed ensured

/-- What a run ensures by two arguments it ensures at once. -/
theorem Ensures.and {other : Prop} (first : Ensures fault x start post)
    (second : Ensures other x start wanted) :
    Ensures fault x start fun value final => post value final ∧ wanted value final := by
  unfold Ensures at first second ⊢
  split at first
  next value final run =>
    rw [run] at second
    exact ⟨first, second⟩
  next => exact first

theorem outcome_bind (x : Effect ε σ α) (f : α → Effect ε σ β) (start : σ) :
    (x >>= f).outcome start = match x.outcome start with
      | (.ok value, middle) => (f value).outcome middle
      | (.error error, middle) => (.error error, middle) := by
  show ((x >>= f).run.run start) = match x.run.run start with
    | (.ok value, middle) => (f value).run.run middle
    | (.error error, middle) => (.error error, middle)
  rw [ExceptT.run_bind, StateT.run_bind]
  cases x.run.run start with
  | mk result middle => cases result <;> rfl

@[simp]
theorem ensures_pure {value : α} :
    Ensures fault (pure value : Effect ε σ α) start post ↔ post value start := Iff.rfl

@[simp]
theorem ensures_throw {error : ε} :
    Ensures fault (throw error : Effect ε σ α) start post ↔ fault := Iff.rfl

/-- **The rule of a sequence.** -/
theorem ensures_bind {f : α → Effect ε σ β} {post : β → σ → Prop} :
    Ensures fault (x >>= f) start post ↔
      Ensures fault x start fun value middle => Ensures fault (f value) middle post := by
  unfold Ensures
  rw [outcome_bind]
  cases x.outcome start with
  | mk result middle => cases result <;> rfl

@[simp]
theorem ensures_get {post : σ → σ → Prop} :
    Ensures fault (get : Effect ε σ σ) start post ↔ post start start := Iff.rfl

@[simp]
theorem ensures_modify {f : σ → σ} {post : PUnit → σ → Prop} :
    Ensures fault (modify f : Effect ε σ PUnit) start post ↔ post ⟨⟩ (f start) := Iff.rfl

theorem Ensures.bind {f : α → Effect ε σ β} {post : α → σ → Prop} {wanted : β → σ → Prop}
    (first : Ensures fault x start post)
    (rest : ∀ value middle, post value middle → Ensures fault (f value) middle wanted) :
    Ensures fault (x >>= f) start wanted :=
  ensures_bind.mpr (first.mono rest)

/-- The outcome of the run of `x` from `start` and its final state satisfy `post`. -/
def Ends (x : Effect ε σ α) (start : σ) (post : Except ε α → σ → Prop) : Prop :=
  post (x.outcome start).1 (x.outcome start).2

/-- **The rule of a sequence**, for both outcomes. -/
theorem ends_bind {f : α → Effect ε σ β} {post : Except ε β → σ → Prop} :
    Ends (x >>= f) start post ↔ Ends x start fun result middle => match result with
      | .ok value => Ends (f value) middle post
      | .error error => post (.error error) middle := by
  unfold Ends
  rw [outcome_bind]
  cases x.outcome start with
  | mk result middle => cases result <;> rfl

@[simp]
theorem ends_pure {value : α} {post : Except ε α → σ → Prop} :
    Ends (pure value : Effect ε σ α) start post ↔ post (.ok value) start := Iff.rfl

@[simp]
theorem ends_throw {error : ε} {post : Except ε α → σ → Prop} :
    Ends (throw error : Effect ε σ α) start post ↔ post (.error error) start := Iff.rfl

@[simp]
theorem ends_get {post : Except ε σ → σ → Prop} :
    Ends (get : Effect ε σ σ) start post ↔ post (.ok start) start := Iff.rfl

@[simp]
theorem ends_modify {f : σ → σ} {post : Except ε PUnit → σ → Prop} :
    Ends (modify f : Effect ε σ PUnit) start post ↔ post (.ok ⟨⟩) (f start) := Iff.rfl

theorem Ends.mono {post wanted : Except ε α → σ → Prop} (ends : Ends x start post)
    (weaken : ∀ result final, post result final → wanted result final) : Ends x start wanted :=
  weaken _ _ ends

theorem Ends.bind {f : α → Effect ε σ β} {post : Except ε α → σ → Prop}
    {wanted : Except ε β → σ → Prop} (first : Ends x start post)
    (rest : ∀ value middle, post (.ok value) middle → Ends (f value) middle wanted)
    (failed : ∀ error middle, post (.error error) middle → wanted (.error error) middle) :
    Ends (x >>= f) start wanted := by
  refine ends_bind.mpr (first.mono fun result middle holds => ?_)
  cases result with
  | ok value => exact rest value middle holds
  | error error => exact failed error middle holds

/-- **The rule of a loop**: what every step ensures, the loop ensures. -/
theorem Ensures.foldlM {step : β → α → Effect ε σ β} {items : List α} {state : β}
    (Inv : List α → β → σ → Prop) (base : Inv [] state start)
    (preserved : ∀ done item rest state middle, items = done ++ item :: rest →
      Inv done state middle → Ensures fault (step state item) middle (Inv (done ++ [item]))) :
    Ensures fault (items.foldlM step state) start (Inv items) := by
  have general : ∀ rest done state middle, items = done ++ rest → Inv done state middle →
      Ensures fault (rest.foldlM step state) middle (Inv items) := by
    intro rest
    induction rest with
    | nil =>
      intro done state middle split holds
      rw [List.foldlM_nil, ensures_pure, split, List.append_nil]
      exact holds
    | cons item rest ih =>
      intro done state middle split holds
      rw [List.foldlM_cons]
      refine (preserved done item rest state middle split holds).bind fun next middle holds => ?_
      refine ih (done ++ [item]) next middle ?_ holds
      rw [split, List.append_assoc, List.singleton_append]
  exact general items [] state start rfl base

end Effect

end Genimage.Library
