/-
**Results that stay up to date.**

The bodies of a walk make results out of the results of the nodes they refer to. Where a body writes
nothing but the result of its own node (`Tasks`), the results of the nodes that are done are made of
the results that are there now, at every moment of the walk and also when it fails
(`Tasks.pass_upToDate`): what a finished result is made of is done, and the body of a node that is
done does not run again.
-/

import Genimage.Library.Walk

set_option linter.unusedSectionVars false

namespace Genimage.Library.Walk

variable {V W : Type*} [DecidableEq V] {pass : Pass} {refs : V → List (Option V)}
  {body : V → W → Int × W}

/-- **The steps of a visit that write.** A node is open while its references are visited, and they are
done when its body runs. -/
structure Invariant (pass : Pass) (refs : V → List (Option V)) (body : V → W → Int × W)
    (Inv : State V W → Prop) : Prop where
  entering : ∀ node state, Inv state → Inv (enter pass node state)
  refused : ∀ node state, Open pass state node → (body node state.world).1 ≠ 0 → Inv state →
    Inv { state with world := (body node state.world).2 }
  finished : ∀ node state, Open pass state node →
    (∀ child, Refers refs node child → Done pass state child) → (body node state.world).1 = 0 →
    Inv state → Inv (leave pass node (body node state.world).2 state)

/-- **The rule of an invariant**: what these steps keep, a visit keeps, whatever it returns; by
induction on the fuel. -/
theorem Invariant.visit {Inv : State V W → Prop} (invariant : Invariant pass refs body Inv)
    (fuel : Nat) : ∀ (node : V) (state : State V W) (ret : Int) (next : State V W),
      visit pass refs body fuel node state = some (ret, next) → Inv state → Inv next := by
  induction fuel with
  | zero => exact nofun
  | succ fuel ih =>
    intro node state ret next run holds
    rcases visit_cases run with
      ⟨_, _, rfl⟩ | ⟨_, _, _, rfl⟩ | ⟨unfinished, fresh, ret', middle, children, rest⟩
    · exact holds
    · exact holds
    · have between : Inv middle :=
        visitAll_related (R := fun state next => Inv state → Inv next) (fun _ => id)
          (fun _ _ _ first second => second ∘ first) ih (refs node) children
          (invariant.entering node state holds)
      -- The node itself is not touched while its references are visited.
      have stays : OpenKeeps pass (fun _ _ => True) node (enter pass node state) middle :=
        visitAll_openKeeps (fun _ => trivial) (fun _ _ _ _ _ => trivial)
          (visit_openKeeps (fun _ => trivial) (fun _ _ _ _ _ => trivial) (fun _ _ _ => trivial) fuel)
          (refs node) children
      have opened : Open pass middle node :=
        (stays ⟨(seen_enter state node node).mpr (Or.inr rfl), unfinished⟩).1
      rcases rest with ⟨_, _, rfl⟩ | ⟨rfl, rfl, ⟨failed, rfl⟩ | ⟨zero, rfl⟩⟩
      · exact between
      · exact invariant.refused node middle opened failed between
      · obtain ⟨_, _, done⟩ := visitAll_extends (visit_extends fuel) (refs node) children
        exact invariant.finished node middle opened done zero between

/-- What every body keeps, a pass keeps. -/
theorem pass_keeps {P : W → Prop} (keeps : ∀ node world, P world → P (body node world).2) {fuel : Nat}
    {nodes : List V} {state next : State V W} {ret : Int}
    (run : visitAll pass (Walk.visit pass refs body fuel) (nodes.map some) state = some (ret, next)) :
    P state.world → P next.world := by
  have invariant : Invariant pass refs body fun state => P state.world :=
    ⟨fun _ _ => id, fun node state _ _ => keeps node state.world,
      fun node state _ _ _ => keeps node state.world⟩
  exact visitAll_related (R := fun state next => P state.world → P next.world) (fun _ => id)
    (fun _ _ _ first second => second ∘ first) (invariant.visit fuel) (nodes.map some) run

/-- **Induction along the references** of a finite graph without cycles. -/
theorem Acyclic.induction [Finite V] (acyclic : Acyclic refs) {P : V → Prop}
    (step : ∀ node, (∀ child, Refers refs node child → P child) → P node) (node : V) : P node := by
  let above (child node : V) : Prop := Relation.TransGen (Refers refs) node child
  have : IsTrans V above := ⟨fun _ _ _ first second => second.trans first⟩
  have : Std.Irrefl above := ⟨fun node cycle => acyclic node cycle⟩
  have wellFounded : WellFounded above := Finite.wellFounded_of_trans_of_irrefl above
  induction node using wellFounded.induction with
  | _ node ih => exact step node fun child refers => ih child (.single refers)

/-- **Bodies that build.** `same node` says that two worlds have the same result of a node, and
`fresh node` that the result of the node is made of those it refers to. -/
structure Tasks (refs : V → List (Option V)) (body : V → W → Int × W)
    (same : V → W → W → Prop) (fresh : V → W → Prop) : Prop where
  others : ∀ node other world, other ≠ node → same other world (body node world).2
  builds : ∀ node world, ¬ Refers refs node node → (body node world).1 = 0 →
    fresh node (body node world).2
  stays : ∀ node world next, same node world next →
    (∀ child, Refers refs node child → same child world next) → fresh node world → fresh node next

/-- **The results of the nodes that are done are up to date**, and so are those they are made of. -/
def UpToDate (pass : Pass) (refs : V → List (Option V)) (fresh : V → W → Prop)
    (state : State V W) : Prop :=
  ∀ node, Done pass state node →
    (∀ child, Refers refs node child → Done pass state child) ∧ fresh node state.world

section Tasks

variable {same : V → W → W → Prop} {fresh : V → W → Prop}

theorem UpToDate.of_clean {state : State V W} (clean : ∀ node, ¬ Done pass state node) :
    UpToDate pass refs fresh state := fun node done => absurd done (clean node)

/-- The body of a node that is not done writes no result that is done. -/
theorem Tasks.stays_done (tasks : Tasks refs body same fresh) {state : State V W} {node : V}
    (opened : Open pass state node) (upToDate : UpToDate pass refs fresh state) {other : V}
    (done : Done pass state other) : fresh other (body node state.world).2 := by
  have apart : ∀ {other : V}, Done pass state other → other ≠ node :=
    fun finished equal => opened.2 (equal ▸ finished)
  obtain ⟨closed, now⟩ := upToDate other done
  refine tasks.stays other state.world _ (tasks.others node other _ (apart done)) ?_ now
  exact fun child refers => tasks.others node child _ (apart (closed child refers))

theorem Tasks.invariant (tasks : Tasks refs body same fresh) :
    Invariant pass refs body (UpToDate pass refs fresh) where
  entering _ _ upToDate := upToDate
  refused node state opened _ upToDate other done :=
    ⟨(upToDate other done).1, tasks.stays_done opened upToDate done⟩
  finished node state opened children zero upToDate := by
    have grows : ∀ other, Done pass state other →
        Done pass (leave pass node (body node state.world).2 state) other :=
      fun other done => (done_leave state _ node other).mpr (Or.inl done)
    intro other done
    rcases (done_leave state _ node other).mp done with old | rfl
    · exact ⟨fun child refers => grows child ((upToDate other old).1 child refers),
        tasks.stays_done opened upToDate old⟩
    · refine ⟨fun child refers => grows child (children child refers), ?_⟩
      exact tasks.builds other state.world (fun refers => opened.2 (children other refers)) zero

/-- **At the end of a pass the results of the nodes that are done are up to date**, whether the pass has
succeeded or not. -/
theorem Tasks.pass_upToDate (tasks : Tasks refs body same fresh) {fuel : Nat}
    {nodes : List V} {state next : State V W} {ret : Int}
    (run : visitAll pass (Walk.visit pass refs body fuel) (nodes.map some) state = some (ret, next)) :
    UpToDate pass refs fresh state → UpToDate pass refs fresh next :=
  visitAll_related (R := fun state next => UpToDate pass refs fresh state →
    UpToDate pass refs fresh next) (fun _ => id) (fun _ _ _ first second => second ∘ first)
    (tasks.invariant.visit fuel) (nodes.map some) run

end Tasks

end Genimage.Library.Walk
