/-
**Marked depth-first walks.**

A walk visits a node after the nodes it refers to. It keeps two integer marks for each node: `seen`
is set when the visit starts and `done` when it is over, and a visit that meets a `seen` node that is
not `done` fails. A `Pass` is the value it marks with and the test for it, so that several passes can
use the same marks. `visit` takes fuel for the recursion.

* `visit_total`: fuel above the number of nodes that are not `seen` is enough;
* `Extends`: what a successful visit adds, an order in which every node comes behind the nodes it
  refers to, and the bodies run in that order (`visit_extends`);
* `visit_succeeds`: without cycles and without failing bodies a visit does not fail;
* `not_acyclic`: a walk over a graph with a cycle does not succeed.
-/

import Mathlib.Data.Fintype.Card
import Mathlib.Logic.Relation

set_option linter.unusedSectionVars false

namespace Genimage.Library.Walk

open Relation

/-- The mark of a pass, the test for it, and the error of a walk that cannot go on. -/
structure Pass where
  mark : Int
  hit : Int → Bool
  hit_mark : hit mark = true
  error : Int
  error_ne : error ≠ 0

/-- The marks of the nodes, and what the bodies work on. -/
structure State (V W : Type*) where
  seen : V → Int
  done : V → Int
  world : W

variable {V W : Type*} [DecidableEq V]

/-- The references of a node one after the other; a missing one is an error. -/
def visitAll (pass : Pass) (visit : V → State V W → Option (Int × State V W)) :
    List (Option V) → State V W → Option (Int × State V W)
  | [], state => some (0, state)
  | none :: _, state => some (pass.error, state)
  | some child :: rest, state =>
    match visit child state with
    | none => none
    | some (ret, state) => if ret ≠ 0 then some (ret, state) else visitAll pass visit rest state

/-- **The visit of a node**: nothing for a node that is done, an error for one whose visit has only
started, and for a fresh one its references, then its body. -/
def visit (pass : Pass) (refs : V → List (Option V)) (body : V → W → Int × W) :
    Nat → V → State V W → Option (Int × State V W)
  | 0, _, _ => none
  | fuel + 1, node, state =>
    if pass.hit (state.done node) then some (0, state)
    else if pass.hit (state.seen node) then some (pass.error, state)
    else
      let state := { state with seen := Function.update state.seen node pass.mark }
      match visitAll pass (visit pass refs body fuel) (refs node) state with
      | none => none
      | some (ret, state) =>
        if ret ≠ 0 then some (ret, state)
        else
          let (ret, world) := body node state.world
          if ret ≠ 0 then some (ret, { state with world := world })
          else some (0, { state with
            done := Function.update state.done node pass.mark, world := world })

/-- A node refers to another one. -/
def Refers (refs : V → List (Option V)) (node child : V) : Prop := some child ∈ refs node

/-- No node refers to itself, however indirectly. -/
def Acyclic (refs : V → List (Option V)) : Prop := ∀ node, ¬ TransGen (Refers refs) node node

/-- A visit has started. -/
def Seen (pass : Pass) (state : State V W) (node : V) : Prop := pass.hit (state.seen node) = true

/-- A visit is over. -/
def Done (pass : Pass) (state : State V W) (node : V) : Prop := pass.hit (state.done node) = true

instance (pass : Pass) (state : State V W) (node : V) : Decidable (Seen pass state node) :=
  inferInstanceAs (Decidable (_ = _))

variable {pass : Pass} {refs : V → List (Option V)} {body : V → W → Int × W}

/-! ### The inversion of a visit -/

theorem hit_update (marks : V → Int) (node other : V) :
    pass.hit (Function.update marks node pass.mark other) = true ↔
      pass.hit (marks other) = true ∨ other = node := by
  by_cases same : other = node
  · rw [same, Function.update_self]
    simp [pass.hit_mark]
  · rw [Function.update_of_ne same]
    simp [same]

/-- The state in which the references of a fresh node are visited. -/
def enter (pass : Pass) (node : V) (state : State V W) : State V W :=
  { state with seen := Function.update state.seen node pass.mark }

/-- The state behind the body of a node. -/
def leave (pass : Pass) (node : V) (world : W) (state : State V W) : State V W :=
  { state with done := Function.update state.done node pass.mark, world := world }

theorem seen_enter (state : State V W) (node other : V) :
    Seen pass (enter pass node state) other ↔ Seen pass state other ∨ other = node :=
  hit_update state.seen node other

theorem done_leave (state : State V W) (world : W) (node other : V) :
    Done pass (leave pass node world state) other ↔ Done pass state other ∨ other = node :=
  hit_update state.done node other

/-- **The ways a visit can go.** -/
theorem visit_cases {fuel : Nat} {node : V} {state next : State V W} {ret : Int}
    (run : visit pass refs body (fuel + 1) node state = some (ret, next)) :
    (Done pass state node ∧ ret = 0 ∧ next = state) ∨
    (¬ Done pass state node ∧ Seen pass state node ∧ ret = pass.error ∧ next = state) ∨
    (¬ Done pass state node ∧ ¬ Seen pass state node ∧ ∃ ret' middle,
      visitAll pass (visit pass refs body fuel) (refs node) (enter pass node state) =
        some (ret', middle) ∧
      ((ret' ≠ 0 ∧ ret = ret' ∧ next = middle) ∨
        (ret' = 0 ∧ ret = (body node middle.world).1 ∧
          ((ret ≠ 0 ∧ next = { middle with world := (body node middle.world).2 }) ∨
            (ret = 0 ∧ next = leave pass node (body node middle.world).2 middle))))) := by
  rw [visit] at run
  split_ifs at run with done seen
  · simp only [Option.some.injEq, Prod.mk.injEq] at run
    exact Or.inl ⟨done, run.1.symm, run.2.symm⟩
  · simp only [Option.some.injEq, Prod.mk.injEq] at run
    exact Or.inr (Or.inl ⟨done, seen, run.1.symm, run.2.symm⟩)
  · refine Or.inr (Or.inr ⟨done, seen, ?_⟩)
    simp only at run
    split at run
    next => cases run
    next ret' middle children =>
      refine ⟨ret', middle, children, ?_⟩
      split_ifs at run with failed refused
      · simp only [Option.some.injEq, Prod.mk.injEq] at run
        exact Or.inl ⟨failed, run.1.symm, run.2.symm⟩
      · simp only [Option.some.injEq, Prod.mk.injEq] at run
        exact Or.inr ⟨not_not.mp failed, run.1.symm, Or.inl ⟨run.1 ▸ refused, run.2.symm⟩⟩
      · simp only [Option.some.injEq, Prod.mk.injEq] at run
        exact Or.inr ⟨not_not.mp failed, by rw [← run.1, not_not.mp refused],
          Or.inr ⟨run.1.symm, run.2.symm⟩⟩

/-! ### Relations between the states in front of a visit and behind it -/

theorem visitAll_related {R : State V W → State V W → Prop} (refl : ∀ state, R state state)
    (trans : ∀ state middle next, R state middle → R middle next → R state next)
    {visit : V → State V W → Option (Int × State V W)}
    (one : ∀ node state ret next, visit node state = some (ret, next) → R state next)
    (children : List (Option V)) : ∀ {state next : State V W} {ret : Int},
      visitAll pass visit children state = some (ret, next) → R state next := by
  induction children with
  | nil =>
    intro state next ret run
    cases run
    exact refl state
  | cons child rest ih =>
    intro state next ret run
    cases child with
    | none =>
      cases run
      exact refl state
    | some child =>
      rw [visitAll] at run
      split at run
      next => cases run
      next ret' middle first =>
        have forward := one child state ret' middle first
        split_ifs at run with failed
        · cases run
          exact forward
        · exact trans state middle next forward (ih run)

/-- **What entering, leaving and the bodies keep, a visit keeps.** -/
theorem visit_related {R : State V W → State V W → Prop} (refl : ∀ state, R state state)
    (trans : ∀ state middle next, R state middle → R middle next → R state next)
    (entering : ∀ node state, R state (enter pass node state))
    (working : ∀ world (state : State V W), R state { state with world := world })
    (leaving : ∀ node (state : State V W), (body node state.world).1 = 0 →
      R state (leave pass node (body node state.world).2 state)) (fuel : Nat) :
    ∀ (node : V) (state : State V W) (ret : Int) (next : State V W),
      visit pass refs body fuel node state = some (ret, next) → R state next := by
  induction fuel with
  | zero => exact nofun
  | succ fuel ih =>
    intro node state ret next run
    rcases visit_cases run with ⟨_, _, rfl⟩ | ⟨_, _, _, rfl⟩ | ⟨_, _, ret', middle, children, rest⟩
    · exact refl _
    · exact refl _
    · have forward : R state middle := trans _ _ _ (entering node state)
        (visitAll_related refl trans ih (refs node) children)
      rcases rest with ⟨_, _, rfl⟩ | ⟨_, answer, ⟨_, rfl⟩ | ⟨zero, rfl⟩⟩
      · exact forward
      · exact trans _ _ _ forward (working _ middle)
      · exact trans _ _ _ forward (leaving node middle (answer.symm.trans zero))

/-- Every mark satisfies `P`. -/
def MarksIn (P : Int → Prop) (state : State V W) : Prop :=
  ∀ node, P (state.seen node) ∧ P (state.done node)

/-- **A pass writes no mark but its own.** -/
theorem visit_marksIn {P : Int → Prop} (own : P pass.mark) (fuel : Nat) (node : V)
    (state : State V W) (ret : Int) (next : State V W)
    (run : visit pass refs body fuel node state = some (ret, next)) :
    MarksIn P state → MarksIn P next := by
  have updated : ∀ (marks : V → Int) (node other : V), P (marks other) →
      P (Function.update marks node pass.mark other) := by
    intro marks node other old
    by_cases same : other = node
    · rw [same, Function.update_self]
      exact own
    · rw [Function.update_of_ne same]
      exact old
  refine visit_related (R := fun state next => MarksIn P state → MarksIn P next) (fun _ => id)
    (fun _ _ _ first second => second ∘ first) ?_ ?_ ?_ fuel node state ret next run
  · exact fun node state marks other => ⟨updated _ node other (marks other).1, (marks other).2⟩
  · exact fun world state marks => marks
  · exact fun node state _ marks other =>
      ⟨(marks other).1, updated _ node other (marks other).2⟩

/-! ### Termination -/

/-- Marks stay. -/
def SeenMono (pass : Pass) (state next : State V W) : Prop :=
  ∀ node, Seen pass state node → Seen pass next node

theorem visit_seenMono (fuel : Nat) : ∀ (node : V) (state : State V W) (ret : Int)
    (next : State V W), visit pass refs body fuel node state = some (ret, next) →
      SeenMono pass state next := by
  refine visit_related (R := SeenMono pass) (fun _ _ => id)
    (fun _ _ _ first second node => second node ∘ first node) ?_ ?_ ?_ fuel
  · exact fun node state other seen => (seen_enter state node other).mpr (Or.inl seen)
  · exact fun world state other seen => seen
  · exact fun node state _ other seen => seen

/-- The visit of a node has started and is not over. -/
def Open (pass : Pass) (state : State V W) (node : V) : Prop :=
  Seen pass state node ∧ ¬ Done pass state node

/-- While a node is open, it stays so, and the world keeps something. -/
def OpenKeeps (pass : Pass) (keeps : W → W → Prop) (node : V) (state next : State V W) : Prop :=
  Open pass state node → Open pass next node ∧ keeps state.world next.world

theorem visitAll_openKeeps {keeps : W → W → Prop} (refl : ∀ world, keeps world world)
    (trans : ∀ first second third, keeps first second → keeps second third → keeps first third)
    {node : V} {visit : V → State V W → Option (Int × State V W)}
    (one : ∀ child state ret next, visit child state = some (ret, next) →
      OpenKeeps pass keeps node state next) (children : List (Option V)) {state next : State V W}
    {ret : Int} (run : visitAll pass visit children state = some (ret, next)) :
    OpenKeeps pass keeps node state next := by
  refine visitAll_related (R := OpenKeeps pass keeps node) (fun _ opened => ⟨opened, refl _⟩) ?_ one
    children run
  intro state middle next first second opened
  obtain ⟨between, forward⟩ := first opened
  exact ⟨(second between).1, trans _ _ _ forward (second between).2⟩

/-- **What the bodies of the other nodes keep**, stays while a node is open: its own body does not
run. -/
theorem visit_openKeeps {keeps : W → W → Prop} (refl : ∀ world, keeps world world)
    (trans : ∀ first second third, keeps first second → keeps second third → keeps first third)
    {node : V} (others : ∀ other, other ≠ node → ∀ world, keeps world (body other world).2)
    (fuel : Nat) : ∀ (child : V) (state : State V W) (ret : Int) (next : State V W),
      visit pass refs body fuel child state = some (ret, next) →
      OpenKeeps pass keeps node state next := by
  induction fuel with
  | zero => exact nofun
  | succ fuel ih =>
    intro child state ret next run opened
    rcases visit_cases run with ⟨_, _, rfl⟩ | ⟨_, _, _, rfl⟩ | ⟨_, fresh, ret', middle, children, rest⟩
    · exact ⟨opened, refl _⟩
    · exact ⟨opened, refl _⟩
    · have different : child ≠ node := fun same => fresh (same ▸ opened.1)
      obtain ⟨between, forward⟩ := visitAll_openKeeps refl trans ih (refs child) children
        ⟨(seen_enter state child node).mpr (Or.inl opened.1), opened.2⟩
      rcases rest with ⟨_, _, rfl⟩ | ⟨_, _, ⟨_, rfl⟩ | ⟨_, rfl⟩⟩
      · exact ⟨between, forward⟩
      · exact ⟨between, trans _ _ _ forward (others child different _)⟩
      · refine ⟨⟨between.1, fun finished => ?_⟩, trans _ _ _ forward (others child different _)⟩
        exact ((done_leave middle _ child node).mp finished).elim between.2 fun same =>
          different same.symm

section Total

variable [Fintype V]

/-- The nodes whose visit has not started. -/
def pending (pass : Pass) (state : State V W) : Nat :=
  (Finset.univ.filter fun node => ¬ Seen pass state node).card

theorem pending_le {state next : State V W} (mono : SeenMono pass state next) :
    pending pass next ≤ pending pass state := by
  refine Finset.card_le_card fun node member => ?_
  simp only [Finset.mem_filter, Finset.mem_univ, true_and] at member ⊢
  exact fun seen => member (mono node seen)

theorem pending_enter {state : State V W} {node : V} (fresh : ¬ Seen pass state node) :
    pending pass (enter pass node state) < pending pass state := by
  refine Finset.card_lt_card ((Finset.ssubset_iff_of_subset ?_).mpr ⟨node, ?_, ?_⟩)
  · intro other member
    simp only [Finset.mem_filter, Finset.mem_univ, true_and, seen_enter] at member ⊢
    exact fun seen => member (Or.inl seen)
  · simpa using fresh
  · simp [seen_enter]

theorem visitAll_total {visit : V → State V W → Option (Int × State V W)} {bound : Nat}
    (mono : ∀ node state ret next, visit node state = some (ret, next) → SeenMono pass state next)
    (total : ∀ node state, pending pass state < bound → ∃ result, visit node state = some result)
    (children : List (Option V)) : ∀ state : State V W, pending pass state < bound →
      ∃ result, visitAll pass visit children state = some result := by
  induction children with
  | nil => exact fun state _ => ⟨(0, state), rfl⟩
  | cons child rest ih =>
    intro state small
    cases child with
    | none => exact ⟨(pass.error, state), rfl⟩
    | some child =>
      obtain ⟨⟨ret, next⟩, first⟩ := total child state small
      rw [visitAll, first]
      simp only
      split_ifs
      · exact ⟨_, rfl⟩
      · exact ih next ((pending_le (mono child state ret next first)).trans_lt small)

/-- **The recursion ends**: fuel above the number of fresh nodes is enough. -/
theorem visit_total (fuel : Nat) : ∀ (node : V) (state : State V W), pending pass state < fuel →
    ∃ result, visit pass refs body fuel node state = some result := by
  induction fuel with
  | zero => exact fun _ _ impossible => absurd impossible (Nat.not_lt_zero _)
  | succ fuel ih =>
    intro node state enough
    rw [visit]
    split_ifs with done seen
    · exact ⟨_, rfl⟩
    · exact ⟨_, rfl⟩
    · have smaller : pending pass (enter pass node state) < fuel :=
        (pending_enter seen).trans_le (Nat.lt_succ_iff.mp enough)
      obtain ⟨⟨ret, middle⟩, children⟩ :=
        visitAll_total (visit_seenMono fuel) ih (refs node) _ smaller
      rw [enter] at children
      simp only [children]
      split_ifs <;> exact ⟨_, rfl⟩

theorem pending_le_card (state : State V W) : pending pass state ≤ Fintype.card V :=
  Finset.card_le_univ _

end Total

/-! ### What a successful visit adds -/

/-- Every node of the order comes behind the nodes it refers to, unless they were done before. -/
def ChildrenFirst (pass : Pass) (refs : V → List (Option V)) (state : State V W)
    (order : List V) : Prop :=
  ∀ before node after, order = before ++ node :: after → ∀ child, Refers refs node child →
    child ∈ before ∨ Done pass state child

/-- The bodies of the nodes of an order, one after the other. -/
def runBodies (body : V → W → Int × W) (order : List V) (world : W) : W :=
  order.foldl (fun world node => (body node world).2) world

/-- **`next` is `state` after complete visits of the nodes of `order`.** -/
structure Extends (pass : Pass) (refs : V → List (Option V)) (body : V → W → Int × W)
    (state next : State V W) (order : List V) : Prop where
  seen : ∀ node, Seen pass next node ↔ Seen pass state node ∨ node ∈ order
  done : ∀ node, Done pass next node ↔ Done pass state node ∨ node ∈ order
  fresh : ∀ node ∈ order, ¬ Seen pass state node
  nodup : order.Nodup
  children : ChildrenFirst pass refs state order
  world : next.world = runBodies body order state.world

theorem ChildrenFirst.nil (state : State V W) : ChildrenFirst pass refs state [] := by
  intro before node after split
  cases before <;> cases split

/-- A block behind an order whose nodes count as done. -/
theorem ChildrenFirst.append {state : State V W} {first second : List V}
    (ordered : ChildrenFirst pass refs state first) (middle : State V W)
    (ordered' : ChildrenFirst pass refs middle second)
    (known : ∀ node, Done pass middle node → Done pass state node ∨ node ∈ first) :
    ChildrenFirst pass refs state (first ++ second) := by
  intro before node after split child refers
  rcases List.append_eq_append_iff.mp split with ⟨more, rfl, behind⟩ | ⟨more, rfl, behind⟩
  · rcases ordered' more node after behind child refers with member | done
    · exact Or.inl (List.mem_append_right _ member)
    · rcases known child done with done | member
      · exact Or.inr done
      · exact Or.inl (List.mem_append_left _ member)
  · cases more with
    | nil =>
      rw [List.nil_append] at behind
      rcases ordered' [] node after behind.symm child refers with member | done
      · cases member
      · rcases known child done with done | member
        · exact Or.inr done
        · exact Or.inl (by simpa using member)
    | cons head more =>
      obtain ⟨rfl, _⟩ := List.cons.inj behind
      exact ordered before node more rfl child refers

namespace Extends

variable {state middle next : State V W}

theorem refl (state : State V W) : Extends pass refs body state state [] where
  seen _ := by simp
  done _ := by simp
  fresh := by simp
  nodup := List.nodup_nil
  children := .nil state
  world := rfl

theorem trans {first second : List V} (one : Extends pass refs body state middle first)
    (two : Extends pass refs body middle next second) :
    Extends pass refs body state next (first ++ second) where
  seen node := by rw [two.seen, one.seen, List.mem_append, or_assoc]
  done node := by rw [two.done, one.done, List.mem_append, or_assoc]
  fresh node member := by
    rcases List.mem_append.mp member with member | member
    · exact one.fresh node member
    · exact fun seen => two.fresh node member ((one.seen node).mpr (Or.inl seen))
  nodup := by
    refine List.nodup_append.mpr ⟨one.nodup, two.nodup, ?_⟩
    rintro node member _ member' rfl
    exact two.fresh node member' ((one.seen node).mpr (Or.inr member))
  children := one.children.append _ two.children fun node => (one.done node).mp
  world := by rw [two.world, one.world, runBodies, runBodies, runBodies, List.foldl_append]

/-- The visit of a fresh node whose references are done: its body comes last. -/
theorem leave {node : V} {order : List V} (fresh : ¬ Seen pass state node)
    (inner : Extends pass refs body (enter pass node state) middle order)
    (all : ∀ child, Refers refs node child → Done pass middle child) :
    Extends pass refs body state (leave pass node (body node middle.world).2 middle)
      (order ++ [node]) where
  seen other := by
    show Seen pass middle other ↔ _
    rw [inner.seen, seen_enter, List.mem_append, List.mem_singleton]
    tauto
  done other := by
    rw [done_leave, inner.done, List.mem_append, List.mem_singleton, or_assoc]
    rfl
  fresh other member := by
    rcases List.mem_append.mp member with member | member
    · exact fun seen => inner.fresh other member ((seen_enter state node other).mpr (Or.inl seen))
    · rw [List.mem_singleton.mp member]
      exact fresh
  nodup := by
    refine List.nodup_append.mpr ⟨inner.nodup, List.nodup_singleton _, ?_⟩
    rintro other member _ member' rfl
    rw [List.mem_singleton.mp member'] at member
    exact inner.fresh node member ((seen_enter state node node).mpr (Or.inr rfl))
  children := by
    refine ChildrenFirst.append inner.children middle ?_ fun node => (inner.done node).mp
    intro before other after split child refers
    cases before with
    | nil =>
      obtain ⟨rfl, _⟩ := List.cons.inj split
      exact Or.inr (all child refers)
    | cons _ rest => cases rest <;> cases split
  world := by
    show (body node middle.world).2 = _
    rw [runBodies, List.foldl_append, inner.world]
    rfl

end Extends

theorem visitAll_extends {visit : V → State V W → Option (Int × State V W)}
    (one : ∀ node state next, visit node state = some (0, next) →
      ∃ order, Extends pass refs body state next order ∧ Done pass next node)
    (children : List (Option V)) : ∀ {state next : State V W},
      visitAll pass visit children state = some (0, next) →
      ∃ order, Extends pass refs body state next order ∧
        ∀ child, some child ∈ children → Done pass next child := by
  induction children with
  | nil =>
    intro state next run
    cases run
    exact ⟨[], .refl state, by simp⟩
  | cons child rest ih =>
    intro state next run
    cases child with
    | none =>
      simp only [visitAll, Option.some.injEq, Prod.mk.injEq] at run
      exact absurd run.1 pass.error_ne
    | some child =>
      rw [visitAll] at run
      split at run
      next => cases run
      next ret middle first =>
        split_ifs at run with failed
        · simp only [Option.some.injEq, Prod.mk.injEq] at run
          exact absurd run.1 failed
        · rw [not_not.mp failed] at first
          obtain ⟨order, extended, done⟩ := one child state middle first
          obtain ⟨order', extended', rest⟩ := ih run
          refine ⟨order ++ order', extended.trans extended', fun other member => ?_⟩
          rcases List.mem_cons.mp member with same | member
          · rw [Option.some.inj same]
            exact (extended'.done child).mpr (Or.inl done)
          · exact rest other member

/-- **A successful visit** runs the bodies of nodes that were fresh, each once, children first, and
ends with the node done. -/
theorem visit_extends (fuel : Nat) : ∀ (node : V) (state next : State V W),
    visit pass refs body fuel node state = some (0, next) →
    ∃ order, Extends pass refs body state next order ∧ Done pass next node := by
  induction fuel with
  | zero => exact nofun
  | succ fuel ih =>
    intro node state next run
    rcases visit_cases run with
      ⟨done, _, rfl⟩ | ⟨_, _, failed, _⟩ | ⟨_, fresh, ret, middle, children, rest⟩
    · exact ⟨[], .refl _, done⟩
    · exact absurd failed.symm pass.error_ne
    · rcases rest with ⟨failed, same, _⟩ | ⟨rfl, _, ⟨refused, _⟩ | ⟨_, rfl⟩⟩
      · exact absurd same.symm failed
      · exact absurd rfl refused
      · obtain ⟨order, inner, all⟩ := visitAll_extends ih (refs node) children
        exact ⟨order ++ [node], .leave fresh inner all,
          (done_leave middle _ node node).mpr (Or.inr rfl)⟩

theorem visit_extends_order (fuel : Nat) (node : V) (state next : State V W)
    (run : visit pass refs body fuel node state = some (0, next)) :
    ∃ order, Extends pass refs body state next order :=
  (visit_extends fuel node state next run).imp fun _ both => both.1

/-! ### Which errors a visit can return -/

theorem visitAll_ret {visit : V → State V W → Option (Int × State V W)} {Possible : Int → Prop}
    (none : Possible pass.error) (zero : Possible 0)
    (one : ∀ node state ret next, visit node state = some (ret, next) → Possible ret)
    (children : List (Option V)) : ∀ {state next : State V W} {ret : Int},
      visitAll pass visit children state = some (ret, next) → Possible ret := by
  induction children with
  | nil =>
    intro state next ret run
    cases run
    exact zero
  | cons child rest ih =>
    intro state next ret run
    cases child with
    | none =>
      cases run
      exact none
    | some child =>
      rw [visitAll] at run
      split at run
      next => cases run
      next ret' middle first =>
        split_ifs at run
        · cases run
          exact one child state _ _ first
        · exact ih run

/-- A visit returns `0`, the error of the pass, or what a body returned. -/
theorem visit_ret {Possible : Int → Prop} (none : Possible pass.error) (zero : Possible 0)
    (bodies : ∀ node world, Possible (body node world).1) (fuel : Nat) :
    ∀ (node : V) (state : State V W) (ret : Int) (next : State V W),
      visit pass refs body fuel node state = some (ret, next) → Possible ret := by
  induction fuel with
  | zero => exact nofun
  | succ fuel ih =>
    intro node state ret next run
    rcases visit_cases run with ⟨_, rfl, _⟩ | ⟨_, _, rfl, _⟩ | ⟨_, _, ret', middle, children, rest⟩
    · exact zero
    · exact none
    · rcases rest with ⟨_, rfl, _⟩ | ⟨_, rfl, _⟩
      · exact visitAll_ret none zero ih (refs node) children
      · exact bodies node middle.world

/-! ### Cycles -/

/-- Every visit that has started and is not over is the visit of a node that leads to `node`. -/
def StackLeadsTo (pass : Pass) (refs : V → List (Option V)) (state : State V W) (node : V) : Prop :=
  ∀ other, Seen pass state other → ¬ Done pass state other → TransGen (Refers refs) other node

/-- Complete visits leave the started ones as they are. -/
theorem StackLeadsTo.of_extends {state next : State V W} {order : List V} {node : V}
    (leads : StackLeadsTo pass refs state node)
    (extended : Extends pass refs body state next order) : StackLeadsTo pass refs next node := by
  intro other seen open_
  rcases (extended.seen other).mp seen with seen | member
  · exact leads other seen fun done => open_ ((extended.done other).mpr (Or.inl done))
  · exact absurd ((extended.done other).mpr (Or.inr member)) open_

theorem StackLeadsTo.enter {state : State V W} {node child : V}
    (leads : StackLeadsTo pass refs state node) (refers : Refers refs node child) :
    StackLeadsTo pass refs (enter pass node state) child := by
  intro other seen open_
  rcases (seen_enter state node other).mp seen with seen | rfl
  · exact (leads other seen open_).tail refers
  · exact .single refers

theorem visitAll_succeeds {visit : V → State V W → Option (Int × State V W)}
    (extend : ∀ node state next, visit node state = some (0, next) →
      ∃ order, Extends pass refs body state next order)
    (one : ∀ node state ret next, StackLeadsTo pass refs state node →
      visit node state = some (ret, next) → ret = 0)
    (children : List (Option V)) (complete : none ∉ children) :
    ∀ {state next : State V W} {ret : Int},
      (∀ child, some child ∈ children → StackLeadsTo pass refs state child) →
      visitAll pass visit children state = some (ret, next) → ret = 0 := by
  induction children with
  | nil =>
    intro state next ret _ run
    cases run
    rfl
  | cons child rest ih =>
    intro state next ret leads run
    cases child with
    | none => exact absurd List.mem_cons_self complete
    | some child =>
      rw [visitAll] at run
      split at run
      next => cases run
      next ret' middle first =>
        obtain rfl := one child state ret' middle (leads child List.mem_cons_self) first
        obtain ⟨order, extended⟩ := extend child state middle first
        refine ih (fun member => complete (List.mem_cons_of_mem _ member)) ?_ run
        exact fun other member =>
          (leads other (List.mem_cons_of_mem _ member)).of_extends extended

/-- **Without cycles a visit does not fail**, when every reference exists and no body fails. -/
theorem visit_succeeds (acyclic : Acyclic refs) (complete : ∀ node, none ∉ refs node)
    (bodies : ∀ node world, (body node world).1 = 0) (fuel : Nat) :
    ∀ (node : V) (state : State V W) (ret : Int) (next : State V W),
      StackLeadsTo pass refs state node →
      visit pass refs body fuel node state = some (ret, next) → ret = 0 := by
  induction fuel with
  | zero => exact nofun
  | succ fuel ih =>
    intro node state ret next leads run
    rcases visit_cases run with
      ⟨_, rfl, _⟩ | ⟨open_, seen, _⟩ | ⟨_, _, ret', middle, children, rest⟩
    · rfl
    · exact absurd (leads node seen open_) (acyclic node)
    · rcases rest with ⟨failed, _⟩ | ⟨_, rfl, _⟩
      · refine absurd (visitAll_succeeds (visit_extends_order fuel) ih (refs node) (complete node)
          ?_ children) failed
        exact fun child member => leads.enter member
      · exact bodies node middle.world

/-- **A complete order rules out cycles**: the place in the order decreases along references. -/
theorem acyclic_of_extends {state next : State V W} {order : List V}
    (extended : Extends pass refs body state next order) (all : ∀ node, node ∈ order)
    (clean : ∀ node, ¬ Done pass state node) : Acyclic refs := by
  have step : ∀ node child, Refers refs node child → order.idxOf child < order.idxOf node := by
    intro node child refers
    obtain ⟨before, after, split, notBefore⟩ := List.eq_append_cons_of_mem (all node)
    have member := (extended.children before node after split child refers).resolve_right
      (clean child)
    rw [split, List.idxOf_append_of_mem member, List.idxOf_append_of_notMem notBefore,
      List.idxOf_cons_self]
    have := List.idxOf_lt_length_of_mem member
    omega
  have path : ∀ node child, TransGen (Refers refs) node child →
      order.idxOf child < order.idxOf node := by
    intro node child reach
    induction reach with
    | single refers => exact step _ _ refers
    | tail _ refers ih => exact (step _ _ refers).trans ih
  exact fun node cycle => lt_irrefl _ (path node node cycle)

/-! ### What the bodies have returned -/

/-- **The bodies of nodes that are done have returned `0`.** -/
def DoneAnswered (pass : Pass) (body : V → W → Int × W) (state next : State V W) : Prop :=
  ∀ node, Done pass next node → Done pass state node ∨ ∃ world, (body node world).1 = 0

theorem DoneAnswered.trans {state middle next : State V W} (first : DoneAnswered pass body state middle)
    (second : DoneAnswered pass body middle next) : DoneAnswered pass body state next :=
  fun node done => (second node done).elim (first node) Or.inr

theorem visit_doneAnswered (fuel : Nat) : ∀ (node : V) (state : State V W) (ret : Int)
    (next : State V W), visit pass refs body fuel node state = some (ret, next) →
      DoneAnswered pass body state next := by
  refine visit_related (R := DoneAnswered pass body) (fun _ _ => Or.inl)
    (fun _ _ _ => DoneAnswered.trans) ?_ ?_ ?_ fuel
  · exact fun node state other => Or.inl
  · exact fun world state other => Or.inl
  · intro node state answer other done
    rcases (done_leave state _ node other).mp done with done | rfl
    · exact Or.inl done
    · exact Or.inr ⟨state.world, answer⟩

/-! ### A whole pass -/

section Whole

variable [Fintype V] {nodes : List V} {fuel : Nat} {state : State V W}

/-- **A pass over all nodes ends.** -/
theorem pass_total (enough : Fintype.card V < fuel) :
    ∃ ret next, visitAll pass (visit pass refs body fuel) (nodes.map some) state =
      some (ret, next) := by
  obtain ⟨⟨ret, next⟩, run⟩ := visitAll_total (visit_seenMono fuel)
    (visit_total fuel) (nodes.map some) state
    ((pending_le_card state).trans_lt enough)
  exact ⟨ret, next, run⟩

theorem pass_marksIn {P : Int → Prop} {ret : Int} {next : State V W} (own : P pass.mark)
    (run : visitAll pass (visit pass refs body fuel) (nodes.map some) state = some (ret, next)) :
    MarksIn P state → MarksIn P next :=
  visitAll_related (R := fun state next => MarksIn P state → MarksIn P next) (fun _ => id)
    (fun _ _ _ first second => second ∘ first) (visit_marksIn own fuel) (nodes.map some) run

/-- **A successful pass visits every node once, children first.** -/
theorem pass_extends {next : State V W} (all : ∀ node, node ∈ nodes)
    (clean : ∀ node, ¬ Done pass state node)
    (run : visitAll pass (visit pass refs body fuel) (nodes.map some) state = some (0, next)) :
    ∃ order, Extends pass refs body state next order ∧ ∀ node, node ∈ order := by
  obtain ⟨order, extended, done⟩ := visitAll_extends (visit_extends fuel) (nodes.map some) run
  refine ⟨order, extended, fun node => ?_⟩
  have visited := done node (List.mem_map_of_mem (all node))
  exact ((extended.done node).mp visited).resolve_left (clean node)

/-- **A pass from clean marks succeeds on a graph without cycles.** -/
theorem pass_succeeds {ret : Int} {next : State V W} (acyclic : Acyclic refs)
    (complete : ∀ node, none ∉ refs node) (bodies : ∀ node world, (body node world).1 = 0)
    (clean : ∀ node, ¬ Seen pass state node)
    (run : visitAll pass (visit pass refs body fuel) (nodes.map some) state = some (ret, next)) :
    ret = 0 := by
  refine visitAll_succeeds (visit_extends_order fuel)
    (visit_succeeds acyclic complete bodies fuel) (nodes.map some) (by simp) ?_ run
  exact fun child _ other seen => absurd seen (clean other)

/-- **A pass over a graph with a cycle fails**: with the error of the pass, or with what a body
returned. -/
theorem pass_fails {ret : Int} {next : State V W} (cyclic : ¬ Acyclic refs)
    (all : ∀ node, node ∈ nodes) (clean : ∀ node, ¬ Done pass state node)
    (run : visitAll pass (visit pass refs body fuel) (nodes.map some) state = some (ret, next)) :
    ret ≠ 0 ∧ (ret = pass.error ∨ ∃ node world, ret = (body node world).1) := by
  have nonzero : ret ≠ 0 := by
    rintro rfl
    obtain ⟨order, extended, every⟩ := pass_extends all clean run
    exact cyclic (acyclic_of_extends extended every clean)
  refine ⟨nonzero, ?_⟩
  let Possible (ret : Int) : Prop :=
    ret = 0 ∨ ret = pass.error ∨ ∃ node world, ret = (body node world).1
  have bodies : ∀ node world, Possible (body node world).1 := fun node world =>
    Or.inr (Or.inr ⟨node, world, rfl⟩)
  have possible : Possible ret := visitAll_ret (Or.inr (Or.inl rfl)) (Or.inl rfl)
    (visit_ret (Or.inr (Or.inl rfl)) (Or.inl rfl) bodies fuel) (nodes.map some) run
  exact possible.resolve_left nonzero

/-- **A pass fails if the body of a node never returns `0`.** -/
theorem pass_refused {ret : Int} {next : State V W} (all : ∀ node, node ∈ nodes)
    (clean : ∀ node, ¬ Done pass state node) (node : V) (refuses : ∀ world, (body node world).1 ≠ 0)
    (run : visitAll pass (visit pass refs body fuel) (nodes.map some) state = some (ret, next)) :
    ret ≠ 0 := by
  rintro rfl
  obtain ⟨order, -, done⟩ := visitAll_extends (visit_extends fuel) (nodes.map some) run
  have answered : DoneAnswered pass body state next :=
    visitAll_related (R := DoneAnswered pass body) (fun _ _ => Or.inl)
      (fun _ _ _ => DoneAnswered.trans) (visit_doneAnswered fuel) (nodes.map some) run
  rcases answered node (done node (List.mem_map_of_mem (all node))) with old | ⟨world, zero⟩
  · exact clean node old
  · exact refuses world zero

end Whole

end Genimage.Library.Walk
