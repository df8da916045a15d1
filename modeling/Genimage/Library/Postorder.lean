/-
**Which of two nodes a walk finishes first.**

`Earlier` says it of two nodes by the references alone: the first reference that leads to one of them
leads to it only, or is the other one, or both are found below it. On a graph without cycles one of
two different nodes that can be reached is the earlier one (`earlier_total`).

* `record` notes the nodes in the order in which their bodies run; `recorded_before` places an earlier
  node in front of the other one;
* `visitAll_prefix`: a walk whose bodies fail runs the bodies of a prefix of that order, and only the
  last of them has failed.
-/

import Genimage.Library.Walk
import Mathlib.Data.Fintype.EquivFin

set_option linter.unusedSectionVars false

namespace Genimage.Library.Walk

open Relation

variable {V W : Type*} [DecidableEq V] {pass : Pass} {refs : V → List (Option V)}
  {body : V → W → Int × W}

/-- The references lead from one node to another, or the two are the same. -/
def Leads (refs : V → List (Option V)) : V → V → Prop := ReflTransGen (Refers refs)

/-- **A node is finished before another one**, in a walk along the references of a list. -/
inductive Earlier (refs : V → List (Option V)) (first second : V) : List (Option V) → Prop
  | skip {child : V} {rest : List (Option V)} (no : ¬ Leads refs child first)
      (no' : ¬ Leads refs child second) (later : Earlier refs first second rest) :
      Earlier refs first second (some child :: rest)
  | alone {child : V} {rest : List (Option V)} (leads : Leads refs child first)
      (no : ¬ Leads refs child second) : Earlier refs first second (some child :: rest)
  | target {rest : List (Option V)} (leads : TransGen (Refers refs) second first) :
      Earlier refs first second (some second :: rest)
  | inside {child : V} {rest : List (Option V)} (leads : TransGen (Refers refs) child first)
      (leads' : TransGen (Refers refs) child second)
      (below : Earlier refs first second (refs child)) :
      Earlier refs first second (some child :: rest)

/-- One node stands in front of another one. -/
def Before (order : List V) (first second : V) : Prop :=
  ∃ front back, order = front ++ second :: back ∧ first ∈ front

theorem Before.append {order : List V} {first second : V} (before : Before order first second)
    (more : List V) : Before (order ++ more) first second := by
  obtain ⟨front, back, rfl, member⟩ := before
  exact ⟨front, back ++ more, by rw [List.append_assoc, List.cons_append], member⟩

theorem Before.prepend {order : List V} {first second : V} (before : Before order first second)
    (more : List V) : Before (more ++ order) first second := by
  obtain ⟨front, back, rfl, member⟩ := before
  exact ⟨more ++ front, back, (List.append_assoc _ _ _).symm, List.mem_append_right _ member⟩

/-- What stands in front is read off any split. -/
theorem before_split {front back : List V} {first second : V}
    (nodup : (front ++ second :: back).Nodup) :
    Before (front ++ second :: back) first second ↔ first ∈ front := by
  refine ⟨?_, fun member => ⟨front, back, rfl, member⟩⟩
  rintro ⟨front', back', same, member⟩
  have absent : second ∉ front' ++ back' := (List.nodup_middle.mp (same ▸ nodup)).notMem
  rw [List.mem_append, not_or] at absent
  obtain ⟨rfl, _, _⟩ := (List.append_cons_inj_of_notMem absent.1 absent.2).mp same.symm
  exact member

theorem Before.not_symm {order : List V} {first second : V} (nodup : order.Nodup)
    (before : Before order first second) : ¬ Before order second first := by
  obtain ⟨front, back, rfl, member⟩ := before
  have absent : second ∉ front ++ back := (List.nodup_middle.mp nodup).notMem
  obtain ⟨pre, post, rfl⟩ := List.append_of_mem member
  rw [List.append_assoc, List.cons_append] at nodup ⊢
  rw [before_split nodup]
  exact fun member' => absent (by simp [member'])

/-- Two different nodes of an order stand one in front of the other. -/
theorem before_total {order : List V} {first second : V} (member : first ∈ order)
    (member' : second ∈ order) (different : first ≠ second) :
    Before order first second ∨ Before order second first := by
  obtain ⟨front, back, rfl⟩ := List.append_of_mem member'
  rcases List.mem_append.mp member with inFront | inBack
  · exact Or.inl ⟨front, back, rfl, inFront⟩
  · obtain ⟨pre, post, rfl⟩ := List.append_of_mem ((List.mem_cons.mp inBack).resolve_left different)
    exact Or.inr ⟨front ++ second :: pre, post, by simp, by simp⟩

/-! ### One of two nodes is the earlier one -/

theorem leads_iff {node other : V} :
    Leads refs node other ↔ other = node ∨ TransGen (Refers refs) node other :=
  reflTransGen_iff_eq_or_transGen

/-- The references of a list, when it is so below each of them. -/
theorem earlier_total_list {first second : V} (different : first ≠ second)
    (children : List (Option V)) (complete : none ∉ children)
    (below : ∀ child, some child ∈ children → TransGen (Refers refs) child first →
      Earlier refs first second (refs child) ∨ Earlier refs second first (refs child))
    (leads : ∃ child, some child ∈ children ∧ Leads refs child first) :
    Earlier refs first second children ∨ Earlier refs second first children := by
  induction children with
  | nil => simp at leads
  | cons child rest ih =>
    cases child with
    | none => exact absurd List.mem_cons_self complete
    | some child =>
      by_cases one : Leads refs child first
      · by_cases two : Leads refs child second
        · rcases leads_iff.mp one with rfl | one
          · exact Or.inr (.target ((leads_iff.mp two).resolve_left (Ne.symm different)))
          · rcases leads_iff.mp two with rfl | two
            · exact Or.inl (.target one)
            · exact (below child List.mem_cons_self one).imp (.inside one two) (.inside two one)
        · exact Or.inl (.alone one two)
      · by_cases two : Leads refs child second
        · exact Or.inr (.alone two one)
        · obtain ⟨other, member, leads⟩ := leads
          have later : some other ∈ rest := by
            refine (List.mem_cons.mp member).resolve_left fun same => one ?_
            rw [← Option.some.inj same]
            exact leads
          exact (ih (fun absent => complete (List.mem_cons_of_mem _ absent))
            (fun other among => below other (List.mem_cons_of_mem _ among))
            ⟨other, later, leads⟩).imp (.skip one two) (.skip two one)

/-- **Of two different nodes one is the earlier one**, when the references lead to one of them. -/
theorem earlier_total [Finite V] (acyclic : Acyclic refs) (resolvable : ∀ node, none ∉ refs node)
    {first second : V} (different : first ≠ second) {children : List (Option V)}
    (complete : none ∉ children) (leads : ∃ child, some child ∈ children ∧ Leads refs child first) :
    Earlier refs first second children ∨ Earlier refs second first children := by
  have wellFounded : WellFounded fun child node => TransGen (Refers refs) node child := by
    have : IsTrans V fun child node => TransGen (Refers refs) node child :=
      ⟨fun _ _ _ one two => two.trans one⟩
    have : Std.Irrefl fun child node => TransGen (Refers refs) node child := ⟨acyclic⟩
    exact Finite.wellFounded_of_trans_of_irrefl _
  have below : ∀ node, TransGen (Refers refs) node first →
      Earlier refs first second (refs node) ∨ Earlier refs second first (refs node) := by
    intro node
    induction node using wellFounded.induction with
    | h node ih =>
      intro leads
      obtain ⟨child, refers, leads⟩ := TransGen.head'_iff.mp leads
      exact earlier_total_list different (refs node) (resolvable node)
        (fun child refers => ih child (.single refers)) ⟨child, refers, leads⟩
  exact earlier_total_list different children complete (fun child _ => below child) leads

/-! ### The order of a successful walk -/

/-- What is done refers to what is done. -/
def DoneClosed (pass : Pass) (refs : V → List (Option V)) (state : State V W) : Prop :=
  ∀ node, Done pass state node → ∀ child, Refers refs node child → Done pass state child

theorem DoneClosed.leads {state : State V W} (closed : DoneClosed pass refs state) {node other : V}
    (leads : Leads refs node other) (done : Done pass state node) : Done pass state other := by
  induction leads with
  | refl => exact done
  | tail _ refers ih => exact closed _ ih _ refers

theorem Extends.closed {state next : State V W} {order : List V}
    (extended : Extends pass refs body state next order) (closed : DoneClosed pass refs state) :
    DoneClosed pass refs next := by
  intro node done child refers
  rcases (extended.done node).mp done with old | new
  · exact (extended.done child).mpr (Or.inl (closed node old child refers))
  · obtain ⟨front, back, split⟩ := List.append_of_mem new
    rcases extended.children front node back split child refers with earlier | old
    · exact (extended.done child).mpr (Or.inr (by rw [split]; exact List.mem_append_left _ earlier))
    · exact (extended.done child).mpr (Or.inl old)

/-- **A successful walk along a list of references**, and the places of the nodes in its order. -/
structure Walked (pass : Pass) (refs : V → List (Option V)) (body : V → W → Int × W)
    (nodes : List (Option V)) (state next : State V W) (order : List V) : Prop
    extends Extends pass refs body state next order where
  all : ∀ child, some child ∈ nodes → Done pass next child
  reached : ∀ node ∈ order, ∃ child, some child ∈ nodes ∧ Leads refs child node
  earlier : ∀ first second, DoneClosed pass refs state → ¬ Done pass state first →
    ¬ Done pass state second → Earlier refs first second nodes → Done pass next second →
    Before order first second

namespace Walked

variable {state middle next : State V W} {nodes : List (Option V)} {child node : V}
  {order order' : List V}

theorem nil (state : State V W) : Walked pass refs body [] state state [] where
  toExtends := .refl state
  all := by simp
  reached := by simp
  earlier _ _ _ _ _ earlier := nomatch earlier

/-- Nothing is left to do. -/
theorem idle (done : Done pass state node) :
    Walked pass refs body [some node] state state [] where
  toExtends := .refl state
  all child member := by
    rw [Option.some.inj (List.mem_singleton.mp member)]
    exact done
  reached := by simp
  earlier first second closed fresh fresh' earlier _ := by
    cases earlier with
    | skip _ _ later => cases later
    | alone leads _ => exact absurd (closed.leads leads done) fresh
    | target _ => exact absurd done fresh'
    | inside leads _ _ => exact absurd (closed.leads (leads_iff.mpr (Or.inr leads)) done) fresh

/-- A reference that leads to both nodes decides. -/
theorem single_of_leads {first second : V} (leads : Leads refs child first)
    (leads' : Leads refs child second) (earlier : Earlier refs first second (some child :: nodes)) :
    Earlier refs first second [some child] := by
  cases earlier with
  | skip no _ _ => exact absurd leads no
  | alone _ no => exact absurd leads' no
  | target leads => exact .target leads
  | inside leads leads' below => exact .inside leads leads' below

/-- **The first reference, then the others.** -/
theorem cons (one : Walked pass refs body [some child] state middle order)
    (rest : Walked pass refs body nodes middle next order') :
    Walked pass refs body (some child :: nodes) state next (order ++ order') where
  toExtends := one.toExtends.trans rest.toExtends
  all other member := by
    rcases List.mem_cons.mp member with same | later
    · exact (rest.done other).mpr (Or.inl (one.all other (same ▸ List.mem_cons_self)))
    · exact rest.all other later
  reached node member := by
    rcases List.mem_append.mp member with here | there
    · obtain ⟨other, among, leads⟩ := one.reached node here
      exact ⟨other, List.mem_cons.mpr (Or.inl (List.mem_singleton.mp among)), leads⟩
    · obtain ⟨other, among, leads⟩ := rest.reached node there
      exact ⟨other, List.mem_cons_of_mem _ among, leads⟩
  earlier first second closed fresh fresh' earlier finished := by
    have closed' := one.toExtends.closed closed
    have childDone := one.all child List.mem_cons_self
    -- a node to which the child does not lead is not done by it
    have untouched : ∀ node, ¬ Leads refs child node → ¬ Done pass state node →
        ¬ Done pass middle node := by
      intro node no fresh done
      obtain ⟨other, among, leads⟩ := one.reached node (((one.done node).mp done).resolve_left fresh)
      rw [Option.some.inj (List.mem_singleton.mp among)] at leads
      exact no leads
    by_cases leads : Leads refs child first
    · have firstDone := closed'.leads leads childDone
      by_cases leads' : Leads refs child second
      · exact (one.earlier first second closed fresh fresh' (single_of_leads leads leads' earlier)
          (closed'.leads leads' childDone)).append order'
      · have member := ((rest.done second).mp finished).resolve_left (untouched second leads' fresh')
        obtain ⟨front, back, rfl⟩ := List.append_of_mem member
        exact ⟨order ++ front, back, (List.append_assoc _ _ _).symm, List.mem_append_left _
          (((one.done first).mp firstDone).resolve_left fresh)⟩
    · cases earlier with
      | skip _ no' later =>
        exact (rest.earlier first second closed' (untouched first leads fresh)
          (untouched second no' fresh') later finished).prepend order
      | alone leads' _ => exact absurd leads' leads
      | target leads' => exact absurd (leads_iff.mpr (Or.inr leads')) leads
      | inside leads' _ _ => exact absurd (leads_iff.mpr (Or.inr leads')) leads

/-- **The visit of a fresh node**: its references, then the node. -/
theorem visit (fresh : ¬ Seen pass state node)
    (inner : Walked pass refs body (refs node) (enter pass node state) middle order) :
    Walked pass refs body [some node] state (leave pass node (body node middle.world).2 middle)
      (order ++ [node]) where
  toExtends := .leave fresh inner.toExtends inner.all
  all other member := by
    rw [Option.some.inj (List.mem_singleton.mp member)]
    exact (done_leave middle _ node node).mpr (Or.inr rfl)
  reached other member := by
    refine ⟨node, List.mem_cons_self, ?_⟩
    rcases List.mem_append.mp member with inside | last
    · obtain ⟨child, refers, leads⟩ := inner.reached other inside
      exact ReflTransGen.head refers leads
    · rw [List.mem_singleton.mp last]
      exact ReflTransGen.refl
  earlier first second closed fresh fresh' earlier finished := by
    have closed' : DoneClosed pass refs middle := inner.toExtends.closed closed
    -- what the node leads to is done before it
    have done : ∀ other, TransGen (Refers refs) node other → Done pass middle other := by
      intro other leads
      obtain ⟨child, refers, leads⟩ := TransGen.head'_iff.mp leads
      exact closed'.leads leads (inner.all child refers)
    cases earlier with
    | skip _ _ later => cases later
    | alone leads no =>
      have member : second ∈ order ∨ second = node := by
        rcases (done_leave middle _ node second).mp finished with inside | same
        · exact Or.inl (((inner.done second).mp inside).resolve_left fresh')
        · exact Or.inr same
      rcases member with inside | rfl
      · obtain ⟨child, refers, leads⟩ := inner.reached second inside
        exact absurd (ReflTransGen.head refers leads) no
      · exact absurd ReflTransGen.refl no
    | target leads =>
      exact ⟨order, [], rfl, ((inner.done first).mp (done first leads)).resolve_left fresh⟩
    | inside _ leads' below =>
      exact (inner.earlier first second closed fresh fresh' below (done second leads')).append _

end Walked

theorem visitAll_walked {visit : V → State V W → Option (Int × State V W)}
    (one : ∀ node state next, visit node state = some (0, next) →
      ∃ order, Walked pass refs body [some node] state next order)
    (children : List (Option V)) : ∀ {state next : State V W},
      visitAll pass visit children state = some (0, next) →
      ∃ order, Walked pass refs body children state next order := by
  induction children with
  | nil =>
    intro state next run
    cases run
    exact ⟨[], .nil state⟩
  | cons child rest ih =>
    intro state next run
    cases child with
    | none =>
      simp only [visitAll, Option.some.injEq, Prod.mk.injEq] at run
      exact absurd run.1 pass.error_ne
    | some child =>
      rw [visitAll] at run
      split at run
      next => cases run
      next ret middle first =>
        split_ifs at run with failed
        · simp only [Option.some.injEq, Prod.mk.injEq] at run
          exact absurd run.1 failed
        · rw [not_not.mp failed] at first
          obtain ⟨order, walked⟩ := one child state middle first
          obtain ⟨order', walked'⟩ := ih run
          exact ⟨order ++ order', walked.cons walked'⟩

/-- **A successful visit** has an order that agrees with `Earlier`. -/
theorem visit_walked (fuel : Nat) : ∀ (node : V) (state next : State V W),
    visit pass refs body fuel node state = some (0, next) →
    ∃ order, Walked pass refs body [some node] state next order := by
  induction fuel with
  | zero => exact nofun
  | succ fuel ih =>
    intro node state next run
    rcases visit_cases run with
      ⟨done, _, rfl⟩ | ⟨_, _, failed, _⟩ | ⟨_, fresh, ret, middle, children, rest⟩
    · exact ⟨[], .idle done⟩
    · exact absurd failed.symm pass.error_ne
    · rcases rest with ⟨failed, same, _⟩ | ⟨rfl, _, ⟨refused, _⟩ | ⟨_, rfl⟩⟩
      · exact absurd same.symm failed
      · exact absurd rfl refused
      · obtain ⟨order, inner⟩ := visitAll_walked ih (refs node) children
        exact ⟨order ++ [node], .visit fresh inner⟩

/-! ### A walk whose bodies fail -/

/-- The body that notes its node. -/
def record (node : V) (order : List V) : Int × List V := (0, order ++ [node])

theorem runBodies_record (order : List V) : ∀ done : List V,
    runBodies record order done = done ++ order := by
  induction order with
  | nil => exact fun done => (List.append_nil done).symm
  | cons node rest ih =>
    intro done
    show runBodies record rest (done ++ [node]) = _
    rw [ih, List.append_assoc, List.singleton_append]

theorem record_mono (fuel : Nat) : ∀ (node : V) (state : State V (List V)) (ret : Int)
    (next : State V (List V)), visit pass refs record fuel node state = some (ret, next) →
      state.world <+: next.world := by
  induction fuel with
  | zero => exact nofun
  | succ fuel ih =>
    intro node state ret next run
    rcases visit_cases run with ⟨_, _, rfl⟩ | ⟨_, _, _, rfl⟩ | ⟨_, _, ret', middle, children, rest⟩
    · exact List.prefix_rfl
    · exact List.prefix_rfl
    · have forward : (enter pass node state).world <+: middle.world :=
        visitAll_related (R := fun state next => state.world <+: next.world)
          (fun _ => List.prefix_rfl) (fun _ _ _ one two => one.trans two) ih (refs node) children
      rcases rest with ⟨_, _, rfl⟩ | ⟨_, _, ⟨_, rfl⟩ | ⟨_, rfl⟩⟩
      · exact forward
      all_goals exact forward.trans (List.prefix_append _ _)

theorem record_mono_all (fuel : Nat) (children : List (Option V)) {state next : State V (List V)}
    {ret : Int} (run : visitAll pass (visit pass refs record fuel) children state =
      some (ret, next)) : state.world <+: next.world :=
  visitAll_related (R := fun state next => state.world <+: next.world) (fun _ => List.prefix_rfl)
    (fun _ _ _ one two => one.trans two) (record_mono fuel) children run

/-- The bodies of an order all succeed. -/
def AllZero (body : V → W → Int × W) : List V → W → Prop
  | [], _ => True
  | node :: rest, world => (body node world).1 = 0 ∧ AllZero body rest (body node world).2

theorem allZero_append (first second : List V) : ∀ world : W, AllZero body (first ++ second) world ↔
    AllZero body first world ∧ AllZero body second (runBodies body first world) := by
  induction first with
  | nil => exact fun world => ⟨fun zero => ⟨trivial, zero⟩, fun both => both.2⟩
  | cons node rest ih =>
    intro world
    show _ ∧ AllZero body (rest ++ second) _ ↔ (_ ∧ AllZero body rest _) ∧ _
    rw [ih, and_assoc]
    rfl

/-- **The bodies of `order` have run**, and at most the last one has failed. -/
def Ran (body : V → W → Int × W) (start next : W) (ret : Int) (order : List V) : Prop :=
  next = runBodies body order start ∧ ∃ good last, order = good ++ last ∧
    AllZero body good start ∧ last.length ≤ 1 ∧ (ret = 0 → last = [])

theorem Ran.nil (world : W) (ret : Int) : Ran body world world ret [] :=
  ⟨rfl, [], [], rfl, trivial, Nat.zero_le 1, fun _ => rfl⟩

/-- A successful run and what comes behind it. -/
theorem Ran.trans {start middle next : W} {ret : Int} {first second : List V}
    (one : Ran body start middle 0 first) (two : Ran body middle next ret second) :
    Ran body start next ret (first ++ second) := by
  obtain ⟨rfl, good, last, rfl, zero, _, none⟩ := one
  obtain ⟨rfl, good', last', rfl, zero', few, none'⟩ := two
  obtain rfl := none rfl
  rw [List.append_nil] at zero' ⊢
  refine ⟨by simp only [runBodies, List.foldl_append], good ++ good', last',
    (List.append_assoc _ _ _).symm, (allZero_append _ _ _).mpr ⟨zero, zero'⟩, few, none'⟩

/-- One body. -/
theorem Ran.single (node : V) (world : W) :
    Ran body world (body node world).2 (body node world).1 [node] := by
  refine ⟨rfl, ?_⟩
  by_cases zero : (body node world).1 = 0
  · exact ⟨[node], [], rfl, ⟨zero, trivial⟩, Nat.zero_le 1, fun _ => rfl⟩
  · exact ⟨[], [node], rfl, trivial, le_rfl, fun same => absurd same zero⟩

/-- The marks are the same. -/
def SameMarks {W' : Type*} (state : State V W) (other : State V W') : Prop :=
  state.seen = other.seen ∧ state.done = other.done

/-- **What a walk has run of the order**, beside the walk that notes it. -/
def RanOf (body : V → W → Int × W) (state next : State V W) (ret : Int)
    (noted noted' : State V (List V)) (ret' : Int) : Prop :=
  ∃ order, Ran body state.world next.world ret order ∧ noted.world ++ order <+: noted'.world ∧
    (ret = 0 → ret' = 0 ∧ SameMarks next noted' ∧ noted'.world = noted.world ++ order)

theorem visitAll_ran {fuel : Nat}
    (one : ∀ node (state next : State V W) ret (noted noted' : State V (List V)) ret',
      SameMarks state noted → visit pass refs body fuel node state = some (ret, next) →
      visit pass refs record fuel node noted = some (ret', noted') →
      RanOf body state next ret noted noted' ret')
    (children : List (Option V)) : ∀ {state next : State V W} {ret : Int}
      {noted noted' : State V (List V)} {ret' : Int}, SameMarks state noted →
      visitAll pass (visit pass refs body fuel) children state = some (ret, next) →
      visitAll pass (visit pass refs record fuel) children noted = some (ret', noted') →
      RanOf body state next ret noted noted' ret' := by
  induction children with
  | nil =>
    intro state next ret noted noted' ret' same run run'
    cases run
    cases run'
    exact ⟨[], .nil _ _, by rw [List.append_nil], fun _ => ⟨rfl, same, (List.append_nil _).symm⟩⟩
  | cons child rest ih =>
    intro state next ret noted noted' ret' same run run'
    cases child with
    | none =>
      cases run
      cases run'
      exact ⟨[], .nil _ _, by rw [List.append_nil], fun zero => absurd zero pass.error_ne⟩
    | some child =>
      rw [visitAll] at run run'
      split at run
      next => cases run
      next ret₁ middle first =>
        split at run'
        next => cases run'
        next ret₂ middle' first' =>
          obtain ⟨order, ran, begins, goes⟩ := one child _ _ _ _ _ _ same first first'
          by_cases failed : ret₁ ≠ 0
          · rw [if_pos failed] at run
            cases run
            refine ⟨order, ran, begins.trans ?_, fun zero => absurd zero failed⟩
            split_ifs at run'
            · cases run'
              exact List.prefix_rfl
            · exact record_mono_all fuel rest run'
          · rw [if_neg failed] at run
            obtain ⟨rfl, same', noted₁⟩ := goes (not_not.mp failed)
            rw [if_neg (by simp)] at run'
            obtain ⟨order', ran', begins', goes'⟩ := ih same' run run'
            rw [noted₁, List.append_assoc] at begins' goes'
            rw [not_not.mp failed] at ran
            exact ⟨order ++ order', ran.trans ran', begins', goes'⟩

/-- **A visit runs the bodies of a prefix of the order**; only the last of them can have failed. -/
theorem visit_ran (fuel : Nat) : ∀ (node : V) (state next : State V W) (ret : Int)
    (noted noted' : State V (List V)) (ret' : Int), SameMarks state noted →
    visit pass refs body fuel node state = some (ret, next) →
    visit pass refs record fuel node noted = some (ret', noted') →
    RanOf body state next ret noted noted' ret' := by
  induction fuel with
  | zero => exact nofun
  | succ fuel ih =>
    intro node state next ret noted noted' ret' same run run'
    have seen : Seen pass noted node ↔ Seen pass state node := by rw [Seen, Seen, same.1]
    have done : Done pass noted node ↔ Done pass state node := by rw [Done, Done, same.2]
    rcases visit_cases run with
      ⟨over_, rfl, rfl⟩ | ⟨open_, started, rfl, rfl⟩ | ⟨open_, fresh, ret₁, middle, children, rest⟩
    · rcases visit_cases run' with ⟨_, rfl, rfl⟩ | ⟨open_, _⟩ | ⟨open_, _⟩
      · exact ⟨[], .nil _ _, by rw [List.append_nil],
          fun _ => ⟨rfl, same, (List.append_nil _).symm⟩⟩
      all_goals exact absurd (done.mpr over_) open_
    · rcases visit_cases run' with ⟨over_, _⟩ | ⟨_, _, rfl, rfl⟩ | ⟨_, fresh, _⟩
      · exact absurd (done.mp over_) open_
      · exact ⟨[], .nil _ _, by rw [List.append_nil], fun zero => absurd zero pass.error_ne⟩
      · exact absurd (seen.mpr started) fresh
    · rcases visit_cases run' with ⟨over_, _⟩ | ⟨_, started, _⟩ | ⟨_, _, ret₂, middle', children', rest'⟩
      · exact absurd (done.mp over_) open_
      · exact absurd (seen.mp started) fresh
      · have same' : SameMarks (enter pass node state) (enter pass node noted) := by
          rw [SameMarks, enter, enter, same.1, same.2]
          exact ⟨rfl, rfl⟩
        obtain ⟨order, ran, begins, goes⟩ := visitAll_ran ih (refs node) same' children children'
        have behind : middle'.world <+: noted'.world := by
          rcases rest' with ⟨_, _, rfl⟩ | ⟨_, _, ⟨_, rfl⟩ | ⟨_, rfl⟩⟩
          · exact List.prefix_rfl
          all_goals exact List.prefix_append _ _
        rcases rest with ⟨failed, rfl, rfl⟩ | ⟨rfl, rfl, last⟩
        · exact ⟨order, ran, begins.trans behind, fun zero => absurd zero failed⟩
        · obtain ⟨rfl, marks, noted₁⟩ := goes rfl
          rcases rest' with ⟨failed, _⟩ | ⟨_, rfl, ⟨refused, _⟩ | ⟨_, rfl⟩⟩
          · exact absurd rfl failed
          · exact absurd rfl refused
          · have noted₂ : (leave pass node (record node middle'.world).2 middle').world =
                noted.world ++ (order ++ [node]) := by
              rw [← List.append_assoc]
              exact congrArg (· ++ [node]) noted₁
            have world : next.world = (body node middle.world).2 := by
              rcases last with ⟨_, rfl⟩ | ⟨_, rfl⟩ <;> rfl
            refine ⟨order ++ [node], ?_, by rw [noted₂], fun zero => ⟨rfl, ?_, noted₂⟩⟩
            · rw [world]
              exact ran.trans (.single node middle.world)
            · rcases last with ⟨refused, _⟩ | ⟨_, rfl⟩
              · exact absurd zero refused
              · refine ⟨marks.1, ?_⟩
                show Function.update middle.done node pass.mark = _
                rw [marks.2]
                rfl

/-! ### A whole pass -/

/-- **The order of a complete walk**: every node once, the earlier one of two in front. -/
structure Postorder (refs : V → List (Option V)) (children : List (Option V)) (order : List V) :
    Prop where
  nodup : order.Nodup
  all : ∀ node, node ∈ order
  before_iff : ∀ first second, first ≠ second →
    (Before order first second ↔ Earlier refs first second children)

section Whole

variable [Fintype V] {nodes : List V} {fuel : Nat} {state next : State V W} {ret : Int}

/-- **The bodies that a pass has run.** -/
theorem pass_ran (enough : Fintype.card V < fuel)
    (run : visitAll pass (visit pass refs body fuel) (nodes.map some) state = some (ret, next)) :
    ∃ order, Ran body state.world next.world ret order := by
  obtain ⟨ret', noted, run'⟩ : ∃ ret' noted, visitAll pass (visit pass refs record fuel)
      (nodes.map some) ⟨state.seen, state.done, []⟩ = some (ret', noted) := pass_total enough
  obtain ⟨order, ran, _⟩ := visitAll_ran (visit_ran fuel) (nodes.map some)
    (show SameMarks state ⟨state.seen, state.done, []⟩ from ⟨rfl, rfl⟩) run run'
  exact ⟨order, ran⟩

/-- **A pass runs the bodies along the postorder**, and all of them when it succeeds. -/
theorem pass_postorder (enough : Fintype.card V < fuel) (acyclic : Acyclic refs)
    (resolvable : ∀ node, none ∉ refs node) (all : ∀ node, node ∈ nodes)
    (clean : ∀ node, ¬ Seen pass state node) (clean' : ∀ node, ¬ Done pass state node)
    (run : visitAll pass (visit pass refs body fuel) (nodes.map some) state = some (ret, next)) :
    ∃ order, Postorder refs (nodes.map some) order ∧ ∃ ran, ran <+: order ∧
      Ran body state.world next.world ret ran ∧ (ret = 0 → ran = order) := by
  let start : State V (List V) := ⟨state.seen, state.done, []⟩
  obtain ⟨ret', noted, run'⟩ : ∃ ret' noted, visitAll pass (visit pass refs record fuel)
      (nodes.map some) start = some (ret', noted) := pass_total enough
  obtain ⟨ran, bodies, begins, goes⟩ := visitAll_ran (visit_ran fuel) (nodes.map some)
    (show SameMarks state start from ⟨rfl, rfl⟩) run run'
  have fresh : ∀ node, ¬ Seen pass start node := clean
  have fresh' : ∀ node, ¬ Done pass start node := clean'
  obtain rfl : ret' = 0 := pass_succeeds acyclic resolvable (fun _ _ => rfl) fresh run'
  obtain ⟨order, walked⟩ := visitAll_walked (visit_walked fuel) (nodes.map some) run'
  have notes : noted.world = order := by
    rw [walked.world, runBodies_record]
    rfl
  have member : ∀ node, node ∈ order := fun node =>
    ((walked.done node).mp (walked.all node (List.mem_map_of_mem (all node)))).resolve_left
      (fresh' node)
  have inFront : ∀ first second, Earlier refs first second (nodes.map some) →
      Before order first second := fun first second earlier =>
    walked.earlier first second (fun node done => absurd done (fresh' node)) (fresh' first)
      (fresh' second) earlier ((walked.done second).mpr (Or.inr (member second)))
  refine ⟨order, ⟨walked.nodup, member, fun first second different => ⟨fun before => ?_,
    inFront first second⟩⟩, ran, ?_, bodies, fun zero => ?_⟩
  · refine (earlier_total acyclic resolvable different (by simp)
      ⟨first, List.mem_map_of_mem (all first), ReflTransGen.refl⟩).resolve_right fun earlier => ?_
    exact before.not_symm walked.nodup (inFront second first earlier)
  · rw [← notes]
    exact begins
  · rw [← notes, (goes zero).2.2, List.nil_append]

end Whole

end Genimage.Library.Walk
