/-
**Trees of files, and what `mv` and `mkdir` do to them.**

A `FileTree` is a list of entries by position, the first one at a position counts; what is there is
`find`. Names and contents are of any type. A path is a list of `Component`s, walked from a position:
`walk` is the POSIX resolution, `visited` are the positions on the way and `arrive` is the last of
them, both read off the path alone. `mv` and `mkdir` change a tree or fail.

Everything is stated by `find`: `find_rename` says what is where after a subtree has moved, and
`mv_ok` and `mkdir_ok` what a successful call has done. `walk_congr` carries a walk from one tree to
another that agrees on the visited positions.
-/

import Mathlib.Data.List.Infix
import Mathlib.Tactic

set_option linter.unusedSectionVars false

namespace Genimage.Library

/-- What is at a position. -/
inductive Entry (α : Type) where
  | file (content : α)
  | dir
deriving DecidableEq, Repr

/-- The entries of a tree by position. -/
structure FileTree (ν α : Type) where
  entries : List (List ν × Entry α)

/-- A component of a path: `.`, `..` or a name. -/
inductive Component (ν : Type) where
  | self
  | up
  | name (name : ν)
deriving DecidableEq, Repr

variable {ν α : Type}

/-- Where a component leads, when it can be followed. -/
def Component.from (position : List ν) : Component ν → List ν
  | .self => position
  | .up => position.dropLast
  | .name child => position ++ [child]

/-- A path, and whether it ends in a slash, which asks for a directory. -/
structure Pathname (ν : Type) where
  components : List (Component ν)
  slash : Bool

namespace FileTree

/-- Where a path ends. -/
def arrive (position : List ν) (path : List (Component ν)) : List ν :=
  path.foldl Component.from position

/-- The positions on the way, both ends included. -/
def visited (position : List ν) : List (Component ν) → List (List ν)
  | [] => [position]
  | component :: rest => position :: visited (component.from position) rest

variable [DecidableEq ν]

/-- The entry at a position. -/
def find (tree : FileTree ν α) (position : List ν) : Option (Entry α) :=
  (tree.entries.find? (·.1 = position)).map (·.2)

/-- There is a directory. -/
def isDir (tree : FileTree ν α) (position : List ν) : Bool :=
  match tree.find position with
  | some .dir => true
  | _ => false

/-- **The resolution of a path**: every component starts in a directory, and at the end there is an
entry. The parent of the topmost position is not part of a tree. -/
def walk (tree : FileTree ν α) (position : List ν) : List (Component ν) → Option (List ν)
  | [] => if (tree.find position).isSome then some position else none
  | component :: rest =>
    if tree.isDir position ∧ ¬ (component = .up ∧ position = []) then
      tree.walk (component.from position) rest
    else none

/-- The position that the last component names, in a directory. -/
def locate (tree : FileTree ν α) (path : List (Component ν)) : Option (List ν) :=
  match path.getLast? with
  | some (.name name) =>
    match tree.walk [] path.dropLast with
    | some parent => if tree.isDir parent then some (parent ++ [name]) else none
    | none => none
  | _ => none

/-- The tree with another entry. -/
def add (tree : FileTree ν α) (position : List ν) (entry : Entry α) : FileTree ν α :=
  ⟨(position, entry) :: tree.entries⟩

/-- The tree with everything at and below `source` at `target` instead. -/
def rename (tree : FileTree ν α) (source target : List ν) : FileTree ν α :=
  ⟨tree.entries.filterMap fun item =>
    if source <+: item.1 then some (target ++ item.1.drop source.length, item.2)
    else if target <+: item.1 then none
    else some item⟩

/-- Nothing is below a position. -/
def isEmpty (tree : FileTree ν α) (position : List ν) : Bool :=
  tree.entries.all fun item => !decide (position <+: item.1 ∧ item.1 ≠ position)

/-- What may replace what, when something is in the place. -/
def replaces (tree : FileTree ν α) (entry : Entry α) (target : List ν) : Bool :=
  match entry, tree.find target with
  | _, none => true
  | .file _, some (.file _) => true
  | .dir, some .dir => tree.isEmpty target
  | _, _ => false

/-- Where `mv` puts `source`: in `target`, when that is a directory. -/
def mvTarget (tree : FileTree ν α) (source target : List ν) : List ν :=
  if tree.isDir target then target ++ source.drop (source.length - 1) else target

/-- `mv`, to a position. -/
def mv (tree : FileTree ν α) (path : Pathname ν) (target : List ν) : Option (FileTree ν α) :=
  match tree.locate path.components with
  | none => none
  | some source =>
    match tree.find source with
    | none => none
    | some entry =>
      let target := tree.mvTarget source target
      if (path.slash ∧ tree.isDir source = false) ∨ source <+: target then none
      else if tree.replaces entry target then some (tree.rename source target)
      else none

/-- `mkdir` -/
def mkdir (tree : FileTree ν α) (path : Pathname ν) : Option (FileTree ν α) :=
  match tree.locate path.components with
  | none => none
  | some position => if (tree.find position).isNone then some (tree.add position .dir) else none

variable {tree other : FileTree ν α} {position source target : List ν}

/-! ### What is where -/

theorem isDir_iff : tree.isDir position = true ↔ tree.find position = some .dir := by
  unfold isDir
  split <;> simp_all

theorem find_add (entry : Entry α) (place : List ν) :
    (tree.add position entry).find place =
      if place = position then some entry else tree.find place := by
  unfold find add
  by_cases same : position = place
  · rw [List.find?_cons_of_pos (by simpa using same), if_pos same.symm]
    rfl
  · rw [List.find?_cons_of_neg (by simpa using same), if_neg (Ne.symm same)]

/-- **What is where after a subtree has moved.** -/
theorem find_rename (place : List ν) : (tree.rename source target).find place =
    if target <+: place then tree.find (source ++ place.drop target.length)
    else if source <+: place then none else tree.find place := by
  obtain ⟨entries⟩ := tree
  unfold find rename
  simp only
  induction entries with
  | nil => split_ifs <;> rfl
  | cons item entries ih =>
    rw [List.filterMap_cons]
    by_cases moves : source <+: item.1
    · -- the entry moves
      obtain ⟨rest, at_rest⟩ := moves
      rw [if_pos ⟨rest, at_rest⟩, ← at_rest, List.drop_left]
      simp only
      by_cases here : target ++ rest = place
      · rw [List.find?_cons_of_pos (by simpa using here), if_pos ⟨rest, here⟩, ← here,
          List.drop_left, List.find?_cons_of_pos (by simpa using at_rest.symm)]
        rfl
      · rw [List.find?_cons_of_neg (by simpa using here), ih]
        split_ifs with inside below
        · obtain ⟨more, rfl⟩ := inside
          rw [List.drop_left, List.find?_cons_of_neg]
          simp only [← at_rest, List.append_cancel_left_eq, decide_eq_true_eq]
          rintro rfl
          exact here rfl
        · rfl
        · rw [List.find?_cons_of_neg]
          simp only [← at_rest, decide_eq_true_eq]
          rintro rfl
          exact below ⟨rest, rfl⟩
    · rw [if_neg moves]
      by_cases covered : target <+: item.1
      · -- the entry is replaced
        rw [if_pos covered]
        simp only
        rw [ih]
        split_ifs with inside below
        · rw [List.find?_cons_of_neg]
          simp only [decide_eq_true_eq]
          rintro same
          exact moves ⟨_, same.symm⟩
        · rfl
        · rw [List.find?_cons_of_neg]
          simp only [decide_eq_true_eq]
          rintro rfl
          exact inside covered
      · -- the entry stays
        rw [if_neg covered]
        simp only
        by_cases here : item.1 = place
        · rw [List.find?_cons_of_pos (by simpa using here), ← here, if_neg covered, if_neg moves,
            List.find?_cons_of_pos (by simp)]
        · rw [List.find?_cons_of_neg (by simpa using here), ih]
          split_ifs with inside below
          · rw [List.find?_cons_of_neg]
            simp only [decide_eq_true_eq]
            rintro same
            exact moves ⟨_, same.symm⟩
          · rfl
          · rw [List.find?_cons_of_neg (by simpa using here)]

/-! ### Walks -/

theorem mem_visited_self (position : List ν) (path : List (Component ν)) :
    position ∈ visited position path := by
  cases path <;> simp [visited]

theorem visited_append (position : List ν) (first second : List (Component ν)) :
    ∀ place, place ∈ visited position (first ++ second) ↔
      place ∈ visited position first ∨ place ∈ visited (arrive position first) second := by
  induction first generalizing position with
  | nil =>
    intro place
    have start : place = position → place ∈ visited position second := by
      rintro rfl
      exact mem_visited_self _ _
    simpa [visited, arrive] using start
  | cons component rest ih =>
    intro place
    rw [List.cons_append, visited, List.mem_cons, ih, visited, List.mem_cons, or_assoc]
    rfl

theorem arrive_append (position : List ν) (first second : List (Component ν)) :
    arrive position (first ++ second) = arrive (arrive position first) second :=
  List.foldl_append

theorem arrive_mem_visited (position : List ν) (path : List (Component ν)) :
    arrive position path ∈ visited position path := by
  induction path generalizing position with
  | nil => simp [visited, arrive]
  | cons component rest ih => exact List.mem_cons_of_mem _ (ih _)

/-- **A walk ends where the path arrives**, and passes only directories. -/
theorem walk_some {path : List (Component ν)} {place : List ν}
    (walked : tree.walk position path = some place) :
    place = arrive position path ∧ (tree.find place).isSome ∧
      ∀ on ∈ visited position path, tree.isDir on = true ∨ on = place := by
  induction path generalizing position with
  | nil =>
    unfold walk at walked
    split_ifs at walked with present
    obtain rfl := Option.some.inj walked
    exact ⟨rfl, present, fun on member => Or.inr (List.mem_singleton.mp member)⟩
  | cons component rest ih =>
    unfold walk at walked
    split_ifs at walked with enters
    obtain ⟨same, present, all⟩ := ih walked
    refine ⟨same, present, fun on member => ?_⟩
    rcases List.mem_cons.mp member with rfl | later
    · exact Or.inl enters.1
    · exact all on later

theorem walk_visited {path : List (Component ν)} {place : List ν}
    (walked : tree.walk position path = some place) :
    ∀ on ∈ visited position path, (tree.find on).isSome := by
  obtain ⟨_, present, all⟩ := walk_some walked
  intro on member
  rcases all on member with dir | rfl
  · rw [isDir_iff.mp dir]
    rfl
  · exact present

/-- The walk in front of the last component. -/
theorem walk_front {front : List (Component ν)} {last : Component ν} {place : List ν}
    (walked : tree.walk position (front ++ [last]) = some place) :
    ∃ parent, tree.walk position front = some parent ∧ tree.isDir parent = true := by
  induction front generalizing position with
  | nil =>
    rw [List.nil_append, walk] at walked
    split_ifs at walked with enters
    refine ⟨position, ?_, enters.1⟩
    rw [walk, isDir_iff.mp enters.1]
    rfl
  | cons component rest ih =>
    rw [List.cons_append, walk] at walked
    split_ifs at walked with enters
    obtain ⟨parent, front, dir⟩ := ih walked
    exact ⟨parent, by rw [walk, if_pos enters, front], dir⟩

/-- Trees that agree on the way have the same walk. -/
theorem walk_congr {path : List (Component ν)}
    (same : ∀ place ∈ visited position path, other.find place = tree.find place) :
    other.walk position path = tree.walk position path := by
  induction path generalizing position with
  | nil => rw [walk, walk, same position List.mem_cons_self]
  | cons component rest ih =>
    have here := same position List.mem_cons_self
    rw [walk, walk, isDir, isDir, here, ih fun place later => same place (List.mem_cons_of_mem _ later)]

/-- A walk to a position below a name. -/
theorem walk_below {path : List (Component ν)} {place : List ν} {name : ν}
    (walked : tree.walk position path = some place)
    (same : ∀ place ∈ visited position path, other.find (name :: place) = tree.find place) :
    other.walk (name :: position) path = some (name :: place) ∧
      visited (name :: position) path = (visited position path).map (name :: ·) := by
  induction path generalizing position with
  | nil =>
    unfold walk at walked ⊢
    split_ifs at walked with present
    rw [same position List.mem_cons_self, if_pos present, Option.some.inj walked]
    exact ⟨rfl, rfl⟩
  | cons component rest ih =>
    unfold walk at walked ⊢
    split_ifs at walked with enters
    have step : component.from (name :: position) = name :: component.from position := by
      cases component with
      | self => rfl
      | name => rfl
      | up => exact List.dropLast_cons_of_ne_nil fun top => enters.2 ⟨rfl, top⟩
    have dir : other.isDir (name :: position) = true := by
      rw [isDir, same position List.mem_cons_self]
      exact enters.1
    obtain ⟨walked', visited'⟩ := ih walked fun place later => same place (List.mem_cons_of_mem _ later)
    rw [if_pos ⟨dir, fun top => by cases top.2⟩, step, walked', visited, visited, step, visited']
    exact ⟨rfl, rfl⟩

/-- **What `locate` finds**: the path ends in a name, and everything in front of it is there. -/
theorem locate_some {path : List (Component ν)} (located : tree.locate path = some position) :
    ∃ front name, path = front ++ [.name name] ∧ position = arrive [] front ++ [name] ∧
      tree.walk [] front = some (arrive [] front) ∧ tree.isDir (arrive [] front) = true := by
  unfold locate at located
  split at located
  next name last =>
    split at located
    next parent walked =>
      split_ifs at located with dir
      have split : path = path.dropLast ++ [.name name] :=
        (List.dropLast_append_getLast? _ last).symm
      obtain ⟨rfl, _⟩ := walk_some walked
      exact ⟨path.dropLast, name, split, (Option.some.inj located).symm, walked, dir⟩
    next => cases located
  next => cases located

theorem locate_append {front : List (Component ν)} {name : ν} {parent : List ν}
    (walked : tree.walk [] front = some parent) (dir : tree.isDir parent = true) :
    tree.locate (front ++ [.name name]) = some (parent ++ [name]) := by
  simp only [locate, List.getLast?_concat, List.dropLast_concat, walked, dir, if_true]

/-! ### `mv` and `mkdir` -/

theorem mv_ok {path : Pathname ν} {next : FileTree ν α} (moved : tree.mv path target = some next) :
    ∃ source, tree.locate path.components = some source ∧ (tree.find source).isSome ∧
      next = tree.rename source (tree.mvTarget source target) := by
  unfold mv at moved
  split at moved
  next => cases moved
  next source located =>
    split at moved
    next => cases moved
    next entry found =>
      simp only at moved
      split_ifs at moved
      exact ⟨source, located, by rw [found]; rfl, (Option.some.inj moved).symm⟩

/-- `mv` to a free position. -/
theorem mv_free {path : Pathname ν} (located : tree.locate path.components = some source)
    (present : (tree.find source).isSome) (slash : path.slash = true → tree.isDir source = true)
    (free : tree.find target = none) (outside : ¬ source <+: target) :
    tree.mv path target = some (tree.rename source target) := by
  obtain ⟨entry, found⟩ := Option.isSome_iff_exists.mp present
  have place : tree.mvTarget source target = target := by
    rw [mvTarget, isDir, free]
    exact if_neg Bool.false_ne_true
  have replaced : tree.replaces entry target = true := by
    unfold replaces
    rw [free]
  simp only [mv, located, found, place, replaced, if_true]
  rw [if_neg]
  rintro (⟨asked, file⟩ | inside)
  · rw [slash asked] at file
    cases file
  · exact outside inside

theorem mkdir_ok {path : Pathname ν} {next : FileTree ν α} :
    tree.mkdir path = some next ↔ ∃ position, tree.locate path.components = some position ∧
      tree.find position = none ∧ next = tree.add position .dir := by
  unfold mkdir
  split
  next none => simp [none]
  next position located =>
    simp only [located, Option.some.injEq, exists_eq_left', Option.isNone_iff_eq_none]
    split_ifs with free
    · simp [free, eq_comm]
    · simp [free]

end FileTree

end Genimage.Library
