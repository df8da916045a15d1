/-
**What the mountpoints get.**

`Subtrees` is what is asked of a split root tree: every mountpoint has its own files, under a name of
its own, and every file is in one place. `SplitsAlways` asks it of every order of the image sections,
and that all orders succeed or none. `SplitsWhen` is the condition on the paths under which it is so.

Two paths can get the same place (`a/b` and `a-b`); the second `mv` then goes into the first
directory. Two spellings of one directory (`a` and `a/`) get two places, and the second one is empty.
A path below another mountpoint is gone once that has been moved, so nested mountpoints work in one
order and fail in the other. Without these the loop keeps `SplitInv`, which says what is where.
-/

import Genimage.Image.Mountpoints

namespace Genimage

open Library Library.FileTree

variable {α : Type}

/-! ### The property and the condition -/

/-- The directory that a path names. -/
def dirOf (path : String) : List String := arrive [] (componentsOf path)

/-- The path exists in the tree. -/
def ExistsIn (tree : FileTree String α) (path : String) : Prop :=
  (tree.walk [] (componentsOf path)).isSome ∧
    (endsInSlash path = true → tree.isDir (dirOf path) = true)

/-- **A position belongs to a mountpoint**: it is below it, and not below a deeper one. -/
def Belongs (mountpoints : List String) (path : String) (position : List String) : Prop :=
  dirOf path <+: position ∧ ¬ ∃ other ∈ mountpoints,
    dirOf path <+: dirOf other ∧ dirOf other ≠ dirOf path ∧ dirOf other <+: position

/-- **The files are split**: each mountpoint has exactly its files, no two have the same place, and
every file is in one. -/
structure Subtrees (tree : FileTree String α) (mountpoints : List String)
    (split : FileTree String α) : Prop where
  own : ∀ path ∈ mountpoints, ∀ rest content,
    split.find (mountpathOf path :: rest) = some (.file content) ↔
      Belongs mountpoints path (dirOf path ++ rest) ∧
        tree.find (dirOf path ++ rest) = some (.file content)
  apart : ∀ path ∈ mountpoints, ∀ other ∈ mountpoints, path ≠ other →
    mountpathOf path ≠ mountpathOf other
  once : ∀ position content, tree.find position = some (.file content) →
    ∃! path, path ∈ mountpoints ∧ ∃ rest, position = dirOf path ++ rest ∧
      split.find (mountpathOf path :: rest) = some (.file content)

/-- `collect_mountpoints` returns `0`. -/
def Succeeds (tree : FileTree String α) (images : List MountImage) : Prop :=
  ∃ result, collectMountpoints tree images = .ok result

/-- **In every order of the sections**: the files are split if the run succeeds, and it succeeds in all
orders or in none. -/
structure SplitsAlways (tree : FileTree String α) (images : List MountImage) : Prop where
  subtrees : ∀ order split, images.Perm order →
    collectMountpoints tree order = .ok (some split) → Subtrees tree (mountpointsOf order) split
  order : ∀ order order', images.Perm order → images.Perm order' →
    (Succeeds tree order ↔ Succeeds tree order')

/-- **When the files are split**: different paths have different places, different spellings of a
directory have no files to share, and no path goes through another mountpoint. -/
structure SplitsWhen (tree : FileTree String α) (mountpoints : List String) : Prop where
  names : ∀ path ∈ mountpoints, ∀ other ∈ mountpoints, path ≠ other →
    mountpathOf path ≠ mountpathOf other
  spelling : ∀ path ∈ mountpoints, ∀ other ∈ mountpoints, path ≠ other →
    dirOf path = dirOf other → ∀ position content, Belongs mountpoints path position →
      tree.find position ≠ some (.file content)
  nested : ∀ path ∈ mountpoints, ∀ other ∈ mountpoints, path ≠ "" → other ≠ "" → path ≠ other →
    ∀ place ∈ visited [] (componentsOf other), dirOf path <+: place → place = dirOf path

/-! ### The list of mountpoints -/

theorem mem_addMountpoint {mountpoints : List String} {path other : String} :
    other ∈ addMountpoint mountpoints path ↔ other ∈ mountpoints ∨ other = path := by
  unfold addMountpoint
  split_ifs with known
  · exact ⟨Or.inl, fun either => either.elim id fun same => same ▸ known⟩
  · rw [List.mem_append, List.mem_singleton]

theorem addMountpoint_begins (mountpoints : List String) (path : String) :
    mountpoints <+: addMountpoint mountpoints path := by
  unfold addMountpoint
  split_ifs
  · exact List.prefix_rfl
  · exact List.prefix_append _ _

theorem addMountpoint_nodup {mountpoints : List String} (nodup : mountpoints.Nodup)
    (path : String) : (addMountpoint mountpoints path).Nodup := by
  unfold addMountpoint
  split_ifs with known
  · exact nodup
  · exact List.nodup_append.mpr ⟨nodup, List.nodup_singleton _, fun other member path' single =>
      fun same => known ((List.mem_singleton.mp single) ▸ same ▸ member)⟩

/-- The loop over the images enters the mountpoints that are not there yet. -/
theorem foldl_addMountpoint (images : List MountImage) : ∀ mountpoints : List String,
    (∀ path, path ∈ images.foldl (fun mountpoints image => image.mountpoint.elim mountpoints
        (addMountpoint mountpoints)) mountpoints ↔
      path ∈ mountpoints ∨ ∃ image ∈ images, image.mountpoint = some path) ∧
    mountpoints <+: images.foldl (fun mountpoints image => image.mountpoint.elim mountpoints
      (addMountpoint mountpoints)) mountpoints ∧
    (mountpoints.Nodup → (images.foldl (fun mountpoints image =>
      image.mountpoint.elim mountpoints (addMountpoint mountpoints)) mountpoints).Nodup) := by
  induction images with
  | nil => exact fun mountpoints => ⟨by simp, List.prefix_rfl, id⟩
  | cons image images ih =>
    intro mountpoints
    rw [List.foldl_cons]
    obtain ⟨members, begins, nodup⟩ := ih (image.mountpoint.elim mountpoints
      (addMountpoint mountpoints))
    cases own : image.mountpoint with
    | none =>
      rw [own] at members begins nodup
      refine ⟨fun path => ?_, begins, nodup⟩
      rw [members path]
      simp [own]
    | some path =>
      rw [own] at members begins nodup
      refine ⟨fun other => ?_, (addMountpoint_begins _ _).trans begins,
        fun distinct => nodup (addMountpoint_nodup distinct path)⟩
      rw [members other, Option.elim_some, mem_addMountpoint]
      simp [own, or_assoc, eq_comm]

theorem mem_mountpointsOf {images : List MountImage} {path : String} :
    path ∈ mountpointsOf images ↔
      path = "" ∨ ∃ image ∈ images, image.mountpoint = some path := by
  rw [mountpointsOf, (foldl_addMountpoint images [""]).1 path, List.mem_singleton]

theorem mountpointsOf_nodup (images : List MountImage) : (mountpointsOf images).Nodup :=
  (foldl_addMountpoint images [""]).2.2 (List.nodup_singleton _)

theorem mem_mountpointsOf_perm {images order : List MountImage} (same : images.Perm order)
    {path : String} : path ∈ mountpointsOf order ↔ path ∈ mountpointsOf images := by
  simp only [mem_mountpointsOf, same.mem_iff]

/-- The mountpoints of the first two images are the first two. -/
theorem mountpointsOf_pair {first second : MountImage} (rest : List MountImage)
    {path other : String} (own : first.mountpoint = some path)
    (own' : second.mountpoint = some other) (named : path ≠ "") (named' : other ≠ "")
    (different : path ≠ other) :
    ∃ more, mountpointsOf (first :: second :: rest) = "" :: path :: other :: more := by
  have enter : addMountpoint (addMountpoint [""] path) other = ["", path, other] := by
    simp [addMountpoint, named, named', Ne.symm different]
  obtain ⟨more, same⟩ := (foldl_addMountpoint rest ["", path, other]).2.1
  refine ⟨more, ?_⟩
  rw [mountpointsOf, List.foldl_cons, List.foldl_cons, own, own', Option.elim_some,
    Option.elim_some, enter, ← same]
  rfl

/-! ### Paths into the copy -/

theorem find_copyRoot (tree : FileTree String α) (position : List String) :
    (copyRoot tree).find ("root" :: position) = tree.find position := by
  obtain ⟨entries⟩ := tree
  unfold copyRoot find
  rw [List.find?_cons_of_neg (by simp)]
  induction entries with
  | nil => rfl
  | cons item rest ih =>
    rw [List.map_cons]
    by_cases here : item.1 = position
    · rw [List.find?_cons_of_pos (by simpa using here), List.find?_cons_of_pos (by simpa using here)]
      rfl
    · rw [List.find?_cons_of_neg (by simpa using here), ih,
        List.find?_cons_of_neg (by simpa using here)]

theorem find_copyRoot_other (tree : FileTree String α) {name : String} (other : name ≠ "root")
    (position : List String) : (copyRoot tree).find (name :: position) = none := by
  obtain ⟨entries⟩ := tree
  unfold copyRoot find
  rw [List.find?_cons_of_neg (by simp), Option.map_eq_none_iff, List.find?_eq_none]
  intro item member
  obtain ⟨old, _, rfl⟩ := List.mem_map.mp member
  simpa using fun same => absurd same.symm other

theorem mountpathOf_ne_root {path : String} (named : path ≠ "") : mountpathOf path ≠ "root" := by
  rw [mountpathOf, if_neg named]
  intro same
  have letters := congrArg (fun text => text.toList.head?) same
  rw [String.toList_append] at letters
  exact absurd letters (by simp)

/-- **The walk of a path in the copy.** -/
theorem ExistsIn.below {tree fs : FileTree String α} {path : String} (there : ExistsIn tree path)
    (same : ∀ place ∈ visited [] (componentsOf path), fs.find ("root" :: place) = tree.find place) :
    fs.walk ["root"] (componentsOf path) = some ("root" :: dirOf path) ∧
      visited ["root"] (componentsOf path) =
        (visited [] (componentsOf path)).map ("root" :: ·) := by
  obtain ⟨place, walked⟩ := Option.isSome_iff_exists.mp there.1
  obtain rfl := (walk_some walked).1
  exact walk_below walked same

/-- The positions on the way to a path in the copy. -/
theorem ExistsIn.visited_root {tree : FileTree String α} {path : String}
    (there : ExistsIn tree path) {place : List String}
    (on : place ∈ visited [] (rootPath path).components) :
    place = [] ∨ ∃ inner ∈ visited [] (componentsOf path), place = "root" :: inner := by
  have lifted := (there.below fun place _ => find_copyRoot tree place).2
  rcases List.mem_cons.mp on with rfl | later
  · exact Or.inl rfl
  · have later : place ∈ visited ["root"] (componentsOf path) := later
    rw [lifted] at later
    obtain ⟨inner, member, rfl⟩ := List.mem_map.mp later
    exact Or.inr ⟨inner, member, rfl⟩

theorem ExistsIn.arrive_root {tree : FileTree String α} {path : String}
    (there : ExistsIn tree path) : arrive [] (rootPath path).components = "root" :: dirOf path :=
  (walk_some (there.below fun place _ => find_copyRoot tree place).1).1.symm

/-- **A path that can be moved and made again**: it ends in a name, and does not pass through the
directory that it names. -/
def Movable (path : String) : Prop :=
  ∃ front name, (rootPath path).components = front ++ [.name name] ∧
    ∀ place ∈ visited [] front, ¬ ("root" :: dirOf path) <+: place

/-- **What a successful round of the loop has done.** -/
theorem moveMountpoint_ok {tree fs next : FileTree String α} {path : String} (named : path ≠ "")
    (there : ExistsIn tree path) (moved : moveMountpoint fs path = .ok next) :
    Movable path ∧ (∀ place ∈ visited [] (rootPath path).components, (fs.find place).isSome) ∧
      ∀ inner, inner ≠ dirOf path → dirOf path <+: inner → next.find ("root" :: inner) = none := by
  unfold moveMountpoint at moved
  rw [if_neg named] at moved
  split at moved
  next => cases moved
  next middle mv =>
    split at moved
    next => cases moved
    next last mkdir =>
      obtain rfl := Except.ok.inj moved
      obtain ⟨source, located, present, rfl⟩ := mv_ok mv
      obtain ⟨position, located', free, rfl⟩ := mkdir_ok.mp mkdir
      obtain ⟨front, name, split, rfl, walked, dir⟩ := locate_some located
      obtain ⟨front', name', split', rfl, walked', _⟩ := locate_some located'
      obtain ⟨rfl, same⟩ := List.append_inj' (split.symm.trans split') rfl
      obtain rfl : name = name' := by simpa using same
      have place : arrive [] front ++ [name] = "root" :: dirOf path := by
        rw [← there.arrive_root, split, arrive_append]
        rfl
      rw [place] at present free walked' ⊢
      -- what is below the source has moved
      have gone : ∀ inner, dirOf path <+: inner → (fs.rename ("root" :: dirOf path)
          (fs.mvTarget ("root" :: dirOf path) [mountpathOf path])).find ("root" :: inner) =
          none := by
        intro inner below
        rw [find_rename, if_neg, if_pos ((List.prefix_cons_inj _).mpr below)]
        intro inside
        have head : [mountpathOf path] <+: fs.mvTarget ("root" :: dirOf path) [mountpathOf path] := by
          unfold mvTarget
          split_ifs
          · exact List.prefix_append _ _
          · exact List.prefix_rfl
        obtain ⟨rest, same⟩ := head.trans inside
        exact mountpathOf_ne_root named (List.cons.inj same).1
      refine ⟨⟨front, name, split, fun on member below => ?_⟩, fun on member => ?_, ?_⟩
      · have on_some := walk_visited walked' on member
        obtain ⟨rest, rfl⟩ := below
        rw [List.cons_append, gone _ (List.prefix_append _ _)] at on_some
        cases on_some
      · rw [split, visited_append] at member
        rcases member with before | last
        · exact walk_visited walked on before
        · rcases List.mem_cons.mp last with rfl | last
          · rw [isDir_iff.mp dir]
            rfl
          · rw [List.mem_singleton.mp last]
            show (fs.find (arrive [] front ++ [name])).isSome
            rw [place]
            exact present
      · intro inner different below
        rw [find_add, if_neg (by simpa using different), gone inner below]

/-! ### The loop -/

/-- **Where everything is** when the mountpoints of `done` have been moved. -/
structure SplitInv (tree : FileTree String α) (done : List String) (fs : FileTree String α) :
    Prop where
  top : fs.isDir [] = true
  untouched : ∀ place, (∀ path ∈ done, path ≠ "" → ¬ dirOf path <+: place) →
    fs.find ("root" :: place) = tree.find place
  emptied : ∀ path ∈ done, path ≠ "" → ∀ place, dirOf path <+: place →
    fs.find ("root" :: place) = if place = dirOf path then some .dir else none
  moved : ∀ path ∈ done, path ≠ "" → ∀ rest content,
    fs.find (mountpathOf path :: rest) = some (.file content) ↔
      tree.find (dirOf path ++ rest) = some (.file content)
  free : ∀ name, name ≠ "root" → (∀ path ∈ done, name ≠ mountpathOf path) →
    ∀ rest, fs.find (name :: rest) = none

theorem SplitInv.start (tree : FileTree String α) : SplitInv tree [] (copyRoot tree) :=
  ⟨rfl, fun place _ => find_copyRoot tree place, by simp, by simp,
    fun _ other _ rest => find_copyRoot_other tree other rest⟩

theorem SplitInv.skip {tree fs : FileTree String α} {done : List String}
    (inv : SplitInv tree done fs) : SplitInv tree (done ++ [""]) fs := by
  have old : ∀ path ∈ done ++ [""], path ≠ "" → path ∈ done := by
    intro path member named
    exact (List.mem_append.mp member).resolve_right fun single =>
      named (List.mem_singleton.mp single)
  refine ⟨inv.top, fun place outside => inv.untouched place fun path member => ?_,
    fun path member named => inv.emptied path (old path member named) named,
    fun path member named => inv.moved path (old path member named) named,
    fun name other fresh => inv.free name other fun path member => ?_⟩
  · exact outside path (List.mem_append_left _ member)
  · exact fresh path (List.mem_append_left _ member)

section Loop

variable {tree fs : FileTree String α} {mountpoints done : List String} {path : String}

theorem dirOf_mem_visited (path : String) : dirOf path ∈ visited [] (componentsOf path) :=
  arrive_mem_visited _ _

namespace SplitsWhen

/-- Mountpoints above one position are the same directory. -/
theorem dirOf_eq (condition : SplitsWhen tree mountpoints) {other : String}
    (member : path ∈ mountpoints) (member' : other ∈ mountpoints) (named : path ≠ "")
    (named' : other ≠ "") (different : path ≠ other) {place : List String}
    (above : dirOf path <+: place) (above' : dirOf other <+: place) : dirOf path = dirOf other := by
  rcases List.prefix_or_prefix_of_prefix above above' with below | below
  · exact (condition.nested path member other member' named named' different (dirOf other)
      (dirOf_mem_visited other) below).symm
  · exact condition.nested other member' path member named' named (Ne.symm different) (dirOf path)
      (dirOf_mem_visited path) below

/-- What is below a mountpoint belongs to it. -/
theorem belongs (condition : SplitsWhen tree mountpoints) (member : path ∈ mountpoints)
    (named : path ≠ "") {place : List String} (below : dirOf path <+: place) :
    Belongs mountpoints path place := by
  refine ⟨below, ?_⟩
  rintro ⟨other, member', deeper, different, _⟩
  by_cases named' : other = ""
  · rw [named'] at deeper different
    have top : dirOf "" = [] := rfl
    rw [top] at deeper different
    exact different (List.prefix_nil.mp deeper).symm
  · exact different (condition.nested path member other member' named named'
      (fun same => different (by rw [same])) (dirOf other) (dirOf_mem_visited other) deeper)

/-- Different paths to one directory have no files. -/
theorem no_file (condition : SplitsWhen tree mountpoints) {other : String}
    (member : path ∈ mountpoints) (member' : other ∈ mountpoints) (named : path ≠ "")
    (different : path ≠ other) (same : dirOf path = dirOf other) {place : List String}
    (below : dirOf path <+: place) (content : α) : tree.find place ≠ some (.file content) :=
  condition.spelling path member other member' different same place content
    (condition.belongs member named below)

end SplitsWhen

/-- The copy is on the way to a mountpoint what the tree was. -/
theorem SplitInv.agrees (inv : SplitInv tree done fs) (condition : SplitsWhen tree mountpoints)
    (known : ∀ other ∈ done, other ∈ mountpoints) (member : path ∈ mountpoints) (named : path ≠ "")
    (fresh : path ∉ done) (there : ExistsIn tree path) :
    ∀ place ∈ visited [] (componentsOf path), fs.find ("root" :: place) = tree.find place := by
  intro place on
  by_cases emptied : ∃ other ∈ done, other ≠ "" ∧ dirOf other <+: place
  · obtain ⟨other, among, named', above⟩ := emptied
    have different : other ≠ path := fun same => fresh (same ▸ among)
    have same := condition.nested other (known other among) path member named' named different place
      on above
    rw [inv.emptied other among named' place above, if_pos same]
    obtain ⟨last, walked⟩ := Option.isSome_iff_exists.mp there.1
    obtain ⟨rfl, present, passes⟩ := walk_some walked
    rcases passes place on with dir | end'
    · exact (isDir_iff.mp dir).symm
    · -- another spelling of the same directory
      have equal : dirOf other = dirOf path := same.symm.trans end'
      cases found : tree.find place with
      | none =>
        rw [← end', found] at present
        cases present
      | some entry =>
        cases entry with
        | dir => rfl
        | file content =>
          exact absurd found (condition.no_file (known other among) member named' different equal
            above content)
  · push Not at emptied
    exact inv.untouched place emptied

/-- What is where when a mountpoint has been moved out of the copy. -/
theorem find_moved (named : path ≠ "") (fs : FileTree String α) :
    (∀ inner, (fs.rename ("root" :: dirOf path) [mountpathOf path]).find ("root" :: inner) =
      if dirOf path <+: inner then none else fs.find ("root" :: inner)) ∧
    (fs.rename ("root" :: dirOf path) [mountpathOf path]).find [] = fs.find [] ∧
    (∀ rest, (fs.rename ("root" :: dirOf path) [mountpathOf path]).find
      (mountpathOf path :: rest) = fs.find ("root" :: (dirOf path ++ rest))) ∧
    ∀ name, name ≠ "root" → name ≠ mountpathOf path → ∀ rest,
      (fs.rename ("root" :: dirOf path) [mountpathOf path]).find (name :: rest) =
        fs.find (name :: rest) := by
  have notRoot := mountpathOf_ne_root named
  refine ⟨fun inner => ?_, ?_, fun rest => ?_, fun name other other' rest => ?_⟩
  · rw [find_rename, if_neg fun inside => notRoot (List.cons_prefix_cons.mp inside).1]
    simp only [List.cons_prefix_cons, true_and]
  · rw [find_rename, if_neg (by simp), if_neg (by simp)]
  · rw [find_rename, if_pos (List.cons_prefix_cons.mpr ⟨rfl, List.nil_prefix⟩)]
    rfl
  · rw [find_rename, if_neg fun inside => other' (List.cons_prefix_cons.mp inside).1.symm,
      if_neg fun inside => other (List.cons_prefix_cons.mp inside).1.symm]

/-- **A mountpoint that is moved and made again keeps the invariant.** -/
theorem SplitInv.add (inv : SplitInv tree done fs) (condition : SplitsWhen tree mountpoints)
    (known : ∀ other ∈ done, other ∈ mountpoints) (member : path ∈ mountpoints) (named : path ≠ "")
    (fresh : path ∉ done) : SplitInv tree (done ++ [path])
      ((fs.rename ("root" :: dirOf path) [mountpathOf path]).add ("root" :: dirOf path) .dir) := by
  obtain ⟨inside, top, new, others⟩ := find_moved named fs
  have notRoot := mountpathOf_ne_root named
  have cases' : ∀ other, other ∈ done ++ [path] → other ∈ done ∨ other = path := fun other among =>
    (List.mem_append.mp among).imp id List.mem_singleton.mp
  refine ⟨?_, fun place outside => ?_, fun other among named' place below => ?_,
    fun other among named' rest content => ?_, fun name other unused rest => ?_⟩
  · rw [isDir, find_add, if_neg (by simp), top]
    exact inv.top
  · have apart := outside path (List.mem_append_right _ List.mem_cons_self) named
    have different : ¬ ("root" :: place = "root" :: dirOf path) := by
      intro same
      rw [(List.cons.inj same).2] at apart
      exact apart List.prefix_rfl
    rw [find_add, if_neg different, inside, if_neg apart]
    exact inv.untouched place fun other among => outside other (List.mem_append_left _ among)
  · rw [find_add, inside]
    simp only [List.cons.injEq, true_and]
    rcases cases' other among with old | rfl
    · have different : other ≠ path := fun same => fresh (same ▸ old)
      by_cases below' : dirOf path <+: place
      · rw [condition.dirOf_eq (known other old) member named' named different below below',
          if_pos below']
      · have different' : ¬ place = dirOf path := by
          rintro rfl
          exact below' List.prefix_rfl
        rw [if_neg different', if_neg below']
        exact inv.emptied other old named' place below
    · rw [if_pos below]
  · rw [find_add]
    rcases cases' other among with old | rfl
    · have different : other ≠ path := fun same => fresh (same ▸ old)
      have notRoot' := mountpathOf_ne_root named'
      rw [if_neg fun same => notRoot' (List.cons.inj same).1,
        others _ notRoot' (condition.names other (known other old) path member different)]
      exact inv.moved other old named' rest content
    · rw [if_neg fun same => notRoot (List.cons.inj same).1, new]
      by_cases emptied : ∃ old ∈ done, old ≠ "" ∧ dirOf old <+: dirOf other ++ rest
      · -- the directory has been moved under another spelling
        obtain ⟨old, among', named'', above⟩ := emptied
        have different : old ≠ other := fun same => fresh (same ▸ among')
        have same := condition.dirOf_eq (known old among') member named'' named different above
          (List.prefix_append _ _)
        have none := condition.no_file (known old among') member named'' different same above content
        rw [inv.emptied old among' named'' _ above]
        constructor
        · intro file
          split_ifs at file
          cases file
        · exact fun file => absurd file none
      · push Not at emptied
        rw [inv.untouched _ emptied]
  · have notNew := unused path (List.mem_append_right _ List.mem_cons_self)
    rw [find_add, if_neg fun same => other (List.cons.inj same).1, others name other notNew]
    exact inv.free name other (fun old among => unused old (List.mem_append_left _ among)) rest

/-- **A round of the loop succeeds**, and keeps the invariant. -/
theorem SplitInv.step (inv : SplitInv tree done fs) (condition : SplitsWhen tree mountpoints)
    (known : ∀ other ∈ done, other ∈ mountpoints) (member : path ∈ mountpoints) (named : path ≠ "")
    (fresh : path ∉ done) (there : ExistsIn tree path) (movable : Movable path) :
    ∃ next, moveMountpoint fs path = .ok next ∧ SplitInv tree (done ++ [path]) next := by
  have agrees := inv.agrees condition known member named fresh there
  obtain ⟨walked, _⟩ := there.below agrees
  obtain ⟨front, name, split, apart⟩ := movable
  have notRoot := mountpathOf_ne_root named
  have whole : fs.walk [] (rootPath path).components = some ("root" :: dirOf path) := by
    rw [rootPath, walk, if_pos ⟨inv.top, fun top => by cases top.1⟩]
    exact walked
  rw [split] at whole
  obtain ⟨parent, walked', dir⟩ := walk_front whole
  have place : parent ++ [name] = "root" :: dirOf path := by
    rw [(walk_some whole).1, (walk_some walked').1, arrive_append]
    rfl
  have located : fs.locate (rootPath path).components = some ("root" :: dirOf path) := by
    rw [split, locate_append walked' dir, place]
  have present : (fs.find ("root" :: dirOf path)).isSome := (walk_some whole).2.1
  have slash : (rootPath path).slash = true → fs.isDir ("root" :: dirOf path) = true := by
    intro asked
    rw [isDir, agrees (dirOf path) (dirOf_mem_visited path)]
    exact there.2 asked
  have unused : fs.find [mountpathOf path] = none := by
    refine inv.free _ notRoot (fun other among => ?_) []
    exact condition.names path member other (known other among) fun same => fresh (same ▸ among)
  have outside : ¬ ("root" :: dirOf path) <+: [mountpathOf path] := fun inside =>
    notRoot (List.cons_prefix_cons.mp inside).1.symm
  obtain ⟨inside, top, _⟩ := find_moved named fs
  -- the way to the parent is as before
  have same : ∀ on ∈ visited [] front,
      (fs.rename ("root" :: dirOf path) [mountpathOf path]).find on = fs.find on := by
    intro on passed
    rcases there.visited_root (by rw [split, visited_append]; exact Or.inl passed) with
      rfl | ⟨inner, _, rfl⟩
    · exact top
    · have := apart _ passed
      rw [List.cons_prefix_cons, not_and] at this
      rw [inside, if_neg (this rfl)]
  have located' : (fs.rename ("root" :: dirOf path) [mountpathOf path]).locate
      (rootPath path).components = some ("root" :: dirOf path) := by
    rw [split, locate_append (walk_congr same ▸ walked') ?_, place]
    rw [isDir, same parent ((walk_some walked').1 ▸ arrive_mem_visited _ _)]
    exact dir
  refine ⟨_, ?_, inv.add condition known member named fresh⟩
  rw [moveMountpoint, if_neg named, mv_free located present slash unused outside]
  simp only
  rw [mkdir_ok.mpr ⟨_, located', by rw [inside, if_pos List.prefix_rfl], rfl⟩]

/-- **The loop succeeds.** -/
theorem SplitInv.run (condition : SplitsWhen tree mountpoints) (rest : List String) :
    ∀ (done : List String) (fs : FileTree String α), SplitInv tree done fs →
      (done ++ rest).Nodup → (∀ path ∈ done ++ rest, path ∈ mountpoints) →
      (∀ path ∈ rest, ExistsIn tree path) → (∀ path ∈ rest, path ≠ "" → Movable path) →
      ∃ split, rest.foldlM moveMountpoint fs = .ok split ∧ SplitInv tree (done ++ rest) split := by
  induction rest with
  | nil =>
    intro done fs inv _ _ _ _
    rw [List.append_nil]
    exact ⟨fs, rfl, inv⟩
  | cons path rest ih =>
    intro done fs inv nodup known there movable
    have split : done ++ path :: rest = done ++ [path] ++ rest := by
      rw [List.append_assoc, List.singleton_append]
    have fresh : path ∉ done := fun member =>
      (List.nodup_append.mp nodup).2.2 path member path List.mem_cons_self rfl
    obtain ⟨next, moved, inv'⟩ : ∃ next, moveMountpoint fs path = .ok next ∧
        SplitInv tree (done ++ [path]) next := by
      by_cases named : path = ""
      · exact ⟨fs, if_pos named, named ▸ inv.skip⟩
      · exact inv.step condition (fun other among => known other (List.mem_append_left _ among))
          (known path (List.mem_append_right _ List.mem_cons_self)) named fresh
          (there path List.mem_cons_self) (movable path List.mem_cons_self named)
    rw [split] at nodup known ⊢
    rw [List.foldlM_cons, moved]
    exact ih _ next inv' nodup known (fun other later => there other (List.mem_cons_of_mem _ later))
      fun other later => movable other (List.mem_cons_of_mem _ later)

/-- The paths of a successful loop can be moved. -/
theorem movable_of_run {split : FileTree String α} (there : ∀ path ∈ done, ExistsIn tree path)
    (ran : done.foldlM moveMountpoint fs = .ok split) : ∀ path ∈ done, path ≠ "" → Movable path := by
  induction done generalizing fs with
  | nil => exact fun path member => nomatch member
  | cons first rest ih =>
    rw [List.foldlM_cons, do_eq_ok] at ran
    obtain ⟨next, moved, ran⟩ := ran
    intro path member named
    rcases List.mem_cons.mp member with rfl | later
    · exact (moveMountpoint_ok named (there path List.mem_cons_self) moved).1
    · exact ih (fun other among => there other (List.mem_cons_of_mem _ among)) ran path later named

end Loop

/-! ### The files are split -/

section Split

variable {tree : FileTree String α} {mountpoints : List String} {path other : String}

/-- A position belongs to one directory. -/
theorem Belongs.dirOf_eq {position : List String} (own : Belongs mountpoints path position)
    (own' : Belongs mountpoints other position) (member : path ∈ mountpoints)
    (member' : other ∈ mountpoints) : dirOf path = dirOf other := by
  by_contra different
  rcases List.prefix_or_prefix_of_prefix own.1 own'.1 with below | below
  · exact own.2 ⟨other, member', below, Ne.symm different, own'.1⟩
  · exact own'.2 ⟨path, member, below, different, own.1⟩

/-- What the remaining copy has is what belongs to no other mountpoint. -/
theorem SplitInv.root {fs : FileTree String α} (inv : SplitInv tree mountpoints fs)
    (condition : SplitsWhen tree mountpoints) (first : "" ∈ mountpoints) (place : List String)
    (content : α) : fs.find ("root" :: place) = some (.file content) ↔
      Belongs mountpoints "" place ∧ tree.find place = some (.file content) := by
  have top : dirOf "" = [] := rfl
  by_cases moved : ∃ path ∈ mountpoints, path ≠ "" ∧ dirOf path <+: place
  · obtain ⟨path, member, named, above⟩ := moved
    constructor
    · intro file
      rw [inv.emptied path member named place above] at file
      split_ifs at file
      cases file
    · rintro ⟨own, file⟩
      have same : dirOf "" = dirOf path :=
        own.dirOf_eq (condition.belongs member named above) first member
      exact absurd file (condition.spelling "" first path member (Ne.symm named) same place content
        own)
  · push Not at moved
    rw [inv.untouched place moved]
    refine ⟨fun file => ⟨⟨List.nil_prefix, ?_⟩, file⟩, fun both => both.2⟩
    rintro ⟨path, member, _, different, above⟩
    refine moved path member (fun same => different ?_) above
    rw [same]

/-- **What the loop leaves is split.** -/
theorem SplitInv.subtrees {split : FileTree String α} (inv : SplitInv tree mountpoints split)
    (condition : SplitsWhen tree mountpoints) (first : "" ∈ mountpoints) :
    Subtrees tree mountpoints split := by
  have own : ∀ path ∈ mountpoints, ∀ rest content,
      split.find (mountpathOf path :: rest) = some (.file content) ↔
        Belongs mountpoints path (dirOf path ++ rest) ∧
          tree.find (dirOf path ++ rest) = some (.file content) := by
    intro path member rest content
    by_cases named : path = ""
    · subst named
      exact inv.root condition first rest content
    · rw [inv.moved path member named, and_iff_right]
      exact condition.belongs member named (List.prefix_append _ _)
  refine ⟨own, condition.names, fun position content file => ?_⟩
  obtain ⟨path, member, belongs⟩ : ∃ path ∈ mountpoints, Belongs mountpoints path position := by
    by_cases moved : ∃ path ∈ mountpoints, path ≠ "" ∧ dirOf path <+: position
    · obtain ⟨path, member, named, above⟩ := moved
      exact ⟨path, member, condition.belongs member named above⟩
    · push Not at moved
      have left := inv.untouched position moved
      rw [file] at left
      exact ⟨"", first, ((inv.root condition first position content).mp left).1⟩
  obtain ⟨rest, rfl⟩ := belongs.1
  refine ⟨path, ⟨member, rest, rfl, (own path member rest content).mpr ⟨belongs, file⟩⟩, ?_⟩
  rintro other ⟨member', rest', same, found⟩
  have belongs' := ((own other member' rest' content).mp found).1
  rw [← same] at belongs'
  by_contra different
  exact condition.spelling path member other member' (Ne.symm different)
    (belongs.dirOf_eq belongs' member member') _ content belongs file

end Split

/-! ### When it is so -/

section Main

variable {tree : FileTree String α} {images order : List MountImage}

theorem needRoot_perm (same : images.Perm order) : needRoot order = needRoot images := by
  unfold needRoot
  rw [Bool.eq_iff_iff, List.any_eq_true, List.any_eq_true]
  simp only [same.mem_iff]

/-- `collect_mountpoints` is its loop. -/
theorem collectMountpoints_ok (need : needRoot images = true) {split : FileTree String α} :
    collectMountpoints tree images = .ok (some split) ↔
      (mountpointsOf images).foldlM moveMountpoint (copyRoot tree) = .ok split := by
  unfold collectMountpoints
  rw [if_neg (by simp [need]), do_eq_ok]
  constructor
  · rintro ⟨result, ran, same⟩
    obtain rfl := Option.some.inj (pure_eq_ok.mp same)
    exact ran
  · exact fun ran => ⟨split, ran, rfl⟩

theorem Succeeds.loop (need : needRoot images = true) (succeeds : Succeeds tree images) :
    ∃ split, (mountpointsOf images).foldlM moveMountpoint (copyRoot tree) = .ok split := by
  obtain ⟨result, ran⟩ := succeeds
  unfold collectMountpoints at ran
  rw [if_neg (by simp [need]), do_eq_ok] at ran
  exact ran.imp fun split both => both.1

/-- Nobody needs the tree. -/
theorem collectMountpoints_unused (need : needRoot images = false) :
    collectMountpoints tree images = .ok none :=
  if_pos need

/-- **Under the condition every order splits the files.** -/
theorem SplitsWhen.always (condition : SplitsWhen tree (mountpointsOf images))
    (there : ∀ path ∈ mountpointsOf images, ExistsIn tree path)
    (movable : ∀ path ∈ mountpointsOf images, path ≠ "" → Movable path)
    (need : needRoot images = true) : SplitsAlways tree images := by
  have run : ∀ order, images.Perm order → ∃ split,
      collectMountpoints tree order = .ok (some split) ∧
        Subtrees tree (mountpointsOf order) split := by
    intro order same
    have known : ∀ path, path ∈ mountpointsOf order → path ∈ mountpointsOf images :=
      fun path => (mem_mountpointsOf_perm same).mp
    have own : SplitsWhen tree (mountpointsOf order) := by
      refine ⟨fun path member other member' => ?_, fun path member other member' => ?_,
        fun path member other member' => ?_⟩
      · exact condition.names path (known path member) other (known other member')
      · intro different equal position content belongs
        refine condition.spelling path (known path member) other (known other member') different
          equal position content ⟨belongs.1, ?_⟩
        rintro ⟨deeper, among, rest⟩
        exact belongs.2 ⟨deeper, (mem_mountpointsOf_perm same).mpr among, rest⟩
      · exact condition.nested path (known path member) other (known other member')
    obtain ⟨split, ran, inv⟩ := SplitInv.run own (mountpointsOf order) [] (copyRoot tree)
      (SplitInv.start tree) (mountpointsOf_nodup order) (fun path member => member)
      (fun path member => there path (known path member))
      (fun path member => movable path (known path member))
    exact ⟨split, (collectMountpoints_ok ((needRoot_perm same).trans need)).mpr ran,
      inv.subtrees own (mem_mountpointsOf.mpr (Or.inl rfl))⟩
  refine ⟨fun order split same ran => ?_, fun order order' same same' => ?_⟩
  · obtain ⟨split', ran', subtrees⟩ := run order same
    rw [ran'] at ran
    obtain rfl := Option.some.inj (Except.ok.inj ran)
    exact subtrees
  · obtain ⟨split, ran, _⟩ := run order same
    obtain ⟨split', ran', _⟩ := run order' same'
    exact ⟨fun _ => ⟨_, ran'⟩, fun _ => ⟨_, ran⟩⟩

/-- **A path through another mountpoint is gone** when that comes first. -/
theorem nested_of_order (there : ∀ path ∈ mountpointsOf images, ExistsIn tree path)
    (need : needRoot images = true)
    (succeed : ∀ order, images.Perm order → Succeeds tree order) {path other : String}
    (member : path ∈ mountpointsOf images) (member' : other ∈ mountpointsOf images)
    (named : path ≠ "") (named' : other ≠ "") (different : path ≠ other) {place : List String}
    (on : place ∈ visited [] (componentsOf other)) (below : dirOf path <+: place) :
    place = dirOf path := by
  by_contra strict
  obtain ⟨first, among, own⟩ := (mem_mountpointsOf.mp member).resolve_left named
  obtain ⟨second, among', own'⟩ := (mem_mountpointsOf.mp member').resolve_left named'
  -- the order that begins with the two images
  have distinct : second ≠ first := by
    rintro rfl
    exact different (Option.some.inj (own.symm.trans own'))
  obtain ⟨rest, same⟩ : ∃ rest, images.Perm (first :: second :: rest) :=
    ⟨(images.erase first).erase second, (List.perm_cons_erase among).trans
      ((List.perm_cons_erase ((List.mem_erase_of_ne distinct).mpr among')).cons first)⟩
  obtain ⟨more, begins⟩ := mountpointsOf_pair rest own own' named named' different
  obtain ⟨split, ran⟩ := (succeed _ same).loop ((needRoot_perm same).trans need)
  rw [begins, List.foldlM_cons, do_eq_ok] at ran
  obtain ⟨start, unmoved, ran⟩ := ran
  rw [List.foldlM_cons, do_eq_ok] at ran
  obtain ⟨next, moved, ran⟩ := ran
  rw [List.foldlM_cons, do_eq_ok] at ran
  obtain ⟨last, moved', _⟩ := ran
  -- the first round leaves nothing below
  obtain ⟨_, _, emptied⟩ := moveMountpoint_ok named (there path member) moved
  obtain ⟨_, present, _⟩ := moveMountpoint_ok named' (there other member') moved'
  have lifted := ((there other member').below fun inner _ => find_copyRoot tree inner).2
  have passes := present ("root" :: place) (List.mem_cons_of_mem _ (by
    show "root" :: place ∈ visited ["root"] (componentsOf other)
    rw [lifted]
    exact List.mem_map_of_mem on))
  rw [emptied place strict below] at passes
  cases passes

/-- **The files are split in every order of the sections exactly under the condition**, for mountpoints
that are in the tree and that some order splits without an error. -/
theorem collectMountpoints_splits_iff
    (there : ∀ path ∈ mountpointsOf images, ExistsIn tree path)
    (runs : ∃ order, images.Perm order ∧ Succeeds tree order) :
    SplitsAlways tree images ↔
      (needRoot images = true → SplitsWhen tree (mountpointsOf images)) := by
  obtain ⟨order, same, succeeds⟩ := runs
  constructor
  · intro always need
    have succeed : ∀ order', images.Perm order' → Succeeds tree order' := fun order' same' =>
      (always.order order order' same same').mp succeeds
    obtain ⟨split, ran⟩ := (succeed images (List.Perm.refl _)).loop need
    have subtrees := always.subtrees images split (List.Perm.refl _)
      ((collectMountpoints_ok need).mpr ran)
    refine ⟨subtrees.apart, ?_, fun path member other member' named named' different place on below =>
      nested_of_order there need succeed member member' named named' different on below⟩
    intro path member other member' different equal position content belongs file
    obtain ⟨rest, rfl⟩ := belongs.1
    have owned := (subtrees.own path member rest content).mpr ⟨belongs, file⟩
    have belongs' : Belongs (mountpointsOf images) other (dirOf other ++ rest) := by
      rw [Belongs, ← equal]
      exact belongs
    have owned' := (subtrees.own other member' rest content).mpr ⟨belongs', equal ▸ file⟩
    -- the file would be in two places
    exact different ((subtrees.once _ content file).unique ⟨member, rest, rfl, owned⟩
      ⟨member', rest, by rw [equal], owned'⟩)
  · intro condition
    cases need : needRoot images with
    | false =>
      refine ⟨fun order split same ran => ?_, fun order order' same same' => ?_⟩
      · rw [collectMountpoints_unused ((needRoot_perm same).trans need)] at ran
        cases ran
      · exact ⟨fun _ => ⟨_, collectMountpoints_unused ((needRoot_perm same').trans need)⟩,
          fun _ => ⟨_, collectMountpoints_unused ((needRoot_perm same).trans need)⟩⟩
    | true =>
      refine (condition need).always there (fun path member => ?_) need
      obtain ⟨split, ran⟩ := succeeds.loop ((needRoot_perm same).trans need)
      refine movable_of_run (fun path member => there path ((mem_mountpointsOf_perm same).mp member))
        ran path ((mem_mountpointsOf_perm same).mpr member)

end Main

/-! ### Two examples -/

instance {tree : FileTree String α} {path : String} : Decidable (ExistsIn tree path) :=
  inferInstanceAs (Decidable (_ ∧ _))

theorem succeeds_iff {tree : FileTree String α} {images : List MountImage} :
    (collectMountpoints tree images).isOk = true ↔ Succeeds tree images := by
  unfold Succeeds
  cases collectMountpoints tree images <;> simp [Except.isOk, Except.toBool]

instance {tree : FileTree String α} {images : List MountImage} : Decidable (Succeeds tree images) :=
  decidable_of_iff _ succeeds_iff

/-- A tree with the files `boot/x`, `data/sub/y` and `data-sub/z`. -/
def smallTree : FileTree String Nat :=
  ⟨[([], .dir), (["boot"], .dir), (["boot", "x"], .file 1), (["data"], .dir), (["data", "sub"], .dir),
    (["data", "sub", "y"], .file 2), (["data-sub"], .dir), (["data-sub", "z"], .file 3)]⟩

def mountImages (paths : List String) : List MountImage :=
  paths.map fun path => { mountpoint := some path }

/-- Two directories that do not touch each other are split. -/
theorem smallTree_splits : SplitsAlways smallTree (mountImages ["boot", "data/sub", ""]) := by
  refine (collectMountpoints_splits_iff (by decide +kernel)
    ⟨_, List.Perm.refl _, by decide +kernel⟩).mpr fun _ =>
      ⟨by decide +kernel, fun path member other member' different equal => ?_, by decide +kernel⟩
  have distinct : ∀ path ∈ mountpointsOf (mountImages ["boot", "data/sub", ""]),
      ∀ other ∈ mountpointsOf (mountImages ["boot", "data/sub", ""]), path ≠ other →
        dirOf path ≠ dirOf other := by
    decide +kernel
  exact absurd equal (distinct path member other member' different)

/-- **Two directories get one place**, and a mountpoint below another one works in one order only. -/
theorem mountpoints_not_split :
    (Succeeds smallTree (mountImages ["data/sub", "data-sub"]) ∧
      mountpathOf "data/sub" = mountpathOf "data-sub" ∧
      (∀ path ∈ mountpointsOf (mountImages ["data/sub", "data-sub"]), ExistsIn smallTree path) ∧
      ¬ SplitsAlways smallTree (mountImages ["data/sub", "data-sub"])) ∧
    (Succeeds smallTree (mountImages ["data/sub", "data"]) ∧
      (∀ path ∈ mountpointsOf (mountImages ["data/sub", "data"]), ExistsIn smallTree path) ∧
      ¬ Succeeds smallTree (mountImages ["data", "data/sub"])) := by
  refine ⟨⟨by decide +kernel, by decide +kernel, by decide +kernel, fun always => ?_⟩,
    by decide +kernel⟩
  have succeeds : Succeeds smallTree (mountImages ["data/sub", "data-sub"]) := by decide +kernel
  obtain ⟨split, ran⟩ := succeeds.loop (by decide +kernel)
  exact (always.subtrees _ split (List.Perm.refl _)
    ((collectMountpoints_ok (by decide +kernel)).mpr ran)).apart "data/sub" (by decide +kernel)
      "data-sub" (by decide +kernel) (by decide +kernel) (by decide +kernel)

end Genimage
