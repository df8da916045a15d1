/-
**Implicit images (the check in `main` that each partition has an image).**

`main` walks over all partitions of all images, and appends a `file` image for each name that no image
has, to the list that it walks over. `checkImages_ok_iff` says when it succeeds, and `WithImplicit` what
the list is then: the images of the configuration, and behind them one image for each other name, with
the holes of the first partition that has the name. Every name that the passes look up has an image.

`parse_holes` reads these holes. Nothing looks at what it returns, but an invalid size in them ends the
program. `holes` are taken for implicit images only. A second partition with the name of an implicit image finds
it in the list, and is refused when it has `holes`, whatever they are.
-/

import Genimage.Image.Holes
import Genimage.Library.Growing
import Genimage.Library.Related

namespace Genimage

open Library Library.Growing

/-- What `main` reads of a `partition` section in front of the passes: the strings of its sizes and
`holes`, and the fields that the check looks at. -/
structure PartSpec where
  image : Option String
  size : Option String := none
  offset : Option String := none
  align : Option String := none
  imageoffset : Option String := none
  inPartitionTable : Bool := true
  sparse : Bool := true
  holes : List String := []
deriving DecidableEq, Repr

/-- An image of the list with its partitions and its holes. -/
structure ListEntry where
  image : Image
  parts : List PartSpec
  holes : List Extent := []
  named : image.partitions = parts.map (·.image)

/-- The image that is appended for a name. -/
def implicitEntry (name : String) (holes : List Extent) : ListEntry where
  image := { file := name }
  parts := []
  holes := holes
  named := rfl

/-- Why the check ends at a partition: two errors, and the exit of `strtoul_suffix` in `parse_holes`. -/
inductive PartError where
  | noInput
  | holes
  | exit
deriving DecidableEq, Repr

namespace PartError

/-- The return value, or the status of the exit. -/
def code : PartError → Int
  | noInput => einval
  | holes => einval
  | exit => 1

/-- The format of the error. -/
def text : PartError → String
  | noInput => "no input file given\n"
  | holes => "holes in partitions are only valid for implicit child images!\n"
  | exit => "Invalid size suffix '%s' in '%s'\n"

end PartError

/-- The names of the images. -/
def files (entries : List ListEntry) : List String := entries.map (·.image.file)

/-- The body of the loop over the partitions. `len` are the values of the variable of `parse_holes` that
is not initialised, in its call for a new image. -/
def checkPart (len : String → Nat → Int32) (entries : List ListEntry) (part : PartSpec) : Except PartError (List ListEntry) :=
  match part.image with
  | none => if part.inPartitionTable || !part.sparse then .ok entries else .error .noInput
  | some name =>
    if name ∈ files entries then
      if 0 < part.holes.length then .error .holes else .ok entries
    else
      match holesOfNew (len name) part.holes .partition with
      | none => .error .exit
      | some holes => .ok (entries ++ [implicitEntry name holes])

/-- The partitions of all images, in the order of the walk. -/
def allParts (entries : List ListEntry) : List PartSpec := entries.flatMap (·.parts)

/-- The loops over the images and their partitions. Each partition appends one image at most. -/
def checkImages (len : String → Nat → Int32) (entries : List ListEntry) :
    Except PartError (List ListEntry) :=
  visitFrom ListEntry.parts (checkPart len) (entries.length + (allParts entries).length) 0 entries

/-! ### The walk -/

variable {len : String → Nat → Int32}

theorem checkPart_appends : Appends ListEntry.parts (checkPart len) := by
  intro entries part result run
  unfold checkPart at run
  split at run
  next => split_ifs at run; exact Or.inl (Except.ok.inj run).symm
  next name _ =>
    split_ifs at run
    · exact Or.inl (Except.ok.inj run).symm
    · split at run
      next => cases run
      next holes _ => exact Or.inr ⟨implicitEntry name holes, rfl, (Except.ok.inj run).symm⟩

/-- The images that are appended have no partitions, so that nothing is missed. -/
theorem checkImages_eq (entries : List ListEntry) :
    checkImages len entries = (allParts entries).foldlM (checkPart len) entries :=
  visitFrom_zero checkPart_appends (Nat.le_add_right _ _)

/-! ### The result -/

/-- **A partition is accepted** behind others: without an image it is in the table or filled, and with
`holes` it is the first one to name its image, and no size in them ends the program. -/
structure Accepted (len : String → Nat → Int32) (entries : List ListEntry) (before : List PartSpec)
    (part : PartSpec) : Prop where
  input : part.image = none → part.inPartitionTable = true ∨ part.sparse = false
  holes : ∀ name, part.image = some name → part.holes ≠ [] →
    (name ∉ files entries ∧ ∀ other ∈ before, other.image ≠ some name) ∧
      ¬ Stopping (len name) part.holes .partition

/-- The first partition with a name that no image has. -/
def Introduces (entries : List ListEntry) (parts : List PartSpec) (name : String)
    (part : PartSpec) : Prop :=
  name ∉ files entries ∧ part.image = some name ∧
    ∃ before after, parts = before ++ part :: after ∧ ∀ other ∈ before, other.image ≠ some name

/-- **The list behind the walk** over `parts`. -/
structure WithImplicit (len : String → Nat → Int32) (entries : List ListEntry) (parts : List PartSpec)
    (result : List ListEntry) : Prop where
  split : ∃ new, result = entries ++ new ∧ (files new).Nodup ∧
    ∀ entry ∈ new, ∃ name part holes, Introduces entries parts name part ∧
      holesOfNew (len name) part.holes .partition = some holes ∧ entry = implicitEntry name holes
  complete : ∀ part ∈ parts, ∀ name, part.image = some name → name ∈ files result

theorem Introduces.mono {entries : List ListEntry} {parts : List PartSpec} {name : String}
    {part : PartSpec} (first : Introduces entries parts name part) (more : List PartSpec) :
    Introduces entries (parts ++ more) name part := by
  obtain ⟨unknown, named, before, after, rfl, others⟩ := first
  refine ⟨unknown, named, before, after ++ more, ?_, others⟩
  rw [List.append_assoc, List.cons_append]

theorem WithImplicit.nil (entries : List ListEntry) : WithImplicit len entries [] entries where
  split := ⟨[], (List.append_nil _).symm, List.nodup_nil, nofun⟩
  complete := nofun

section Walk

variable {entries middle result : List ListEntry} {parts : List PartSpec} {part : PartSpec}

theorem files_append (first second : List ListEntry) :
    files (first ++ second) = files first ++ files second := List.map_append

/-- The names behind the walk are those in front of it and those of the partitions. -/
theorem WithImplicit.mem_files (completed : WithImplicit len entries parts result) {name : String} :
    name ∈ files result ↔ name ∈ files entries ∨ ∃ part ∈ parts, part.image = some name := by
  obtain ⟨new, same, _, origin⟩ := completed.split
  rw [same, files_append, List.mem_append]
  constructor
  · refine Or.imp id fun among => ?_
    obtain ⟨entry, listed, rfl⟩ := List.mem_map.mp among
    obtain ⟨name, part, _, ⟨_, named, before, after, rfl, _⟩, _, rfl⟩ := origin entry listed
    exact ⟨part, by simp, named⟩
  · rintro (old | ⟨part, member, named⟩)
    · exact Or.inl old
    · have found := completed.complete part member name named
      rwa [same, files_append, List.mem_append] at found

/-- A partition that appends nothing. -/
theorem WithImplicit.keep (completed : WithImplicit len entries parts result)
    (known : ∀ name, part.image = some name → name ∈ files result) :
    WithImplicit len entries (parts ++ [part]) result where
  split := by
    obtain ⟨new, same, nodup, origin⟩ := completed.split
    refine ⟨new, same, nodup, fun entry member => ?_⟩
    obtain ⟨name, first, holes, introduces, same⟩ := origin entry member
    exact ⟨name, first, holes, introduces.mono [part], same⟩
  complete other member name named := by
    rcases List.mem_append.mp member with early | last
    · exact completed.complete other early name named
    · rw [List.mem_singleton.mp last] at named
      exact known name named

/-- A partition that appends the image of its name. -/
theorem WithImplicit.add (completed : WithImplicit len entries parts result) {name : String}
    (named : part.image = some name) (unknown : name ∉ files result) {holes : List Extent}
    (read : holesOfNew (len name) part.holes .partition = some holes) :
    WithImplicit len entries (parts ++ [part]) (result ++ [implicitEntry name holes]) := by
  have absent : name ∉ files entries ∧ ∀ other ∈ parts, other.image ≠ some name := by
    rw [completed.mem_files, not_or] at unknown
    exact ⟨unknown.1, fun other member same => unknown.2 ⟨other, member, same⟩⟩
  obtain ⟨new, same, nodup, origin⟩ := completed.split
  refine ⟨⟨new ++ [implicitEntry name holes], by rw [same, List.append_assoc], ?_, ?_⟩, ?_⟩
  · rw [files_append, List.nodup_append]
    refine ⟨nodup, List.nodup_singleton _, fun old member own single equal => unknown ?_⟩
    obtain rfl : old = name := equal.trans (List.mem_singleton.mp single)
    rw [same, files_append]
    exact List.mem_append_right _ member
  · intro entry member
    rcases List.mem_append.mp member with early | last
    · obtain ⟨other, first, holes', introduces, same⟩ := origin entry early
      exact ⟨other, first, holes', introduces.mono [part], same⟩
    · exact ⟨name, part, holes, ⟨absent.1, named, parts, [], rfl, absent.2⟩, read,
        List.mem_singleton.mp last⟩
  · intro other member name' named'
    rw [files_append, List.mem_append]
    rcases List.mem_append.mp member with early | last
    · exact Or.inl (completed.complete other early name' named')
    · rw [List.mem_singleton.mp last, named] at named'
      rw [← Option.some.inj named']
      exact Or.inr (List.mem_singleton_self name)

/-- **One partition more.** -/
theorem WithImplicit.step (completed : WithImplicit len entries parts middle)
    (run : checkPart len middle part = .ok result) : WithImplicit len entries (parts ++ [part]) result := by
  unfold checkPart at run
  split at run
  next none =>
    split_ifs at run
    obtain rfl := Except.ok.inj run
    exact completed.keep fun name named => by rw [none] at named; cases named
  next name given =>
    split_ifs at run with known
    · obtain rfl := Except.ok.inj run
      refine completed.keep fun other named => ?_
      rw [given] at named
      rwa [← Option.some.inj named]
    · split at run
      next => cases run
      next holes read =>
        obtain rfl := Except.ok.inj run
        exact completed.add given known read

/-- When the step succeeds. -/
theorem WithImplicit.checkPart_ok_iff (completed : WithImplicit len entries parts middle) :
    (∃ result, checkPart len middle part = .ok result) ↔ Accepted len entries parts part := by
  unfold checkPart
  split
  next none =>
    have any : Accepted len entries parts part ↔
        part.inPartitionTable = true ∨ part.sparse = false :=
      ⟨fun accepted => accepted.input none, fun input => ⟨fun _ => input, fun name named => by
        rw [none] at named; cases named⟩⟩
    rw [any]
    split_ifs with given
    · exact iff_of_true ⟨middle, rfl⟩ (by simpa using given)
    · exact iff_of_false (fun ⟨_, run⟩ => by cases run) (by simpa using given)
  next name given =>
    have any : Accepted len entries parts part ↔ (part.holes ≠ [] →
        name ∉ files middle ∧ ¬ Stopping (len name) part.holes .partition) := by
      rw [completed.mem_files]
      push Not
      refine ⟨fun accepted some => accepted.holes name given some, fun holes => ⟨fun none => ?_, ?_⟩⟩
      · rw [given] at none
        cases none
      · intro other named some
        rw [given] at named
        rw [← Option.some.inj named]
        exact holes some
    rw [any]
    split_ifs with known some
    · exact iff_of_false (fun ⟨_, run⟩ => by cases run) fun new =>
        (new (List.ne_nil_of_length_pos some)).1 known
    · exact iff_of_true ⟨middle, rfl⟩ fun given => absurd (List.length_pos_of_ne_nil given) some
    · split
      next exits =>
        have stopping := (holesOfNew_exit_iff _ _).mp exits
        refine iff_of_false (fun ⟨_, run⟩ => by cases run) fun reads => ?_
        refine (reads fun none => ?_).2 stopping
        obtain ⟨i, s, at_, _⟩ := stopping
        rw [none] at at_
        cases at_
      next holes read =>
        refine iff_of_true ⟨_, rfl⟩ fun _ => ⟨known, fun stopping => ?_⟩
        rw [(holesOfNew_exit_iff _ _).mpr stopping] at read
        cases read

end Walk

/-- The walk over the partitions; by induction on the partitions from the end. -/
theorem checkParts_completed (len : String → Nat → Int32) (entries : List ListEntry) (parts : List PartSpec) :
    (∀ result, parts.foldlM (checkPart len) entries = .ok result →
      WithImplicit len entries parts result) ∧
    ((∃ result, parts.foldlM (checkPart len) entries = .ok result) ↔
      ∀ before part after, parts = before ++ part :: after → Accepted len entries before part) := by
  induction parts using List.reverseRecOn with
  | nil =>
    refine ⟨fun result run => ?_, iff_of_true ⟨entries, rfl⟩ fun before part after split => ?_⟩
    · rw [← Except.ok.inj run]
      exact .nil entries
    · simp at split
  | append_singleton parts part ih =>
    obtain ⟨completed, accepted⟩ := ih
    have last : ∀ result, (parts ++ [part]).foldlM (checkPart len) entries = .ok result ↔
        ∃ middle, parts.foldlM (checkPart len) entries = .ok middle ∧
          checkPart len middle part = .ok result := by
      intro result
      rw [List.foldlM_append, do_eq_ok]
      simp only [List.foldlM_cons, List.foldlM_nil, bind_pure]
    refine ⟨fun result run => ?_, ?_⟩
    · obtain ⟨middle, before, run⟩ := (last result).mp run
      exact (completed middle before).step run
    · simp only [last]
      constructor
      · rintro ⟨result, middle, run, run'⟩ before item after split
        rcases Related.snoc_eq_split split with ⟨rfl, rfl⟩ | ⟨rest, rfl⟩
        · exact (completed middle run).checkPart_ok_iff.mp ⟨result, run'⟩
        · exact accepted.mp ⟨middle, run⟩ before item rest rfl
      · intro all
        obtain ⟨middle, run⟩ := accepted.mpr fun before item after split => by
          refine all before item (after ++ [part]) ?_
          rw [split, List.append_assoc, List.cons_append]
        obtain ⟨result, run'⟩ := (completed middle run).checkPart_ok_iff.mpr (all parts part [] rfl)
        exact ⟨result, middle, run, run'⟩

/-- Behind the walk the passes find every name. -/
theorem WithImplicit.resolvable {entries result : List ListEntry}
    (completed : WithImplicit len entries (allParts entries) result) :
    ∀ image, none ∉ refs (result.map (·.image)) image := by
  intro image absent
  obtain ⟨option, member, lost⟩ := List.mem_filterMap.mp absent
  obtain ⟨name, rfl, missing⟩ := Option.map_eq_some_iff.mp lost
  obtain ⟨entry, listed, same⟩ := List.mem_map.mp (List.get_mem (result.map (·.image)) image)
  rw [← same, entry.named] at member
  obtain ⟨part, among, named⟩ := List.mem_map.mp member
  obtain ⟨new, split, _, origin⟩ := completed.split
  have given : part ∈ allParts entries := by
    rw [split] at listed
    rcases List.mem_append.mp listed with old | added
    · exact List.mem_flatMap.mpr ⟨entry, old, among⟩
    · obtain ⟨_, _, _, _, _, rfl⟩ := origin entry added
      cases among
  obtain ⟨other, found, file⟩ := List.mem_map.mp (completed.complete part given name named)
  have known : (imageGet (result.map (·.image)) name).isSome = true :=
    imageGet_isSome.mpr ⟨other.image, List.mem_map_of_mem found, file⟩
  rw [missing] at known
  cases known

/-- **When the check succeeds, and what it leaves**: every partition is accepted, the list is completed
by the implicit images, and every name has an image. -/
theorem checkImages_ok_iff (len : String → Nat → Int32) (entries : List ListEntry) :
    ((∃ result, checkImages len entries = .ok result) ↔ ∀ before part after,
      allParts entries = before ++ part :: after → Accepted len entries before part) ∧
    ∀ result, checkImages len entries = .ok result →
      WithImplicit len entries (allParts entries) result ∧
        ∀ image, none ∉ refs (result.map (·.image)) image := by
  rw [checkImages_eq]
  obtain ⟨completed, accepted⟩ := checkParts_completed len entries (allParts entries)
  exact ⟨accepted, fun result run => ⟨completed result run, (completed result run).resolvable⟩⟩

/-- Two partitions with one implicit image, the second one with holes. -/
example : checkImages (fun _ _ => 0) [⟨{ file := "disk.img", partitions := [some "a.img", some "a.img"] },
    [{ image := "a.img" }, { image := "a.img", holes := ["(0;512)"] }], [], rfl⟩] matches
      .error .holes := by decide +kernel

/-- An invalid size in the holes of an implicit image. -/
example : checkImages (fun _ _ => 0) [⟨{ file := "disk.img", partitions := [some "data.img"] },
    [{ image := "data.img", holes := ["(08;1)"] }], [], rfl⟩] matches .error .exit := by decide +kernel

end Genimage
