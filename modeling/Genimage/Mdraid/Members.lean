/-
**The members of mdraid arrays after a run.**

A configuration is a forest: `RootOf` follows the parents of an image to the image that starts the
array. `ParsedFrom` and `SetUp` say what parsing and setup have made of a section, `MemberOf` what
generation makes of an image and its parent, and `Generated.memberOf` that at the end of a run every
image is a `MemberOf` its parent. What holds of an array is then an induction on `RootOf`.
-/

import Genimage.Library.Related
import Genimage.Mdraid.Generate

namespace Genimage

open Library

variable {imageGet : String → Option DataImage} {env : MdraidEnv}

/-! ### Parsing -/

/-- **A parsed image**: alone it has what its section says, else its parent's size and the data
image of the parent's section. -/
structure ParsedFrom (images : List MdraidImage) (image : MdraidImage) : Prop where
  fresh : image.imgData = none
  alone : image.imgParent = none →
    image.size = image.imagesec.size ∧ image.imgDataPart = image.imagesec.image
  child : ∀ file, image.imgParent = some file → ∃ parent ∈ images, parent.file = file ∧
    image.size = parent.size ∧ image.imgDataPart = parent.imagesec.image

theorem ParsedFrom.append {images : List MdraidImage} {image : MdraidImage}
    (parsed : ParsedFrom images image) (more : List MdraidImage) :
    ParsedFrom (images ++ more) image := by
  refine ⟨parsed.fresh, parsed.alone, fun file named => ?_⟩
  obtain ⟨parent, among, rest⟩ := parsed.child file named
  exact ⟨parent, List.mem_append_left _ among, rest⟩

theorem mdraidParse_ok {images : List MdraidImage} {imagesec : MdraidSection} {image : MdraidImage}
    (run : mdraidParse images imagesec = .ok image) :
    image.imagesec = imagesec ∧ ParsedFrom (images ++ [image]) image := by
  simp only [mdraidParse, do_eq_ok, failIf_ok] at run
  obtain ⟨_, _, run⟩ := run
  split at run
  next =>
    rw [← pure_eq_ok.mp run]
    exact ⟨rfl, rfl, fun _ => ⟨rfl, rfl⟩, fun _ named => by cases named⟩
  next name _ =>
    split at run
    next => cases run
    next parent found =>
      rw [← pure_eq_ok.mp run]
      have named : parent.file = name := of_decide_eq_true (List.find?_eq_some_iff_append.mp found).1
      refine ⟨rfl, rfl, fun alone => (by cases alone), fun file same => ?_⟩
      obtain rfl : name = file := Option.some.inj same
      rcases List.mem_append.mp (List.mem_of_find?_eq_some found) with earlier | itself
      · exact ⟨parent, List.mem_append_left _ earlier, named, rfl, rfl⟩
      · -- an image may name itself
        rw [List.mem_singleton.mp itself]
        refine ⟨_, List.mem_append_right _ List.mem_cons_self, ?_, rfl, rfl⟩
        rw [← named, List.mem_singleton.mp itself]
        rfl

/-- **What parsing leaves of the sections.** -/
theorem mdraidParseAll_ok {sections : List MdraidSection} {images : List MdraidImage}
    (run : mdraidParseAll sections = .ok images) :
    images.map (·.imagesec) = sections ∧ ∀ image ∈ images, ParsedFrom images image := by
  refine foldlM_invariant
    (fun done images => images.map (·.imagesec) = done ∧ ∀ image ∈ images, ParsedFrom images image)
    ⟨rfl, by simp⟩ ?_ run
  rintro done imagesec rest images next _ ⟨same, all⟩ taken
  simp only [do_eq_ok, pure_eq_ok] at taken
  obtain ⟨image, parsed, rfl⟩ := taken
  obtain ⟨own, from'⟩ := mdraidParse_ok parsed
  refine ⟨by rw [List.map_append, same, List.map_singleton, own], fun other member => ?_⟩
  rcases List.mem_append.mp member with old | new
  · exact (all other old).append _
  · rw [List.mem_singleton.mp new]
    exact from'

/-! ### Setup -/

/-- The size of an image that starts from `size`. -/
def sizeWith (size : UInt64) (data : Option DataImage) : UInt64 := data.elim size (mdraidSize size)

/-- **An image that `mdraid_setup` accepts.** -/
structure SetUp (imageGet : String → Option DataImage) (parsed image : MdraidImage) : Prop where
  imagesec : image.imagesec = parsed.imagesec
  imgParent : image.imgParent = parsed.imgParent
  imgDataPart : image.imgDataPart = parsed.imgDataPart
  imgData : image.imgData = parsed.imgDataPart.bind imageGet
  size : image.size = sizeWith parsed.size image.imgData
  aligned : 4096 ∣ image.size.toNat

theorem mdraidSetup_ok {parsed image : MdraidImage} (fresh : parsed.imgData = none)
    (run : mdraidSetup imageGet parsed = .ok image) : SetUp imageGet parsed image := by
  simp only [mdraidSetup, do_eq_ok, failIf_ok, pure_eq_ok, not_not] at run
  obtain ⟨image, data, _, rounded, rfl⟩ := run
  have aligned : 4096 ∣ image.size.toNat := by
    by_cases zero : image.size = 0
    · rw [zero]
      exact dvd_zero _
    · rw [rounded]
      exact dvd_roundup zero (nextMultiple_fits_of_le zero (by rw [← rounded]))
  unfold setupData at data
  split at data
  next none =>
    obtain rfl := Except.ok.inj data
    exact ⟨rfl, rfl, rfl, by rw [none, fresh]; rfl, by rw [fresh]; rfl, aligned⟩
  next name some =>
    split at data
    next => cases data
    next found known =>
      simp only [do_eq_ok, failIf_ok, pure_eq_ok] at data
      obtain ⟨_, _, rfl⟩ := data
      exact ⟨rfl, rfl, rfl, by rw [some, Option.bind_some, known], rfl, aligned⟩

/-- The setup of all images. -/
def mdraidSetupAll (imageGet : String → Option DataImage) (sections : List MdraidSection) :
    Except MdraidError (List MdraidImage) := do
  (← mdraidParseAll sections).mapM (mdraidSetup imageGet)

/-! ### Arrays -/

/-- **The array of an image**: its chain of parents ends in `root`. -/
inductive RootOf (images : List MdraidImage) : MdraidImage → MdraidImage → Prop
  | root {image : MdraidImage} (member : image ∈ images) (alone : image.imgParent = none) :
    RootOf images image image
  | child {image parent root : MdraidImage} (member : image ∈ images)
      (named : image.imgParent = some parent.file) (rest : RootOf images parent root) :
    RootOf images image root

namespace RootOf

variable {images : List MdraidImage} {image root : MdraidImage}

theorem member (rooted : RootOf images image root) : image ∈ images := by
  cases rooted with
  | root member _ => exact member
  | child member _ _ => exact member

theorem root_member (rooted : RootOf images image root) : root ∈ images := by
  induction rooted with
  | root member _ => exact member
  | child _ _ _ ih => exact ih

theorem root_alone (rooted : RootOf images image root) : root.imgParent = none := by
  induction rooted with
  | root _ alone => exact alone
  | child _ _ _ ih => exact ih

end RootOf

/-- **A configuration that is accepted**, in some order. The titles of sections are distinct. -/
structure Arranged (imageGet : String → Option DataImage) (sections : List MdraidSection)
    (order : List MdraidImage) : Prop where
  distinct : (sections.map (·.file)).Nodup
  complete : ∃ images, mdraidSetupAll imageGet sections = .ok images ∧ order.Perm images

/-- **A run over a configuration**: the sections are accepted, and every image is generated once. The
titles of sections are distinct. -/
structure Generated (imageGet : String → Option DataImage) (env : MdraidEnv)
    (sections : List MdraidSection) (order : List MdraidImage) (final : MdraidState) : Prop where
  distinct : (sections.map (·.file)).Nodup
  complete : ∃ images, mdraidSetupAll imageGet sections = .ok images ∧ order.Perm images
  run : mdraidGenerateAll env order = .ok final

namespace Arranged

variable {sections : List MdraidSection} {order : List MdraidImage} {image root : MdraidImage}

/-- Every image comes from a parsed one. -/
theorem exists_parsed (arranged : Arranged imageGet sections order) :
    ∃ parsed images : List MdraidImage, (∀ image ∈ parsed, ParsedFrom parsed image) ∧
      (parsed.map (·.file)).Nodup ∧ List.Forall₂ (SetUp imageGet) parsed images ∧
      order.Perm images := by
  obtain ⟨images, accepted, same⟩ := arranged.complete
  rw [mdraidSetupAll, do_eq_ok] at accepted
  obtain ⟨parsed, parse, setup⟩ := accepted
  obtain ⟨sources, parsedFrom⟩ := mdraidParseAll_ok parse
  refine ⟨parsed, images, parsedFrom, ?_, ?_, same⟩
  · have := arranged.distinct
    rw [← sources, List.map_map] at this
    exact this
  · have fresh : ∀ p ∈ parsed, p.imgData = none := fun p member => (parsedFrom p member).fresh
    have related := Related.of_mapM setup
    clear setup parse sources parsedFrom same
    induction related with
    | nil => exact .nil
    | cons head _ ih =>
      rw [List.forall_mem_cons] at fresh
      exact .cons (mdraidSetup_ok fresh.1 head) (ih fresh.2)

theorem files_nodup (arranged : Arranged imageGet sections order) :
    (order.map (·.file)).Nodup := by
  obtain ⟨parsed, images, _, distinct, related, same⟩ := arranged.exists_parsed
  have files : parsed.map (·.file) = images.map (·.file) :=
    Related.map_eq related fun p image setUp => by
      rw [MdraidImage.file, MdraidImage.file, setUp.imagesec]
  rw [files] at distinct
  exact (same.map _).nodup_iff.mpr distinct

/-- **What links an image to its array**: its size comes from the size in the section of the root. -/
theorem setUp_of_root (arranged : Arranged imageGet sections order)
    (rooted : RootOf order image root) :
    image.size = sizeWith root.imagesec.size image.imgData ∧ 4096 ∣ image.size.toNat := by
  obtain ⟨parsed, images, parsedFrom, distinct, related, same⟩ := arranged.exists_parsed
  suffices ∃ p ∈ parsed, SetUp imageGet p image ∧ p.size = root.imagesec.size by
    obtain ⟨p, _, setUp, size⟩ := this
    exact ⟨by rw [← size]; exact setUp.size, setUp.aligned⟩
  induction rooted with
  | root member alone =>
    obtain ⟨p, among, setUp⟩ := Related.exists_left related (same.mem_iff.mp member)
    refine ⟨p, among, setUp, ?_⟩
    rw [setUp.imagesec]
    exact ((parsedFrom p among).alone (by rw [← setUp.imgParent, alone])).1
  | @child image parent root member named rest ih =>
    obtain ⟨p, among, setUp⟩ := Related.exists_left related (same.mem_iff.mp member)
    obtain ⟨q, among', setUp', size⟩ := ih
    refine ⟨p, among, setUp, ?_⟩
    obtain ⟨q', among'', named', size', _⟩ :=
      (parsedFrom p among).child parent.file (by rw [← setUp.imgParent, named])
    have : q'.file = q.file := by
      rw [named', MdraidImage.file, setUp'.imagesec]
      rfl
    obtain rfl := List.inj_on_of_nodup_map distinct among'' among' this
    rw [size', size]

end Arranged

namespace Generated

variable {sections : List MdraidSection} {order : List MdraidImage} {final : MdraidState}
  {image root : MdraidImage}

theorem arranged (generated : Generated imageGet env sections order final) :
    Arranged imageGet sections order :=
  ⟨generated.distinct, generated.complete⟩

theorem files_nodup (generated : Generated imageGet env sections order final) :
    (order.map (·.file)).Nodup :=
  generated.arranged.files_nodup

/-- The data image of an image without a parent. -/
theorem imgData_of_alone (generated : Generated imageGet env sections order final)
    (member : image ∈ order) (alone : image.imgParent = none) :
    image.imgData = image.imagesec.image.bind imageGet := by
  obtain ⟨parsed, images, parsedFrom, _, related, same⟩ := generated.arranged.exists_parsed
  obtain ⟨p, among, setUp⟩ := Related.exists_left related (same.mem_iff.mp member)
  have data := ((parsedFrom p among).alone (by rw [← setUp.imgParent, alone])).2
  rw [setUp.imgData, data, setUp.imagesec]

/-- The data image of a child is the one that the section of its parent names. -/
theorem imgData_of_child (generated : Generated imageGet env sections order final)
    (member : image ∈ order) {parent : MdraidImage} (among : parent ∈ order)
    (named : image.imgParent = some parent.file) :
    image.imgData = parent.imagesec.image.bind imageGet := by
  obtain ⟨parsed, images, parsedFrom, distinct, related, same⟩ := generated.arranged.exists_parsed
  obtain ⟨p, inside, setUp⟩ := Related.exists_left related (same.mem_iff.mp member)
  obtain ⟨q, inside', setUp'⟩ := Related.exists_left related (same.mem_iff.mp among)
  obtain ⟨q', inside'', named', _, data⟩ :=
    (parsedFrom p inside).child parent.file (by rw [← setUp.imgParent, named])
  have : q'.file = q.file := by
    rw [named', MdraidImage.file, setUp'.imagesec]
    rfl
  obtain rfl := List.inj_on_of_nodup_map distinct inside'' inside' this
  rw [setUp.imgData, data, setUp'.imagesec]

end Generated

/-! ### Generation -/

/-- The superblock that is written, from the parent's. -/
def superblockOf (env : MdraidEnv) (image : MdraidImage) (parent : Option Superblock)
    (role : UInt16) : Superblock :=
  let sb := memberSuperblock (parent.getD (newSuperblock env image (maxDevices image parent))) role
    (maxDevices image parent) (diskUuid env image)
  sb.withCsum (calcSb1Csum sb)

/-- **A generated image**, with the superblock of its parent. -/
structure MemberOf (env : MdraidEnv) (image : MdraidImage) (parent : Option Superblock)
    (role : UInt16) (member : MdraidMember) : Prop where
  roleMax : role ≤ 0xff00
  roleDevices : role < maxDevices image parent
  sb : member.sb = superblockOf env image parent role
  bsb : bitmapSuper member.sb = some member.bsb
  out : fileOf (writeMember (env.os image.file) image member.sb member.bsb)
    (env.before image.file) = .ok member.out

/-- **One generation.** -/
theorem mdraidGenerate_ok {state next : MdraidState} {image : MdraidImage}
    (run : mdraidGenerate env state image = .ok next) : ∃ parent member,
      parentSuperblock state image = .ok parent ∧
      MemberOf env image parent (takeRole state.lastRole image).1 member ∧
      next = { member := Function.update state.member image.file (some member)
               lastRole := (takeRole state.lastRole image).2 } := by
  simp only [mdraidGenerate, do_eq_ok, failIf_ok] at run
  obtain ⟨parent, found, _, roleMax, _, roleDevices, run⟩ := run
  split at run
  next => cases run
  next bsb bitmap =>
    simp only [do_eq_ok, pure_eq_ok] at run
    obtain ⟨out, written, rfl⟩ := run
    refine ⟨parent, ⟨superblockOf env image parent (takeRole state.lastRole image).1, bsb, out⟩,
      found, ⟨?_, ?_, rfl, bitmap, written⟩, rfl⟩
    · exact UInt16.not_lt.mp roleMax
    · exact UInt16.not_le.mp roleDevices

/-- An image without a role of its own that takes one from `parent`. -/
def autoChild (parent : String) (image : MdraidImage) : Bool :=
  image.imagesec.role = -1 ∧ image.imgParent = some parent

/-- The role of an image that is generated behind the images of `before`. -/
def roleNumber (before : List MdraidImage) (image : MdraidImage) : Nat :=
  if image.imagesec.role = -1 then
    image.imgParent.elim 0 fun parent => before.countP (autoChild parent) + 1
  else (image.imagesec.role % 65536).toNat

/-- **The state behind the images of `done`**: the members, each with the superblock of its parent and
its role, and the counters. -/
structure RunInv (env : MdraidEnv) (done : List MdraidImage) (state : MdraidState) : Prop where
  known : ∀ file, (state.member file).isSome → ∃ image ∈ done, image.file = file
  members : ∀ before image behind, done = before ++ image :: behind → ∃ parent role member,
    state.member image.file = some member ∧ parentSuperblock state image = .ok parent ∧
    MemberOf env image parent role member ∧ role.toNat = roleNumber before image
  parents : ∀ before image behind, done = before ++ image :: behind →
    ∀ parent, image.imgParent = some parent → ∃ other ∈ before, other.file = parent
  counters : ∀ parent, (state.lastRole parent).toNat = done.countP (autoChild parent) ∧
    (state.lastRole parent).toNat ≤ 0xff00

namespace RunInv

variable {done : List MdraidImage} {state next : MdraidState} {image : MdraidImage}

/-- The parent of an image is in front of it. -/
theorem parent_update (inv : RunInv env done state) (fresh : ∀ old ∈ done, old.file ≠ image.file)
    {other : MdraidImage} {parent : Option Superblock} {member : MdraidMember}
    {lastRole : String → UInt16} (found : parentSuperblock state other = .ok parent) :
    parentSuperblock
      ⟨Function.update state.member image.file (some member), lastRole⟩ other = .ok parent := by
  unfold parentSuperblock at found ⊢
  cases named : other.imgParent with
  | none =>
    rw [named] at found
    exact found
  | some file =>
    rw [named] at found
    simp only at found ⊢
    cases known : state.member file with
    | none =>
      rw [known] at found
      cases found
    | some old =>
      obtain ⟨previous, among, same⟩ := inv.known file (by rw [known]; rfl)
      rw [Function.update_of_ne (same ▸ fresh previous among), known]
      rw [known] at found
      exact found

/-- The role that is taken, and the counters behind it. -/
theorem takeRole_eq (inv : RunInv env done state)
    (small : (takeRole state.lastRole image).1 ≤ 0xff00) :
    (takeRole state.lastRole image).1.toNat = roleNumber done image ∧
      ∀ parent, ((takeRole state.lastRole image).2 parent).toNat =
          (done ++ [image]).countP (autoChild parent) ∧
        ((takeRole state.lastRole image).2 parent).toNat ≤ 0xff00 := by
  have unchanged : (∀ parent, autoChild parent image = false) → ∀ parent,
      (state.lastRole parent).toNat = (done ++ [image]).countP (autoChild parent) ∧
        (state.lastRole parent).toNat ≤ 0xff00 := by
    intro other parent
    have counter := inv.counters parent
    rw [List.countP_append, List.countP_singleton, other parent]
    exact counter
  unfold takeRole at small ⊢
  unfold roleNumber
  split_ifs at small ⊢ with automatic
  · cases named : image.imgParent with
    | none =>
      refine ⟨rfl, unchanged fun parent => ?_⟩
      simp [autoChild, named]
    | some parent =>
      rw [named] at small
      simp only at small
      have counter := inv.counters parent
      have one : (1 : UInt16).toNat = 1 := rfl
      have next : (state.lastRole parent + 1).toNat = (state.lastRole parent).toNat + 1 := by
        rw [UInt16.toNat_add, one]
        exact Nat.mod_eq_of_lt (by omega)
      refine ⟨by rw [Option.elim_some, ← counter.1]; exact next, fun other => ?_⟩
      simp only [List.countP_append, List.countP_singleton]
      by_cases same : other = parent
      · rw [same, Function.update_self, next, if_pos (by simp [autoChild, automatic, named])]
        have : (state.lastRole parent + 1).toNat ≤ (0xff00 : UInt16).toNat := small
        exact ⟨by omega, by rw [← next]; exact this⟩
      · rw [Function.update_of_ne same, if_neg (by simp [autoChild, named, Ne.symm same])]
        exact inv.counters other
  · exact ⟨toNat_ofInt16 _, unchanged fun parent => by simp [autoChild, automatic]⟩

theorem step (inv : RunInv env done state) (fresh : ∀ old ∈ done, old.file ≠ image.file)
    (run : mdraidGenerate env state image = .ok next) : RunInv env (done ++ [image]) next := by
  obtain ⟨parent, member, found, made, rfl⟩ := mdraidGenerate_ok run
  obtain ⟨role, counters⟩ := inv.takeRole_eq made.roleMax
  refine ⟨fun file some => ?_, fun before other behind split => ?_,
    fun before other behind split parent' named => ?_, counters⟩
  · by_cases same : file = image.file
    · exact ⟨image, by simp, same.symm⟩
    · simp only [Function.update_of_ne same] at some
      obtain ⟨old, among, named⟩ := inv.known file some
      exact ⟨old, List.mem_append_left _ among, named⟩
  · rcases Related.snoc_eq_split split with ⟨rfl, rfl⟩ | ⟨rest, rfl⟩
    · exact ⟨parent, _, member, Function.update_self .., inv.parent_update fresh found, made, role⟩
    · obtain ⟨parent', role', member', old, found', made', number⟩ :=
        inv.members before other rest rfl
      have apart := fresh other (by simp)
      refine ⟨parent', role', member', ?_, inv.parent_update fresh found', made', number⟩
      simp only [Function.update_of_ne apart, old]
  · rcases Related.snoc_eq_split split with ⟨rfl, rfl⟩ | ⟨rest, rfl⟩
    · refine inv.known parent' ?_
      unfold parentSuperblock at found
      rw [named] at found
      simp only at found
      cases known : state.member parent' with
      | none =>
        rw [known] at found
        cases found
      | some => rfl
    · exact inv.parents before other rest rfl parent' named

/-- Every generated image has been made from its parent. -/
theorem memberOf (inv : RunInv env done state) (among : image ∈ done) :
    ∃ parent role member, state.member image.file = some member ∧
      parentSuperblock state image = .ok parent ∧ MemberOf env image parent role member := by
  obtain ⟨before, behind, split⟩ := List.append_of_mem among
  obtain ⟨parent, role, member, found, given, made, _⟩ := inv.members before image behind split
  exact ⟨parent, role, member, found, given, made⟩

/-- Every generated image belongs to an array; by induction on the images in front of it. -/
theorem exists_root (inv : RunInv env done state) {order : List MdraidImage}
    (inside : ∀ old ∈ done, old ∈ order) (among : image ∈ done) :
    ∃ root, RootOf order image root := by
  obtain ⟨before, behind, split⟩ := List.append_of_mem among
  induction position : before.length using Nat.strong_induction_on
    generalizing image before behind with
  | _ count ih =>
    cases named : image.imgParent with
    | none => exact ⟨image, .root (inside image among) named⟩
    | some parent =>
      obtain ⟨other, earlier, rfl⟩ := inv.parents before image behind split parent named
      obtain ⟨before', behind', same⟩ := List.append_of_mem earlier
      have shorter : before'.length < count := by
        rw [← position, same, List.length_append, List.length_cons]
        omega
      have split' : done = before' ++ other :: (behind' ++ image :: behind) := by
        rw [split, same, List.append_assoc, List.cons_append]
      obtain ⟨root, rooted⟩ := ih _ shorter (by rw [split']; simp) before' _ split' rfl
      exact ⟨root, .child (inside image among) named rooted⟩

end RunInv

/-- **A run keeps the invariant.** -/
theorem runInv_of_run {done : List MdraidImage} {state : MdraidState}
    (distinct : (done.map (·.file)).Nodup) (run : mdraidGenerateAll env done = .ok state) :
    RunInv env done state := by
  refine foldlM_invariant (RunInv env) ⟨by simp, by simp, by simp, by simp⟩ ?_ run
  intro done image rest state next split inv taken
  refine inv.step (fun old among => ?_) taken
  rw [split, List.map_append, List.map_cons] at distinct
  exact (List.nodup_append.mp distinct).2.2 _ (List.mem_map_of_mem among) _ List.mem_cons_self

namespace Generated

variable {sections : List MdraidSection} {order : List MdraidImage} {final : MdraidState}
  {image root : MdraidImage}

theorem runInv (generated : Generated imageGet env sections order final) :
    RunInv env order final :=
  runInv_of_run generated.files_nodup generated.run

/-- **Every image belongs to an array.** -/
theorem exists_root (generated : Generated imageGet env sections order final)
    (among : image ∈ order) : ∃ root, RootOf order image root :=
  generated.runInv.exists_root (fun _ => id) among

end Generated

/-! ### What a member shares with its array -/

/-- The superblock without the fields that belong to one device. -/
def Superblock.arrayPart (sb : Superblock) : Superblock :=
  { sb with devNumber := 0, deviceUuid := .zero, sbCsum := 0 }

theorem raidDisks_superblockOf (image : MdraidImage) (parent : Option Superblock) (role : UInt16) :
    (superblockOf env image parent role).raidDisks.toUInt16 = maxDevices image parent := by
  cases parent with
  | none => exact UInt16.toUInt16_toUInt32 _
  | some => rfl

/-- Assigning the common part again changes nothing of the array. -/
theorem arrayPart_memberSuperblock (start : Superblock) (role role' devices : UInt16)
    (uuid uuid' : Guid) (csum csum' : UInt32) :
    ((memberSuperblock ((memberSuperblock start role' devices uuid').withCsum csum') role devices
      uuid).withCsum csum).arrayPart =
      ((memberSuperblock start role' devices uuid').withCsum csum').arrayPart := rfl

/-- **A child carries its parent's array data.** -/
theorem arrayPart_superblockOf (image other : MdraidImage) (parent : Option Superblock)
    (role role' : UInt16) :
    (superblockOf env image (some (superblockOf env other parent role')) role).arrayPart =
      (superblockOf env other parent role').arrayPart := by
  have devices : maxDevices image (some (superblockOf env other parent role')) =
      maxDevices other parent := raidDisks_superblockOf other parent role'
  rw [superblockOf, devices, Option.getD_some]
  exact arrayPart_memberSuperblock _ _ _ _ _ _ _ _

/-- **All generated members of an array carry the array data of the root.** -/
theorem RunInv.arrayPart_eq {done order : List MdraidImage} {state : MdraidState}
    {image root : MdraidImage} (inv : RunInv env done state)
    (distinct : (order.map (·.file)).Nodup) (inside : ∀ old ∈ done, old ∈ order)
    (rooted : RootOf order image root) (among : image ∈ done) : ∃ parent role member,
      state.member image.file = some member ∧ MemberOf env image parent role member ∧
        member.sb.arrayPart = (superblockOf env root none 0).arrayPart := by
  induction rooted with
  | @root image _ alone =>
    obtain ⟨parent, role, member, found, given, made⟩ := inv.memberOf among
    have none : parent = none := by
      rw [parentSuperblock, alone] at given
      exact (Except.ok.inj given).symm
    exact ⟨parent, role, member, found, made, by rw [made.sb, none]; rfl⟩
  | @child image parent root _ named rest ih =>
    obtain ⟨before, behind, split⟩ := List.append_of_mem among
    obtain ⟨other, earlier, same⟩ := inv.parents before image behind split parent.file named
    have known : other ∈ done := by
      rw [split]
      exact List.mem_append_left _ earlier
    obtain rfl : other = parent :=
      List.inj_on_of_nodup_map distinct (inside other known) rest.member same
    obtain ⟨parent', role', member', found', made', same'⟩ := ih known
    obtain ⟨given, role, member, found, super, made⟩ := inv.memberOf among
    have some : given = some member'.sb := by
      rw [parentSuperblock, named] at super
      simp only [found'] at super
      exact (Except.ok.inj super).symm
    refine ⟨given, role, member, found, made, ?_⟩
    rw [made.sb, some, made'.sb, arrayPart_superblockOf, ← made'.sb, same']

/-- **All members of an array carry the array data of the root.** -/
theorem Generated.arrayPart_eq {sections : List MdraidSection} {order : List MdraidImage}
    {final : MdraidState} {image root : MdraidImage}
    (generated : Generated imageGet env sections order final)
    (rooted : RootOf order image root) : ∃ parent role member,
      final.member image.file = some member ∧ MemberOf env image parent role member ∧
        member.sb.arrayPart = (superblockOf env root none 0).arrayPart :=
  generated.runInv.arrayPart_eq generated.files_nodup (fun _ => id) rooted rooted.member

end Genimage
