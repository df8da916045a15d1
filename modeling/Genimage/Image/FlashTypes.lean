/-
**Flash types (`set_flash_type`).**

The loop passes the flash type of an image on to the images of its partitions, in one round over the
images. Names are those of the images, and no two images have one name. The types that the options
give are `FlashTypes`, of any kind; two types are the same when they are one flash section.

`Given` is what the options give to an image and to the images it refers to. Whatever the order of the
sections, that much arrives, and nothing else does when the given types are passed on among themselves
(`flashTypes_ok`); an image that gets its type from another one passes it on only when it comes behind
it.
-/

import Genimage.Image.Resolve
import Genimage.Library.Run

set_option linter.unusedSectionVars false

namespace Genimage

open Library

variable {φ : Type} [DecidableEq φ]

/-- `image->flash_type` by the name of the image. -/
abbrev FlashTypes (φ : Type) := String → Option φ

/-- The errors of `set_flash_type`; `image_get` has no message. -/
inductive FlashTypeError (φ : Type) where
  | noImage (image : String)
  | conflict (child : String) (childType : φ) (file : String) (flashType : φ)
deriving DecidableEq, Repr

namespace FlashTypeError

/-- Both return `-EINVAL`. -/
def code (_ : FlashTypeError φ) : Int := einval

/-- The message of `image_error`. -/
def text (name : φ → String) : FlashTypeError φ → String
  | .noImage _ => ""
  | .conflict child childType file flashType =>
    s!"conflicting flash types: {child} has flashtype {name childType} whereas " ++
      s!"{file} has flashtype {name flashType}\n"

end FlashTypeError

/-- The body of the inner loop: one partition of an image with a flash type. -/
def passFlashType (images : List Image) (file : String) (flashType : φ) (types : FlashTypes φ)
    (part : Option String) : Except (FlashTypeError φ) (FlashTypes φ) :=
  match part with
  | none => .ok types
  | some name =>
    if (imageGet images name).isNone then .error (.noImage name)
    else
      match types name with
      | some childType =>
        if childType ≠ flashType then .error (.conflict name childType file flashType)
        else .ok types
      | none => .ok (Function.update types name (some flashType))

/-- The body of the outer loop. -/
def visitFlashType (images : List Image) (types : FlashTypes φ) (image : Image) :
    Except (FlashTypeError φ) (FlashTypes φ) :=
  match types image.file with
  | none => .ok types
  | some flashType => image.partitions.foldlM (passFlashType images image.file flashType) types

/-- `set_flash_type` -/
def setFlashType (images : List Image) (types : FlashTypes φ) :
    Except (FlashTypeError φ) (FlashTypes φ) :=
  images.foldlM (visitFlashType images) types

/-! ### The property and the condition -/

/-- **Every image with a flash type has passed it on.** -/
def Inherited (images : List Image) (types : FlashTypes φ) : Prop :=
  ∀ image ∈ images, ∀ flashType, types image.file = some flashType →
    ∀ name, some name ∈ image.partitions → types name = some flashType

/-- **In every order of the sections**: flash types are inherited when the run succeeds, and whether it
does and the types that it sets are the same. -/
structure FlashTypesReach (images : List Image) (options : FlashTypes φ) : Prop where
  inherited : ∀ order types, images.Perm order → setFlashType order options = .ok types →
    Inherited order types
  order : ∀ order order', images.Perm order → images.Perm order' →
    (setFlashType order options).toOption = (setFlashType order' options).toOption

/-- An option gives a flash type: to its image, or to an image that this one refers to. -/
def Given (images : List Image) (options : FlashTypes φ) (name : String) (flashType : φ) : Prop :=
  options name = some flashType ∨
    ∃ image ∈ images, options image.file = some flashType ∧ some name ∈ image.partitions

/-- Two flash types are given to one image. -/
def FlashConflict (images : List Image) (options : FlashTypes φ) : Prop :=
  ∃ name flashType other, Given images options name flashType ∧ Given images options name other ∧
    flashType ≠ other

/-- **When flash types reach all images**: two given types meet, so that every run fails, or what an
image has been given is also given to the images it refers to. -/
def FlashTypesReachWhen (images : List Image) (options : FlashTypes φ) : Prop :=
  FlashConflict images options ∨ ∀ image ∈ images, ∀ flashType,
    Given images options image.file flashType →
      ∀ name, some name ∈ image.partitions → Given images options name flashType

/-! ### The loops -/

section Loops

variable {images : List Image} {options types next : FlashTypes φ}

/-- Every name of a partition is that of an image. -/
def Resolvable (images : List Image) : Prop :=
  ∀ image ∈ images, ∀ name, some name ∈ image.partitions → ∃ other ∈ images, other.file = name

theorem imageGet_isNone {name : String} :
    (imageGet images name).isNone = true ↔ ¬ ∃ image ∈ images, image.file = name := by
  unfold imageGet
  rw [Option.isNone_iff_eq_none, List.findFinIdx?_eq_none_iff]
  simp

/-- What has a type keeps it. -/
def Keeps (types next : FlashTypes φ) : Prop :=
  ∀ name flashType, types name = some flashType → next name = some flashType

/-- **One partition.** The child has the type, and nothing else has changed. -/
theorem passFlashType_ok {file : String} {flashType : φ} {part : Option String}
    (run : passFlashType images file flashType types part = .ok next) :
    Keeps types next ∧ ∀ name, part = some name → next name = some flashType := by
  cases part with
  | none =>
    obtain rfl := Except.ok.inj run
    exact ⟨fun _ _ => id, nofun⟩
  | some child =>
    unfold passFlashType at run
    simp only at run
    split_ifs at run
    split at run
    next childType own =>
      split_ifs at run with differs
      obtain rfl := Except.ok.inj run
      refine ⟨fun _ _ => id, fun name same => ?_⟩
      rw [← Option.some.inj same, own, not_not.mp differs]
    next none =>
      obtain rfl := Except.ok.inj run
      refine ⟨fun name other own => ?_, fun name same => ?_⟩
      · have different : name ≠ child := by
          rintro rfl
          rw [none] at own
          cases own
        rw [Function.update_of_ne different, own]
      · rw [← Option.some.inj same, Function.update_self]

/-- **One image.** The images of its partitions have its type. -/
theorem visitFlashType_ok {image : Image} (run : visitFlashType images types image = .ok next) :
    Keeps types next ∧ ∀ flashType, types image.file = some flashType →
      ∀ name, some name ∈ image.partitions → next name = some flashType := by
  unfold visitFlashType at run
  split at run
  next none =>
    obtain rfl := Except.ok.inj run
    refine ⟨fun _ _ => id, fun flashType own => ?_⟩
    rw [none] at own
    cases own
  next flashType own =>
    obtain ⟨keeps, all⟩ := foldlM_invariant
      (fun done next => Keeps types next ∧ ∀ name, some name ∈ done → next name = some flashType)
      ⟨fun _ _ => id, fun _ member => nomatch member⟩ (by
        rintro done part rest state next _ ⟨keeps, all⟩ taken
        obtain ⟨keeps', new⟩ := passFlashType_ok taken
        refine ⟨fun name other own => keeps' _ _ (keeps name other own), fun name member => ?_⟩
        rcases List.mem_append.mp member with old | last
        · exact keeps' _ _ (all name old)
        · exact new name (List.mem_singleton.mp last).symm) run
    refine ⟨keeps, fun other same name member => ?_⟩
    rw [own] at same
    rw [all name member, same]

/-- **A successful run has set what the options give.** -/
theorem setFlashType_given {order : List Image} (run : setFlashType order options = .ok types)
    {name : String} {flashType : φ} (given : Given order options name flashType) :
    types name = some flashType := by
  obtain ⟨keeps, all⟩ := foldlM_invariant
    (fun done types => Keeps options types ∧ ∀ image ∈ done, ∀ flashType,
      options image.file = some flashType →
        ∀ name, some name ∈ image.partitions → types name = some flashType)
    ⟨fun _ _ => id, fun _ member => nomatch member⟩ (by
      rintro done image rest types next _ ⟨keeps, all⟩ taken
      obtain ⟨keeps', new⟩ := visitFlashType_ok taken
      refine ⟨fun name other own => keeps' _ _ (keeps name other own), ?_⟩
      intro other member flashType own name among
      rcases List.mem_append.mp member with old | last
      · exact keeps' _ _ (all other old flashType own name among)
      · rw [List.mem_singleton.mp last] at own among
        exact new flashType (keeps _ _ own) name among) run
  rcases given with own | ⟨image, member, own, among⟩
  · exact keeps _ _ own
  · exact all image member flashType own name among

/-- Only given types are set. -/
def OnlyGiven (images : List Image) (options types : FlashTypes φ) : Prop :=
  ∀ name flashType, types name = some flashType → Given images options name flashType

/-- **One image whose type is given to the images of its partitions.** -/
theorem visitFlashType_succeeds (apart : ¬ FlashConflict images options)
    (resolvable : Resolvable images) {image : Image} (member : image ∈ images)
    (only : OnlyGiven images options types)
    (passes : ∀ flashType, types image.file = some flashType →
      ∀ name, some name ∈ image.partitions → Given images options name flashType) :
    ∃ next, visitFlashType images types image = .ok next ∧ OnlyGiven images options next := by
  unfold visitFlashType
  split
  next => exact ⟨types, rfl, only⟩
  next flashType own =>
    refine foldlM_succeeds (fun _ types => OnlyGiven images options types) only ?_
    rintro done part rest types split only
    have among : part ∈ image.partitions := by
      rw [split]
      exact List.mem_append_right _ List.mem_cons_self
    cases part with
    | none => exact ⟨types, rfl, only⟩
    | some name =>
      have given := passes flashType own name among
      unfold passFlashType
      simp only
      rw [if_neg (by rw [imageGet_isNone, not_not]; exact resolvable image member name among)]
      split
      next childType known =>
        have same : childType = flashType := by
          by_contra differs
          exact apart ⟨name, childType, flashType, only name childType known, given, differs⟩
        rw [if_neg (not_not.mpr same)]
        exact ⟨types, rfl, only⟩
      next =>
        refine ⟨_, rfl, fun other otherType set => ?_⟩
        by_cases here : other = name
        · rw [here, Function.update_self] at set
          rw [here, ← Option.some.inj set]
          exact given
        · rw [Function.update_of_ne here] at set
          exact only other otherType set

end Loops

/-! ### When flash types reach all images -/

section Main

variable {images order : List Image} {options : FlashTypes φ}

theorem given_perm (same : images.Perm order) {name : String} {flashType : φ} :
    Given order options name flashType ↔ Given images options name flashType := by
  unfold Given
  simp only [same.mem_iff]

theorem flashConflict_perm (same : images.Perm order) :
    FlashConflict order options ↔ FlashConflict images options := by
  unfold FlashConflict
  simp only [given_perm same]

theorem resolvable_perm (same : images.Perm order) (resolvable : Resolvable images) :
    Resolvable order := by
  intro image member name among
  obtain ⟨other, member', named⟩ := resolvable image (same.mem_iff.mpr member) name among
  exact ⟨other, same.mem_iff.mp member', named⟩

/-- **Under the condition every order sets the given types.** -/
theorem flashTypes_ok (apart : ¬ FlashConflict images options) (resolvable : Resolvable images)
    (passes : ∀ image ∈ images, ∀ flashType, Given images options image.file flashType →
      ∀ name, some name ∈ image.partitions → Given images options name flashType)
    (same : images.Perm order) : ∃ types, setFlashType order options = .ok types ∧
      ∀ name flashType, types name = some flashType ↔ Given images options name flashType := by
  obtain ⟨types, run, only⟩ : ∃ types, setFlashType order options = .ok types ∧
      OnlyGiven order options types := by
    refine foldlM_succeeds (fun _ types => OnlyGiven order options types)
      (fun _ _ own => Or.inl own) ?_
    intro done image rest types split only
    have member : image ∈ order := by
      rw [split]
      exact List.mem_append_right _ List.mem_cons_self
    refine visitFlashType_succeeds (by rwa [flashConflict_perm same])
      (resolvable_perm same resolvable) member only fun flashType own name among => ?_
    rw [given_perm same]
    exact passes image (same.mem_iff.mpr member) flashType
      ((given_perm same).mp (only _ _ own)) name among
  refine ⟨types, run, fun name flashType => ⟨fun set => (given_perm same).mp (only _ _ set), ?_⟩⟩
  exact fun given => setFlashType_given run ((given_perm same).mpr given)

/-- **Where two given types meet every order fails.** -/
theorem setFlashType_conflict (conflict : FlashConflict images options) (same : images.Perm order) :
    (setFlashType order options).toOption = none := by
  obtain ⟨name, flashType, other, one, two, differ⟩ := conflict
  cases run : setFlashType order options with
  | error => rfl
  | ok types =>
    have first := setFlashType_given run ((given_perm same).mpr one)
    have second := setFlashType_given run ((given_perm same).mpr two)
    exact absurd (Option.some.inj (first.symm.trans second)) differ

/-- **The order in which no type is passed on twice**: the images without an option first. -/
theorem exists_order (apart : ¬ FlashConflict images options) (resolvable : Resolvable images) :
    ∃ order types, images.Perm order ∧ setFlashType order options = .ok types ∧
      ∀ name flashType, types name = some flashType ↔ Given images options name flashType := by
  let order := images.filter (fun image => (options image.file).isNone) ++
    images.filter (fun image => !(options image.file).isNone)
  have same : images.Perm order := (List.filter_append_perm _ images).symm
  obtain ⟨types, second, only⟩ : ∃ types,
      (images.filter fun image => !(options image.file).isNone).foldlM (visitFlashType order) options =
        .ok types ∧ OnlyGiven order options types := by
    refine foldlM_succeeds (fun _ types => OnlyGiven order options types)
      (fun _ _ own => Or.inl own) ?_
    intro done image rest types split only
    have member : image ∈ images.filter fun image => !(options image.file).isNone := by
      rw [split]
      exact List.mem_append_right _ List.mem_cons_self
    obtain ⟨among, typed⟩ := List.mem_filter.mp member
    refine visitFlashType_succeeds (by rwa [flashConflict_perm same])
      (resolvable_perm same resolvable) (same.mem_iff.mp among) only fun flashType own name part => ?_
    -- the type is the one of the option
    obtain ⟨given, option⟩ := Option.isSome_iff_exists.mp (by simpa using typed)
    have given_eq : given = flashType := by
      by_contra differs
      exact apart ⟨image.file, given, flashType, Or.inl option,
        (given_perm same).mp (only _ _ own), differs⟩
    exact Or.inr ⟨image, same.mem_iff.mp among, given_eq ▸ option, part⟩
  have first : (images.filter fun image => (options image.file).isNone).foldlM
      (visitFlashType order) options = .ok options := by
    have skips : ∃ types, (images.filter fun image => (options image.file).isNone).foldlM
        (visitFlashType order) options = .ok types ∧ types = options := by
      refine foldlM_succeeds (fun _ types => types = options) rfl ?_
      rintro done image rest types split rfl
      have member : image ∈ images.filter fun image => (types image.file).isNone := by
        rw [split]
        exact List.mem_append_right _ List.mem_cons_self
      refine ⟨types, ?_, rfl⟩
      rw [visitFlashType, Option.isNone_iff_eq_none.mp (List.mem_filter.mp member).2]
    obtain ⟨types, run, rfl⟩ := skips
    exact run
  have run : setFlashType order options = .ok types := foldlM_append_ok.mpr ⟨options, first, second⟩
  refine ⟨order, types, same, run, fun name flashType => ⟨fun set => (given_perm same).mp
    (only _ _ set), fun given => setFlashType_given run ((given_perm same).mpr given)⟩⟩

/-- **Flash types reach all images, in every order of the sections, exactly under the condition.** -/
theorem flashTypesReach_iff (resolvable : Resolvable images) :
    FlashTypesReach images options ↔ FlashTypesReachWhen images options := by
  constructor
  · intro reach
    by_cases conflict : FlashConflict images options
    · exact Or.inl conflict
    · right
      obtain ⟨order, types, same, run, given⟩ := exists_order conflict resolvable
      intro image member flashType own name among
      have inherited := reach.inherited order types same run
      exact (given name flashType).mp (inherited image (same.mem_iff.mp member) flashType
        ((given _ _).mpr own) name among)
  · intro condition
    by_cases conflict : FlashConflict images options
    · refine ⟨fun order types same run => ?_, fun order order' same same' => ?_⟩
      · have failed := setFlashType_conflict conflict same
        rw [run] at failed
        cases failed
      · rw [setFlashType_conflict conflict same, setFlashType_conflict conflict same']
    · have passes := condition.resolve_left conflict
      refine ⟨fun order types same run => ?_, fun order order' same same' => ?_⟩
      · obtain ⟨types', run', given⟩ := flashTypes_ok conflict resolvable passes same
        obtain rfl := Except.ok.inj (run.symm.trans run')
        intro image member flashType own name among
        exact (given _ _).mpr (passes image (same.mem_iff.mpr member) flashType
          ((given _ _).mp own) name among)
      · obtain ⟨types, run, given⟩ := flashTypes_ok conflict resolvable passes same
        obtain ⟨types', run', given'⟩ := flashTypes_ok conflict resolvable passes same'
        have equal : types = types' := by
          funext name
          exact Option.ext fun flashType => (given name flashType).trans (given' name flashType).symm
        rw [run, run', equal]

end Main

/-! ### Two examples -/

/-- The option of one image. -/
def optionOf (file flashType : String) : FlashTypes String :=
  fun name => if name = file then some flashType else none

/-- A flash image with a jffs2 image. -/
theorem flashTypesReach_pair :
    FlashTypesReach [{ file := "nand.img", partitions := [some "root.jffs2"] },
      { file := "root.jffs2" }] (optionOf "nand.img" "nand-64M") := by
  refine (flashTypesReach_iff ?_).mpr (Or.inr ?_)
  · intro image member name among
    simp only [List.mem_cons, List.not_mem_nil, or_false] at member
    rcases member with rfl | rfl
    · simp at among
      exact ⟨_, List.mem_cons_of_mem _ List.mem_cons_self, among.symm⟩
    · simp at among
  · intro image member flashType given name among
    simp only [List.mem_cons, List.not_mem_nil, or_false] at member
    rcases member with rfl | rfl
    · rcases given with own | ⟨parent, member, own, part⟩
      · exact Or.inr ⟨_, List.mem_cons_self, own, among⟩
      · simp only [List.mem_cons, List.not_mem_nil, or_false] at member
        rcases member with rfl | rfl <;> simp at part
    · simp at among

/-- An ubi image in front of the flash image that has the type. -/
def ubiImages : List Image :=
  [{ file := "root.ubi", partitions := [some "root.ubifs"] },
    { file := "nand.img", partitions := [some "root.ubi"] },
    { file := "root.ubifs" }]

/-- **The type does not reach the third image** in this order, and does in the other one. -/
theorem flashTypes_lost :
    (∃ types, setFlashType ubiImages (optionOf "nand.img" "nand-64M") = .ok types ∧
      types "root.ubi" = some "nand-64M" ∧ types "root.ubifs" = none) ∧
    ¬ FlashTypesReach ubiImages (optionOf "nand.img" "nand-64M") := by
  have lost : ((setFlashType ubiImages (optionOf "nand.img" "nand-64M")).toOption.map fun types =>
      (types "root.ubi", types "root.ubifs")) = some (some "nand-64M", none) := by
    decide +kernel
  obtain ⟨types, run, same⟩ := Option.map_eq_some_iff.mp lost
  have run : setFlashType ubiImages (optionOf "nand.img" "nand-64M") = .ok types := by
    cases whole : setFlashType ubiImages (optionOf "nand.img" "nand-64M") with
    | error => rw [whole] at run; cases run
    | ok => rw [whole] at run; rw [Option.some.inj run]
  obtain ⟨ubi, ubifs⟩ := Prod.mk.inj same
  refine ⟨⟨types, run, ubi, ubifs⟩, fun reach => ?_⟩
  have inherited := reach.inherited ubiImages types (List.Perm.refl _) run _ List.mem_cons_self _ ubi
    "root.ubifs" (by decide)
  rw [ubifs] at inherited
  cases inherited

end Genimage
