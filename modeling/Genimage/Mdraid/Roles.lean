/-
**The roles of mdraid members.**

`RolesUnique` is what is asked of the roles in the written superblocks: a role that is assigned
automatically is no other member's, every role is below the number of devices, and a configured role
is the one that is written. `RolesUniqueWhen` is the condition on the sections.

Every parent has a counter of its own, which starts at `1` and does not see the configured roles, the
role of the parent or the children of another parent. So the automatic children of one parent have the
roles `1` to their number (`exists_auto`), those of two parents collide, and so do configured roles in
that range. Roles and devices are cut to 16 bits, which hides a negative number and one above `65535`.
-/

import Genimage.Mdraid.Regions

namespace Genimage

open Library

variable {imageGet : String → Option DataImage} {env : MdraidEnv}

/-- **The roles are as they should be.** -/
structure RolesUnique (order : List MdraidImage) (final : MdraidState) : Prop where
  unique : ∀ image other root, RootOf order image root → RootOf order other root → image ≠ other →
    image.imagesec.role = -1 → ∀ member member', final.member image.file = some member →
      final.member other.file = some member' → member.sb.devNumber ≠ member'.sb.devNumber
  below : ∀ image root, RootOf order image root → ∀ member, final.member image.file = some member →
    (member.sb.devNumber.toNat : Int) < root.imagesec.devices
  configured : ∀ image ∈ order, image.imagesec.role ≠ -1 → ∀ member,
    final.member image.file = some member →
      (member.sb.devNumber.toNat : Int) = image.imagesec.role

/-- The role that a section with a role of its own gets. -/
def configuredRole (image : MdraidImage) : Nat := (image.imagesec.role % 65536).toNat

/-- **When they are**: one parent in each array has all automatic children, configured roles are 16-bit
numbers and not among the automatic ones, and the number of devices is not negative. -/
structure RolesUniqueWhen (order : List MdraidImage) : Prop where
  oneParent : ∀ image other root parent parent', RootOf order image root →
    RootOf order other root → autoChild parent image → autoChild parent' other → parent = parent'
  apart : ∀ image other root parent, RootOf order image root → RootOf order other root →
    autoChild parent image → other.imagesec.role ≠ -1 →
      configuredRole other = 0 ∨ order.countP (autoChild parent) < configuredRole other
  notRoot : ∀ image root, RootOf order image root → image ≠ root → root.imagesec.role = -1 →
    image.imagesec.role ≠ -1 → configuredRole image ≠ 0
  devices : ∀ image root, RootOf order image root → 0 ≤ root.imagesec.devices
  range : ∀ image ∈ order, image.imagesec.role ≠ -1 →
    0 ≤ image.imagesec.role ∧ image.imagesec.role < 65536

/-! ### Counting -/

/-- The element that passes a test as number `count`. -/
theorem exists_countP {α : Type} {test : α → Bool} {items : List α} {count : Nat}
    (few : count < items.countP test) : ∃ before item behind,
      items = before ++ item :: behind ∧ test item = true ∧ before.countP test = count := by
  induction items generalizing count with
  | nil => cases few
  | cons head rest ih =>
    cases passes : test head with
    | false =>
      rw [List.countP_cons_of_neg (by simp [passes])] at few
      obtain ⟨before, item, behind, rfl, test, number⟩ := ih few
      exact ⟨head :: before, item, behind, rfl, test,
        by rw [List.countP_cons_of_neg (by simp [passes]), number]⟩
    | true =>
      cases count with
      | zero => exact ⟨[], head, rest, rfl, passes, rfl⟩
      | succ count =>
        rw [List.countP_cons_of_pos passes] at few
        obtain ⟨before, item, behind, rfl, test, number⟩ := ih (Nat.lt_of_succ_lt_succ few)
        exact ⟨head :: before, item, behind, rfl, test,
          by rw [List.countP_cons_of_pos passes, number]⟩

/-- Different elements that pass a test have different numbers. -/
theorem countP_ne {α : Type} {test : α → Bool} {before before' behind behind' : List α}
    {item other : α} (same : before ++ item :: behind = before' ++ other :: behind')
    (different : item ≠ other) (passes : test item = true) (passes' : test other = true) :
    before.countP test ≠ before'.countP test := by
  rcases List.append_eq_append_iff.mp same with ⟨between, rfl, rest⟩ | ⟨between, rfl, rest⟩
  · cases between with
    | nil => exact absurd (List.cons.inj rest).1 different
    | cons head tail =>
      obtain rfl := (List.cons.inj rest).1
      rw [List.countP_append, List.countP_cons_of_pos passes]
      omega
  · cases between with
    | nil => exact absurd (List.cons.inj rest).1.symm different
    | cons head tail =>
      obtain rfl := (List.cons.inj rest).1
      rw [List.countP_append, List.countP_cons_of_pos passes']
      omega

/-! ### The roles of a run -/

theorem autoChild_iff {parent : String} {image : MdraidImage} :
    autoChild parent image = true ↔
      image.imagesec.role = -1 ∧ image.imgParent = some parent := decide_eq_true_iff

namespace RootOf

variable {order : List MdraidImage} {image other root : MdraidImage} {parent : String}

/-- Children of one parent are in one array. -/
theorem sibling (rooted : RootOf order image root) (named : image.imgParent = some parent)
    (among : other ∈ order) (named' : other.imgParent = some parent) : RootOf order other root := by
  cases rooted with
  | root _ alone =>
    rw [alone] at named
    cases named
  | @child image above root _ same rest =>
    exact .child among (by rw [named', ← named, same]) rest

theorem eq_root (rooted : RootOf order image root) (alone : image.imgParent = none) :
    image = root := by
  cases rooted with
  | root => rfl
  | child _ named _ =>
    rw [alone] at named
    cases named

end RootOf

namespace Generated

variable {sections : List MdraidSection} {order before behind : List MdraidImage}
  {final : MdraidState} {image root : MdraidImage} {member : MdraidMember}

/-- **The written role.** -/
theorem devNumber_eq (generated : Generated imageGet env sections order final)
    (split : order = before ++ image :: behind) (found : final.member image.file = some member) :
    member.sb.devNumber.toNat = roleNumber before image := by
  obtain ⟨_, role, member', found', _, made, number⟩ :=
    generated.runInv.members before image behind split
  obtain rfl := Option.some.inj (found.symm.trans found')
  have device : member.sb.devNumber = role.toUInt32 := by
    rw [made.sb]
    rfl
  rw [device, UInt16.toNat_toUInt32, number]

/-- The written role is below the number of devices, cut to 16 bits. -/
theorem devNumber_lt (generated : Generated imageGet env sections order final)
    (rooted : RootOf order image root) (found : final.member image.file = some member) :
    member.sb.devNumber.toNat < (root.imagesec.devices % 65536).toNat := by
  obtain ⟨parent, role, member', found', made, same⟩ := generated.arrayPart_eq rooted
  obtain rfl := Option.some.inj (found.symm.trans found')
  have device : member.sb.devNumber = role.toUInt32 := by
    rw [made.sb]
    rfl
  have devices : member.sb.maxDev = (maxDevices image parent).toUInt32 := by
    rw [made.sb]
    rfl
  have array : member.sb.maxDev = (UInt16.ofInt root.imagesec.devices).toUInt32 :=
    congrArg Superblock.maxDev same
  have count : (maxDevices image parent).toNat = (root.imagesec.devices % 65536).toNat := by
    rw [← toNat_ofInt16, ← UInt16.toNat_toUInt32, ← UInt16.toNat_toUInt32, ← devices, array]
  rw [device, UInt16.toNat_toUInt32, ← count]
  exact UInt16.lt_iff_toNat_lt.mp made.roleDevices

theorem exists_member (generated : Generated imageGet env sections order final)
    (among : image ∈ order) : ∃ member, final.member image.file = some member := by
  obtain ⟨_, _, member, found, _⟩ := generated.runInv.memberOf among
  exact ⟨member, found⟩

/-- The role of an automatic child is at most their number. -/
theorem auto_range (generated : Generated imageGet env sections order final) {parent : String}
    (among : image ∈ order) (auto : autoChild parent image = true)
    (found : final.member image.file = some member) :
    1 ≤ member.sb.devNumber.toNat ∧
      member.sb.devNumber.toNat ≤ order.countP (autoChild parent) := by
  obtain ⟨before, behind, split⟩ := List.append_of_mem among
  rw [generated.devNumber_eq split found, roleNumber, if_pos (autoChild_iff.mp auto).1,
    (autoChild_iff.mp auto).2, Option.elim_some, split, List.countP_append,
    List.countP_cons_of_pos auto]
  omega

/-- **Every number up to that is the role of an automatic child.** -/
theorem exists_auto (generated : Generated imageGet env sections order final) {parent : String}
    {role : Nat} (positive : 1 ≤ role) (le : role ≤ order.countP (autoChild parent)) :
    ∃ image ∈ order, autoChild parent image = true ∧ ∀ member,
      final.member image.file = some member → member.sb.devNumber.toNat = role := by
  obtain ⟨before, image, behind, split, auto, number⟩ :=
    exists_countP (show role - 1 < order.countP (autoChild parent) by omega)
  refine ⟨image, by rw [split]; simp, auto, fun member found => ?_⟩
  rw [generated.devNumber_eq split found, roleNumber, if_pos (autoChild_iff.mp auto).1,
    (autoChild_iff.mp auto).2, Option.elim_some, number]
  omega

/-- The role of a section with a role of its own. -/
theorem devNumber_configured (generated : Generated imageGet env sections order final)
    (among : image ∈ order) (given : image.imagesec.role ≠ -1)
    (found : final.member image.file = some member) :
    member.sb.devNumber.toNat = configuredRole image := by
  obtain ⟨before, behind, split⟩ := List.append_of_mem among
  rw [generated.devNumber_eq split found, roleNumber, if_neg given, configuredRole]

/-- An automatic root has role `0`. -/
theorem devNumber_root (generated : Generated imageGet env sections order final)
    (among : image ∈ order) (auto : image.imagesec.role = -1) (alone : image.imgParent = none)
    (found : final.member image.file = some member) : member.sb.devNumber.toNat = 0 := by
  obtain ⟨before, behind, split⟩ := List.append_of_mem among
  rw [generated.devNumber_eq split found, roleNumber, if_pos auto, alone, Option.elim_none]

end Generated

/-! ### The condition -/

section Condition

variable {sections : List MdraidSection} {order : List MdraidImage} {final : MdraidState}

/-- **From the roles to the sections.** -/
theorem RolesUnique.when (generated : Generated imageGet env sections order final)
    (roles : RolesUnique order final) : RolesUniqueWhen order where
  oneParent image other root parent parent' rooted rooted' auto auto' := by
    -- the first children of both have role 1
    have some : ∀ {parent : String} {image : MdraidImage}, RootOf order image root →
        autoChild parent image = true → 1 ≤ order.countP (autoChild parent) :=
      fun rooted auto => List.countP_pos_iff.mpr ⟨_, rooted.member, auto⟩
    obtain ⟨first, among, isAuto, number⟩ := generated.exists_auto le_rfl (some rooted auto)
    obtain ⟨first', among', isAuto', number'⟩ := generated.exists_auto le_rfl (some rooted' auto')
    obtain ⟨member, found⟩ := generated.exists_member among
    obtain ⟨member', found'⟩ := generated.exists_member among'
    by_contra different
    refine roles.unique first first' root
      (rooted.sibling (autoChild_iff.mp auto).2 among (autoChild_iff.mp isAuto).2)
      (rooted'.sibling (autoChild_iff.mp auto').2 among' (autoChild_iff.mp isAuto').2) ?_
      (autoChild_iff.mp isAuto).1 member member' found found' ?_
    · rintro rfl
      exact different (Option.some.inj
        ((autoChild_iff.mp isAuto).2.symm.trans (autoChild_iff.mp isAuto').2))
    · rw [← UInt32.toNat_inj, number member found, number' member' found']
  apart image other root parent rooted rooted' auto given := by
    by_contra taken
    push Not at taken
    obtain ⟨child, among, isAuto, number⟩ :=
      generated.exists_auto (Nat.pos_of_ne_zero taken.1) taken.2
    obtain ⟨member, found⟩ := generated.exists_member among
    obtain ⟨member', found'⟩ := generated.exists_member rooted'.member
    refine roles.unique child other root
      (rooted.sibling (autoChild_iff.mp auto).2 among (autoChild_iff.mp isAuto).2) rooted' ?_
      (autoChild_iff.mp isAuto).1 member member' found found' ?_
    · rintro rfl
      exact given (autoChild_iff.mp isAuto).1
    · rw [← UInt32.toNat_inj, number member found,
        generated.devNumber_configured rooted'.member given found']
  notRoot image root rooted different auto given := by
    intro zero
    obtain ⟨member, found⟩ := generated.exists_member rooted.member
    obtain ⟨member', found'⟩ := generated.exists_member rooted.root_member
    refine roles.unique root image root (.root rooted.root_member rooted.root_alone) rooted
      (Ne.symm different) auto member' member found' found ?_
    rw [← UInt32.toNat_inj, generated.devNumber_configured rooted.member given found, zero,
      generated.devNumber_root rooted.root_member auto rooted.root_alone found']
  devices image root rooted := by
    obtain ⟨member, found⟩ := generated.exists_member rooted.member
    have := roles.below image root rooted member found
    omega
  range image among given := by
    obtain ⟨member, found⟩ := generated.exists_member among
    have number := generated.devNumber_configured among given found
    have same := roles.configured image among given member found
    unfold configuredRole at number
    omega

/-- **From the sections to the roles.** -/
theorem RolesUniqueWhen.roles (generated : Generated imageGet env sections order final)
    (condition : RolesUniqueWhen order) : RolesUnique order final where
  unique image other root rooted rooted' different auto member member' found found' := by
    rw [Ne, ← UInt32.toNat_inj]
    cases named : image.imgParent with
    | none =>
      obtain rfl := rooted.eq_root named
      rw [generated.devNumber_root rooted.member auto named found]
      by_cases auto' : other.imagesec.role = -1
      · cases named' : other.imgParent with
        | none => exact absurd (rooted'.eq_root named').symm different
        | some parent =>
          have := generated.auto_range rooted'.member (autoChild_iff.mpr ⟨auto', named'⟩) found'
          omega
      · rw [generated.devNumber_configured rooted'.member auto' found']
        exact (condition.notRoot other image rooted' (Ne.symm different) auto auto').symm
    | some parent =>
      have isAuto := autoChild_iff.mpr ⟨auto, named⟩
      have range := generated.auto_range rooted.member isAuto found
      by_cases auto' : other.imagesec.role = -1
      · cases named' : other.imgParent with
        | none =>
          rw [generated.devNumber_root rooted'.member auto' named' found']
          omega
        | some parent' =>
          have isAuto' := autoChild_iff.mpr ⟨auto', named'⟩
          obtain rfl := condition.oneParent image other root parent parent' rooted rooted' isAuto
            isAuto'
          obtain ⟨before, behind, split⟩ := List.append_of_mem rooted.member
          obtain ⟨before', behind', split'⟩ := List.append_of_mem rooted'.member
          have apart := countP_ne (split.symm.trans split') different isAuto isAuto'
          rw [generated.devNumber_eq split found, generated.devNumber_eq split' found', roleNumber,
            roleNumber, if_pos auto, if_pos auto', named, named', Option.elim_some,
            Option.elim_some]
          omega
      · rw [generated.devNumber_configured rooted'.member auto' found']
        have := condition.apart image other root parent rooted rooted' isAuto auto'
        omega
  below image root rooted member found := by
    have := generated.devNumber_lt rooted found
    have := condition.devices image root rooted
    omega
  configured image among given member found := by
    have := condition.range image among given
    rw [generated.devNumber_configured among given found, configuredRole]
    omega

/-- **The roles are as they should be exactly when the condition holds**, in every order. -/
theorem mdraid_rolesUnique_iff (generated : Generated imageGet env sections order final) :
    RolesUnique order final ↔ RolesUniqueWhen order :=
  ⟨fun roles => roles.when generated, fun condition => condition.roles generated⟩

end Condition

/-- A parent with a role of its own, and a child without. -/
def mdraidPair (role : Int) : List MdraidSection := [
  { file := "mdraid-a.img", size := 2 ^ 20, devices := 2, role := role },
  { file := "mdraid-b.img", parent := some "mdraid-a.img" }]

/-- Some root has the role of an automatic child. -/
def someRoleTwice (images : List MdraidImage) (final : MdraidState) : Bool :=
  images.any fun image => images.any fun root =>
    (final.member image.file).any fun member => (final.member root.file).any fun member' =>
      decide (image.imgParent = some root.file ∧ root.imgParent = none ∧
        image.imagesec.role = -1 ∧ image.file ≠ root.file ∧
        member.sb.devNumber = member'.sb.devNumber)

/-- The child gets role `1`, which the parent has already. -/
theorem mdraid_roles_collide : ∃ images final,
    Generated (fun _ => none) quietEnv (mdraidPair 1) images final ∧
      ¬ RolesUnique images final := by
  obtain ⟨images, final, generated, check⟩ := exists_generated (fun _ => none) quietEnv
    (mdraidPair 1) someRoleTwice (by decide) (by decide +kernel)
  obtain ⟨image, among, check⟩ := List.any_eq_true.mp check
  obtain ⟨other, among', check⟩ := List.any_eq_true.mp check
  obtain ⟨member, found, check⟩ := (Option.any_eq_true ..).mp check
  obtain ⟨member', found', check⟩ := (Option.any_eq_true ..).mp check
  obtain ⟨named, alone, auto, apart, same⟩ := of_decide_eq_true check
  refine ⟨images, final, generated, fun roles => ?_⟩
  have rooted : RootOf images other other := .root among' alone
  exact roles.unique image other other (.child among named rooted) rooted
    (fun equal => apart (congrArg _ equal)) auto member member' found found' same

theorem mdraid_rolesUnique_iff_pair : ∃ images final,
    Generated (fun _ => none) quietEnv (mdraidPair (-1)) images final ∧
      (RolesUnique images final ↔ RolesUniqueWhen images) := by
  obtain ⟨images, final, generated, _⟩ := exists_generated (fun _ => none) quietEnv
    (mdraidPair (-1)) (fun _ _ => true) (by decide) (by decide +kernel)
  exact ⟨images, final, generated, mdraid_rolesUnique_iff generated⟩

end Genimage
