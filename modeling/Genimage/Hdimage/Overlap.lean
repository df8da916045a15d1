/-
**Overlaps that the setup accepts.**

Without a promise about holes two elements may share bytes, where `check_overlap` finds a hole of the
image of the earlier one. `OverlapInv` is the invariant of the loop then: every region of a later
element is apart from an earlier one or lies in such a hole, as the check looks at it, which is by
distances from the start of the partition (`Spared`).
-/

import Genimage.Hdimage.Areas
import Genimage.Hdimage.Layout

namespace Genimage

open Library

variable {env : Env} {hd : Hdimage} {size : UInt64}

/-- The holes declared for the image of an element. -/
def declaredHoles (env : Env) (part : Partition) : List Extent :=
  ((part.image.bind env.imageGet).map (·.holes)).getD []

/-- **A hole accepts what `region` shares with `previous`**, by distances from its start. -/
def Accepts (hole : Extent) (previous : Partition) (region : Span Nat) : Prop :=
  hole.start.toNat ≤ max region.start previous.span.start - previous.span.start ∧
    min region.stop previous.span.stop - previous.span.start ≤ hole.stop.toNat

/-- **A later region spares an element**: they are apart, or a hole accepts what they share. -/
def Spared (env : Env) (previous : Partition) (region : Span Nat) : Prop :=
  previous.span.Apart region ∨ ∃ hole ∈ declaredHoles env previous, Accepts hole previous region

theorem Tolerated.spared {part previous : Partition} (tolerated : Tolerated env part previous)
    (fits : part.Fits) (fits' : previous.Fits) : Spared env previous part.span := by
  have stop := Partition.toNat_partitionEnd fits
  have stop' := Partition.toNat_partitionEnd fits'
  rcases tolerated with behind | before | covered
  · exact Or.inl (Or.inl (stop' ▸ UInt64.le_iff_toNat_le.mp behind))
  · exact Or.inl (Or.inr (stop ▸ UInt64.le_iff_toNat_le.mp before))
  · by_cases apart : previous.span.Apart part.span
    · exact Or.inl apart
    · simp only [Span.Apart, not_or, not_le] at apart
      unfold imageHasHoleCovering at covered
      unfold Spared declaredHoles
      cases found : previous.image.bind env.imageGet with
      | none =>
        rw [found] at covered
        cases covered
      | some child =>
        rw [found] at covered
        obtain ⟨hole, member, inside⟩ := List.any_eq_true.mp covered
        simp only [Bool.and_eq_true, decide_eq_true_eq, UInt64.le_iff_toNat_le] at inside
        obtain ⟨start, end_⟩ := inside
        rw [toNat_sub_of_le, toNat_maxUll] at start
        · rw [toNat_sub_of_le, toNat_minUll, stop, stop'] at end_
          · exact Or.inr ⟨hole, member, start, end_⟩
          · rw [toNat_minUll, stop, stop']
            exact le_min apart.2.le (Nat.le_add_right _ _)
        · rw [toNat_maxUll]
          exact le_max_right _ _

/-- Only the extended element grows. -/
theorem grown_spared {previous : Partition} {regions : List (Span Nat)} {now : UInt64}
    (spared : previous.node = .extended ∨ ∀ region ∈ regions, Spared env previous region) :
    (previous.grow now).node = .extended ∨
      ∀ region ∈ regions, Spared env (previous.grow now) region := by
  by_cases extended : previous.node = .extended
  · exact Or.inl extended
  · rw [grow_eq_self now extended]
    exact spared

/-- **The invariant of the loop.** -/
structure OverlapInv (env : Env) (hd : Hdimage) (state : SetupState) : Prop where
  fits : ∀ part ∈ state.done, part.Fits
  stops : ∀ part ∈ state.done, part.span.stop ≤ state.now.toNat
  ebr : ∀ part ∈ state.done, part.logical = true → hd.align.toNat ≤ part.offset.toNat ∧
    (part.ebrSpan hd).stop ≤ part.span.start
  spared : state.done.Pairwise fun previous part => previous.node = .extended ∨
    ∀ region ∈ part.regions hd, Spared env previous region

namespace OverlapInv

variable {state next : SetupState} {part placed : Partition}

/-- A new region spares every element in front of it. -/
theorem spared_new (inv : OverlapInv env hd state) (nonzero : hd.align ≠ 0)
    (wide : placed.logical = true → 512 ≤ hd.align.toNat)
    (step : Placed env hd size state part placed next)
    (fits : StepFits hd state.now (part.withAlign hd)) (placedFits : placed.Fits) :
    ∀ previous ∈ state.done, ∀ region ∈ placed.regions hd, Spared env previous region := by
  intro previous member region listed
  unfold Partition.regions at listed
  split_ifs at listed with extended logical
  · cases listed
  · -- a logical partition and its boot record lie behind the running end
    obtain ⟨_, behind, stop⟩ := step.ebr_bounds nonzero fits logical (wide logical)
    have below := inv.stops previous member
    refine Or.inl (Or.inl (below.trans ?_))
    rcases List.mem_cons.mp listed with rfl | listed
    · exact behind
    · rw [List.mem_singleton.mp listed]
      exact behind.trans ((Nat.le_add_right _ _).trans stop)
  · rw [List.mem_singleton.mp listed]
    exact (step.tolerated (by simpa using logical) previous member).spared placedFits
      (inv.fits previous member)

/-- **One step keeps the invariant.** -/
theorem step (inv : OverlapInv env hd state) (nonzero : hd.align ≠ 0)
    (wide : placed.logical = true → 512 ≤ hd.align.toNat)
    (step : Placed env hd size state part placed next)
    (fits : StepFits hd state.now (part.withAlign hd)) (fitting : ∀ other ∈ next.done, other.Fits) :
    OverlapInv env hd next := by
  have placedFits := fitting placed step.mem_done
  have new := inv.spared_new nonzero wide step fits placedFits
  have spares : ∀ previous ∈ state.done, previous.node = .extended ∨
      ∀ region ∈ placed.regions hd, Spared env previous region :=
    fun previous member => Or.inr (new previous member)
  refine ⟨fitting, step.stops_le nonzero fits placedFits inv.stops, ?_, ?_⟩
  · obtain ⟨keep, done, ⟨logical, rfl⟩ | ⟨primary, rfl⟩⟩ := step.done_cases
    all_goals
      rw [done]
      simp only [List.mem_append, List.mem_map, List.mem_singleton]
      rintro _ (⟨other, member, rfl⟩ | rfl) isLogical
    · exact inv.ebr other member isLogical
    · obtain ⟨_, _, stop⟩ := step.ebr_bounds nonzero fits logical (wide logical)
      exact ⟨le_of_add_le_right (step.ebr_ge nonzero fits logical), stop⟩
    · exact inv.ebr other member isLogical
    · exact absurd isLogical (by simp [primary])
  · obtain ⟨keep, done, ⟨_, rfl⟩ | ⟨_, rfl⟩⟩ := step.done_cases
    all_goals rw [done, List.pairwise_append]
    · refine ⟨List.pairwise_map.mpr (inv.spared.imp fun {previous part} spared => ?_),
        List.pairwise_singleton _ _, ?_⟩
      · rw [regions_grow]
        exact grown_spared spared
      · intro _ member _ single
        obtain ⟨previous, among, rfl⟩ := List.mem_map.mp member
        rw [List.mem_singleton.mp single]
        exact grown_spared (spares previous among)
    · rw [List.map_id]
      refine ⟨inv.spared, List.pairwise_singleton _ _, fun previous member _ single => ?_⟩
      rw [List.mem_singleton.mp single]
      exact spares previous member

end OverlapInv

/-- **The overlaps of an accepted layout**: all ends are words within the image, boot records lie in
front of their partitions, and what is listed later spares what is in front of it. -/
structure OverlapSound (env : Env) (layout : Layout) : Prop where
  fits : ∀ part ∈ layout.partitions, part.Fits
  stops : ∀ part ∈ layout.partitions, part.span.stop ≤ layout.size.toNat
  ebr : ∀ part ∈ layout.partitions, part.logical = true →
    layout.hd.align.toNat ≤ part.offset.toNat ∧ (part.ebrSpan layout.hd).stop ≤ part.span.start
  spared : layout.partitions.Pairwise fun previous part => previous.node = .extended ∨
    ∀ region ∈ part.regions layout.hd, Spared env previous region

theorem hdimageSetup_overlaps {config : HdimageConfig} {layout : Layout}
    (noWrap : NoWrap env config) (accepted : hdimageSetup env config = .ok layout) :
    OverlapSound env layout := by
  obtain ⟨prepared, state, run, ready, loop, finished⟩ := hdimageSetup_ok accepted
  have inv : OverlapInv env prepared.hd state := by
    refine fitting_invariant (fun _ state => OverlapInv env prepared.hd state) ?_ ?_
      (noWrap.runFits run) loop
    · exact ⟨by simp [Prepared.start], by simp [Prepared.start], by simp [Prepared.start],
        by simp [Prepared.start]⟩
    · intro done part rest state placed next split inv step fits fitting
      refine inv.step ready.align_ne_zero (fun logical => ?_) step fits fitting
      exact (ready.preceded split (step.logical_eq ▸ logical)).1
  have size := finished.now_le
  constructor
  all_goals rw [finished.partitions_eq]
  · exact inv.fits
  · exact fun part member => (inv.stops part member).trans size
  · rw [finished.hd_eq]
    exact inv.ebr
  · rw [finished.hd_eq]
    exact inv.spared

end Genimage
