/-
**Holes and what is written into them.**

`check_overlap` compares the distances of an overlap from the start of a partition with the holes of
its image, which are ranges of file positions. The two differ by `imageoffset`.
`hdimageSetup_holes_iff` says when the bytes that later elements overwrite come from holes
nevertheless.
-/

import Genimage.Hdimage.GenerateFile
import Genimage.Hdimage.Overlap

namespace Genimage

open Library

variable {env : Env} {layout : Layout} {outputs : String → ChildOutput} {config : HdimageConfig}
  {part previous : Partition} {region : Span Nat} {x : Nat}

/-! ### The bytes of an image -/

/-- The file position of the byte `x` of the output, as a byte of the image of `part`. -/
def filePosition (part : Partition) (x : Nat) : Nat :=
  x - part.offset.toNat + part.imageoffset.toNat

/-- **The byte `x` of the output has been copied** from the image of `part`. -/
def CopiedAt (outputs : String → ChildOutput) (part : Partition) (x : Nat) : Prop :=
  ∃ image, part.image = some image ∧ ¬ Skips (outputs image) part ∧
    ChildHolds (outputs image) part ∧ part.offset.toNat ≤ x ∧
    x < part.offset.toNat + (insertSize (outputs image) part).toNat ∧
    filePosition part x < ((outputs image).contents.getD .empty).length

/-- Such a byte is in the write of the child, and has its value. -/
theorem CopiedAt.written (copied : CopiedAt outputs part x) :
    ∃ image write, part.image = some image ∧ write ∈ childWrites outputs part ∧ write.Covers x ∧
      write.data.getD (x - write.offset) 0 =
        ((outputs image).contents.getD .empty).byte (filePosition part x) := by
  obtain ⟨image, given, skips, _, above, below, _⟩ := copied
  have length : (childData (outputs image) part).length = (insertSize (outputs image) part).toNat :=
    File.length_slice _ _ _
  refine ⟨image, ⟨part.offset.toNat, childData (outputs image) part⟩, given, ?_, ⟨above, ?_⟩, ?_⟩
  · unfold childWrites
    rw [given]
    simp only [if_neg skips, List.mem_singleton]
  · rw [Write.span, length]
    exact below
  · have inside : x - part.offset.toNat < (insertSize (outputs image) part).toNat := by omega
    rw [childData, File.slice_getD _ _ inside, filePosition, Nat.add_comm]

/-- A copied byte lies in its partition. -/
theorem CopiedAt.within (copied : CopiedAt outputs part x) :
    part.span.start ≤ x ∧ x < part.span.stop := by
  obtain ⟨image, _, _, holds, above, below, _⟩ := copied
  refine ⟨above, below.trans_le (Nat.add_le_add_left ?_ _)⟩
  unfold insertSize
  split_ifs
  · exact le_rfl
  · exact UInt64.le_iff_toNat_le.mp holds.data

/-! ### Two elements -/

/-- The position lies in a hole that is declared for the image of `part`. -/
def InHole (env : Env) (part : Partition) (position : Nat) : Prop :=
  ∃ hole ∈ declaredHoles env part, hole.start.toNat ≤ position ∧ position < hole.stop.toNat

/-- **What `region` overwrites of `previous` comes from holes.** -/
def OverwritesHoles (env : Env) (outputs : String → ChildOutput) (previous : Partition)
    (region : Span Nat) : Prop :=
  ∀ x, CopiedAt outputs previous x → region.start ≤ x → x < region.stop →
    InHole env previous (filePosition previous x)

/-- **No byte of the overlap is shifted out of the holes**: there is no `imageoffset`, or what it moves
behind the hole that was found lies in another hole. -/
def Unshifted (env : Env) (outputs : String → ChildOutput) (previous : Partition)
    (region : Span Nat) : Prop :=
  previous.imageoffset = 0 ∨ ∀ hole ∈ declaredHoles env previous, Accepts hole previous region →
    ∀ x, CopiedAt outputs previous x → region.start ≤ x → x < region.stop →
      hole.stop.toNat ≤ filePosition previous x →
      ∃ other ∈ declaredHoles env previous, other ≠ hole ∧
        other.start.toNat ≤ filePosition previous x ∧ filePosition previous x < other.stop.toNat

/-- A byte of an accepted overlap is behind the start of the hole, and without an `imageoffset` also in
front of its end. -/
theorem Accepts.bounds {hole : Extent} (accepts : Accepts hole previous region)
    (copied : CopiedAt outputs previous x) (above : region.start ≤ x) (below : x < region.stop) :
    hole.start.toNat ≤ x - previous.offset.toNat ∧ x - previous.offset.toNat < hole.stop.toNat := by
  obtain ⟨start, stop⟩ := accepts
  obtain ⟨above', below'⟩ := copied.within
  have front : previous.span.start = previous.offset.toNat := rfl
  rw [front] at start stop above'
  omega

theorem overwritesHoles_iff (spared : Spared env previous region) :
    OverwritesHoles env outputs previous region ↔ Unshifted env outputs previous region := by
  constructor
  · intro holes
    refine Or.inr fun hole member accepts x copied above below behind => ?_
    obtain ⟨other, among, start, stop⟩ := holes x copied above below
    refine ⟨other, among, ?_, start, stop⟩
    rintro rfl
    exact absurd stop (not_lt.mpr behind)
  · intro unshifted x copied above below
    rcases spared with apart | ⟨hole, member, accepts⟩
    · obtain ⟨above', below'⟩ := copied.within
      rcases apart with before | behind
      · omega
      · omega
    obtain ⟨start, stop⟩ := accepts.bounds copied above below
    have later : hole.start.toNat ≤ filePosition previous x := start.trans (Nat.le_add_right _ _)
    by_cases behind : hole.stop.toNat ≤ filePosition previous x
    · rcases unshifted with zero | shifted
      · rw [filePosition, zero] at behind
        exact absurd stop (not_lt.mpr behind)
      · obtain ⟨other, among, _, inside⟩ := shifted hole member accepts x copied above below behind
        exact ⟨other, among, inside⟩
    · exact ⟨hole, member, later, not_le.mp behind⟩

/-! ### The whole list -/

theorem image_of_mem_tableAreas {tableType : TableType} {gptLocation length : UInt64}
    (member : part ∈ tableAreas tableType gptLocation length) : part.image = none := by
  unfold tableAreas at member
  split_ifs at member
  · cases member
  · simp only [List.mem_cons, List.not_mem_nil, or_false] at member
    rcases member with rfl | rfl | rfl | rfl <;> rfl
  · rw [List.mem_singleton.mp member]
    rfl

/-- Only partitions of the configuration have an image. -/
theorem image_parsed (accepted : hdimageSetup env config = .ok layout)
    (member : part ∈ layout.partitions) {image : String} (given : part.image = some image) :
    part.node = .parsed := by
  obtain ⟨size, entered, origin, source⟩ := setup_entered accepted member
  have named : entered.image = some image := by
    rw [origin.kept] at given
    exact given
  rw [origin.node_eq]
  rcases source with ⟨_, _, _, rfl⟩ | ⟨_, first, rfl⟩ | area
  · rfl
  · cases named
  · rw [image_of_mem_tableAreas area] at named
    cases named

/-- **Later elements overwrite only holes** of the images in front of them. -/
def HoleSafe (env : Env) (outputs : String → ChildOutput) (layout : Layout) : Prop :=
  layout.partitions.Pairwise fun previous part =>
    ∀ region ∈ part.regions layout.hd, OverwritesHoles env outputs previous region

/-- **No overlap is shifted out of the holes.** -/
def ShiftSafe (env : Env) (outputs : String → ChildOutput) (layout : Layout) : Prop :=
  layout.partitions.Pairwise fun previous part =>
    ∀ region ∈ part.regions layout.hd, Unshifted env outputs previous region

/-- An element without an image has nothing to lose. -/
theorem overwritesHoles_without (without : part.image = none) :
    OverwritesHoles env outputs part region ∧ Unshifted env outputs part region := by
  constructor
  · rintro x ⟨image, given, _⟩
    rw [without] at given
    cases given
  · refine Or.inr fun hole member => ?_
    rw [declaredHoles, without] at member
    cases member

/-- **Later elements overwrite only holes exactly when** no overlap is shifted out of them. -/
theorem hdimageSetup_holes_iff (noWrap : NoWrap env config)
    (accepted : hdimageSetup env config = .ok layout) :
    HoleSafe env outputs layout ↔ ShiftSafe env outputs layout := by
  have agree : layout.partitions.Pairwise fun previous part =>
      (∀ region ∈ part.regions layout.hd, OverwritesHoles env outputs previous region) ↔
        ∀ region ∈ part.regions layout.hd, Unshifted env outputs previous region := by
    refine (hdimageSetup_overlaps noWrap accepted).spared.imp_of_mem ?_
    intro previous part member _ spared
    refine forall₂_congr fun region listed => ?_
    cases given : previous.image with
    | none =>
      exact iff_of_true (overwritesHoles_without given).1 (overwritesHoles_without given).2
    | some image =>
      rcases spared with extended | spared
      · rw [image_parsed accepted member given] at extended
        cases extended
      · exact overwritesHoles_iff (spared region listed)
  exact ⟨fun holes => agree.imp₂ (fun _ _ same => same.mp) holes,
    fun shifts => agree.imp₂ (fun _ _ same => same.mpr) shifts⟩

/-- A boot loader of two sectors in front of the partitions, with a hole where the table is. -/
def loaderEnv : Env :=
  { Env.bare with imageGet := fun image =>
      if image = "loader.img" then some ⟨"loader.img", "loader", 1024, [⟨440, 512⟩]⟩ else none }

def loaderOutput : ChildOutput := { ChildOutput.wholeFile (List.replicate 1024 1) with size := 1024 }

/-- The loader at the start of the image, from its byte `imageoffset` on. -/
def loaderConfig (imageoffset : UInt64) : HdimageConfig where
  partitions := [{
    title := "loader"
    size := 1024 - imageoffset
    inPartitionTable := false
    image := "loader.img"
    imageoffset := imageoffset }]

/-- What an overlap depends on. -/
def Partition.place (part : Partition) : Option String × UInt64 × UInt64 × UInt64 × Bool × Node :=
  (part.image, part.offset, part.size, part.imageoffset, part.fill, part.node)

/-- The bytes of the table are taken from the second sector of the loader. -/
theorem hdimageSetup_holes_shifted : ∃ layout,
    hdimageSetup loaderEnv (loaderConfig 512) = .ok layout ∧ NoWrap loaderEnv (loaderConfig 512) ∧
      ¬ HoleSafe loaderEnv (fun _ => loaderOutput) layout := by
  obtain ⟨layout, accepted, facts⟩ := exists_layout loaderEnv (loaderConfig 512)
    (fun layout => decide (layout.partitions.map Partition.place =
      [(some "loader.img", 0, 512, 512, false, .parsed), (none, 440, 72, 0, false, .mbr)]) &&
      layout.partitions.all fun part => !part.logical)
    (by decide +kernel)
  simp only [Bool.and_eq_true, decide_eq_true_eq, List.all_eq_true, Bool.not_eq_true'] at facts
  obtain ⟨places, primary⟩ := facts
  refine ⟨layout, accepted, by decide +kernel, fun safe => ?_⟩
  obtain ⟨loader, rest, listed, place, places⟩ := List.map_eq_cons_iff.mp places
  obtain ⟨mbr, none, same, area, empty⟩ := List.map_eq_cons_iff.mp places
  rw [same, List.map_eq_nil_iff.mp empty] at listed
  simp only [Partition.place, Prod.mk.injEq] at place area
  obtain ⟨given, offset, size, imageoffset, fill, _⟩ := place
  obtain ⟨_, start, length, _, _, node⟩ := area
  rw [HoleSafe, listed, List.pairwise_pair] at safe
  have region : mbr.span ∈ mbr.regions layout.hd := by
    rw [Partition.regions, if_neg (by rw [node]; decide), primary mbr (by simp [listed])]
    exact List.mem_singleton_self _
  have span : mbr.span = ⟨440, 512⟩ := by
    rw [Partition.span, start, length]
    rfl
  have copied : CopiedAt (fun _ => loaderOutput) loader 440 := by
    refine ⟨_, given, ?_, ⟨?_, ?_⟩, ?_, ?_, ?_⟩
    · exact fun skips => absurd skips.1 (by decide)
    · rw [imageoffset]
      decide
    · rw [imageoffset, size]
      decide
    · rw [offset]
      decide
    · rw [insertSize, fill, if_neg Bool.false_ne_true, offset, imageoffset]
      decide
    · rw [filePosition, offset, imageoffset]
      exact (show 440 - 0 + 512 < 1024 by decide).trans_eq List.length_replicate.symm
  rw [span] at region
  obtain ⟨hole, member, above, below⟩ := safe _ region 440 copied le_rfl (by decide)
  rw [declaredHoles, given] at member
  rw [filePosition, offset, imageoffset] at below
  rw [List.mem_singleton.mp member] at below
  exact absurd below (by decide)

theorem hdimageSetup_holes_iff_loader : ∃ layout,
    hdimageSetup loaderEnv (loaderConfig 0) = .ok layout ∧
      HoleSafe loaderEnv (fun _ => loaderOutput) layout := by
  obtain ⟨layout, accepted, facts⟩ := exists_layout loaderEnv (loaderConfig 0)
    (fun layout => layout.partitions.all fun part => decide (part.imageoffset = 0))
    (by decide +kernel)
  simp only [List.all_eq_true, decide_eq_true_eq] at facts
  refine ⟨layout, accepted, (hdimageSetup_holes_iff (by decide +kernel) accepted).mpr ?_⟩
  refine List.pairwise_of_forall_mem_list fun previous member _ _ region _ => ?_
  exact Or.inl (facts previous member)

end Genimage
