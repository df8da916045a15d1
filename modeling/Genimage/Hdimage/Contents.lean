/-
**What a disk image contains (`hdimage_generate`).**

A range of the output file that no other element of the layout has a region in is written for one
partition only, or not at all: `generateParts_makes` for the loop over the partitions,
`insertTables_makes` for the tables behind it. `hdimageGenerate_contents` puts this together for the
whole run: each partition holds what is copied from its image and zeros behind it.
`hdimageGenerate_gaps` says that there are only zeros where the layout has no region.

Calls may fail or be cut short, as long as `hdimage_generate` returns.
-/

import Genimage.Hdimage.FileSize
import Genimage.Hdimage.HoleSafety
import Genimage.Hdimage.Prediction
import Genimage.Util.Frame

namespace Genimage

open Library Effect

variable {env : Env} {os : Os} {world : World} {layout : Layout} {hd : Hdimage} {size : UInt64}
  {outputs : String → ChildOutput} {config : HdimageConfig} {span : Span Nat}

/-! ### The tables -/

/-- **The range is apart from the tables**, by the words where they are written. -/
structure TablesAside (layout : Layout) (span : Span Nat) : Prop where
  mbr : layout.hd.tableType ≠ .none → Span.Apart ⟨440, 512⟩ span
  header : layout.hd.tableType.hasGpt = true → Span.Apart ⟨512, 604⟩ span
  array : layout.hd.tableType.hasGpt = true →
    Span.Apart ⟨layout.hd.gptLocation.toNat, layout.hd.gptLocation.toNat + 16384⟩ span
  backup : layout.hd.tableType.hasGpt = true → layout.hd.gptNoBackup = false →
    Span.Apart ⟨(layout.size - gptSectors * 512).toNat,
      (layout.size - gptSectors * 512).toNat + 16384⟩ span
  last : layout.hd.tableType.hasGpt = true → layout.hd.gptNoBackup = false →
    Span.Apart ⟨(layout.size - 512).toNat, (layout.size - 512).toNat + 92⟩ span

theorem hdimageInsertMbr_makes {partitions : List Partition} (aside : Span.Apart ⟨440, 512⟩ span) :
    Makes span [] (hdimageInsertMbr os hd partitions) := by
  unfold hdimageInsertMbr
  split
  next => exact makes_throw _
  next entries stored =>
    have length : (mbrTail hd.disksig entries).length = 72 := length_mbrTail (mbrEntries_ok.mp stored).2
    refine insertData_makes ?_
    rw [length]
    exact aside

theorem insertFrontMbr_makes {partitions : List Partition} (aside : Span.Apart ⟨440, 512⟩ span) :
    Makes span [] (insertFrontMbr os hd size partitions) := by
  unfold insertFrontMbr
  split_ifs
  · exact hdimageInsertMbr_makes aside
  · exact hdimageInsertMbr_makes aside

theorem insertBackup_makes {partitions : List Partition} {entries : List GptPartitionEntry}
    (few : entries.length ≤ gptEntries)
    (array : Span.Apart ⟨(size - gptSectors * 512).toNat,
      (size - gptSectors * 512).toNat + 16384⟩ span)
    (header : Span.Apart ⟨(size - 512).toNat, (size - 512).toNat + 92⟩ span) :
    Makes span [] (insertBackup os hd size partitions entries) := by
  refine (extendFile_makes size).before fun _ => Makes.before ?_ fun _ => ?_
  · refine insertData_makes ?_
    rw [length_tableBytes few]
    exact array
  · refine insertData_makes ?_
    rw [GptHeader.length_bytes]
    exact header

theorem hdimageInsertGpt_makes (aside : TablesAside layout span)
    (gpt : layout.hd.tableType.hasGpt = true) :
    Makes span [] (hdimageInsertGpt os layout.hd layout.size layout.partitions) := by
  have table : layout.hd.tableType ≠ .none := by
    intro none
    rw [none] at gpt
    cases gpt
  unfold hdimageInsertGpt
  split
  next => exact makes_throw _
  next entries stored =>
    have few := (gptTable_ok.mp stored).2
    refine Makes.before ?_ fun _ => Makes.before ?_ fun _ => ?_
    · refine insertData_makes ?_
      rw [GptHeader.length_bytes]
      exact aside.header gpt
    · refine insertData_makes ?_
      rw [length_tableBytes few]
      exact aside.array gpt
    · split
      next => exact insertFrontMbr_makes (aside.mbr table)
      next backup =>
        have backup : layout.hd.gptNoBackup = false := by simpa using backup
        exact (insertBackup_makes few (aside.backup gpt backup) (aside.last gpt backup)).before
          fun _ => insertFrontMbr_makes (aside.mbr table)

/-- **The tables leave the range alone.** -/
theorem insertTables_makes (aside : TablesAside layout span) :
    Makes span [] (insertTables os layout) := by
  unfold insertTables
  split_ifs with none gpt
  · exact makes_pure ()
  · exact hdimageInsertGpt_makes aside gpt
  · exact hdimageInsertMbr_makes (aside.mbr none)

/-- An area of the table is its own region. -/
theorem regions_fakePartition {node : Node} (other : node ≠ .extended) (name : String)
    (offset length : UInt64) : (fakePartition node name offset length).regions hd =
      [⟨offset.toNat, offset.toNat + length.toNat⟩] := by
  show (if node = .extended then _ else _) = _
  rw [if_neg other]
  rfl

/-- **The backup of a GPT ends with the image.** -/
theorem exists_backup (noWrap : NoWrap env config) (accepted : hdimageSetup env config = .ok layout)
    (gpt : layout.hd.tableType.hasGpt = true) : 16896 ≤ layout.size.toNat ∧
      ∃ backup ∈ layout.partitions, backup.node ≠ .parsed ∧
        backup.regions layout.hd = [⟨layout.size.toNat - 16896, layout.size.toNat⟩] := by
  obtain ⟨given, listed, backup, _, areas⟩ := gptAreas accepted gpt
  have sound := hdimageSetup_overlaps noWrap accepted
  have member : backup ∈ layout.partitions := by
    rw [areas.partitions_eq]
    simp
  have array : gptArrayArea layout.hd.gptLocation ∈ layout.partitions := by
    rw [areas.partitions_eq]
    simp
  have behind := areas.location_ge (sound.fits _ array)
  have inside : layout.hd.gptLocation.toNat + 16384 ≤ layout.size.toNat := sound.stops _ array
  have other : given ≠ backupSize := by
    intro same
    rw [areas.size_given (by rw [same]; decide), same,
      show backupSize.toNat = 16896 from rfl] at inside
    omega
  have stop := Partition.toNat_partitionEnd (sound.fits _ member)
  rw [Partition.span, areas.backup_size, show backupSize.toNat = 16896 from rfl] at stop
  dsimp only at stop
  have ends := (areas.backup_end other (toNat_pos.mp (by omega))).1
  rw [ends] at stop
  refine ⟨by omega, backup, member, ?_, ?_⟩
  · rw [areas.backup_eq]
    exact Node.noConfusion
  · rw [areas.backup_eq, regions_fakePartition (by decide), show backupSize.toNat = 16896 from rfl,
      ← stop, Nat.sub_eq_of_eq_add stop]

/-- **A range that is apart from all areas is apart from the tables.** -/
theorem tablesAside (noWrap : NoWrap env config) (accepted : hdimageSetup env config = .ok layout)
    (free : ∀ area ∈ layout.partitions, area.node ≠ .parsed →
      ∀ region ∈ area.regions layout.hd, region.Apart span) : TablesAside layout span := by
  obtain ⟨mbr, gpt⟩ := setup_areas accepted
  have area : ∀ node name offset length, node ≠ .extended → node ≠ .parsed →
      fakePartition node name offset length ∈ layout.partitions →
      Span.Apart ⟨offset.toNat, offset.toNat + length.toNat⟩ span := by
    intro node name offset length other fake member
    refine free _ member fake _ ?_
    rw [regions_fakePartition other]
    exact List.mem_singleton_self _
  have backup : layout.hd.tableType.hasGpt = true → 16896 ≤ layout.size.toNat ∧
      Span.Apart ⟨layout.size.toNat - 16896, layout.size.toNat⟩ span := by
    intro isGpt
    obtain ⟨room, backup, member, fake, regions⟩ := exists_backup noWrap accepted isGpt
    refine ⟨room, free backup member fake _ ?_⟩
    rw [regions]
    exact List.mem_singleton_self _
  constructor
  case mbr => exact fun table => area _ _ _ _ (by decide) (by decide) (mbr table)
  case header =>
    intro isGpt
    have sector := area _ _ _ _ (by decide) (by decide) (gpt isGpt).1
    have within : Span.Within ⟨512, 604⟩ ⟨(512 : UInt64).toNat, (512 : UInt64).toNat + (512 : UInt64).toNat⟩ :=
      ⟨le_rfl, by decide⟩
    exact sector.mono_left within
  case array => exact fun isGpt => area _ _ _ _ (by decide) (by decide) (gpt isGpt).2.1
  case backup =>
    intro isGpt _
    obtain ⟨room, aside⟩ := backup isGpt
    have array : (layout.size - gptSectors * 512).toNat = layout.size.toNat - 16896 :=
      toNat_sub_of_le room
    have within : Span.Within
        ⟨layout.size.toNat - 16896, layout.size.toNat - 16896 + 16384⟩
        ⟨layout.size.toNat - 16896, layout.size.toNat⟩ := ⟨le_rfl, by dsimp only; omega⟩
    rw [array]
    exact aside.mono_left within
  case last =>
    intro isGpt _
    obtain ⟨room, aside⟩ := backup isGpt
    have header : (layout.size - 512).toNat = layout.size.toNat - 512 :=
      toNat_sub_of_le ((show (512 : UInt64).toNat ≤ 16896 by decide).trans room)
    have within : Span.Within ⟨layout.size.toNat - 512, layout.size.toNat - 512 + 92⟩
        ⟨layout.size.toNat - 16896, layout.size.toNat⟩ :=
      ⟨by dsimp only; omega, by dsimp only; omega⟩
    rw [header]
    exact aside.mono_left within

/-! ### The partitions -/

/-- **What the writing needs**: the regions are apart, the ends are words, the extents of the images are
right, and in a partition that is filled the end of what is read from the image is a word. -/
structure Laid (outputs : String → ChildOutput) (layout : Layout) : Prop where
  apart : (layout.partitions.flatMap (Partition.regions layout.hd)).Pairwise Span.Apart
  fits : ∀ part ∈ layout.partitions, part.Fits
  ebr : ∀ part ∈ layout.partitions, part.logical = true →
    (part.ebrSpan layout.hd).stop ≤ part.span.start
  parsed : ∀ part ∈ layout.partitions, part.logical = true ∨ part.image.isSome →
    part.node = .parsed
  promise : ∀ image, (outputs image).Mapped
  filled : ∀ part ∈ layout.partitions, part.fill = true →
    part.imageoffset.toNat + part.size.toNat < 2 ^ 64

/-- Only partitions of the configuration are logical or have an image. -/
theorem node_parsed (accepted : hdimageSetup env config = .ok layout) {part : Partition}
    (member : part ∈ layout.partitions) (own : part.logical = true ∨ part.image.isSome) :
    part.node = .parsed := by
  rcases own with logical | image
  · obtain ⟨size, entered, origin, source⟩ := setup_entered accepted member
    rw [origin.logical_eq] at logical
    rw [origin.node_eq]
    rcases source with ⟨_, _, _, rfl⟩ | ⟨_, first, rfl⟩ | area
    · rfl
    · cases logical
    · rw [logical_of_mem_tableAreas area] at logical
      cases logical
  · obtain ⟨_, given⟩ := Option.isSome_iff_exists.mp image
    exact image_parsed accepted member given

theorem laid_of_setup (holeless : env.Holeless) (noWrap : NoWrap env config)
    (accepted : hdimageSetup env config = .ok layout) (promise : ∀ image, (outputs image).Mapped)
    (filled : ∀ part ∈ layout.partitions, part.fill = true →
      part.imageoffset.toNat + part.size.toNat < 2 ^ 64) : Laid outputs layout := by
  have sound := hdimageSetup_overlaps noWrap accepted
  refine ⟨setup_apart holeless noWrap accepted, sound.fits,
    fun part member logical => (sound.ebr part member logical).2,
    fun part => node_parsed accepted, promise, filled⟩

/-- **The sums of `insert_image` are words.** -/
structure SumsFit (child : ChildOutput) (part : Partition) : Prop where
  output : part.offset.toNat + (insertSize child part).toNat < 2 ^ 64
  input : part.imageoffset.toNat + (insertSize child part).toNat < 2 ^ 64

/-- They are, in a partition that ends at a word, unless a filled one wants more of its image. -/
theorem ChildHolds.sumsFit {child : ChildOutput} {part : Partition} (holds : ChildHolds child part)
    (fits : part.Fits)
    (filled : part.fill = true → part.imageoffset.toNat + part.size.toNat < 2 ^ 64) :
    SumsFit child part := by
  refine ⟨(Nat.add_le_add_left holds.insertSize_le _).trans_lt fits, ?_⟩
  unfold insertSize
  split_ifs with fill
  · exact filled fill
  · have offset := UInt64.le_iff_toNat_le.mp holds.offset
    have word := child.size.toNat_lt
    rw [toNat_sub_of_le offset]
    omega

/-- The sums of a child that is written are words. -/
def ChildSums (outputs : String → ChildOutput) (part : Partition) : Prop :=
  ∀ image, part.image = some image → ¬ Skips (outputs image) part →
    ChildHolds (outputs image) part → SumsFit (outputs image) part

/-- **The write for a child**, on any system: when the function returns, all of it has been made. -/
theorem insertChild_writes {child : ChildOutput} {part : Partition} (promise : child.Mapped)
    (sums : ¬ Skips child part → ChildHolds child part → SumsFit child part) :
    Ensures True (insertChild os child part) world fun _ next =>
      (Skips child part ∨ ChildHolds child part) ∧ next.contents = world.contents.writes
        (if Skips child part then [] else [⟨part.offset.toNat, childData child part⟩]) := by
  by_cases skips : Skips child part
  · rw [insertChild, if_pos (show child.size = 0 ∧ part.fill = false from skips), if_pos skips,
      ensures_pure]
    exact ⟨Or.inl skips, rfl⟩
  rw [insertChild, if_neg (show ¬ (child.size = 0 ∧ part.fill = false) from skips), if_neg skips]
  split_ifs with past large
  · exact ensures_throw.mpr trivial
  · exact ensures_throw.mpr trivial
  have holds : ChildHolds child part := ⟨UInt64.not_lt.mp past, UInt64.not_lt.mp large⟩
  obtain ⟨room, wanted⟩ := sums skips holds
  refine (insertImage_ensures rfl room wanted promise (Or.inl trivial) (Or.inl trivial)).mono ?_
  rintro _ next ⟨file, extents, given, mapped, written⟩
  have map := promise file given _ _ mapped
  have limit : part.imageoffset.toNat + (insertSize child part).toNat ≤
      (insertSize child part + part.imageoffset).toNat := by
    rw [toNat_add_of_lt (by omega), Nat.add_comm]
  rw [imageBytes_zero map limit] at written
  refine ⟨Or.inr holds, ?_⟩
  rw [written.contents, childData, given]
  rfl

/-- Where a boot record is written. -/
def recordSpan (layout : Layout) (part : Partition) : Span Nat :=
  ⟨(part.offset - layout.hd.align + 446).toNat, (part.offset - layout.hd.align + 446).toNat + 66⟩

/-- Where the bytes of a child are written. -/
def dataSpan (child : ChildOutput) (part : Partition) : Span Nat :=
  ⟨part.offset.toNat, part.offset.toNat + (insertSize child part).toNat⟩

/-- **What is written for a partition is apart from the range.** -/
structure PartAside (outputs : String → ChildOutput) (layout : Layout) (part : Partition)
    (span : Span Nat) : Prop where
  record : part.logical = true → (recordSpan layout part).Apart span
  data : ∀ image, part.image = some image → ¬ Skips (outputs image) part →
    ChildHolds (outputs image) part → (dataSpan (outputs image) part).Apart span

section Part

variable {part : Partition} {rest before after : List Partition}

/-- The boot record. -/
theorem insertEbr_makes (aside : part.logical = true → (recordSpan layout part).Apart span) :
    Makes span [] (insertEbr os layout part rest) := by
  unfold insertEbr
  split_ifs with logical
  · refine insertData_makes ?_
    rw [length_entryTable ((length_ebrEntries layout.hd (extendedOffset layout.partitions)
      part rest).trans (by decide))]
    exact aside logical
  · exact makes_pure ()

/-- A child that is written apart from the range. -/
theorem insertChild_makes {child : ChildOutput} (promise : child.Mapped)
    (sums : ¬ Skips child part → ChildHolds child part → SumsFit child part)
    (aside : ¬ Skips child part → ChildHolds child part → (dataSpan child part).Apart span) :
    Makes span [] (insertChild os child part) := by
  intro world
  refine (insertChild_writes promise sums).mono ?_
  rintro _ next ⟨holds, written⟩
  rw [written]
  split_ifs with skips
  · exact .refl _
  · refine .pwrite _ ?_
    rw [childData, File.length_slice]
    exact aside skips (holds.resolve_left skips)

/-- A partition that is apart from the range leaves it alone. -/
theorem generatePart_makes (promise : ∀ image, (outputs image).Mapped) (sums : ChildSums outputs part)
    (aside : PartAside outputs layout part span) :
    Makes span [] (generatePart os outputs layout part rest) := by
  unfold generatePart
  refine (insertEbr_makes aside.record).before fun _ => ?_
  split
  next => exact makes_pure ()
  next image given =>
    exact insertChild_makes (promise image) (sums image given) (aside.data image given)

/-- A partition makes its own write, wherever that is. -/
theorem generatePart_own (promise : ∀ image, (outputs image).Mapped) (sums : ChildSums outputs part)
    (record : part.logical = true → (recordSpan layout part).Apart span) :
    Makes span (childWrites outputs part) (generatePart os outputs layout part rest) := by
  unfold generatePart childWrites
  refine (insertEbr_makes record).before fun _ => ?_
  cases given : part.image with
  | none => exact makes_pure ()
  | some image =>
    intro world
    refine (insertChild_writes (promise image) (sums image given)).mono ?_
    rintro _ next ⟨_, written⟩
    rw [written]
    exact .refl _

/-- **The loop leaves a range alone** that all partitions leave alone; by induction on the list. -/
theorem generateParts_makes
    (aside : ∀ other ∈ rest, ∀ tail, Makes span [] (generatePart os outputs layout other tail)) :
    Makes span [] (generateParts os outputs layout rest) := by
  induction rest with
  | nil => exact makes_pure ()
  | cons part rest ih =>
    rw [List.forall_mem_cons] at aside
    exact (aside.1 rest).before fun _ => ih aside.2

/-- The other elements of a list are elements of it. -/
theorem mem_of_others {parts : List Partition} (split : parts = before ++ part :: after)
    {other : Partition} (among : other ∈ before ++ after) : other ∈ parts := by
  rw [split]
  rcases List.mem_append.mp among with early | late
  · exact List.mem_append_left _ early
  · exact List.mem_append_right _ (List.mem_cons_of_mem _ late)

/-- **The loop writes what one partition writes**, if the others leave the range alone; by induction on
the partitions in front of it. -/
theorem generateParts_own {writes : List Write}
    (aside : ∀ other ∈ before ++ after, ∀ tail,
      Makes span [] (generatePart os outputs layout other tail))
    (here : Makes span writes (generatePart os outputs layout part after)) :
    Makes span writes (generateParts os outputs layout (before ++ part :: after)) := by
  induction before with
  | nil => exact here.after fun _ => generateParts_makes aside
  | cons other before ih =>
    rw [List.cons_append, List.forall_mem_cons] at aside
    exact (aside.1 _).before fun _ => ih aside.2

end Part

namespace Laid

variable {part : Partition} {rest before after : List Partition}

/-- The regions of a partition of the configuration. -/
theorem mem_regions (laid : Laid outputs layout) (member : part ∈ layout.partitions) :
    (part.logical = true → part.ebrSpan layout.hd ∈ part.regions layout.hd) ∧
      (part.logical = true ∨ part.image.isSome → part.span ∈ part.regions layout.hd) := by
  unfold Partition.regions
  constructor
  · intro logical
    rw [if_neg (by rw [laid.parsed part member (Or.inl logical)]; decide), if_pos logical]
    exact List.mem_cons_self
  · intro own
    rw [if_neg (by rw [laid.parsed part member own]; decide)]
    split_ifs
    · exact List.mem_cons_of_mem _ (List.mem_singleton_self _)
    · exact List.mem_singleton_self _

/-- The boot record of a partition is apart from its data. -/
theorem ebr_apart (laid : Laid outputs layout) (member : part ∈ layout.partitions)
    (logical : part.logical = true) : (part.ebrSpan layout.hd).Apart part.span :=
  Or.inl (laid.ebr part member logical)

/-- The sums of a partition of the layout are words. -/
theorem sums (laid : Laid outputs layout) (member : part ∈ layout.partitions) :
    ChildSums outputs part := fun _ _ _ holds =>
  holds.sumsFit (laid.fits part member) (laid.filled part member)

/-- The boot record is written in its sector. -/
theorem record_within (laid : Laid outputs layout) (member : part ∈ layout.partitions)
    (logical : part.logical = true) :
    (recordSpan layout part).Within (part.ebrSpan layout.hd) := by
  have front : (part.offset - layout.hd.align).toNat + 512 ≤ part.offset.toNat :=
    laid.ebr part member logical
  have word := part.offset.toNat_lt
  have offset : (part.offset - layout.hd.align + 446).toNat =
      (part.offset - layout.hd.align).toNat + 446 :=
    toNat_add_of_lt (by rw [show (446 : UInt64).toNat = 446 from rfl]; omega)
  rw [recordSpan, offset]
  exact ⟨Nat.le_add_right _ _, by simp only [Partition.ebrSpan]; omega⟩

/-- The bytes of a child are written in its partition. -/
theorem data_aside {child : ChildOutput} (holds : ChildHolds child part)
    (aside : part.span.Apart span) : (dataSpan child part).Apart span := by
  have within : (dataSpan child part).Within part.span :=
    ⟨le_rfl, Nat.add_le_add_left holds.insertSize_le _⟩
  exact aside.mono_left within

/-- A partition that is apart from the range. -/
theorem aside (laid : Laid outputs layout) (member : part ∈ layout.partitions)
    (aside : ∀ region ∈ part.regions layout.hd, region.Apart span) :
    PartAside outputs layout part span := by
  obtain ⟨record, data⟩ := laid.mem_regions member
  refine ⟨fun logical => ?_, fun image given _ holds => ?_⟩
  · exact (aside _ (record logical)).mono_left (laid.record_within member logical)
  · exact data_aside holds (aside _ (data (Or.inr (by rw [given]; rfl))))

/-- A child leaves a range alone that its partition is apart from. -/
theorem child_aside (laid : Laid outputs layout) (member : part ∈ layout.partitions)
    {child : String} (given : part.image = some child) (aside : part.span.Apart span) :
    Makes span [] (insertChild os (outputs child) part) :=
  insertChild_makes (laid.promise child) (laid.sums member child given)
    fun _ holds => data_aside holds aside

/-- A partition that is apart from the range leaves it alone. -/
theorem part_aside (laid : Laid outputs layout) (member : part ∈ layout.partitions)
    (aside : ∀ region ∈ part.regions layout.hd, region.Apart span) :
    Makes span [] (generatePart os outputs layout part rest) :=
  generatePart_makes laid.promise (laid.sums member) (laid.aside member aside)

/-- A partition in its own range. -/
theorem part_own (laid : Laid outputs layout) (member : part ∈ layout.partitions) :
    Makes part.span (childWrites outputs part) (generatePart os outputs layout part rest) :=
  generatePart_own laid.promise (laid.sums member) fun logical =>
    (laid.ebr_apart member logical).mono_left (laid.record_within member logical)

/-- **The loop leaves a range alone** from which all partitions are apart. -/
theorem parts_aside (laid : Laid outputs layout) (among : ∀ other ∈ rest, other ∈ layout.partitions)
    (aside : ∀ other ∈ rest, ∀ region ∈ other.regions layout.hd, region.Apart span) :
    Makes span [] (generateParts os outputs layout rest) :=
  generateParts_makes fun other member _ => laid.part_aside (among other member) (aside other member)

/-- Everything else in the list is apart from a region of a partition. -/
theorem others_aside (laid : Laid outputs layout)
    (split : layout.partitions = before ++ part :: after) {own : Span Nat}
    (listed : own ∈ part.regions layout.hd) :
    ∀ other ∈ before ++ after, ∀ region ∈ other.regions layout.hd, region.Apart own := by
  have apart := laid.apart
  rw [List.pairwise_flatMap, split] at apart
  obtain ⟨_, pairs⟩ := apart
  obtain ⟨_, later, front⟩ := List.pairwise_append.mp pairs
  intro other among region listed'
  rcases List.mem_append.mp among with early | late
  · exact front other early part List.mem_cons_self region listed' _ listed
  · exact ((List.pairwise_cons.mp later).1 other late _ listed region listed').symm

/-- **The loop writes what a partition writes** into one of its regions. -/
theorem parts_own (laid : Laid outputs layout)
    (split : layout.partitions = before ++ part :: after) {own : Span Nat}
    (listed : own ∈ part.regions layout.hd) {writes : List Write}
    (here : Makes own writes (generatePart os outputs layout part after)) :
    Makes own writes (generateParts os outputs layout layout.partitions) := by
  have aside := laid.others_aside split listed
  have parts : Makes own writes (generateParts os outputs layout (before ++ part :: after)) := by
    exact generateParts_own
      (fun other among _ => laid.part_aside (mem_of_others split among) (aside other among)) here
  rwa [← split] at parts

/-- **Every child that is written fits its partition**; by induction on the list. -/
theorem parts_hold (laid : Laid outputs layout) (among : ∀ other ∈ rest, other ∈ layout.partitions)
    (world : World) : Ensures True (generateParts os outputs layout rest) world fun _ _ =>
      ∀ part ∈ rest, ∀ image, part.image = some image →
        Skips (outputs image) part ∨ ChildHolds (outputs image) part := by
  induction rest generalizing world with
  | nil => exact fun part member => absurd member List.not_mem_nil
  | cons part rest ih =>
    rw [List.forall_mem_cons] at among
    have here : Ensures True (generatePart os outputs layout part rest) world fun _ _ =>
        ∀ image, part.image = some image →
          Skips (outputs image) part ∨ ChildHolds (outputs image) part := by
      unfold generatePart
      refine Ensures.bind (.of_forall fun _ _ => trivial) fun _ middle _ => ?_
      cases given : part.image with
      | none => exact fun _ named => by cases named
      | some image =>
        refine (insertChild_writes (laid.promise image) (laid.sums among.1 image given)).mono
          fun _ _ ⟨holds, _⟩ other named => ?_
        rwa [← Option.some.inj named]
    refine here.bind fun _ middle held => (ih among.2 middle).mono fun _ _ later => ?_
    rw [List.forall_mem_cons]
    exact ⟨held, later⟩

end Laid

/-! ### The whole run -/

/-- The file of zeros that a regular output file starts as. -/
theorem prepareImage_zeros (size : UInt64) (world : World) :
    Ensures True (prepareImage os size) world fun _ next => os.blockDevice = false → size ≠ 0 →
      next.contents = File.empty.truncate size.toNat := by
  cases regular : os.blockDevice with
  | true => exact .of_forall fun _ _ wrong => by cases wrong
  | false =>
    refine (prepareImage_ensures regular (Or.inl trivial)).mono fun _ next file _ nonzero => ?_
    rw [World.contents, file (Or.inr nonzero), if_neg nonzero, Option.getD_some]

/-- A run that returns on a regular file has checked its length. -/
theorem checkFileSize_length (fileSize : UInt64) (world : World) :
    Ensures True (checkFileSize os fileSize) world fun _ next => next.file = world.file ∧
      (os.blockDevice = false → world.contents.length = fileSize.toNat) := by
  unfold checkFileSize
  cases regular : os.blockDevice with
  | true =>
    rw [if_pos rfl, ensures_pure]
    exact ⟨rfl, fun wrong => by cases wrong⟩
  | false =>
    rw [if_neg Bool.false_ne_true]
    refine Sys.statOut_ensures.bind fun length next ⟨kept, found⟩ => ?_
    rcases found with ⟨rfl, _⟩ | ⟨rfl, _, small⟩
    · exact Sys.throwErrno_ensures.mpr trivial
    have word : (UInt64.ofNat world.contents.length).toNat = world.contents.length :=
      UInt64.toNat_ofNat_of_lt' (small.trans (by decide))
    simp only
    split
    next => exact ensures_throw.mpr trivial
    next same =>
      rw [ensures_pure]
      refine ⟨kept, fun _ => ?_⟩
      rw [not_not.mp same, word]

/-- The end of the run: the length is checked, and the bytes stay. -/
theorem closing_length (fileSize : UInt64) (tableType : TableType) (world : World) :
    Ensures True (do
      checkFileSize os fileSize
      if tableType ≠ .none then reloadPartitions os) world fun _ final =>
      final.contents = world.contents ∧
        (os.blockDevice = false → final.contents.length = fileSize.toNat) := by
  refine (checkFileSize_length fileSize world).bind fun _ checked ⟨kept, length⟩ => ?_
  have kept := World.contents_congr kept
  have reload : Ensures True (reloadPartitions os) checked fun _ final =>
      final.contents = checked.contents := by
    unfold reloadPartitions
    split_ifs
    · exact (openFile_ensures rfl (Or.inl trivial)).mono fun _ _ holds => holds.contents
    · rw [ensures_pure]
  split_ifs
  · refine reload.mono fun _ final same => ?_
    rw [same, kept]
    exact ⟨rfl, length⟩
  · rw [ensures_pure, kept]
    exact ⟨rfl, length⟩

/-- **What the whole run leaves in a range**: the writes of the partitions, and in a regular file, which
has the predicted length, zeros around them. -/
structure RangeLeft (os : Os) (layout : Layout) (span : Span Nat) (writes : List Write)
    (file : File) : Prop where
  kept : ∃ before : File, File.Keeps span (before.writes writes) file
  zeros : os.blockDevice = false →
    File.Keeps span ((File.empty.truncate layout.fileSize.toNat).writes writes) file
  length : os.blockDevice = false → file.length = layout.fileSize.toNat

/-- Where a file of no bytes is kept there have been no writes. -/
theorem keeps_nothing {before file : File} {writes : List Write} (empty : file.length = 0)
    (kept : File.Keeps span (before.writes writes) file) :
    File.Keeps span ((File.empty.truncate 0).writes writes) file := by
  have none : (before.writes writes).length ≤ 0 := kept.length.trans empty.le
  have none' : ((File.empty.truncate 0).writes writes).length ≤ 0 :=
    File.length_writes_le_iff.mpr ⟨le_rfl, (File.length_writes_le_iff.mp none).2⟩
  refine ⟨none'.trans (Nat.zero_le _), fun i _ _ => ?_⟩
  rw [file.beyond i (empty.le.trans (Nat.zero_le i)),
    ((File.empty.truncate 0).writes writes).beyond i (none'.trans (Nat.zero_le i))]

/-- The steps of `hdimage_generate` that write. -/
def writeImage (os : Os) (outputs : String → ChildOutput) (layout : Layout) : Sys Unit := do
  generateParts os outputs layout layout.partitions
  insertTables os layout
  if layout.hd.fill then extendFile os layout.size

/-- **What the writing leaves is there at the end**; a regular file has been zeros before, unless it has
no bytes, and has the predicted length. -/
theorem hdimageGenerate_leaves (post : File → File → Prop)
    (body : ∀ fresh, Ensures True (writeImage os outputs layout) fresh fun _ written =>
      post fresh.contents written.contents) (world : World) :
    Ensures True (hdimageGenerate os outputs layout) world fun _ final => ∃ before,
      post before final.contents ∧ (os.blockDevice = false → layout.fileSize ≠ 0 →
        before = File.empty.truncate layout.fileSize.toNat) ∧
      (os.blockDevice = false → final.contents.length = layout.fileSize.toNat) := by
  have steps : hdimageGenerate os outputs layout = (do
      prepareImage os layout.fileSize
      writeImage os outputs layout
      (do
        checkFileSize os layout.fileSize
        if layout.hd.tableType ≠ .none then reloadPartitions os)) := by
    unfold hdimageGenerate writeImage
    cases layout.hd.fill <;> simp only [bind_assoc, Bool.false_eq_true, if_true, if_false, pure_bind]
  rw [steps]
  refine (prepareImage_zeros layout.fileSize world).bind fun _ fresh zeros => ?_
  refine (body fresh).bind fun _ written left => ?_
  refine (closing_length layout.fileSize layout.hd.tableType written).mono ?_
  rintro _ final ⟨same, length⟩
  rw [← same] at left
  exact ⟨_, left, zeros, length⟩

/-- **A range in the whole run.** -/
theorem hdimageGenerate_range {writes : List Write}
    (body : Makes span writes (writeImage os outputs layout)) (world : World) :
    Ensures True (hdimageGenerate os outputs layout) world fun _ final =>
      RangeLeft os layout span writes final.contents := by
  refine (hdimageGenerate_leaves (fun before after => File.Keeps span (before.writes writes) after)
    body world).mono ?_
  rintro _ final ⟨before, kept, zeros, length⟩
  refine ⟨⟨_, kept⟩, fun regular => ?_, length⟩
  by_cases none : layout.fileSize = 0
  · have empty := length regular
    rw [none, UInt64.toNat_zero] at empty ⊢
    exact keeps_nothing empty kept
  · rwa [zeros regular none] at kept

/-- The tables and the end of the image leave the range alone. -/
theorem writeImage_makes {writes : List Write} (tables : TablesAside layout span)
    (parts : Makes span writes (generateParts os outputs layout layout.partitions)) :
    Makes span writes (writeImage os outputs layout) := by
  refine parts.after fun _ => (insertTables_makes tables).before fun _ => ?_
  split_ifs
  · exact extendFile_makes layout.size
  · exact makes_pure ()

/-! ### The finished image -/

/-- The number of bytes that are copied for a child. -/
def copiedSize (child : ChildOutput) (part : Partition) : Nat :=
  if Skips child part then 0 else (insertSize child part).toNat

/-- **The partition begins with what is copied from its image**, and has room for it. -/
structure HoldsChild (child : ChildOutput) (part : Partition) (file : File) : Prop where
  within : copiedSize child part ≤ part.size.toNat
  inside : copiedSize child part ≠ 0 → part.offset.toNat + copiedSize child part ≤ file.length
  bytes : ∀ i < copiedSize child part, file.byte (part.offset.toNat + i) =
    (child.contents.getD .empty).byte (part.imageoffset.toNat + i)

/-- Behind that there are zeros up to the end of the partition. -/
def ZerosBehind (child : ChildOutput) (part : Partition) (file : File) : Prop :=
  ∀ i, copiedSize child part ≤ i → i < part.size.toNat → file.byte (part.offset.toNat + i) = 0

/-- The file with the write of a child. -/
theorem writes_child {image : String} {part : Partition} (given : part.image = some image)
    (file : File) : file.writes (childWrites outputs part) =
      if Skips (outputs image) part then file
      else file.pwrite part.offset.toNat (childData (outputs image) part) := by
  unfold childWrites
  rw [given]
  simp only
  split_ifs <;> rfl

section Finished

variable {image : String} {part : Partition} {file : File}

/-- The bytes of a partition with a child on `before`. -/
theorem byte_writes_child (given : part.image = some image) (before : File) (i : Nat) :
    (before.writes (childWrites outputs part)).byte (part.offset.toNat + i) =
      if i < copiedSize (outputs image) part
      then ((outputs image).contents.getD .empty).byte (part.imageoffset.toNat + i)
      else before.byte (part.offset.toNat + i) := by
  have length : (childData (outputs image) part).length = (insertSize (outputs image) part).toNat :=
    File.length_slice _ _ _
  rw [writes_child given, copiedSize]
  by_cases skips : Skips (outputs image) part
  · rw [if_pos skips, if_pos skips, if_neg (Nat.not_lt_zero i)]
  rw [if_neg skips, if_neg skips]
  split_ifs with copied
  · rw [File.pwrite_byte_of_mem (by omega), Nat.add_sub_cancel_left, childData,
      File.slice_getD _ _ copied]
  · rw [File.pwrite_byte_of_not_mem (by omega)]

/-- The file has room for what is copied. -/
theorem RangeLeft.copied_le (left : RangeLeft os layout span (childWrites outputs part) file)
    (given : part.image = some image) (some : copiedSize (outputs image) part ≠ 0) :
    part.offset.toNat + copiedSize (outputs image) part ≤ file.length := by
  obtain ⟨before, kept⟩ := left.kept
  have longer := kept.length
  unfold copiedSize at some ⊢
  split_ifs at some ⊢ with skips
  · exact absurd rfl some
  have length : (childData (outputs image) part).length =
      (insertSize (outputs image) part).toNat := File.length_slice _ _ _
  rw [writes_child given, if_neg skips,
    File.length_pwrite (List.ne_nil_of_length_pos (by omega)), length] at longer
  exact (le_max_right _ _).trans longer

/-- **What is left in the range of a partition holds the child.** -/
theorem RangeLeft.holdsChild (left : RangeLeft os layout part.span (childWrites outputs part) file)
    (given : part.image = some image)
    (fits : Skips (outputs image) part ∨ ChildHolds (outputs image) part) :
    HoldsChild (outputs image) part file := by
  obtain ⟨before, kept⟩ := left.kept
  have within : copiedSize (outputs image) part ≤ part.size.toNat := by
    unfold copiedSize
    split_ifs with skips
    · exact Nat.zero_le _
    · exact (fits.resolve_left skips).insertSize_le
  refine ⟨within, left.copied_le given, fun i copied => ?_⟩
  have same := kept.byte (part.offset.toNat + i) (Nat.le_add_right _ _)
    (Nat.add_lt_add_left (copied.trans_le within) _)
  rw [same, byte_writes_child given, if_pos copied]

theorem RangeLeft.zerosBehind (left : RangeLeft os layout part.span (childWrites outputs part) file)
    (regular : os.blockDevice = false) (given : part.image = some image) :
    ZerosBehind (outputs image) part file := by
  intro i behind inside
  have same := (left.zeros regular).byte (part.offset.toNat + i) (Nat.le_add_right _ _)
    (Nat.add_lt_add_left inside _)
  rw [same, byte_writes_child given, if_neg (not_lt.mpr behind)]
  exact ite_self 0

end Finished

section Run

variable (holeless : env.Holeless) (noWrap : NoWrap env config)
  (accepted : hdimageSetup env config = .ok layout) (promise : ∀ image, (outputs image).Mapped)
  (filled : ∀ part ∈ layout.partitions, part.fill = true →
    part.imageoffset.toNat + part.size.toNat < 2 ^ 64)
  {final : World} (run : Returns (hdimageGenerate os outputs layout) world () final)

include holeless noWrap accepted promise filled run

/-- What is left in a range that is apart from everything. -/
theorem rangeLeft_aside (aside : ∀ part ∈ layout.partitions, ∀ region ∈ part.regions layout.hd,
    region.Apart span) : RangeLeft os layout span [] final.contents := by
  have laid := laid_of_setup holeless noWrap accepted promise filled
  have tables := tablesAside noWrap accepted fun area member _ => aside area member
  have parts : Makes span [] (generateParts os outputs layout layout.partitions) :=
    laid.parts_aside (fun _ => id) aside
  exact (hdimageGenerate_range (writeImage_makes tables parts) world).of_returns run

/-- What is left in a region of a partition of the configuration. -/
theorem rangeLeft_own {part : Partition} {before after : List Partition}
    (split : layout.partitions = before ++ part :: after) (parsed : part.node = .parsed)
    {own : Span Nat} (listed : own ∈ part.regions layout.hd) {writes : List Write}
    (here : Makes own writes (generatePart os outputs layout part after)) :
    RangeLeft os layout own writes final.contents := by
  have laid := laid_of_setup holeless noWrap accepted promise filled
  have aside := laid.others_aside split listed
  have tables : TablesAside layout own := by
    refine tablesAside noWrap accepted fun area among fake => ?_
    rw [split] at among
    rcases List.mem_append.mp among with early | late
    · exact aside area (List.mem_append_left _ early)
    · rcases List.mem_cons.mp late with rfl | late
      · exact absurd parsed fake
      · exact aside area (List.mem_append_right _ late)
  exact (hdimageGenerate_range (writeImage_makes tables (laid.parts_own split listed here))
    world).of_returns run

/-- What is left in the range of a partition with an image. -/
theorem rangeLeft_child {part : Partition} (member : part ∈ layout.partitions)
    (image : part.image.isSome) :
    RangeLeft os layout part.span (childWrites outputs part) final.contents := by
  have laid := laid_of_setup holeless noWrap accepted promise filled
  obtain ⟨before, after, split⟩ := List.append_of_mem member
  exact rangeLeft_own holeless noWrap accepted promise filled run split
    (laid.parsed part member (Or.inr image)) ((laid.mem_regions member).2 (Or.inr image))
    (laid.part_own member)

/-- A child that has been written fits its partition. -/
theorem child_fits {part : Partition} (member : part ∈ layout.partitions) {image : String}
    (given : part.image = some image) :
    Skips (outputs image) part ∨ ChildHolds (outputs image) part := by
  have laid := laid_of_setup holeless noWrap accepted promise filled
  have all : Ensures True (hdimageGenerate os outputs layout) world fun _ _ =>
      ∀ part ∈ layout.partitions, ∀ image, part.image = some image →
        Skips (outputs image) part ∨ ChildHolds (outputs image) part := by
    unfold hdimageGenerate
    refine Ensures.bind (.of_forall fun _ _ => trivial) fun _ fresh _ => ?_
    exact (laid.parts_hold (fun _ => id) fresh).bind fun _ _ held => .of_forall fun _ _ => held
  exact all.of_returns run part member image given

/-- A partition holds its child, and in a regular file it has zeros behind it. -/
theorem child_left {part : Partition} (member : part ∈ layout.partitions) {image : String}
    (given : part.image = some image) : HoldsChild (outputs image) part final.contents ∧
      (os.blockDevice = false → ZerosBehind (outputs image) part final.contents) := by
  have own : RangeLeft os layout part.span (childWrites outputs part) final.contents :=
    rangeLeft_child holeless noWrap accepted promise filled run member (by rw [given]; rfl)
  have fits := child_fits holeless noWrap accepted promise filled run member given
  exact ⟨own.holdsChild given fits, fun regular => own.zerosBehind regular given⟩

/-- A regular file has the predicted length. -/
theorem length_left (regular : os.blockDevice = false) :
    final.contents.length = layout.fileSize.toNat := by
  have nothing : RangeLeft os layout ⟨0, 0⟩ [] final.contents :=
    rangeLeft_aside holeless noWrap accepted promise filled run
      fun _ _ _ _ => Or.inr (Nat.zero_le _)
  exact nothing.length regular

/-- **What a finished disk image contains**: every partition holds what is copied from its image, and in
a regular file, which has the predicted length, zeros behind it. -/
theorem hdimageGenerate_contents :
    (∀ part ∈ layout.partitions, ∀ image, part.image = some image →
      HoldsChild (outputs image) part final.contents) ∧
    (os.blockDevice = false → final.contents.length = layout.fileSize.toNat ∧
      ∀ part ∈ layout.partitions, ∀ image, part.image = some image →
        ZerosBehind (outputs image) part final.contents) := by
  refine ⟨fun part member image given => ?_, fun regular => ⟨?_, fun part member image given => ?_⟩⟩
  · exact (child_left holeless noWrap accepted promise filled run member given).1
  · exact length_left holeless noWrap accepted promise filled run regular
  · exact (child_left holeless noWrap accepted promise filled run member given).2 regular

/-- **Where the layout has no region, a finished image file has zeros.** -/
theorem hdimageGenerate_gaps (regular : os.blockDevice = false) {i : Nat}
    (outside : ∀ part ∈ layout.partitions, ∀ region ∈ part.regions layout.hd,
      i < region.start ∨ region.stop ≤ i) : final.contents.byte i = 0 := by
  have left : RangeLeft os layout ⟨i, i + 1⟩ [] final.contents := by
    refine rangeLeft_aside holeless noWrap accepted promise filled run fun part member region listed => ?_
    exact (outside part member region listed).symm
  rw [(left.zeros regular).byte i le_rfl (Nat.lt_succ_self i)]
  exact ite_self 0

end Run

theorem rootEnv_holeless : rootEnv.Holeless := by
  intro file child found
  simp only [rootEnv] at found
  split_ifs at found
  rw [← Option.some.inj found]

/-- A run that writes three bytes behind the boot code. -/
theorem exists_root_run : ∃ layout final, hdimageSetup rootEnv (rootConfig false) = .ok layout ∧
    (∀ part ∈ layout.partitions, part.fill = true →
      part.imageoffset.toNat + part.size.toNat < 2 ^ 64) ∧
    (∀ part ∈ layout.partitions, ∀ region ∈ part.regions layout.hd,
      100 < region.start ∨ region.stop ≤ 100) ∧
    Returns (hdimageGenerate .calm (fun _ => rootOutput) layout) ⟨none, 0, 0, 0⟩ () final := by
  obtain ⟨layout, accepted, facts⟩ := exists_layout rootEnv (rootConfig false)
    (fun layout => (layout.partitions.all (fun part => !part.fill) &&
      layout.partitions.all fun part => (part.regions layout.hd).all fun region =>
        decide (100 < region.start ∨ region.stop ≤ 100)) &&
      returnsWith (hdimageGenerate .calm (fun _ => rootOutput) layout) ⟨none, 0, 0, 0⟩
        fun _ _ => true) (by decide +kernel)
  simp only [Bool.and_eq_true, List.all_eq_true, Bool.not_eq_true', decide_eq_true_eq] at facts
  obtain ⟨_, final, run, _⟩ := exists_returns facts.2
  refine ⟨layout, final, accepted, fun part member fill => ?_, facts.1.2, run⟩
  rw [facts.1.1 part member] at fill
  cases fill

theorem rootOutput_mapped (image : String) :
    ((fun _ => rootOutput : String → ChildOutput) image).Mapped :=
  ChildOutput.wholeFile_mapped [1, 2, 3]

theorem hdimageGenerate_contents_root : ∃ (layout : Layout) (final : World),
    hdimageSetup rootEnv (rootConfig false) = .ok layout ∧
      ∀ part ∈ layout.partitions, ∀ image, part.image = some image →
        HoldsChild rootOutput part final.contents ∧ ZerosBehind rootOutput part final.contents := by
  obtain ⟨layout, final, accepted, filled, _, run⟩ := exists_root_run
  obtain ⟨holds, regular⟩ := hdimageGenerate_contents rootEnv_holeless (by decide +kernel) accepted
    rootOutput_mapped filled run
  exact ⟨layout, final, accepted, fun part member image given =>
    ⟨holds part member image given, (regular rfl).2 part member image given⟩⟩

theorem hdimageGenerate_gaps_root : ∃ (layout : Layout) (final : World),
    hdimageSetup rootEnv (rootConfig false) = .ok layout ∧ final.contents.byte 100 = 0 := by
  obtain ⟨layout, final, accepted, filled, outside, run⟩ := exists_root_run
  exact ⟨layout, final, accepted, hdimageGenerate_gaps rootEnv_holeless (by decide +kernel) accepted
    rootOutput_mapped filled run rfl outside⟩

end Genimage
