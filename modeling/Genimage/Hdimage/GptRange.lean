/-
**The usable range of a GPT.**

`first_usable_lba` comes from a scan for the last end outside of the table that is not behind the first
partition, so it is the first free sector only if nothing else ends in that sector, and the array is in
front of it only if the partitions are behind the array. `behind_array_iff` reduces the second condition
to the explicit offsets: the automatic ones are behind the array (`loop_behind`).

`GptSound` is what the setup has made sure of, `GptRange` what is asked of the file, `RangeFits` the
condition on configuration and layout (`hdimageInsertGpt_range_iff`). The MBR of a hybrid table has
sector numbers of 32 bits; `GptSound.hybrid_of_small` says that this is no restriction up to 2 TiB.
-/

import Genimage.Hdimage.GptFile
import Genimage.Hdimage.Layout
import Genimage.Hdimage.Sectors

namespace Genimage

open Library Effect

variable {env : Env} {config : HdimageConfig} {layout : Layout}

/-! ### The partitions of a GPT -/

/-- In a GPT no element is logical or `[Extended]`. -/
theorem Ready.gpt_plain {prepared : Prepared} (ready : Ready env config prepared)
    (gpt : prepared.hd.tableType.hasGpt = true) {part : Partition}
    (member : part ∈ prepared.partitions) : part.logical = false ∧ part.node ≠ .extended := by
  rw [ready.gpt_partitions gpt, List.mem_append] at member
  rcases member with parsed | area
  · obtain ⟨partsec, _, rfl⟩ := List.mem_map.mp parsed
    exact ⟨rfl, nofun⟩
  · simp only [List.mem_cons, List.not_mem_nil, or_false] at area
    rcases area with rfl | rfl | rfl | rfl
    all_goals exact ⟨rfl, nofun⟩

/-- **The elements of a GPT are apart and end inside the image.** -/
theorem gpt_apart (accepted : hdimageSetup env config = .ok layout)
    (gpt : layout.hd.tableType.hasGpt = true) (holeless : env.Holeless)
    (noWrap : NoWrap env config) :
    layout.partitions.Pairwise (fun first second => first.span.Apart second.span) ∧
      ∀ part ∈ layout.partitions, part.Fits ∧ part.span.stop ≤ layout.size.toNat := by
  obtain ⟨prepared, state, run, ready, loop, finished⟩ := hdimageSetup_ok accepted
  rw [finished.hd_eq] at gpt
  have inv : LayoutInv prepared.hd prepared.partitions state :=
    ready.layoutInv holeless (List.append_nil _).symm (noWrap.runFits run) loop
  have origins := loop_origins rfl loop
  have regions : ∀ part ∈ state.done, part.regions prepared.hd = [part.span] := by
    intro part member
    obtain ⟨origin, among, from_⟩ := Related.exists_left origins member
    obtain ⟨logical, node⟩ := ready.gpt_plain gpt among
    rw [Partition.regions, from_.node_eq, if_neg node, from_.logical_eq, logical,
      if_neg Bool.false_ne_true]
  have spans : state.done.flatMap (Partition.regions prepared.hd) = state.done.map (·.span) := by
    rw [List.map_eq_flatMap]
    exact List.flatMap_congr regions
  have apart := inv.apart
  rw [spans, List.pairwise_map] at apart
  rw [finished.partitions_eq]
  exact ⟨apart, fun part member => ⟨inv.fits part member,
    (inv.stops part member).trans finished.now_le⟩⟩

/-- **An automatic partition is placed behind what the loop starts with.** -/
theorem loop_behind {hd : Hdimage} {size : UInt64} {parts : List Partition}
    {start final : SetupState} {place : Nat} (empty : start.done = [])
    (first : place ≤ start.now.toNat) (nonzero : hd.align ≠ 0)
    (placeable : ∀ part ∈ parts, part.inPartitionTable = true → part.node ≠ .gptBackup)
    (fits : RunFits env hd size start parts)
    (run : parts.foldlM (setupPart env hd size) start = .ok final) :
    List.Forall₂ (fun part placed => Origin env hd size part placed ∧
      (placed.inPartitionTable = true → part.offset = 0 → place ≤ placed.offset.toNat))
      parts final.done := by
  refine (fitting_invariant (fun passed state => place ≤ state.now.toNat ∧
    List.Forall₂ (fun part placed => Origin env hd size part placed ∧
      (placed.inPartitionTable = true → part.offset = 0 → place ≤ placed.offset.toNat))
      passed state.done) ⟨first, ?_⟩ ?_ fits run).2
  · rw [empty]
    exact .nil
  · rintro done part rest state placed next split ⟨above, related⟩ step sums _
    refine ⟨above.trans (step.now_le nonzero sums), ?_⟩
    have origin := Origin.of_placed step
    have behind : placed.inPartitionTable = true → part.offset = 0 →
        place ≤ placed.offset.toNat := by
      intro inTable automatic
      have inside : (part.withAlign hd).inPartitionTable = true := step.inPartitionTable_eq ▸ inTable
      have given : part.inPartitionTable = true := by
        have both := inside
        simp only [Partition.withAlign, Bool.and_eq_true] at both
        exact both.2
      have other := placeable part (by rw [split]; simp) given
      have aligned := withAlign_align_ne_zero nonzero part
      have chosen : chosenOffset hd state.now (part.withAlign hd) =
          roundup (runningEnd hd state.now (part.withAlign hd)) (part.withAlign hd).align :=
        chosenOffset_automatic _ automatic other (Or.inl inside)
      rw [step.offset_eq, chosen]
      refine le_trans ?_ (le_roundup aligned (sums.automatic automatic (Or.inl inside)))
      exact above.trans (le_of_add_le_left (le_runningEnd sums aligned))
    have last : List.Forall₂ (fun part placed => Origin env hd size part placed ∧
        (placed.inPartitionTable = true → part.offset = 0 → place ≤ placed.offset.toNat))
        [part] [placed] := .cons ⟨origin, behind⟩ .nil
    obtain ⟨keep, same, ⟨_, rfl⟩ | ⟨_, rfl⟩⟩ := step.done_cases
    all_goals rw [same]
    · refine List.rel_append ?_ last
      refine List.forall₂_map_right_iff.mpr (related.imp fun _ _ both => ?_)
      exact ⟨both.1.grow next.now, both.2⟩
    · rw [List.map_id]
      exact List.rel_append related last

/-- The end of the GPT array, as a number. -/
def arrayEnd (hd : Hdimage) : Nat := hd.gptLocation.toNat + 16384

/-- **Every partition in the table begins behind the array exactly when** the explicit offsets do. -/
theorem behind_array_iff (accepted : hdimageSetup env config = .ok layout)
    (gpt : layout.hd.tableType.hasGpt = true) (noWrap : NoWrap env config)
    (fits : (gptArrayArea layout.hd.gptLocation).Fits) :
    (∀ part ∈ layout.partitions, part.inPartitionTable = true →
      arrayEnd layout.hd ≤ part.offset.toNat) ↔
    ∀ partsec ∈ config.partitions, partsec.inPartitionTable = true → partsec.offset ≠ 0 →
      arrayEnd layout.hd ≤ partsec.offset.toNat := by
  obtain ⟨prepared, state, run, ready, loop, finished⟩ := hdimageSetup_ok accepted
  rw [finished.hd_eq] at gpt fits ⊢
  have table : prepared.hd.tableType ≠ .none := by
    intro none
    rw [none] at gpt
    cases gpt
  have list := ready.gpt_partitions gpt
  have placeable : ∀ part ∈ prepared.partitions, part.inPartitionTable = true →
      part.node ≠ .gptBackup := by
    intro part member inTable
    rw [list, List.mem_append] at member
    rcases member with parsed | area
    · obtain ⟨partsec, _, rfl⟩ := List.mem_map.mp parsed
      exact nofun
    · simp only [List.mem_cons, List.not_mem_nil, or_false] at area
      rcases area with rfl | rfl | rfl | rfl
      all_goals cases inTable
  have start : arrayEnd prepared.hd ≤ prepared.start.now.toNat := by
    show _ ≤ (tableEnd prepared.hd.tableType prepared.hd.gptLocation).toNat
    rw [tableEnd, if_neg table, if_pos gpt, Partition.toNat_partitionEnd fits]
    exact le_rfl
  have related := loop_behind rfl start ready.align_ne_zero placeable (noWrap.runFits run) loop
  rw [finished.partitions_eq]
  have pair : (∀ part ∈ prepared.partitions, part.inPartitionTable = true → part.offset ≠ 0 →
      arrayEnd prepared.hd ≤ part.offset.toNat) ↔ ∀ part ∈ state.done,
        part.inPartitionTable = true → arrayEnd prepared.hd ≤ part.offset.toNat := by
    refine Related.forall_iff related fun part placed ⟨origin, automatic⟩ => ?_
    rw [origin.inTable_eq table] at automatic ⊢
    refine forall_congr' fun inTable => ?_
    by_cases zero : part.offset = 0
    · exact iff_of_true (fun other => absurd zero other) (automatic inTable zero)
    · rw [origin.offset_explicit zero, forall_prop_of_true zero]
  rw [← pair, list, List.forall_mem_append, parsePartitions, List.forall_mem_map]
  refine and_iff_left fun part area inTable => ?_
  simp only [List.mem_cons, List.not_mem_nil, or_false] at area
  rcases area with rfl | rfl | rfl | rfl
  all_goals cases inTable

/-! ### The first usable sector -/

/-- **`smallest_offset`** is the least offset in the table, if there is one. -/
theorem smallestOffset_spec (partitions : List Partition) :
    (∀ part ∈ partitions, part.inPartitionTable = true →
      (smallestOffset partitions).toNat ≤ part.offset.toNat) ∧
    ((smallestOffset partitions).toNat = 2 ^ 64 - 1 ∨ ∃ part ∈ partitions,
      part.inPartitionTable = true ∧ smallestOffset partitions = part.offset) := by
  have least : ∀ (smallest : UInt64) (part : Partition),
      (if part.offset < smallest then part.offset else smallest).toNat =
        min part.offset.toNat smallest.toNat := fun _ _ => toNat_minUll _ _
  obtain ⟨_, each, source⟩ := foldl_extremum (fun first second : UInt64 => second.toNat ≤ first.toNat)
    (fun (smallest : UInt64) (part : Partition) =>
      if part.offset < smallest then part.offset else smallest)
    Partition.offset (fun _ => True) (fun _ => le_rfl)
    (fun _ _ _ first second => second.trans first)
    (fun smallest part => (least smallest part).trans_le (min_le_right _ _))
    (fun smallest part _ => (least smallest part).trans_le (min_le_left _ _))
    (fun smallest part => by
      by_cases smaller : part.offset < smallest
      · exact Or.inr ⟨trivial, if_pos smaller⟩
      · exact Or.inl (if_neg smaller))
    (partitions.filter (·.inPartitionTable)) (UInt64.ofNat (2 ^ 64 - 1))
  refine ⟨fun part member inTable => each part (List.mem_filter.mpr ⟨member, inTable⟩) trivial, ?_⟩
  rcases source with same | ⟨part, member, _, same⟩
  · refine Or.inl ?_
    rw [smallestOffset, same]
    decide
  · obtain ⟨among, inTable⟩ := List.mem_filter.mp member
    exact Or.inr ⟨part, among, inTable, same⟩

/-- An area in front of the partitions counts for `first_usable_offset`. -/
def isBootArea (part : Partition) : Bool := !part.inPartitionTable && !strstr part.name "GPT backup"

/-- **`first_usable_offset`** is the last end of such an area that is not behind the first partition. -/
theorem firstUsableOffset_spec (partitions : List Partition) :
    (∀ part ∈ partitions, isBootArea part = true →
      part.partitionEnd ≤ smallestOffset partitions →
      part.partitionEnd.toNat ≤ (firstUsableOffset partitions).toNat) ∧
    (firstUsableOffset partitions = 0 ∨ ∃ part ∈ partitions, isBootArea part = true ∧
      part.partitionEnd ≤ smallestOffset partitions ∧
      firstUsableOffset partitions = part.partitionEnd) := by
  obtain ⟨_, each, source⟩ := foldl_extremum (fun first second : UInt64 => first.toNat ≤ second.toNat)
    (fun (first : UInt64) (part : Partition) =>
      if part.partitionEnd ≤ smallestOffset partitions ∧ part.partitionEnd > first then
        part.partitionEnd
      else first)
    Partition.partitionEnd (fun part => part.partitionEnd ≤ smallestOffset partitions)
    (fun _ => le_rfl) (fun _ _ _ first second => first.trans second)
    (fun first part => by
      split_ifs with taken
      · exact (UInt64.lt_iff_toNat_lt.mp taken.2).le
      · exact le_rfl)
    (fun first part below => by
      split_ifs with taken
      · exact le_rfl
      · have : ¬ first < part.partitionEnd := fun greater => taken ⟨below, greater⟩
        exact UInt64.le_iff_toNat_le.mp (UInt64.not_lt.mp this))
    (fun first part => by
      by_cases taken : part.partitionEnd ≤ smallestOffset partitions ∧ part.partitionEnd > first
      · exact Or.inr ⟨taken.1, if_pos taken⟩
      · exact Or.inl (if_neg taken))
    (partitions.filter isBootArea) 0
  refine ⟨fun part member area below => each part (List.mem_filter.mpr ⟨member, area⟩) below, ?_⟩
  rcases source with same | ⟨part, member, below, same⟩
  · exact Or.inl same
  · obtain ⟨among, area⟩ := List.mem_filter.mp member
    exact Or.inr ⟨part, among, area, below, same⟩

/-! ### A sound GPT layout -/

/-- **What the setup has made sure of a GPT layout**: its elements are apart and inside the image, those
in the table are whole sectors, and the backup is behind all of them. -/
structure GptSound (layout : Layout) : Prop where
  apart : layout.partitions.Pairwise fun first second => first.span.Apart second.span
  fits : ∀ part ∈ layout.partitions, part.Fits
  stops : ∀ part ∈ layout.partitions, part.span.stop ≤ layout.size.toNat
  sized : ∀ part ∈ layout.partitions, part.inPartitionTable = true →
    part.size ≠ 0 ∧ 512 ∣ part.size.toNat
  location : 1024 ≤ layout.hd.gptLocation.toNat
  array : gptArrayArea layout.hd.gptLocation ∈ layout.partitions
  backup : ∀ part ∈ layout.partitions, part.inPartitionTable = true →
    part.span.stop + 16896 ≤ layout.size.toNat

theorem gpt_sound (accepted : hdimageSetup env config = .ok layout)
    (gpt : layout.hd.tableType.hasGpt = true) (holeless : env.Holeless)
    (noWrap : NoWrap env config) : GptSound layout := by
  obtain ⟨given, listed, backup, _, areas⟩ := gptAreas accepted gpt
  obtain ⟨apart, bounds⟩ := gpt_apart accepted gpt holeless noWrap
  obtain ⟨prepared, run, hdEq, origins⟩ := setup_origins accepted
  have fits := fun part member => (bounds part member).1
  have stops := fun part member => (bounds part member).2
  have list := areas.partitions_eq
  have array : gptArrayArea layout.hd.gptLocation ∈ layout.partitions := by simp [list]
  have last : backup ∈ layout.partitions := by simp [list]
  have location : 1024 ≤ layout.hd.gptLocation.toNat := areas.location_ge (fits _ array)
  have sized : ∀ part ∈ layout.partitions, part.inPartitionTable = true →
      part.size ≠ 0 ∧ 512 ∣ part.size.toNat := by
    intro part member inTable
    obtain ⟨origin, among, from_⟩ := Related.exists_left origins member
    have node := ((prepare_ok run).gpt_plain (hdEq ▸ gpt) among).2
    obtain ⟨_, nonzero, sectors, _⟩ := from_.sized (by rwa [from_.node_eq])
    exact ⟨nonzero, sectors inTable⟩
  have room : arrayEnd layout.hd ≤ layout.size.toNat := stops _ array
  have other : given ≠ backupSize := by
    intro same
    rw [areas.size_given (by rw [same]; decide), same, arrayEnd,
      show backupSize.toNat = 16896 from rfl] at room
    omega
  have stop := Partition.toNat_partitionEnd (fits backup last)
  have length : backup.size.toNat = 16896 := by
    rw [areas.backup_size]
    rfl
  have span : backup.span.stop = backup.offset.toNat + backup.size.toNat := rfl
  have ends : backup.span.stop = layout.size.toNat := by
    rw [← stop, (areas.backup_end other (toNat_pos.mp (by omega))).1]
  refine ⟨apart, fits, stops, sized, location, array, fun part member inTable => ?_⟩
  have nonempty := toNat_pos.mpr (sized part member inTable).1
  have inside := stops part member
  have start : part.span.stop = part.offset.toNat + part.size.toNat := rfl
  have front : part ∈ listed := by
    rw [list, List.mem_append] at member
    refine member.resolve_right fun area => ?_
    simp only [List.mem_cons, List.not_mem_nil, or_false] at area
    rcases area with rfl | rfl | rfl | rfl
    · cases inTable
    · cases inTable
    · cases inTable
    · rw [areas.backup_eq] at inTable
      cases inTable
  rw [list, List.pairwise_append] at apart
  have between : part.span.Apart backup.span := apart.2.2 part front backup (by simp)
  rcases between with before | behind
  · have : backup.span.start = backup.offset.toNat := rfl
    omega
  · have : part.span.start = part.offset.toNat := rfl
    omega

/-! ### The property and the condition -/

/-- The sectors of an entry of a GPT. -/
def GptPartitionEntry.sectors (entry : GptPartitionEntry) : Span Nat :=
  ⟨entry.firstLba.toNat, entry.lastLba.toNat + 1⟩

/-- The sectors of an entry of an MBR. -/
def MbrPartitionEntry.sectors (entry : MbrPartitionEntry) : Span Nat :=
  ⟨entry.relativeSectors.toNat, entry.relativeSectors.toNat + entry.totalSectors.toNat⟩

/-- **The headers, the array and the MBR in the file describe a disk without conflicts.** -/
structure GptRange (layout : Layout) (entries : List GptPartitionEntry)
    (front : List MbrPartitionEntry) (file : File) : Prop where
  table : file.slice layout.hd.gptLocation.toNat 16384 = tableBytes entries
  behind : ∀ part ∈ layout.partitions, part.inPartitionTable = true →
    arrayEnd layout.hd ≤ part.offset.toNat
  array : arrayEnd layout.hd ≤ 512 * firstUsableLbaAt file 512
  inside : ∀ entry ∈ entries, firstUsableLbaAt file 512 ≤ entry.firstLba.toNat ∧
    entry.firstLba.toNat ≤ entry.lastLba.toNat ∧
    entry.lastLba.toNat ≤ lastUsableLbaAt file 512
  disjoint : entries.Pairwise fun first second => first.sectors.Apart second.sectors
  backup : 512 * (lastUsableLbaAt file 512 + 1) ≤ layout.size.toNat - 16896
  second : layout.hd.gptNoBackup = false →
    firstUsableLbaAt file (layout.size.toNat - 512) = firstUsableLbaAt file 512 ∧
    lastUsableLbaAt file (layout.size.toNat - 512) = lastUsableLbaAt file 512
  mbr : file.slice 440 72 = mbrTail layout.hd.disksig front
  hybrid : layout.hd.tableType = .hybrid →
    (front.map MbrPartitionEntry.sectors).Pairwise Span.Apart

/-- The sectors of a partition in 32 bits. -/
def Partition.sectors32 (part : Partition) : Span Nat :=
  ⟨part.offset.toNat / 512 % 2 ^ 32,
    part.offset.toNat / 512 % 2 ^ 32 + part.size.toNat / 512 % 2 ^ 32⟩

/-- The sectors from the GPT header to the end of the array, their number in 32 bits. -/
def gptSectors32 (hd : Hdimage) : Span Nat := ⟨1, 1 + (hd.gptLocation.toNat / 512 + 31) % 2 ^ 32⟩

/-- The element with the smallest offset in the table. -/
structure Partition.IsFirst (part : Partition) (partitions : List Partition) : Prop where
  member : part ∈ partitions
  inTable : part.inPartitionTable = true
  least : ∀ other ∈ partitions, other.inPartitionTable = true →
    part.offset.toNat ≤ other.offset.toNat

/-- **A layout without conflicts**: no explicit offset in the table is in front of the end of the array,
no area outside the table ends in the sector that the first partition begins in, and in a hybrid
table the partitions of the MBR are apart also where sector numbers are cut to 32 bits. -/
structure RangeFits (config : HdimageConfig) (layout : Layout) : Prop where
  explicit : ∀ partsec ∈ config.partitions, partsec.inPartitionTable = true → partsec.offset ≠ 0 →
    arrayEnd layout.hd ≤ partsec.offset.toNat
  sector : ∀ first : Partition, first.IsFirst layout.partitions → ∀ area ∈ layout.partitions,
    isBootArea area = true → area.span.stop ≤ first.offset.toNat →
      area.span.stop ≤ first.offset.toNat / 512 * 512
  hybrid : layout.hd.tableType = .hybrid →
    ((layout.partitions.filter (inMbr layout.hd)).map Partition.sectors32).Pairwise Span.Apart ∧
    ∀ part ∈ layout.partitions, inMbr layout.hd part = true →
      part.sectors32.Apart (gptSectors32 layout.hd)

/-! ### The range -/

namespace GptSound

theorem array_mem_boot : isBootArea (gptArrayArea layout.hd.gptLocation) = true := by
  show (!false && !strstr "[GPT array]" "GPT backup") = true
  decide

/-- An area in front of all partitions counts for `first_usable_offset`. -/
theorem le_firstUsable (sound : GptSound layout) {area : Partition}
    (member : area ∈ layout.partitions) (boot : isBootArea area = true)
    (before : ∀ part ∈ layout.partitions, part.inPartitionTable = true →
      area.span.stop ≤ part.offset.toNat) :
    area.span.stop ≤ (firstUsableOffset layout.partitions).toNat := by
  have stop := Partition.toNat_partitionEnd (sound.fits area member)
  have := sound.fits area member
  unfold Partition.Fits at this
  rw [← stop]
  refine (firstUsableOffset_spec layout.partitions).1 area member boot ?_
  rw [UInt64.le_iff_toNat_le, stop]
  rcases (smallestOffset_spec layout.partitions).2 with none | ⟨part, among, inTable, same⟩
  · rw [none]
    show area.offset.toNat + area.size.toNat ≤ _
    omega
  · rw [same]
    exact before part among inTable

/-- `first_usable_lba` is the first sector behind that offset. -/
theorem firstUsable_le_iff (sound : GptSound layout) (sectors : 512 ∣ layout.size.toNat) (lba : Nat) :
    (roundup (firstUsableOffset layout.partitions) 512 / 512).toNat ≤ lba ↔
      (firstUsableOffset layout.partitions).toNat ≤ 512 * lba := by
  have inside : (firstUsableOffset layout.partitions).toNat ≤ layout.size.toNat := by
    rcases (firstUsableOffset_spec layout.partitions).2 with none | ⟨part, member, _, _, same⟩
    · rw [none]
      exact Nat.zero_le _
    · rw [same, Partition.toNat_partitionEnd (sound.fits part member)]
      exact sound.stops part member
  generalize firstUsableOffset layout.partitions = first at *
  by_cases zero : first = 0
  · rw [zero]
    exact iff_of_true (Nat.zero_le _) (Nat.zero_le _)
  · have positive := toNat_pos.mpr zero
    have below := nextMultiple_le_of_dvd positive inside sectors
    have rounded : (roundup first 512).toNat = nextMultiple first.toNat 512 :=
      toNat_roundup zero (below.trans_lt layout.size.toNat_lt)
    rw [UInt64.toNat_div, rounded, show (512 : UInt64).toNat = 512 from rfl, nextMultiple]
    omega

/-- **`first_usable_lba` is not behind a partition exactly when** no area ends in the sector that the
first partition begins in. -/
theorem firstUsable_inside_iff (sound : GptSound layout) (sectors : 512 ∣ layout.size.toNat) :
    (∀ part ∈ layout.partitions, part.inPartitionTable = true →
      (roundup (firstUsableOffset layout.partitions) 512 / 512).toNat ≤ part.offset.toNat / 512) ↔
    ∀ first : Partition, first.IsFirst layout.partitions → ∀ area ∈ layout.partitions,
      isBootArea area = true → area.span.stop ≤ first.offset.toNat →
        area.span.stop ≤ first.offset.toNat / 512 * 512 := by
  simp only [sound.firstUsable_le_iff sectors]
  constructor
  · intro inside first isFirst area member boot before
    have below := inside first isFirst.member isFirst.inTable
    have := sound.le_firstUsable member boot fun part among inTable =>
      before.trans (isFirst.least part among inTable)
    omega
  · intro sector part member inTable
    rcases (firstUsableOffset_spec layout.partitions).2 with none | ⟨area, among, boot, before, same⟩
    · rw [none]
      exact Nat.zero_le _
    · have stop := Partition.toNat_partitionEnd (sound.fits area among)
      obtain ⟨least, source⟩ := smallestOffset_spec layout.partitions
      have fits := sound.fits part member
      have nonempty := toNat_pos.mpr (sound.sized part member inTable).1
      have below := least part member inTable
      unfold Partition.Fits at fits
      obtain ⟨first, among', inTable', first_eq⟩ := source.resolve_left (by omega)
      have isFirst : first.IsFirst layout.partitions :=
        ⟨among', inTable', fun other listed inside => first_eq ▸ least other listed inside⟩
      rw [first_eq, UInt64.le_iff_toNat_le, stop] at before
      have := sector first isFirst area among boot before
      have := isFirst.least part member inTable
      rw [same, stop]
      omega

/-- The first and the last sector of a partition in the table. -/
theorem entry_sectors (sound : GptSound layout) {part : Partition} (member : part ∈ layout.partitions)
    (inTable : part.inPartitionTable = true) :
    (gptEntry part).firstLba.toNat = part.offset.toNat / 512 ∧
    (gptEntry part).lastLba.toNat + 1 = part.span.stop / 512 ∧
    (gptEntry part).firstLba.toNat < (gptEntry part).lastLba.toNat + 1 := by
  obtain ⟨nonzero, sectors⟩ := sound.sized part member inTable
  have positive := toNat_pos.mpr nonzero
  have stop := Partition.toNat_partitionEnd (sound.fits part member)
  have span : part.span.stop = part.offset.toNat + part.size.toNat := rfl
  have first : (gptEntry part).firstLba.toNat = part.offset.toNat / 512 := toNat_sector _
  have last : (gptEntry part).lastLba.toNat = part.span.stop / 512 - 1 := by
    show (part.partitionEnd / 512 - 1).toNat = _
    have room : 512 * 1 ≤ part.partitionEnd.toNat := by
      rw [stop]
      omega
    have sub : (part.partitionEnd / 512 - 1).toNat = part.partitionEnd.toNat / 512 - 1 :=
      toNat_sector_sub room
    rw [sub, stop]
  omega

/-- The entries share no sector. -/
theorem entries_apart (sound : GptSound layout) :
    ((layout.partitions.filter (·.inPartitionTable)).map gptEntry).Pairwise fun first second =>
      first.sectors.Apart second.sectors := by
  rw [List.pairwise_map]
  refine (sound.apart.sublist List.filter_sublist).imp_of_mem ?_
  intro first second member member' apart
  obtain ⟨among, inTable⟩ := List.mem_filter.mp member
  obtain ⟨among', inTable'⟩ := List.mem_filter.mp member'
  obtain ⟨start, stop, _⟩ := sound.entry_sectors among inTable
  obtain ⟨start', stop', _⟩ := sound.entry_sectors among' inTable'
  rcases apart with before | behind
  · refine Or.inl ?_
    show (gptEntry first).lastLba.toNat + 1 ≤ (gptEntry second).firstLba.toNat
    rw [stop, start']
    exact Nat.div_le_div_right before
  · refine Or.inr ?_
    show (gptEntry second).lastLba.toNat + 1 ≤ (gptEntry first).firstLba.toNat
    rw [stop', start]
    exact Nat.div_le_div_right behind

end GptSound

/-! ### The MBR of a hybrid table -/

theorem sectors_mbrEntry (part : Partition) : (mbrEntry part).sectors = part.sectors32 := by
  show Span.mk (part.offset / 512).toUInt32.toNat ((part.offset / 512).toUInt32.toNat +
    (part.size / 512).toUInt32.toNat) = _
  rw [toNat_sectors, toNat_sectors]
  rfl

theorem sectors_hybridEntry (hd : Hdimage) : (hybridEntry hd).sectors = gptSectors32 hd := by
  have small := hd.gptLocation.toNat_lt
  have total : (hd.gptLocation / 512 + gptSectors - 2).toNat = hd.gptLocation.toNat / 512 + 31 := by
    have sector := toNat_sector hd.gptLocation
    have sum : (hd.gptLocation / 512 + gptSectors).toNat = hd.gptLocation.toNat / 512 + 33 := by
      rw [toNat_add_of_lt (by rw [sector, show gptSectors.toNat = 33 from rfl]; omega), sector]
      rfl
    rw [toNat_sub_of_le (by rw [sum, show (2 : UInt64).toNat = 2 from rfl]; omega), sum]
    rfl
  show Span.mk 1 (1 + (hd.gptLocation / 512 + gptSectors - 2).toUInt32.toNat) = _
  rw [UInt64.toNat_toUInt32, total]
  rfl

/-- **The entries of a hybrid MBR are apart exactly when** its partitions are, in 32 bits. -/
theorem hybrid_apart_iff {hd : Hdimage} {partitions : List Partition}
    {front : List MbrPartitionEntry} (stored : mbrEntries hd partitions = .ok front)
    (hybrid : hd.tableType = .hybrid) :
    (front.map MbrPartitionEntry.sectors).Pairwise Span.Apart ↔
      ((partitions.filter (inMbr hd)).map Partition.sectors32).Pairwise Span.Apart ∧
      ∀ part ∈ partitions, inMbr hd part = true → part.sectors32.Apart (gptSectors32 hd) := by
  have spans : ∀ parts : List Partition, (parts.map mbrEntry).map MbrPartitionEntry.sectors =
      parts.map Partition.sectors32 := fun parts => by
    rw [List.map_map]
    exact List.map_congr_left fun part _ => sectors_mbrEntry part
  rw [(mbrEntries_ok.mp stored).1, if_pos hybrid, List.map_append, spans, List.map_singleton,
    sectors_hybridEntry, List.pairwise_append]
  simp only [List.pairwise_singleton, true_and, List.mem_singleton, forall_eq, List.mem_map,
    List.mem_filter, forall_exists_index, and_imp]
  refine and_congr_right fun _ => ⟨fun apart part member used => apart _ part member used rfl, ?_⟩
  rintro apart _ part member used rfl
  exact apart part member used

/-- **In an image of at most 2 TiB** the partitions behind the array are apart in 32 bits. -/
theorem GptSound.hybrid_of_small (sound : GptSound layout) (small : layout.size.toNat ≤ 2 ^ 41)
    (behind : ∀ part ∈ layout.partitions, part.inPartitionTable = true →
      arrayEnd layout.hd ≤ part.offset.toNat) :
    ((layout.partitions.filter (inMbr layout.hd)).map Partition.sectors32).Pairwise Span.Apart ∧
    ∀ part ∈ layout.partitions, inMbr layout.hd part = true →
      part.sectors32.Apart (gptSectors32 layout.hd) := by
  have inTable : ∀ part, inMbr layout.hd part = true → part.inPartitionTable = true := by
    intro part used
    simp only [inMbr, Bool.and_eq_true, Bool.not_eq_true', Bool.or_eq_false_iff,
      Bool.not_eq_false'] at used
    exact used.1.1
  have exact : ∀ part ∈ layout.partitions, inMbr layout.hd part = true →
      part.sectors32 = ⟨part.offset.toNat / 512, part.offset.toNat / 512 + part.size.toNat / 512⟩ ∧
        512 ∣ part.size.toNat := by
    intro part member used
    have stop : part.span.stop = part.offset.toNat + part.size.toNat := rfl
    have below := sound.backup part member (inTable part used)
    refine ⟨?_, (sound.sized part member (inTable part used)).2⟩
    rw [Partition.sectors32, Nat.mod_eq_of_lt (by omega), Nat.mod_eq_of_lt (by omega)]
  constructor
  · rw [List.pairwise_map]
    refine (sound.apart.sublist List.filter_sublist).imp_of_mem ?_
    intro first second member member' apart
    obtain ⟨among, used⟩ := List.mem_filter.mp member
    obtain ⟨among', used'⟩ := List.mem_filter.mp member'
    obtain ⟨span, whole⟩ := exact first among used
    obtain ⟨span', whole'⟩ := exact second among' used'
    rw [span, span']
    rcases apart with before | after
    · have before : first.offset.toNat + first.size.toNat ≤ second.offset.toNat := before
      exact Or.inl (show first.offset.toNat / 512 + first.size.toNat / 512 ≤
        second.offset.toNat / 512 by omega)
    · have after : second.offset.toNat + second.size.toNat ≤ first.offset.toNat := after
      exact Or.inr (show second.offset.toNat / 512 + second.size.toNat / 512 ≤
        first.offset.toNat / 512 by omega)
  · intro part member used
    have above := behind part member (inTable part used)
    have stop : part.span.stop = part.offset.toNat + part.size.toNat := rfl
    have below := sound.backup part member (inTable part used)
    unfold arrayEnd at above
    rw [(exact part member used).1, gptSectors32, Nat.mod_eq_of_lt (by omega)]
    exact Or.inr (show 1 + (layout.hd.gptLocation.toNat / 512 + 31) ≤
      part.offset.toNat / 512 by omega)

/-! ### The whole file -/

section File

variable {entries : List GptPartitionEntry} {front : List MbrPartitionEntry} {contents : File}

/-- **The file describes a disk without conflicts exactly when** the layout is one. -/
theorem gptRange_iff (sound : GptSound layout) (separate : GptSeparate layout.hd layout.size)
    (written : GptWritten layout.hd layout.size layout.partitions contents entries front)
    (sectors : 512 ∣ layout.size.toNat)
    (explicit : (∀ part ∈ layout.partitions, part.inPartitionTable = true →
        arrayEnd layout.hd ≤ part.offset.toNat) ↔
      ∀ partsec ∈ config.partitions, partsec.inPartitionTable = true → partsec.offset ≠ 0 →
        arrayEnd layout.hd ≤ partsec.offset.toNat) :
    GptRange layout entries front
        (gptFile layout.hd layout.size layout.partitions entries front contents) ↔
      RangeFits config layout := by
  have table := gptFile_array separate written
  have primary := gptFile_primary separate written
  have backed := gptFile_backup separate written
  have mbr : (gptFile layout.hd layout.size layout.partitions entries front contents).slice 440 72 =
      mbrTail layout.hd.disksig front := by
    rw [gptFile, ← length_mbrTail (mbrEntries_ok.mp written.front).2, File.slice_pwrite_self]
  generalize gptFile layout.hd layout.size layout.partitions entries front contents = file at *
  obtain ⟨_, _, firstIs, lastIs, _, _⟩ := headerFields primary
  have first : firstUsableLbaAt file 512 =
      (roundup (firstUsableOffset layout.partitions) 512 / 512).toNat := firstIs
  have room : layout.hd.gptLocation.toNat + 16384 ≤ layout.size.toNat := sound.stops _ sound.array
  have location := sound.location
  have last : lastUsableLbaAt file 512 = layout.size.toNat / 512 - 34 := by
    have one : (layout.size / 512 - 1).toNat = layout.size.toNat / 512 - 1 :=
      toNat_sector_sub (show 512 * 1 ≤ layout.size.toNat by omega)
    have behind : (layout.size / 512 - 1 - gptSectors).toNat = layout.size.toNat / 512 - 1 - 33 := by
      rw [toNat_sub_of_le (by rw [one, show gptSectors.toNat = 33 from rfl]; omega), one]
      rfl
    rw [lastIs]
    exact behind
  have stored : layout.hd.tableType = .hybrid →
      mbrEntries layout.hd layout.partitions = .ok front := by
    intro isHybrid
    have stored := written.front
    rwa [frontPartitions, if_pos isHybrid] at stored
  have inside := sound.firstUsable_inside_iff sectors
  rw [← first] at inside
  obtain ⟨rfl, _⟩ := gptTable_ok.mp written.table
  constructor
  · intro range
    refine ⟨explicit.mp range.behind, inside.mp fun part member inTable => ?_,
      fun isHybrid =>
        (hybrid_apart_iff (stored isHybrid) isHybrid).mp (range.hybrid isHybrid)⟩
    have listed : gptEntry part ∈ (layout.partitions.filter (·.inPartitionTable)).map gptEntry :=
      List.mem_map.mpr ⟨part, List.mem_filter.mpr ⟨member, inTable⟩, rfl⟩
    rw [← (sound.entry_sectors member inTable).1]
    exact (range.inside _ listed).1
  · intro fits
    have behind := explicit.mpr fits.explicit
    have above := inside.mpr fits.sector
    refine ⟨table, behind, ?_, ?_, sound.entries_apart, ?_, ?_, mbr,
      fun isHybrid =>
        (hybrid_apart_iff (stored isHybrid) isHybrid).mpr (fits.hybrid isHybrid)⟩
    · have reaches := sound.le_firstUsable sound.array GptSound.array_mem_boot behind
      rw [first]
      exact reaches.trans ((sound.firstUsable_le_iff sectors _).mp le_rfl)
    · intro entry member
      obtain ⟨part, listed, rfl⟩ := List.mem_map.mp member
      obtain ⟨among, inTable⟩ := List.mem_filter.mp listed
      obtain ⟨start, stop, ordered⟩ := sound.entry_sectors among inTable
      have below := sound.backup part among inTable
      refine ⟨?_, Nat.le_of_lt_succ ordered, ?_⟩
      · rw [start]
        exact above part among inTable
      · rw [last]
        omega
    · rw [last]
      omega
    · intro kept
      obtain ⟨_, _, firstIs', lastIs', _, _⟩ := headerFields (backed kept).2.1
      rw [firstIs', lastIs', firstIs, lastIs]
      exact ⟨rfl, rfl⟩

end File

/-! ### The run -/

/-- **The usable range is right exactly when** the explicit offsets are behind the array, no area ends
in the sector of the first partition, and a hybrid MBR has no conflict in 32 bits. -/
theorem hdimageInsertGpt_range_iff {os : Os} {fault : Prop} {world : World}
    (accepted : hdimageSetup env config = .ok layout) (gpt : layout.hd.tableType.hasGpt = true)
    (holeless : env.Holeless) (noWrap : NoWrap env config) (sectors : 512 ∣ layout.size.toNat)
    (whole : os.Whole)
    (safe : fault ∨ GptUnhindered layout.hd layout.size layout.partitions os world.contents) :
    Ensures fault (hdimageInsertGpt os layout.hd layout.size layout.partitions) world
      fun _ next => ∃ entries front, gptTable layout.partitions = .ok entries ∧
        mbrEntries layout.hd (frontPartitions layout.hd layout.size layout.partitions) =
          .ok front ∧
        (GptRange layout entries front next.contents ↔ RangeFits config layout) := by
  obtain ⟨_, _, _, _, areas⟩ := gptAreas accepted gpt
  have sound := gpt_sound accepted gpt holeless noWrap
  have explicit := behind_array_iff accepted gpt noWrap (sound.fits _ sound.array)
  refine (hdimageInsertGpt_ensures whole rfl safe).mono ?_
  rintro _ next ⟨entries, front, written, holds⟩
  refine ⟨entries, front, written.table, written.front, ?_⟩
  rw [holds.contents]
  exact gptRange_iff sound (areas.separate written).1 written sectors explicit

/-- A partition in front of a GPT array that has been moved. -/
def relocatedConfig : HdimageConfig where
  size := 4194304
  options := { partitionTableType := "gpt", gptLocation := 1048576 }
  partitions := [{ title := "boot", offset := 65536, size := 65536 }]

theorem exists_relocated : ∃ layout, hdimageSetup .bare relocatedConfig = .ok layout ∧
    layout.hd.tableType.hasGpt = true ∧ 512 ∣ layout.size.toNat ∧
    (∃ part ∈ layout.partitions, part.inPartitionTable = true ∧
      part.offset.toNat < arrayEnd layout.hd) ∧
    GptUnhindered layout.hd layout.size layout.partitions .calm .empty := by
  obtain ⟨layout, accepted, facts⟩ := exists_layout .bare relocatedConfig
    (fun layout => layout.hd.tableType.hasGpt && decide (512 ∣ layout.size.toNat) &&
      (layout.partitions.any fun part => part.inPartitionTable &&
        decide (part.offset.toNat < arrayEnd layout.hd)) && layout.roomForGpt) (by decide +kernel)
  simp only [Bool.and_eq_true, decide_eq_true_eq, List.any_eq_true] at facts
  obtain ⟨⟨⟨gpt, sectors⟩, part, member, inTable, before⟩, room⟩ := facts
  exact ⟨layout, accepted, gpt, sectors, ⟨part, member, inTable, before⟩, Layout.unhindered room⟩

/-- `hdimage_setup` accepts the partition, and the headers have it in front of the array. -/
theorem hdimageInsertGpt_before_array : ∃ layout next entries front,
    hdimageSetup .bare relocatedConfig = .ok layout ∧ NoWrap .bare relocatedConfig ∧
      512 ∣ layout.size.toNat ∧
      Returns (hdimageInsertGpt .calm layout.hd layout.size layout.partitions)
        ⟨some .empty, 0, 0, 0⟩ () next ∧
      gptTable layout.partitions = .ok entries ∧
      mbrEntries layout.hd (frontPartitions layout.hd layout.size layout.partitions) = .ok front ∧
      ¬ GptRange layout entries front next.contents := by
  obtain ⟨layout, accepted, gpt, sectors, ⟨part, member, inTable, before⟩, free⟩ := exists_relocated
  have run : Ensures False (hdimageInsertGpt .calm layout.hd layout.size layout.partitions)
      ⟨some .empty, 0, 0, 0⟩ _ :=
    hdimageInsertGpt_ensures Os.calm_reliable.whole rfl (Or.inr free)
  obtain ⟨_, next, returned, entries, front, written, _⟩ := run.returns
  exact ⟨layout, next, entries, front, accepted, by decide +kernel, sectors, returned,
    written.table, written.front,
    fun range => absurd (range.behind part member inTable) (not_le.mpr before)⟩

theorem hdimageInsertGpt_range_iff_relocated : ∃ layout,
    hdimageSetup .bare relocatedConfig = .ok layout ∧
      Ensures False (hdimageInsertGpt .calm layout.hd layout.size layout.partitions)
        ⟨some .empty, 0, 0, 0⟩ fun _ next => ∃ entries front,
          gptTable layout.partitions = .ok entries ∧
          mbrEntries layout.hd (frontPartitions layout.hd layout.size layout.partitions) =
            .ok front ∧
          (GptRange layout entries front next.contents ↔ RangeFits relocatedConfig layout) := by
  obtain ⟨layout, accepted, gpt, sectors, _, free⟩ := exists_relocated
  exact ⟨layout, accepted, hdimageInsertGpt_range_iff accepted gpt Env.bare_holeless
    (by decide +kernel) sectors Os.calm_reliable.whole (Or.inr free)⟩

end Genimage
