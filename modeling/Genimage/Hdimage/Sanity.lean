/-
**The documented sanity checks.**

`Sane` is what the documentation promises of a partition of an accepted configuration. The code
enforces only a part of it: a misplaced GPT array and an `align` that is no multiple of the image's
are reported without stopping, and the size is compared with sectors, never with `align`.
`Disciplined` is the condition on a section under which its partition is `Sane` all the same, and
`hdimageSetup_sane_iff` says that the two are equivalent.

The delicate case is a size taken from the image. `roundup` of the data size is a multiple of
`align` unless it wraps, and a wrapped one is below the data size, which is refused; only without
data can a size that is no multiple get through (`not_dvd_roundup_zero`).
-/

import Genimage.Hdimage.Origin

namespace Genimage

open Library

variable {env : Env} {hd : Hdimage} {size : UInt64}

/-- **A partition that passes every documented check.** -/
structure Sane (hd : Hdimage) (part : Partition) : Prop where
  offset_dvd : part.align.toNat ∣ part.offset.toNat
  size_dvd : part.align.toNat ∣ part.size.toNat
  size_ne : part.size ≠ 0
  align_dvd : part.inPartitionTable = true → hd.align.toNat ∣ part.align.toNat
  offset_sectors : part.inPartitionTable = true → 512 ∣ part.offset.toNat
  size_sectors : part.inPartitionTable = true → 512 ∣ part.size.toNat

/-- The bytes of data in the image of a section, as far as they are known. -/
def PartitionSection.knownData (env : Env) (partsec : PartitionSection) : UInt64 :=
  (partsec.image.bind env.imageGet).elim 0 (·.dataSize partsec.imageoffset)

/-- The alignment of a section in an image with a partition table. -/
def PartitionSection.effectiveAlign (hdAlign : UInt64) (partsec : PartitionSection) : UInt64 :=
  if partsec.align ≠ 0 then partsec.align else if partsec.inPartitionTable then hdAlign else 1

/-- **A section whose values are multiples where the documentation asks for it**: of the image
alignment the alignment, and of the alignment the size, where the size is neither left to
`autoresize` nor rounded. -/
structure Disciplined (env : Env) (hdAlign : UInt64) (partsec : PartitionSection) : Prop where
  align : partsec.inPartitionTable = true →
    hdAlign.toNat ∣ (partsec.effectiveAlign hdAlign).toNat
  given : partsec.autoresize = false → partsec.size ≠ 0 →
    (partsec.effectiveAlign hdAlign).toNat ∣ partsec.size.toNat
  data : partsec.autoresize = false → partsec.size = 0 →
    if partsec.inPartitionTable then partsec.knownData env ≠ 0
    else (partsec.effectiveAlign hdAlign).toNat ∣ (partsec.knownData env).toNat

/-! ### One partition -/

section Section

variable {partsec : PartitionSection} {part placed : Partition}

/-- The values that the checks look at, read off the section. -/
theorem origin_fromSection (stands : FromSection partsec part)
    (origin : Origin env hd size part placed) (table : hd.tableType ≠ .none) :
    placed.node = .parsed ∧ placed.align = partsec.effectiveAlign hd.align ∧
      placed.inPartitionTable = partsec.inPartitionTable ∧ placed.autoresize = partsec.autoresize ∧
      part.size = partsec.size ∧
      (placed.image = partsec.image ∧ placed.imageoffset = partsec.imageoffset) := by
  obtain ⟨logical, rfl⟩ := stands
  rw [origin.kept]
  refine ⟨rfl, ?_, ?_, rfl, rfl, rfl, rfl⟩
  · simp [Partition.withAlign, PartitionSection.effectiveAlign, parsePartition, table]
  · simp [Partition.withAlign, parsePartition, table]

/-- The size is a multiple of the alignment exactly when the section says so. -/
theorem size_dvd_iff (stands : FromSection partsec part)
    (origin : Origin env hd size part placed) (table : hd.tableType ≠ .none) :
    placed.align.toNat ∣ placed.size.toNat ↔
      (partsec.autoresize = false → partsec.size ≠ 0 →
        (partsec.effectiveAlign hd.align).toNat ∣ partsec.size.toNat) ∧
      (partsec.autoresize = false → partsec.size = 0 →
        if partsec.inPartitionTable then partsec.knownData env ≠ 0
        else (partsec.effectiveAlign hd.align).toNat ∣ (partsec.knownData env).toNat) := by
  obtain ⟨node, align, inTable, autoresize, given, image, imageoffset⟩ :=
    origin_fromSection stands origin table
  obtain ⟨rule, nonzero, _, enough⟩ := origin.sized (by rw [node]; exact nofun)
  rw [← align]
  cases rule with
  | autoresize on space =>
    rw [← autoresize, on, space]
    exact iff_of_true (dvd_rounddown _ _) ⟨nofun, nofun⟩
  | option off set same =>
    rw [given] at set same
    rw [← autoresize, off, same]
    exact ⟨fun dvd => ⟨fun _ _ => dvd, fun _ zero => absurd zero set⟩,
      fun both => both.1 rfl set⟩
  | unset _ _ _ zero => exact absurd zero nonzero
  | data off unset image' child found known rounded =>
    rw [given] at unset
    have knownData : partsec.knownData env = child.dataSize placed.imageoffset := by
      simp [PartitionSection.knownData, ← image, found, known, imageoffset]
    have enough := UInt64.le_iff_toNat_le.mp (enough image' child found known)
    rw [← autoresize, off, knownData, ← inTable]
    by_cases inside : placed.inPartitionTable = true
    · rw [if_pos inside] at rounded ⊢
      rw [rounded] at nonzero enough ⊢
      simp only [unset, ne_eq, not_true_eq_false, false_implies, implies_true, true_and,
        forall_const]
      exact dvd_roundup_iff nonzero enough
    · rw [if_neg inside] at rounded ⊢
      simp only [unset, ne_eq, not_true_eq_false, false_implies, implies_true, true_and,
        forall_const, rounded]

/-- **A partition is sane exactly when its section is disciplined.** -/
theorem sane_iff (stands : FromSection partsec part) (origin : Origin env hd size part placed)
    (table : hd.tableType ≠ .none) (sectors : 512 ∣ hd.align.toNat) :
    Disciplined env hd.align partsec ↔ Sane hd placed := by
  obtain ⟨node, align, inTable, _⟩ := origin_fromSection stands origin table
  obtain ⟨_, nonzero, sizeSectors, _⟩ := origin.sized (by rw [node]; exact nofun)
  have sizes := size_dvd_iff stands origin table
  constructor
  · intro disciplined
    have alignDvd : placed.inPartitionTable = true → hd.align.toNat ∣ placed.align.toNat := by
      rw [inTable, align]
      exact disciplined.align
    exact {
      offset_dvd := origin.offset_dvd
      size_dvd := sizes.mpr ⟨disciplined.given, disciplined.data⟩
      size_ne := nonzero
      align_dvd := alignDvd
      offset_sectors := fun inside => (sectors.trans (alignDvd inside)).trans origin.offset_dvd
      size_sectors := sizeSectors }
  · intro sane
    obtain ⟨given, data⟩ := sizes.mp sane.size_dvd
    refine ⟨?_, given, data⟩
    rw [← inTable, ← align]
    exact sane.align_dvd

end Section

/-! ### The configuration -/

/-- **The documented checks hold of an accepted configuration exactly when** `gpt-location` is a
multiple of a sector and every section is disciplined. -/
theorem hdimageSetup_sane_iff {config : HdimageConfig} {layout : Layout} {tableType : TableType}
    (accepted : hdimageSetup env config = .ok layout)
    (parsed : parseTableType config.options = .ok tableType) (table : tableType ≠ .none) :
    (512 ∣ layout.hd.gptLocation.toNat ∧
      ∀ part ∈ userPartitions layout.partitions, Sane layout.hd part) ↔
    (512 ∣ config.options.gptLocation.toNat ∧ ∀ partsec ∈ config.partitions,
      Disciplined env (effectiveAlign tableType config.options.align) partsec) := by
  obtain ⟨prepared, run, hdEq, sections⟩ := setup_sections accepted
  have ready := prepare_ok run
  obtain rfl : tableType = prepared.hd.tableType := by
    have same := parsed.symm.trans ready.table
    exact Except.ok.inj same
  have location : 512 ∣ prepared.hd.gptLocation.toNat ↔ 512 ∣ config.options.gptLocation.toNat := by
    rw [ready.gptLocation_eq]
    split_ifs with zero
    · rw [zero]
      decide
    · rfl
  rw [hdEq, location, ← ready.align_eq]
  refine and_congr_right fun _ => (Related.forall_iff sections ?_).symm
  rintro partsec placed ⟨part, stands, origin⟩
  exact sane_iff stands origin table (ready.sectors table)

/-- A GPT array that is no multiple of a sector, an `align` that is no multiple of the image's and a
size that is no multiple of `align`. -/
def misalignedConfig : HdimageConfig where
  size := 1048576
  options := { partitionTableType := "gpt", align := 1024, gptLocation := 4000 }
  partitions := [{ title := "root", align := 1536, size := 512 }]

theorem hdimageSetup_accepts_misaligned :
    ∃ layout, hdimageSetup .bare misalignedConfig = .ok layout ∧
      ¬ (512 ∣ layout.hd.gptLocation.toNat ∧
        ∀ part ∈ userPartitions layout.partitions, Sane layout.hd part) := by
  obtain ⟨layout, accepted, location⟩ := exists_layout .bare misalignedConfig
    (fun layout => layout.hd.gptLocation = 4000) (by decide +kernel)
  refine ⟨layout, accepted, fun sane => ?_⟩
  rw [of_decide_eq_true location] at sane
  exact absurd sane.1 (by decide)

theorem hdimageSetup_sane_iff_misaligned :
    ∃ layout, hdimageSetup .bare misalignedConfig = .ok layout ∧
      ((512 ∣ layout.hd.gptLocation.toNat ∧
        ∀ part ∈ userPartitions layout.partitions, Sane layout.hd part) ↔
      (512 ∣ misalignedConfig.options.gptLocation.toNat ∧
        ∀ partsec ∈ misalignedConfig.partitions, Disciplined .bare
          (effectiveAlign .gpt misalignedConfig.options.align) partsec)) := by
  obtain ⟨layout, accepted, _⟩ := exists_layout .bare misalignedConfig
    (fun _ => true) (by decide +kernel)
  exact ⟨layout, accepted, hdimageSetup_sane_iff accepted rfl nofun⟩

end Genimage
