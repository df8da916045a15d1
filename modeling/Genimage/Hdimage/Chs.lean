/-
**The CHS fields of the table entries.**

`lba_to_chs` packs a 10-bit cylinder, a head and a 6-bit sector into three bytes. Sectors from
`1024 * 255 * 63` on have no such address: the conventional bytes are then those of the last address
there is. The source masks the cylinder instead, so that the address starts again at sector 0
(`hdimageSetupChs_names_iff`).
-/

import Genimage.Hdimage.Accepted
import Genimage.Hdimage.Mbr

namespace Genimage

open Library

/-! ### Reading a table -/

/-- The 16 bytes of the entry `i` of a table. -/
def entrySlot (table : List UInt8) (i : ℕ) : List UInt8 := (table.drop (16 * i)).take 16

theorem entrySlot_entryTable {entries : List MbrPartitionEntry} {i : ℕ} (inside : i < entries.length) :
    entrySlot (entryTable entries) i = entries[i].bytes := by
  have more : i < (entries ++ List.replicate (4 - entries.length) emptyEntry).length := by
    rw [List.length_append]
    exact Nat.lt_add_right _ inside
  rw [entrySlot, entryTable, flatMap_block MbrPartitionEntry.length_bytes _ more,
    List.getElem_append_left inside]

/-- The number of sectors that have an address. -/
def chsLimit : ℕ := 1024 * 255 * 63

/-- **The sector that three bytes name** with 255 heads and 63 sectors per track: the upper two bits of
the cylinder are in the sector byte. -/
def chsSector (bytes : List UInt8) : Option ℕ :=
  let head := (bytes.getD 0 0).toNat
  let sector := (bytes.getD 1 0).toNat % 64
  let cylinder := (bytes.getD 2 0).toNat + 256 * ((bytes.getD 1 0).toNat / 64)
  if head < 255 ∧ 1 ≤ sector then some ((cylinder * 255 + head) * 63 + (sector - 1)) else none

/-- The two ends of an entry. -/
inductive Edge where
  | first
  | last

/-- The address of an end, in the 16 bytes of its entry. -/
def Edge.chs (slot : List UInt8) : Edge → List UInt8
  | .first => (slot.drop 1).take 3
  | .last => (slot.drop 5).take 3

/-- The absolute sector of an end, for an entry that counts from the sector `base`. -/
def Edge.sector (entry : MbrPartitionEntry) (base : ℕ) : Edge → ℕ
  | .first => base + entry.relativeSectors.toNat
  | .last => base + entry.relativeSectors.toNat + entry.totalSectors.toNat - 1

/-- **The bytes name the sector**, or, if it has no address, none but the last one there is. -/
def NamesSector (bytes : List UInt8) (sector : ℕ) : Prop :=
  if sector < chsLimit then chsSector bytes = some sector
  else ∀ named < chsLimit, chsSector bytes = some named → named = chsLimit - 1

/-! ### `lba_to_chs` -/

/-- The three bytes of an address. -/
def Chs.bytes (chs : Chs) : List UInt8 := [chs.head, chs.sector, chs.cylinder]

/-- The upper bits of the cylinder stand above the six of the sector. -/
theorem upper_bits (c : ℕ) : (c &&& 0x300) >>> 2 = 64 * (c / 256 % 4) := by
  have low : (c &&& 0x300) % 256 = 0 := by
    rw [← Nat.and_two_pow_sub_one_eq_mod _ 8, Nat.and_assoc]
    exact Nat.and_zero c
  have high : (c &&& 0x300) / 256 = c / 256 % 4 := by
    rw [← Nat.shiftRight_eq_div_pow _ 8, Nat.shiftRight_and_distrib,
      ← Nat.and_two_pow_sub_one_eq_mod _ 2, ← Nat.shiftRight_eq_div_pow _ 8]
    rfl
  rw [Nat.shiftRight_eq_div_pow]
  omega

/-- The cylinder and the sector share a byte. -/
theorem packed_bits (c : ℕ) {s : ℕ} (small : s < 64) :
    ((c &&& 0x300) >>> 2 ||| (s &&& 0xff)) = 64 * (c / 256 % 4) + s := by
  have whole : s &&& 0xff = s := by
    rw [Nat.and_two_pow_sub_one_eq_mod _ 8]
    omega
  rw [whole, upper_bits]
  exact (Nat.two_pow_add_eq_or_of_lt (i := 6) small (c / 256 % 4)).symm

theorem lbaToChs_head (lba : UInt32) : (lbaToChs lba).head.toNat = lba.toNat / 63 % 255 := by
  show (lba / 63 % 255).toUInt8.toNat = _
  rw [UInt32.toNat_toUInt8, UInt32.toNat_mod, UInt32.toNat_div]
  show lba.toNat / 63 % 255 % 256 = _
  omega

theorem lbaToChs_cylinder (lba : UInt32) :
    (lbaToChs lba).cylinder.toNat = lba.toNat / 16065 % 256 := by
  show (lba / (63 * 255) &&& 0xff).toUInt8.toNat = _
  rw [UInt32.toNat_toUInt8, UInt32.toNat_and, UInt32.toNat_div]
  show (lba.toNat / 16065 &&& 0xff) % 256 = _
  rw [Nat.and_two_pow_sub_one_eq_mod _ 8]
  omega

theorem lbaToChs_sector (lba : UInt32) : (lbaToChs lba).sector.toNat =
    64 * (lba.toNat / 16065 / 256 % 4) + (if lba = 0 then 0 else lba.toNat % 63 + 1) := by
  have sector : (if lba > 0 then lba % 63 + 1 else 0 : UInt32).toNat =
      if lba = 0 then 0 else lba.toNat % 63 + 1 := by
    by_cases zero : lba = 0
    · rw [zero]
      rfl
    · rw [if_neg zero, if_pos (UInt32.pos_iff_ne_zero.mpr zero), UInt32.toNat_add, UInt32.toNat_mod]
      show (lba.toNat % 63 + 1) % 2 ^ 32 = _
      omega
  have small : (if lba = 0 then 0 else lba.toNat % 63 + 1) < 64 := by
    split_ifs <;> omega
  show ((lba / (63 * 255) &&& 0x300) >>> 2 |||
    ((if lba > 0 then lba % 63 + 1 else 0) &&& 0xff)).toUInt8.toNat = _
  rw [UInt32.toNat_toUInt8, UInt32.toNat_or, UInt32.toNat_shiftRight, UInt32.toNat_and,
    UInt32.toNat_and, sector, UInt32.toNat_div]
  show ((lba.toNat / 16065 &&& 0x300) >>> 2 ||| (_ &&& 0xff)) % 256 = _
  rw [packed_bits _ small]
  omega

/-- **What the three bytes name**: nothing for the sector 0, else the sector in the range of the
addresses. -/
theorem chsSector_lbaToChs (lba : UInt32) : chsSector (lbaToChs lba).bytes =
    if lba = 0 then none else some (lba.toNat % chsLimit) := by
  show (if (lbaToChs lba).head.toNat < 255 ∧ 1 ≤ (lbaToChs lba).sector.toNat % 64 then
    some ((((lbaToChs lba).cylinder.toNat + 256 * ((lbaToChs lba).sector.toNat / 64)) * 255 +
      (lbaToChs lba).head.toNat) * 63 + ((lbaToChs lba).sector.toNat % 64 - 1)) else none) = _
  rw [lbaToChs_head, lbaToChs_cylinder, lbaToChs_sector]
  by_cases zero : lba = 0
  · rw [if_pos zero, if_pos zero]
    exact if_neg (by omega)
  · rw [if_neg zero, if_neg zero, if_pos (by omega), Option.some.injEq, chsLimit]
    omega

/-! ### `hdimage_setup_chs` -/

/-- **An end has the right bytes**: it has an address, or the sector number stored in 32 bits is one
that has none or the last one. -/
def Addressed (sector : ℕ) : Prop :=
  sector < chsLimit ∨ sector % 2 ^ 32 = 0 ∨ sector % 2 ^ 32 % chsLimit = chsLimit - 1

theorem toNat_ofNat_eq_zero {sector : ℕ} : UInt32.ofNat sector = 0 ↔ sector % 2 ^ 32 = 0 := by
  rw [← UInt32.toNat_inj, UInt32.toNat_ofNat', UInt32.toNat_zero]

/-- **The bytes are right exactly when the sector is addressed.** -/
theorem namesSector_iff {sector : ℕ} (positive : 1 ≤ sector) :
    NamesSector (lbaToChs (UInt32.ofNat sector)).bytes sector ↔ Addressed sector := by
  have limit : chsLimit = 16450560 := rfl
  rw [NamesSector, Addressed, chsSector_lbaToChs]
  simp only [toNat_ofNat_eq_zero, UInt32.toNat_ofNat']
  split_ifs with below none none
  · omega
  · have same : sector % 2 ^ 32 % chsLimit = sector := by
      rw [Nat.mod_eq_of_lt (show sector < 2 ^ 32 by omega), Nat.mod_eq_of_lt below]
    exact iff_of_true (congrArg some same) (Or.inl below)
  · exact iff_of_true (fun _ _ wrong => by cases wrong) (Or.inr (Or.inl none))
  · constructor
    · intro names
      exact Or.inr (Or.inr (names _ (Nat.mod_lt _ (by decide)) rfl))
    · rintro (wrong | wrong | last) named _ same
      · exact absurd wrong below
      · exact absurd wrong none
      · rw [← Option.some.inj same, last]

/-- The ends are computed with the sectors cut to 32 bits, in whatever width the sums are made. -/
theorem Edge.chs_setup (entry : MbrPartitionEntry) (base : UInt64) (edge : Edge)
    (positive : 1 ≤ edge.sector entry base.toNat) :
    edge.chs (hdimageSetupChs entry base).bytes =
      (lbaToChs (UInt32.ofNat (edge.sector entry base.toNat))).bytes := by
  have small := entry.relativeSectors.toNat_lt
  have small' := entry.totalSectors.toNat_lt
  cases edge with
  | first =>
    have sum : (entry.relativeSectors.toUInt64 + base).toUInt32 =
        UInt32.ofNat (Edge.first.sector entry base.toNat) := by
      rw [← UInt32.toNat_inj, UInt64.toNat_toUInt32, UInt64.toNat_add, UInt32.toNat_toUInt64,
        UInt32.toNat_ofNat', Edge.sector]
      omega
    rw [← sum]
    rfl
  | last =>
    have sum : ((entry.relativeSectors + entry.totalSectors - 1).toUInt64 + base).toUInt32 =
        UInt32.ofNat (Edge.last.sector entry base.toNat) := by
      rw [Edge.sector] at positive
      rw [← UInt32.toNat_inj, UInt64.toNat_toUInt32, UInt64.toNat_add, UInt32.toNat_toUInt64,
        UInt32.toNat_ofNat', Edge.sector, UInt32.toNat_sub, UInt32.toNat_add, UInt32.toNat_one]
      omega
    rw [← sum]
    rfl

/-! ### The tables of an image -/

/-- **The entries that are written**, each with the sector it counts from: the one of the table for a
partition, the one of the extended partition for the next extended boot record. -/
inductive WrittenTable (layout : Layout) : List (MbrPartitionEntry × ℕ) → Prop where
  | mbr {entries : List MbrPartitionEntry}
      (stored : mbrEntries layout.hd layout.partitions = .ok entries) :
      WrittenTable layout (entries.map (·, 0))
  | protective {entries : List MbrPartitionEntry}
      (stored : mbrEntries layout.hd [protectivePartition layout.size] = .ok entries) :
      WrittenTable layout (entries.map (·, 0))
  | ebr {front rest : List Partition} {part : Partition}
      (split : layout.partitions = front ++ part :: rest) (logical : part.logical = true) :
      WrittenTable layout ((ebrEntries layout.hd (extendedOffset layout.partitions) part rest).zip
        [((part.offset - layout.hd.align) / 512).toNat,
          (extendedOffset layout.partitions / 512).toNat])

/-- **A logical partition counts from its extended boot record**: the sector is the one of the partition
itself. -/
theorem ebrEntry_sector {hd : Hdimage} {part : Partition} (whole : 512 ∣ hd.align.toNat)
    (small : hd.align.toNat < 2 ^ 41) (behind : hd.align.toNat ≤ part.offset.toNat) :
    Edge.first.sector (ebrEntry hd part) ((part.offset - hd.align) / 512).toNat =
      part.offset.toNat / 512 := by
  show ((part.offset - hd.align) / 512).toNat + (hd.align / 512).toUInt32.toNat = _
  rw [UInt64.toNat_toUInt32, UInt64.toNat_div, UInt64.toNat_div, toNat_sub_of_le behind]
  show (part.offset.toNat - hd.align.toNat) / 512 + hd.align.toNat / 512 % 2 ^ 32 = _
  omega

/-- Every entry went through `hdimage_setup_chs`, with the sector that it counts from. -/
theorem WrittenTable.setup {layout : Layout} {table : List (MbrPartitionEntry × ℕ)}
    (written : WrittenTable layout table) {entry : MbrPartitionEntry} {base : ℕ}
    (member : (entry, base) ∈ table) :
    ∃ (plain : MbrPartitionEntry) (sectors : UInt64), entry = hdimageSetupChs plain sectors ∧
      base = sectors.toNat := by
  have entries : ∀ {hd : Hdimage} {partitions : List Partition} {entries : List MbrPartitionEntry},
      mbrEntries hd partitions = .ok entries → (entry, base) ∈ entries.map (·, 0) →
      ∃ (plain : MbrPartitionEntry) (sectors : UInt64), entry = hdimageSetupChs plain sectors ∧
        base = sectors.toNat := by
    intro hd partitions entries stored member
    obtain ⟨same, inside, rfl, rfl⟩ := List.mem_map.mp member
    rw [(mbrEntries_ok.mp stored).1, List.mem_append, List.mem_map] at inside
    rcases inside with ⟨part, _, rfl⟩ | inside
    · exact ⟨_, 0, rfl, rfl⟩
    · split at inside
      · rw [List.mem_singleton.mp inside]
        exact ⟨_, 0, rfl, rfl⟩
      · cases inside
  cases written with
  | mbr stored => exact entries stored member
  | protective stored => exact entries stored member
  | ebr split logical =>
    rename_i front rest part
    rw [ebrEntries] at member
    cases found : rest.find? (·.logical) with
    | none =>
      rw [found] at member
      obtain ⟨rfl, rfl⟩ := Prod.mk.inj (List.mem_singleton.mp member)
      exact ⟨_, _, rfl, rfl⟩
    | some next =>
      rw [found] at member
      rcases List.mem_cons.mp member with same | member
      · obtain ⟨rfl, rfl⟩ := Prod.mk.inj same
        exact ⟨_, _, rfl, rfl⟩
      · obtain ⟨rfl, rfl⟩ := Prod.mk.inj (List.mem_singleton.mp member)
        exact ⟨_, _, rfl, rfl⟩

/-- **A CHS field is right exactly when** its sector is below the limit, or comes out as no address or as
the last one. -/
theorem hdimageSetupChs_names_iff {layout : Layout} {table : List (MbrPartitionEntry × ℕ)}
    (written : WrittenTable layout table) {i : ℕ} (inside : i < table.length) (edge : Edge)
    (positive : 1 ≤ edge.sector table[i].1 table[i].2) :
    NamesSector (edge.chs (entrySlot (entryTable (table.map Prod.fst)) i))
        (edge.sector table[i].1 table[i].2) ↔
      Addressed (edge.sector table[i].1 table[i].2) := by
  have inside' : i < (table.map Prod.fst).length := by rwa [List.length_map]
  have member : (table[i].1, table[i].2) ∈ table := List.getElem_mem inside
  obtain ⟨plain, sectors, same, base⟩ := written.setup member
  rw [entrySlot_entryTable inside', List.getElem_map]
  have here : edge.sector table[i].1 table[i].2 = edge.sector plain sectors.toNat := by
    rw [same, base]
    cases edge <;> rfl
  rw [here] at positive ⊢
  rw [same, Edge.chs_setup plain sectors edge positive]
  exact namesSector_iff positive

/-- A partition from the first sector on that has no address. -/
def farConfig : HdimageConfig where
  options := { partitionTableType := "mbr" }
  partitions := [{ title := "far", offset := 8422686720, size := 1048576 }]

/-- The first sector of `far` is the limit. -/
def farEntry : MbrPartitionEntry :=
  hdimageSetupChs { relativeSectors := 16450560, totalSectors := 2048 } 0

theorem exists_far : ∃ layout, hdimageSetup .bare farConfig = .ok layout ∧
    WrittenTable layout [(farEntry, 0)] := by
  obtain ⟨layout, accepted, stored⟩ := exists_layout .bare farConfig
    (fun layout => (mbrEntries layout.hd layout.partitions).toOption.any (· = [farEntry]))
    (by decide +kernel)
  obtain ⟨entries, stored, same⟩ := exists_ok _ _ stored
  rw [of_decide_eq_true same] at stored
  exact ⟨layout, accepted, .mbr stored⟩

/-- The entry of `far` names the sector 0. -/
theorem hdimageSetupChs_wraps : ∃ layout, hdimageSetup .bare farConfig = .ok layout ∧
    WrittenTable layout [(farEntry, 0)] ∧ Edge.first.sector farEntry 0 = chsLimit ∧
    chsSector (Edge.first.chs (entrySlot (entryTable [farEntry]) 0)) = some 0 ∧
    ¬ NamesSector (Edge.first.chs (entrySlot (entryTable [farEntry]) 0))
      (Edge.first.sector farEntry 0) := by
  obtain ⟨layout, accepted, written⟩ := exists_far
  have start : chsSector (Edge.first.chs (entrySlot (entryTable [farEntry]) 0)) = some 0 := by
    decide +kernel
  refine ⟨layout, accepted, written, rfl, start, fun names => ?_⟩
  rw [NamesSector, if_neg (show ¬ Edge.first.sector farEntry 0 < chsLimit by decide)] at names
  exact absurd (names 0 (by decide) start) (by decide)

theorem hdimageSetupChs_names_iff_far : ∃ layout, hdimageSetup .bare farConfig = .ok layout ∧
    (NamesSector (Edge.last.chs (entrySlot (entryTable [farEntry]) 0)) 16452607 ↔
      Addressed 16452607) := by
  obtain ⟨layout, accepted, written⟩ := exists_far
  exact ⟨layout, accepted, hdimageSetupChs_names_iff written (i := 0) (by decide) .last (by decide)⟩

end Genimage
