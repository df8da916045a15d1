/-
**The entries of a GPT, read back.**

`readGptTable` is a reader of the 128 slots: an all-zero type GUID means unused, and everything else is
taken as the format says. `hdimageInsertGpt_entries_iff` says when it finds the partitions of the
table as they are configured. What can go wrong is the type GUID itself, an offset that is no whole
sector, an end that is no word, and a label that is not ASCII.
-/

import Genimage.Hdimage.GptFile
import Genimage.Util.Crc32Bits
import Genimage.Util.UuidText
import Genimage.Util.WideName

namespace Genimage

open Library Effect

/-! ### The reader -/

/-- An entry as a reader finds it. -/
structure GptEntryRead where
  typeUuid : List UInt8
  uuid : List UInt8
  firstLba : Nat
  lastLba : Nat
  flags : Nat
  name : List Nat

/-- One slot of the table. The name ends at the first zero. -/
def readGptEntry (slot : List UInt8) : GptEntryRead where
  typeUuid := slot.take 16
  uuid := (slot.drop 16).take 16
  firstLba := field slot 32 8
  lastLba := field slot 40 8
  flags := field slot 48 8
  name := ((chunks 2 36 (slot.drop 56)).map leValue).takeWhile (· ≠ 0)

/-- The type GUID of an unused slot. -/
def unusedGuid : List UInt8 := List.replicate 16 0

/-- **The entries of a table.** -/
def readGptTable (table : List UInt8) : List GptEntryRead :=
  (chunks 128 128 table).filterMap fun slot =>
    if slot.take 16 = unusedGuid then none else some (readGptEntry slot)

/-- `header_crc` of the header at `place`. -/
def headerCrcAt (file : File) (place : Nat) : Nat := headerField file place 16 4

/-- The header at `place` with its `header_crc` set to zero. -/
def withoutCrc (file : File) (place : Nat) : List UInt8 :=
  file.slice place 16 ++ List.replicate 4 0 ++ file.slice (place + 20) 72

/-! ### What is expected -/

/-- The bytes are those of the GUID that `text` denotes. -/
def DenotesGuid (text : String) (bytes : List UInt8) : Prop :=
  ∃ guid : Guid, guid.1 = bytes ∧ cBytes (formatGuid guid) = (cBytes text).map tolower

/-- The attribute bits of a partition. -/
def attributeBit (part : Partition) (i : Nat) : Bool :=
  (part.bootable && decide (i = 2)) || (part.readOnly && decide (i = 60)) ||
    (part.hidden && decide (i = 62)) || (part.noAutomount && decide (i = 63))

/-- **An entry is that of a partition.** A UUID that `uuid_random` has chosen is no text of a GUID; it
is read as `uuid_parse` reads it. -/
structure EntryOf (part : Partition) (entry : GptEntryRead) : Prop where
  typeUuid : ∃ text, part.partitionTypeUuid = some text ∧ DenotesGuid text entry.typeUuid
  uuid : ∃ text, part.partitionUuid = some text ∧ entry.uuid = uuidParse text ∧
    (uuidValidate text = 0 → DenotesGuid text entry.uuid)
  first : 512 * entry.firstLba = part.offset.toNat
  last : 512 * (entry.lastLba + 1) = part.span.stop
  flags : ∀ i, entry.flags.testBit i = attributeBit part i
  name : entry.name = ((cChars part.name).flatMap utf16Units).take 36

/-- The partitions of the table. -/
def tablePartitions (partitions : List Partition) : List Partition :=
  partitions.filter (·.inPartitionTable)

/-- **The table at `array` and its header at `header`** decode to the partitions, and their checksums
are right. -/
structure TableDecodes (partitions : List Partition) (file : File) (header array : Nat) : Prop where
  entries : List.Forall₂ EntryOf (tablePartitions partitions) (readGptTable (file.slice array 16384))
  tableCrc : tableCrcAt file header = (crc32Bits (file.slice array 16384)).toNat
  headerCrc : headerCrcAt file header = (crc32Bits (withoutCrc file header)).toNat

/-- **A GPT decodes**: the table at the front and, unless it is left out, its backup. -/
structure GptDecodes (layout : Layout) (file : File) : Prop where
  primary : TableDecodes layout.partitions file 512 layout.hd.gptLocation.toNat
  backup : layout.hd.gptNoBackup = false → TableDecodes layout.partitions file
    (layout.size.toNat - 512) (layout.size.toNat - 16896)

/-- The type UUID that stands for an unused slot. -/
def unusedUuid : String := "00000000-0000-0000-0000-000000000000"

/-- **A partition that an entry can hold**: its type is not that of an unused slot, it begins at a
sector and ends at a word, and its label survives. -/
structure EntryExact (part : Partition) : Prop where
  used : ∀ text, part.partitionTypeUuid = some text → cBytes text ≠ cBytes unusedUuid
  sector : 512 ∣ part.offset.toNat
  fits : part.Fits
  name : NameSurvives 36 (cChars part.name)

/-! ### One slot -/

theorem GptPartitionEntry.split_bytes (entry : GptPartitionEntry) : entry.bytes =
    entry.typeUuid.1 ++ (entry.uuid.1 ++ ([leBytes 8 entry.firstLba.toNat,
      leBytes 8 entry.lastLba.toNat, leBytes 8 entry.flags.toNat].flatten ++
      (entry.name.1.map fun unit => leBytes 2 unit.toNat).flatten)) := by
  simp [GptPartitionEntry.bytes, List.flatMap]

/-- **What a reader finds in a slot** is what was written. -/
theorem readGptEntry_bytes (entry : GptPartitionEntry) : readGptEntry entry.bytes =
    ⟨entry.typeUuid.1, entry.uuid.1, entry.firstLba.toNat, entry.lastLba.toNat, entry.flags.toNat,
      (entry.name.1.map UInt16.toNat).takeWhile (· ≠ 0)⟩ := by
  have type := entry.typeUuid.2
  have uuid := entry.uuid.2
  have units := entry.name.2
  have place : entry.bytes.drop 56 = (entry.name.1.map fun unit => leBytes 2 unit.toNat).flatten := by
    rw [GptPartitionEntry.split_bytes, ← List.append_assoc, ← List.append_assoc]
    exact List.drop_left' (by simp [type, uuid])
  have first : field entry.bytes 32 8 = entry.firstLba.toNat := by
    rw [← List.append_nil entry.bytes]
    exact (field_block [_, _] (by simp [type, uuid]) (length_leBytes 8 _)).trans
      (leValue_leBytes_uint64 _)
  have last : field entry.bytes 40 8 = entry.lastLba.toNat := by
    rw [← List.append_nil entry.bytes]
    exact (field_block [_, _, _] (by simp [type, uuid]) (length_leBytes 8 _)).trans
      (leValue_leBytes_uint64 _)
  have flags : field entry.bytes 48 8 = entry.flags.toNat := by
    rw [← List.append_nil entry.bytes]
    exact (field_block [_, _, _, _] (by simp [type, uuid]) (length_leBytes 8 _)).trans
      (leValue_leBytes_uint64 _)
  have name : (chunks 2 36 (entry.bytes.drop 56)).map leValue = entry.name.1.map UInt16.toNat := by
    have words : ∀ word ∈ entry.name.1.map fun unit => leBytes 2 unit.toNat, word.length = 2 := by
      simp
    have cut := chunks_flatten [] words
    rw [List.length_map, units, List.append_nil] at cut
    rw [place, cut, List.map_map]
    exact List.map_congr_left fun unit _ => leValue_leBytes_uint16 unit
  rw [readGptEntry, first, last, flags, name, GptPartitionEntry.split_bytes,
    List.take_left' type, List.drop_left' type, List.take_left' uuid]

/-- The type GUID stands at the start of the slot. -/
theorem GptPartitionEntry.take_bytes (entry : GptPartitionEntry) :
    entry.bytes.take 16 = entry.typeUuid.1 := by
  rw [GptPartitionEntry.split_bytes, List.take_left' entry.typeUuid.2]

/-- The table is its slots, one after the other. -/
theorem tableBytes_flatten (entries : List GptPartitionEntry) :
    tableBytes entries = (entries.map GptPartitionEntry.bytes ++
      List.replicate (gptEntries - entries.length) (List.replicate 128 0)).flatten := by
  rw [tableBytes, List.flatten_append, List.flatten_replicate_replicate, List.flatMap_def, Nat.mul_comm]

/-- **A reader of the table** finds the entries that do not look unused. -/
theorem readGptTable_bytes {entries : List GptPartitionEntry} (few : entries.length ≤ gptEntries) :
    readGptTable (tableBytes entries) = entries.filterMap fun entry =>
      if entry.typeUuid.1 = unusedGuid then none else some (readGptEntry entry.bytes) := by
  have slots : ∀ slot ∈ entries.map GptPartitionEntry.bytes ++
      List.replicate (gptEntries - entries.length) (List.replicate 128 0), slot.length = 128 := by
    intro slot member
    rcases List.mem_append.mp member with used | unused
    · obtain ⟨entry, _, rfl⟩ := List.mem_map.mp used
      exact entry.length_bytes
    · rw [(List.mem_replicate.mp unused).2, List.length_replicate]
  have cut := chunks_flatten [] slots
  have count : (entries.map GptPartitionEntry.bytes ++
      List.replicate (gptEntries - entries.length) (List.replicate 128 0)).length = 128 := by
    rw [List.length_append, List.length_map, List.length_replicate, Nat.add_sub_cancel' few]
    rfl
  have free : (List.replicate (gptEntries - entries.length) (List.replicate 128 (0 : UInt8))).filterMap
      (fun slot => if slot.take 16 = unusedGuid then none else some (readGptEntry slot)) = [] := by
    rw [List.filterMap_eq_nil_iff]
    intro slot member
    rw [(List.mem_replicate.mp member).2]
    rfl
  rw [count, List.append_nil, ← tableBytes_flatten] at cut
  rw [readGptTable, cut, List.filterMap_append, free, List.append_nil, List.filterMap_map]
  refine List.filterMap_congr fun entry _ => ?_
  rw [Function.comp_apply, entry.take_bytes]

/-! ### One partition -/

section Partition

variable {part : Partition}

/-- One attribute bit. -/
theorem testBit_flag {flag : Bool} {k : Nat} (small : k < 64) (i : Nat) :
    (if flag then UInt64.ofNat (2 ^ k) else 0).toNat.testBit i = (flag && decide (i = k)) := by
  cases flag with
  | false => simp
  | true =>
    rw [if_pos rfl, UInt64.toNat_ofNat_of_lt' (Nat.pow_lt_pow_right (by decide) small),
      Nat.testBit_two_pow, Bool.true_and]
    exact decide_eq_decide.mpr eq_comm

theorem testBit_gptFlags (part : Partition) (i : Nat) :
    (gptFlags part).toNat.testBit i = attributeBit part i := by
  rw [gptFlags, UInt64.toNat_or, UInt64.toNat_or, UInt64.toNat_or, Nat.testBit_or, Nat.testBit_or,
    Nat.testBit_or]
  rw [gptPeFlagBootable, gptPeFlagReadOnly, gptPeFlagHidden, gptPeFlagNoAuto,
    testBit_flag (by decide), testBit_flag (by decide), testBit_flag (by decide),
    testBit_flag (by decide)]
  rfl

/-- The name that is read back: the bytes of the label, widened. -/
theorem gptName_read (name : String) :
    ((gptName name).1.map UInt16.toNat).takeWhile (· ≠ 0) =
      ((cChars name).flatMap wideUnits).take 36 := by
  have units : ((cBytes name).map widenChar).map UInt16.toNat = (cChars name).flatMap wideUnits := by
    rw [cBytes_eq, List.map_map, List.map_flatMap]
    rfl
  have nonzero : ∀ unit ∈ ((cBytes name).map widenChar).map UInt16.toNat, unit ≠ 0 := by
    intro unit member
    rw [List.map_map] at member
    obtain ⟨byte, among, rfl⟩ := List.mem_map.mp member
    have other : byte ≠ 0 := by simpa using List.mem_takeWhile_imp among
    have positive : 0 < byte.toNat := Nat.pos_of_ne_zero fun zero => other (UInt8.toNat_inj.mp zero)
    rw [Function.comp_apply, toNat_widenChar]
    split_ifs <;> omega
  rw [gptName, padName, List.map_append, List.map_replicate, List.map_take, units]
  rw [units] at nonzero
  rw [List.takeWhile_append_of_pos fun unit member => by
    simpa using nonzero unit (List.mem_of_mem_take member), List.takeWhile_replicate]
  exact List.append_nil _

/-- A letter case does not make a text the unused one. -/
theorem unused_of_lower {text : String} (same : (cBytes text).map tolower = cBytes unusedUuid) :
    cBytes text = cBytes unusedUuid := by
  have plain : ∀ n < 256, tolower (UInt8.ofNat n) = 0x30 ∨ tolower (UInt8.ofNat n) = 0x2d →
      tolower (UInt8.ofNat n) = UInt8.ofNat n := by
    decide +kernel
  have digits : ∀ byte ∈ cBytes unusedUuid, byte = 0x30 ∨ byte = 0x2d := by
    decide +kernel
  have kept : (cBytes text).map tolower = (cBytes text).map id := by
    refine List.map_congr_left fun byte member => ?_
    have digit := digits (tolower byte) (by rw [← same]; exact List.mem_map_of_mem member)
    have this := plain byte.toNat byte.toNat_lt
    rw [UInt8.ofNat_toNat] at this
    exact this digit
  rw [← same, kept, List.map_id]

/-- **A type GUID looks unused exactly when** its text is that of the unused one. -/
theorem guidOf_unused_iff {text : String} (valid : uuidValidate text = 0) :
    (guidOf text).1 = unusedGuid ↔ cBytes text = cBytes unusedUuid := by
  have zero : guidOf unusedUuid = ⟨unusedGuid, rfl⟩ := by
    decide +kernel
  constructor
  · intro same
    have lower := formatGuid_guidOf valid
    rw [show guidOf text = ⟨unusedGuid, rfl⟩ from Subtype.ext same, ← zero,
      formatGuid_guidOf (by decide +kernel)] at lower
    refine unused_of_lower (lower.symm.trans ?_)
    decide +kernel
  · intro same
    rw [guidOf_congr same, zero]

/-- **What the setup leaves of a partition in a GPT.** -/
structure GptReady (part : Partition) : Prop where
  typed : ∃ text, part.partitionTypeUuid = some text ∧ uuidValidate text = 0
  named : ∃ text, part.partitionUuid = some text
  nonempty : part.size ≠ 0
  sectors : 512 ∣ part.size.toNat

/-- The last sector is that of the end exactly when the end is a word. -/
theorem lastLba_iff (ready : GptReady part) (sector : 512 ∣ part.offset.toNat) :
    512 * ((part.partitionEnd / 512 - 1).toNat + 1) = part.span.stop ↔ part.Fits := by
  have length := toNat_pos.mpr ready.nonempty
  have sectors := ready.sectors
  have offset := part.offset.toNat_lt
  have size := part.size.toNat_lt
  have stop : part.span.stop = part.offset.toNat + part.size.toNat := rfl
  have end_ : part.partitionEnd.toNat = (part.offset.toNat + part.size.toNat) % 2 ^ 64 :=
    UInt64.toNat_add _ _
  have last : (part.partitionEnd / 512 - 1).toNat =
      (2 ^ 64 - 1 + part.partitionEnd.toNat / 512) % 2 ^ 64 := by
    rw [UInt64.toNat_sub, toNat_sector]
    rfl
  unfold Partition.Fits
  rw [last, stop]
  omega

/-- **The entry of a partition decodes to it exactly when** it can hold it. -/
theorem entryOf_iff (ready : GptReady part) :
    (∃ entry, (if (gptEntry part).typeUuid.1 = unusedGuid then none
      else some (readGptEntry (gptEntry part).bytes)) = some entry ∧ EntryOf part entry) ↔
      EntryExact part := by
  obtain ⟨text, given, valid⟩ := ready.typed
  obtain ⟨uuid, named⟩ := ready.named
  have type : (gptEntry part).typeUuid = guidOf text := by
    rw [gptEntry, given, Option.getD_some]
  have first : (gptEntry part).firstLba.toNat = part.offset.toNat / 512 := toNat_sector _
  have name : (readGptEntry (gptEntry part).bytes).name =
      ((cChars part.name).flatMap wideUnits).take 36 := by
    rw [readGptEntry_bytes]
    exact gptName_read part.name
  have unused : (gptEntry part).typeUuid.1 = unusedGuid ↔ cBytes text = cBytes unusedUuid := by
    rw [type]
    exact guidOf_unused_iff valid
  constructor
  · rintro ⟨entry, found, decoded⟩
    split_ifs at found with zero
    rw [Option.some.injEq] at found
    subst found
    have start := decoded.first
    rw [readGptEntry_bytes] at start
    have sector : 512 ∣ part.offset.toNat := by
      dsimp only at start
      omega
    have last := decoded.last
    rw [readGptEntry_bytes] at last
    refine ⟨?_, sector, (lastLba_iff ready sector).mp last, ?_⟩
    · intro other given'
      rw [given, Option.some.injEq] at given'
      rw [← given', ne_eq, ← unused]
      exact zero
    · rw [← wideUnits_take_iff, ← name]
      exact decoded.name
  · rintro ⟨used, sector, fits, survives⟩
    refine ⟨_, if_neg (mt unused.mp (used text given)), ?_⟩
    have last := (lastLba_iff ready sector).mpr fits
    constructor
    case typeUuid =>
      refine ⟨text, given, guidOf text, ?_, formatGuid_guidOf valid⟩
      rw [readGptEntry_bytes, type]
    case uuid =>
      have own : (readGptEntry (gptEntry part).bytes).uuid = (guidOf uuid).1 := by
        rw [readGptEntry_bytes, gptEntry, named, Option.getD_some]
      exact ⟨uuid, named, own, fun valid' => ⟨guidOf uuid, own.symm, formatGuid_guidOf valid'⟩⟩
    case first =>
      rw [readGptEntry_bytes]
      dsimp only
      omega
    case last =>
      rw [readGptEntry_bytes]
      exact last
    case flags =>
      intro i
      rw [readGptEntry_bytes]
      exact testBit_gptFlags part i
    case name =>
      rw [name, wideUnits_take_iff]
      exact survives

end Partition

/-! ### The partitions of the table -/

section Setup

variable {env : Env} {config : HdimageConfig} {layout : Layout} {part : Partition}

/-- **A partition as its section configures it**: the label, the flags, the type that the option or
`L` stands for, and the UUID if one is given. -/
structure Configured (env : Env) (partsec : PartitionSection) (part : Partition) : Prop where
  name : part.name = partsec.title
  flags : part.bootable = partsec.bootable ∧ part.readOnly = partsec.readOnly ∧
    part.hidden = partsec.hidden ∧ part.noAutomount = partsec.noAutomount
  typeUuid : ∃ text, part.partitionTypeUuid = some text ∧
    resolveTypeUuid env (parsePartition partsec) = .ok text
  uuid : ∀ text, partsec.partitionUuid = some text → part.partitionUuid = some text

theorem uuidValidate_of_ne {text : String} (other : uuidValidate text ≠ -1) :
    uuidValidate text = 0 := by
  unfold uuidValidate at *
  dsimp only at *
  split_ifs at * with length positions
  · exact absurd rfl other
  · rfl
  · exact absurd rfl other

theorem resolveTypeUuid_ok {text : String} (run : resolveTypeUuid env part = .ok text) :
    uuidValidate text = 0 := by
  have checked : ∀ uuid : String, (do
      failIf (uuidValidate uuid = -1) (SetupError.invalidTypeUuid part.name uuid)
      return uuid) = .ok text → uuidValidate text = 0 := by
    intro uuid passed
    simp only [do_eq_ok, failIf_ok, pure_eq_ok] at passed
    obtain ⟨_, valid, rfl⟩ := passed
    exact uuidValidate_of_ne valid
  unfold resolveTypeUuid at run
  dsimp only at run
  split_ifs at run
  · split at run
    next => exact checked _ run
    next => cases run
  · exact checked _ run

theorem resolvePartitionUuid_ok {drawn : Nat} {result : String × Nat}
    (run : resolvePartitionUuid env drawn part = .ok result) :
    ∀ text, part.partitionUuid = some text → result.1 = text := by
  intro text given
  simp only [resolvePartitionUuid, given, do_eq_ok, failIf_ok, pure_eq_ok] at run
  obtain ⟨_, _, rfl⟩ := run
  rfl

/-- The UUIDs of a partition in a GPT. -/
theorem setupPartUuids_gpt {hd : Hdimage} {drawn drawn' : Nat} {uuid typeUuid : Option String}
    (run : setupPartUuids env hd drawn part = .ok (part.withUuids uuid typeUuid, drawn'))
    (gpt : hd.tableType.hasGpt = true) (inTable : part.inPartitionTable = true) :
    (∃ text, typeUuid = some text ∧ resolveTypeUuid env part = .ok text) ∧
      (∃ text, uuid = some text) ∧
      ∀ text, part.partitionUuid = some text → uuid = some text := by
  rw [setupPartUuids, gpt, inTable, Bool.and_self, if_pos rfl] at run
  simp only [do_eq_ok, pure_eq_ok] at run
  obtain ⟨type, resolved, ⟨own, next⟩, chosen, same⟩ := run
  have fields := congrArg Prod.fst same
  have typeEq : typeUuid = some type := (congrArg Partition.partitionTypeUuid fields).symm
  have uuidEq : uuid = some own := (congrArg Partition.partitionUuid fields).symm
  refine ⟨⟨type, typeEq, resolved⟩, ⟨own, uuidEq⟩, fun text given => ?_⟩
  exact uuidEq.trans (congrArg some (resolvePartitionUuid_ok chosen text given))

/-- A partition of a GPT comes from the configuration, with its UUIDs. -/
theorem gptReady (accepted : hdimageSetup env config = .ok layout)
    (gpt : layout.hd.tableType.hasGpt = true) (member : part ∈ layout.partitions)
    (inTable : part.inPartitionTable = true) : part.node = .parsed ∧ GptReady part := by
  obtain ⟨size, entered, origin, source⟩ := setup_entered accepted member
  have inTable' : (entered.withAlign layout.hd).inPartitionTable = true := by
    rw [← origin.inPartitionTable_eq]
    exact inTable
  have parsed : part.node = .parsed := by
    rw [origin.node_eq]
    rcases source with ⟨_, _, _, rfl⟩ | ⟨mbr, _⟩ | area
    · rfl
    · rw [mbr] at gpt
      cases gpt
    · have outside := inTable_of_mem_tableAreas area
      simp [Partition.withAlign, outside] at inTable'
  obtain ⟨_, nonempty, sectors, _⟩ := origin.sized (by rw [parsed]; decide)
  obtain ⟨drawn, drawn', uuids⟩ := origin.uuids
  obtain ⟨⟨text, given, resolved⟩, named, _⟩ := setupPartUuids_gpt uuids gpt inTable'
  exact ⟨parsed, ⟨text, given, resolveTypeUuid_ok resolved⟩, named, nonempty, sectors inTable⟩

/-- **The partitions of the table are those of the sections**, in order. -/
theorem tablePartitions_configured (accepted : hdimageSetup env config = .ok layout)
    (gpt : layout.hd.tableType.hasGpt = true) :
    List.Forall₂ (Configured env) (config.partitions.filter (·.inPartitionTable))
      (tablePartitions layout.partitions) := by
  have table : layout.hd.tableType ≠ .none := by
    intro none
    rw [none] at gpt
    cases gpt
  have parsed : tablePartitions layout.partitions =
      (userPartitions layout.partitions).filter (·.inPartitionTable) := by
    rw [tablePartitions, userPartitions, List.filter_filter]
    refine List.filter_congr fun part member => ?_
    cases inTable : part.inPartitionTable with
    | false => rfl
    | true => simp [(gptReady accepted gpt member inTable).1]
  obtain ⟨prepared, _, same, sections⟩ := setup_sections accepted
  rw [← same] at sections
  have inTable : ∀ partsec placed, (∃ part, FromSection partsec part ∧
      Origin env layout.hd prepared.size part placed) →
      placed.inPartitionTable = partsec.inPartitionTable := by
    rintro partsec placed ⟨_, ⟨_, rfl⟩, origin⟩
    rw [origin.inPartitionTable_eq]
    simp [Partition.withAlign, table, parsePartition]
  rw [parsed]
  refine Related.filter_imp sections (fun _ _ pair => (inTable _ _ pair).symm) ?_
  rintro partsec placed ⟨_, ⟨logical, rfl⟩, origin⟩ inside
  obtain ⟨drawn, drawn', uuids⟩ := origin.uuids
  rw [origin.inPartitionTable_eq] at inside
  obtain ⟨type, _, uuid⟩ := setupPartUuids_gpt uuids gpt inside
  refine ⟨origin.name_eq, ?_, type, uuid⟩
  rw [origin.kept]
  exact ⟨rfl, rfl, rfl, rfl⟩

end Setup

/-! ### The file -/

section File

variable {hd : Hdimage} {size : UInt64} {partitions : List Partition}
  {entries : List GptPartitionEntry} {file : File}

/-- The header around its checksum. -/
theorem GptHeader.split_bytes (header : GptHeader) : ∃ before after : List UInt8,
    before.length = 16 ∧
      ∀ crc, { header with headerCrc := crc }.bytes = before ++ (leBytes 4 crc.toNat ++ after) := by
  refine ⟨List.flatten [[0x45, 0x46, 0x49, 0x20, 0x50, 0x41, 0x52, 0x54],
    leBytes 4 header.revision.toNat, leBytes 4 header.headerSize.toNat], List.flatten [leBytes 4 0,
    leBytes 8 header.currentLba.toNat, leBytes 8 header.backupLba.toNat,
    leBytes 8 header.firstUsableLba.toNat, leBytes 8 header.lastUsableLba.toNat,
    header.diskUuid.1, leBytes 8 header.startingLba.toNat, leBytes 4 header.numberEntries.toNat,
    leBytes 4 header.entrySize.toNat, leBytes 4 header.tableCrc.toNat], by simp, fun crc => ?_⟩
  simp only [GptHeader.bytes, List.flatten_cons, List.flatten_nil, List.append_assoc, List.append_nil]

/-- **The checksum of a header in the file** is that of the header without it. -/
theorem headerCrc_written {header : GptHeader} {place : Nat}
    (written : file.slice place 92 = header.withCrc.bytes) :
    headerCrcAt file place = (crc32Bits (withoutCrc file place)).toNat := by
  obtain ⟨before, after, length, split⟩ := header.split_bytes
  have bytes : file.slice place 92 = before ++ (leBytes 4 header.withCrc.headerCrc.toNat ++ after) := by
    rw [written, ← split]
    rfl
  have whole : (before ++ (leBytes 4 header.withCrc.headerCrc.toNat ++ after)).length = 92 := by
    rw [← bytes, File.length_slice]
  have rest : after.length = 72 := by
    simp only [List.length_append, length_leBytes, length] at whole
    omega
  have crc : headerCrcAt file place = header.withCrc.headerCrc.toNat := by
    rw [headerCrcAt, headerField, bytes, field, List.drop_left' length,
      List.take_left' (length_leBytes _ _), leValue_leBytes_uint32]
  have front : file.slice place 16 = before := by
    have cut := file.slice_drop_take place (show 0 + 16 ≤ 92 by decide)
    rw [bytes, List.drop_zero, List.take_left' length] at cut
    exact cut.symm
  have back : file.slice (place + 20) 72 = after := by
    have cut := file.slice_drop_take place (show 20 + 72 ≤ 92 by decide)
    rw [bytes, ← List.append_assoc, List.drop_left' (by simp [length]),
      List.take_of_length_le rest.le] at cut
    exact cut.symm
  have cleared : withoutCrc file place = { header with headerCrc := 0 }.bytes := by
    rw [withoutCrc, front, back, split, List.append_assoc]
    rfl
  rw [crc, cleared, ← crc32_bits]
  rfl

/-- **A table and its header** decode exactly when each partition can be held. -/
theorem tableDecodes_iff {header : GptHeader} {place array : Nat}
    (stored : gptTable partitions = .ok entries)
    (ready : ∀ part ∈ partitions, part.inPartitionTable = true → GptReady part)
    (table : file.slice array 16384 = tableBytes entries)
    (written : file.slice place 92 = header.withCrc.bytes)
    (crc : header.tableCrc = crc32 (tableBytes entries)) :
    TableDecodes partitions file place array ↔
      ∀ part ∈ partitions, part.inPartitionTable = true → EntryExact part := by
  obtain ⟨listed, few⟩ := gptTable_ok.mp stored
  have tableCrc : tableCrcAt file place = (crc32Bits (file.slice array 16384)).toNat := by
    obtain ⟨_, _, _, _, _, field⟩ := headerFields written
    rw [field, table, ← crc32_bits]
    exact congrArg UInt32.toNat crc
  have entries_ : List.Forall₂ EntryOf (tablePartitions partitions)
      (readGptTable (file.slice array 16384)) ↔
        ∀ part ∈ tablePartitions partitions, EntryExact part := by
    rw [table, readGptTable_bytes few, listed, List.filterMap_map]
    refine Related.filterMap_iff.trans (forall₂_congr fun part member => ?_)
    obtain ⟨among, inTable⟩ := List.mem_filter.mp member
    simp only [Function.comp_apply]
    exact entryOf_iff (ready part among inTable)
  have selected : (∀ part ∈ tablePartitions partitions, EntryExact part) ↔
      ∀ part ∈ partitions, part.inPartitionTable = true → EntryExact part := by
    simp only [tablePartitions, List.mem_filter, and_imp]
  rw [← selected, ← entries_]
  exact ⟨fun decodes => decodes.entries, fun related => ⟨related, tableCrc, headerCrc_written written⟩⟩

end File

/-! ### The run -/

/-- **The GPT decodes to the partitions exactly when** an entry can hold each of them. -/
theorem hdimageInsertGpt_entries_iff {env : Env} {config : HdimageConfig} {layout : Layout}
    {os : Os} {fault : Prop} {world : World} (accepted : hdimageSetup env config = .ok layout)
    (gpt : layout.hd.tableType.hasGpt = true) (whole : os.Whole)
    (safe : fault ∨ GptUnhindered layout.hd layout.size layout.partitions os world.contents) :
    List.Forall₂ (Configured env) (config.partitions.filter (·.inPartitionTable))
      (tablePartitions layout.partitions) ∧
    Ensures fault (hdimageInsertGpt os layout.hd layout.size layout.partitions) world
      fun _ next => (GptDecodes layout next.contents ↔
        ∀ part ∈ layout.partitions, part.inPartitionTable = true → EntryExact part) := by
  refine ⟨tablePartitions_configured accepted gpt, ?_⟩
  obtain ⟨_, _, _, _, areas⟩ := gptAreas accepted gpt
  refine (hdimageInsertGpt_ensures whole rfl safe).mono ?_
  rintro _ next ⟨entries, front, written, holds⟩
  obtain ⟨separate, _⟩ := areas.separate written
  have ready : ∀ part ∈ layout.partitions, part.inPartitionTable = true → GptReady part :=
    fun part member inTable => (gptReady accepted gpt member inTable).2
  have primary := tableDecodes_iff written.table ready (gptFile_array separate written)
    (gptFile_primary separate written) rfl
  rw [holds.contents]
  refine ⟨fun decodes => primary.mp decodes.primary, fun exact_ => ?_⟩
  refine ⟨primary.mpr exact_, fun kept => ?_⟩
  obtain ⟨table, header, _⟩ := gptFile_backup separate written kept
  exact (tableDecodes_iff written.table ready table header rfl).mpr exact_

/-- One partition with a label. -/
def labelConfig (label : String) : HdimageConfig where
  size := 1048576
  options := { partitionTableType := "gpt" }
  partitions := [{
    title := label
    size := 65536
    bootable := true
    partitionTypeUuid := "U" }]

/-- A partition that an entry can hold, with an ASCII label. -/
def plainEntry (part : Partition) : Bool :=
  decide (512 ∣ part.offset.toNat) && decide part.Fits &&
    (cChars part.name).all (fun c => decide (c.toNat < 0x80)) &&
    part.partitionTypeUuid.all fun text => decide (cBytes text ≠ cBytes unusedUuid)

theorem entryExact_of_plain {part : Partition} (plain : plainEntry part = true) :
    EntryExact part := by
  simp only [plainEntry, Bool.and_eq_true, decide_eq_true_eq, List.all_eq_true,
    Option.all_eq_true] at plain
  obtain ⟨⟨⟨sector, fits⟩, ascii⟩, used⟩ := plain
  exact ⟨used, sector, fits, nameSurvives_ascii ascii⟩

/-- The two bytes of a letter become two code units, and neither is the letter. -/
theorem hdimageInsertGpt_garbles : ∃ layout next,
    hdimageSetup .bare (labelConfig "ü") = .ok layout ∧
      layout.partitions.countP (·.inPartitionTable) ≤ gptEntries ∧
      Returns (hdimageInsertGpt .calm layout.hd layout.size layout.partitions)
        ⟨some .empty, 0, 0, 0⟩ () next ∧ ¬ GptDecodes layout next.contents := by
  obtain ⟨layout, accepted, facts⟩ := exists_layout .bare (labelConfig "ü")
    (fun layout => layout.hd.tableType.hasGpt && layout.roomForGpt &&
      layout.partitions.any fun part => part.inPartitionTable && decide (part.name = "ü"))
    (by decide +kernel)
  simp only [Bool.and_eq_true, List.any_eq_true, decide_eq_true_eq] at facts
  obtain ⟨⟨gpt, room⟩, part, member, inTable, name⟩ := facts
  obtain ⟨_, _, _, _, areas⟩ := gptAreas accepted gpt
  have run : Ensures False (hdimageInsertGpt .calm layout.hd layout.size layout.partitions)
      ⟨some .empty, 0, 0, 0⟩ _ :=
    hdimageInsertGpt_ensures Os.calm_reliable.whole rfl (Or.inr (Layout.unhindered room))
  obtain ⟨_, next, returned, entries, front, written, holds⟩ := run.returns
  have few : layout.partitions.countP (·.inPartitionTable) ≤ gptEntries := by
    obtain ⟨listed, few⟩ := gptTable_ok.mp written.table
    rwa [listed, List.length_map, ← List.countP_eq_length_filter] at few
  refine ⟨layout, next, accepted, few, returned, fun decodes => ?_⟩
  rw [holds.contents] at decodes
  obtain ⟨separate, _⟩ := areas.separate written
  have exact_ := (tableDecodes_iff written.table
    (fun part member inTable => (gptReady accepted gpt member inTable).2)
    (gptFile_array separate written) (gptFile_primary separate written) rfl).mp decodes.primary
  have survives := (exact_ part member inTable).name
  rw [name, show cChars "ü" = ['ü'] by decide +kernel, NameSurvives, if_neg (by decide)] at survives
  exact absurd (congrArg List.length survives) (by simp)

theorem hdimageInsertGpt_entries_iff_boot : ∃ layout,
    hdimageSetup .bare (labelConfig "boot") = .ok layout ∧
      Ensures False (hdimageInsertGpt .calm layout.hd layout.size layout.partitions)
        ⟨some .empty, 0, 0, 0⟩ fun _ next => GptDecodes layout next.contents := by
  obtain ⟨layout, accepted, facts⟩ := exists_layout .bare (labelConfig "boot")
    (fun layout => layout.hd.tableType.hasGpt && layout.roomForGpt &&
      layout.partitions.all fun part => !part.inPartitionTable || plainEntry part)
    (by decide +kernel)
  simp only [Bool.and_eq_true, List.all_eq_true, Bool.or_eq_true, Bool.not_eq_true'] at facts
  obtain ⟨⟨gpt, room⟩, plain⟩ := facts
  have run : Ensures False (hdimageInsertGpt .calm layout.hd layout.size layout.partitions)
      ⟨some .empty, 0, 0, 0⟩ fun _ next => (GptDecodes layout next.contents ↔
        ∀ part ∈ layout.partitions, part.inPartitionTable = true → EntryExact part) :=
    And.right (hdimageInsertGpt_entries_iff accepted gpt Os.calm_reliable.whole
      (Or.inr (Layout.unhindered room)))
  refine ⟨layout, accepted, run.mono fun _ next decodes => decodes.mpr ?_⟩
  intro part member inTable
  exact entryExact_of_plain ((plain part member).resolve_left (by simp [inTable]))

end Genimage
