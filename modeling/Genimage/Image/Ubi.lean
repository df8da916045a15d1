/-
**The volumes of a UBI image (`ubi_setup`, `ubi_generate`).**

`ubinize` reads the volumes from an INI file that `ubi_generate` writes. `ubiGenerate_reads_iff` is the
round trip: the sections of the file are the volumes of the configuration, with sizes taken from their
images where none are given, exactly when no name contains a newline or a closing bracket, no path a
newline, and no size has the sign bit set. Sizes are printed with `%lld`, and a larger one is negative in
the file.

Errors of the writes to the file are not looked at by the program, and not modelled.
-/

import Genimage.Image.Partition
import Genimage.Library.Ini
import Genimage.Util.Errno
import Genimage.Util.Sys

namespace Genimage

open Library

/-! ### The handler -/

/-- The fields of `struct flash_type` that the command has. -/
structure UbiFlash where
  pebsize : Int32
  minimumIoUnitSize : Int32
  vidHeaderOffset : Int32
  subPageSize : Int32

/-- The fields of a child that `ubi_generate` reads. -/
structure UbiChild where
  outfile : String
  size : UInt64

/-- The fields of a UBI image. -/
structure UbiImage where
  partitions : List Partition
  flashType : Option UbiFlash
  outfile : String
  extraargs : String := ""

/-- `ubi_setup` -/
def ubiSetup (image : UbiImage) : Int :=
  if image.flashType.isNone then einval
  else if 1 < (image.partitions.map (·.autoresize.toNat)).sum then einval
  else 0

/-- `%lld` of an `unsigned long long`. -/
def lld (value : UInt64) : String := toString value.toInt64.toInt

/-- The lines of a volume. -/
def ubiLines (part : Partition) (child : Option UbiChild) (i : Nat) (size : UInt64) : String :=
  "[" ++ part.name ++ "]\n" ++
  "mode=ubi\n" ++
  (child.elim "" fun child => "image=" ++ child.outfile ++ "\n") ++
  "vol_id=" ++ toString i ++ "\n" ++
  "vol_size=" ++ lld size ++ "\n" ++
  "vol_type=" ++ (if part.readOnly then "static" else "dynamic") ++ "\n" ++
  "vol_name=" ++ part.name ++ "\n" ++
  (if part.autoresize then "vol_flags=autoresize\n" else "") ++
  "vol_alignment=1\n"

/-- The size of a volume: that of its image, when none is given. -/
def ubiSize (part : Partition) (child : Option UbiChild) : Option UInt64 :=
  if part.size = 0 then child.map (·.size) else some part.size

/-- The loop over the partitions: the return value, and the text. -/
def ubiLoop (imageGet : String → Option UbiChild) : Nat → List Partition → Int × String
  | _, [] => (0, "")
  | i, part :: parts =>
    let child := part.image.bind imageGet
    match ubiSize part child with
    | none => (einval, "")
    | some size =>
      let rest := ubiLoop imageGet (i + 1) parts
      (rest.1, ubiLines part child i size ++ rest.2)

/-- What `ubi_generate` finds around it: `image_get`, options, whether the file can be opened, and what
`systemp` returns. -/
structure UbiTools where
  imageGet : String → Option UbiChild
  tmppath : String
  ubinize : String := "ubinize"
  fopen : Option Errno := none
  systemp : String → Int

/-- The return value, `ubi.ini`, and the command that is run. -/
structure UbiRun where
  ret : Int
  ini : Option String
  command : Option String

/-- The path of the file. -/
def ubiTempfile (tools : UbiTools) : String := tools.tmppath ++ "/ubi.ini"

/-- The command. -/
def ubinizeCommand (tools : UbiTools) (image : UbiImage) (flash : UbiFlash) : String :=
  tools.ubinize ++ " -s " ++ toString flash.subPageSize ++ " -O " ++ toString flash.vidHeaderOffset ++
    " -p " ++ toString flash.pebsize ++ " -m " ++ toString flash.minimumIoUnitSize ++
    " -o '" ++ image.outfile ++ "' '" ++ ubiTempfile tools ++ "' " ++ image.extraargs

/-- `ubi_generate`; `none` is the use of a missing flash type. -/
def ubiGenerate (tools : UbiTools) (image : UbiImage) : Option UbiRun :=
  match tools.fopen with
  | some errno => some ⟨-(errno.1 : Int), none, none⟩
  | none =>
    let (ret, ini) := ubiLoop tools.imageGet 0 image.partitions
    if ret ≠ 0 then some ⟨ret, some ini, none⟩
    else image.flashType.map fun flash =>
      let command := ubinizeCommand tools image flash
      ⟨tools.systemp command, some ini, some command⟩

/-! ### The volumes -/

/-- A volume of a UBI image. -/
structure UbiVolume where
  name : String
  image : Option String
  id : Nat
  size : UInt64
  static : Bool
  autoresize : Bool

namespace UbiVolume

/-- The entries about a volume, with the size as it is printed. -/
def entries (volume : UbiVolume) (size : String) : List (String × String) :=
  [("mode", "ubi")] ++ (volume.image.map fun path => ("image", path)).toList ++
    [("vol_id", toString volume.id), ("vol_size", size),
      ("vol_type", if volume.static then "static" else "dynamic"), ("vol_name", volume.name)] ++
    (if volume.autoresize then [("vol_flags", "autoresize")] else []) ++ [("vol_alignment", "1")]

/-- A section about a volume. -/
def sectionWith (volume : UbiVolume) (size : String) : Ini.Section where
  name := volume.name.toList
  entries := (volume.entries size).map fun entry => (entry.1.toList, entry.2.toList)

/-- **What a file has to say of a volume.** -/
def said (volume : UbiVolume) : Ini.Section := volume.sectionWith (toString volume.size.toNat)

/-- A volume that can be written. -/
structure Plain (volume : UbiVolume) : Prop where
  name : '\n' ∉ volume.name.toList ∧ ']' ∉ volume.name.toList
  image : ∀ path, volume.image = some path → '\n' ∉ path.toList
  size : volume.size.toNat < 2 ^ 63

end UbiVolume

/-- Every volume has a size, its own or that of its image. -/
def UbiSized (imageGet : String → Option UbiChild) (parts : List Partition) : Prop :=
  ∀ part ∈ parts, part.size = 0 → (part.image.bind imageGet).isSome = true

/-- **The volumes of the configuration.** -/
def ubiVolumes (imageGet : String → Option UbiChild) : Nat → List Partition → List UbiVolume
  | _, [] => []
  | i, part :: parts =>
    { name := part.name
      image := (part.image.bind imageGet).map (·.outfile)
      id := i
      size := (ubiSize part (part.image.bind imageGet)).getD 0
      static := part.readOnly
      autoresize := part.autoresize } :: ubiVolumes imageGet (i + 1) parts


/-! ### The text -/

/-- The number that `%lld` prints is the size exactly below `2 ^ 63`. -/
theorem lld_eq_iff (size : UInt64) : lld size = toString size.toNat ↔ size.toNat < 2 ^ 63 := by
  have value : size.toInt64.toInt = (size.toNat : Int).bmod (2 ^ 64) :=
    BitVec.toInt_eq_toNat_bmod size.toBitVec
  have small := size.toNat_lt
  rw [lld, value, Int.toString_eq_repr, Int.repr_eq_if]
  by_cases fits : size.toNat < 2 ^ 63
  · have same : (size.toNat : Int).bmod (2 ^ 64) = size.toNat := by
      rw [Int.bmod_def]
      omega
    rw [same, if_pos (Int.natCast_nonneg _), Int.toNat_natCast]
    exact iff_of_true rfl fits
  · have negative : (size.toNat : Int).bmod (2 ^ 64) < 0 := by
      rw [Int.bmod_def]
      omega
    rw [if_neg (not_le.mpr negative)]
    refine iff_of_false (fun same => ?_) fits
    have sign : '-' ∈ (toString size.toNat).toList := by
      rw [← same, String.toList_append]
      exact List.mem_append_left _ (by decide)
    rw [Nat.toString_eq_ofList_toDigits, String.toList_ofList] at sign
    exact absurd (Nat.isDigit_of_mem_toDigits (by decide) (by decide) sign) (by decide)

theorem newline_toString (n : Nat) : '\n' ∉ (toString n).toList := by
  rw [Nat.toString_eq_ofList_toDigits, String.toList_ofList]
  intro member
  exact absurd (Nat.isDigit_of_mem_toDigits (by decide) (by decide) member) (by decide)

theorem newline_lld (size : UInt64) : '\n' ∉ (lld size).toList := by
  rw [lld, Int.toString_eq_repr, Int.repr_eq_if]
  split_ifs
  · exact newline_toString _
  · rw [String.toList_append, List.mem_append, not_or]
    exact ⟨by decide, newline_toString _⟩

/-- The keys of the entries are plain. -/
theorem UbiVolume.mem_entries {volume : UbiVolume} {size : String} {entry : String × String}
    (member : entry ∈ volume.entries size) :
    Ini.PlainKey entry.1.toList ∧ '\n' ∉ entry.1.toList := by
  let keys := ["mode", "image", "vol_id", "vol_size", "vol_type", "vol_name", "vol_flags",
    "vol_alignment"]
  have plain : ∀ key ∈ keys, '=' ∉ key.toList ∧ key.toList.head? ≠ some '[' ∧ '\n' ∉ key.toList := by
    decide
  have listed : (volume.entries size).map Prod.fst ⊆ keys := by
    unfold UbiVolume.entries
    cases volume.image <;> cases volume.autoresize <;> simp [keys]
  obtain ⟨equals, bracket, newline⟩ := plain _ (listed (List.mem_map_of_mem member))
  exact ⟨⟨equals, bracket⟩, newline⟩

/-- The values of the entries. -/
theorem UbiVolume.newline_entries (volume : UbiVolume) {size : String}
    (newline : '\n' ∉ size.toList) : (∀ entry ∈ volume.entries size, '\n' ∉ entry.2.toList) ↔
      '\n' ∉ volume.name.toList ∧ ∀ path, volume.image = some path → '\n' ∉ path.toList := by
  have type : '\n' ∉ (if volume.static then "static" else "dynamic").toList := by
    cases volume.static <;> decide
  have flags : ∀ entry ∈ if volume.autoresize then [("vol_flags", "autoresize")] else [],
      '\n' ∉ entry.2.toList := by
    cases volume.autoresize <;> decide
  unfold UbiVolume.entries
  simp only [List.forall_mem_append, List.forall_mem_cons, Option.mem_toList, Option.map_eq_some_iff]
  constructor
  · rintro ⟨⟨⟨⟨_, image⟩, _, _, _, name, _⟩, _⟩, _⟩
    exact ⟨name, fun path same => image _ ⟨path, same, rfl⟩⟩
  · rintro ⟨name, image⟩
    refine ⟨⟨⟨⟨⟨by decide, nofun⟩, ?_⟩, newline_toString _, newline, type, name, nofun⟩, flags⟩,
      by decide, nofun⟩
    rintro _ ⟨path, same, rfl⟩
    exact image path same

/-- **A section about a volume is plain**, whatever is printed for its size. -/
theorem UbiVolume.plain_sectionWith (volume : UbiVolume) {size : String}
    (newline : '\n' ∉ size.toList) : (volume.sectionWith size).Plain ↔
      ('\n' ∉ volume.name.toList ∧ ']' ∉ volume.name.toList) ∧
        ∀ path, volume.image = some path → '\n' ∉ path.toList := by
  have values := volume.newline_entries newline
  have entry : ∀ entry : String × String, '\n' ∉ entry.1.toList →
      ('\n' ∉ Ini.entryLine (entry.1.toList, entry.2.toList) ↔ '\n' ∉ entry.2.toList) := by
    intro entry key
    simp [Ini.entryLine, key]
  constructor
  · intro plain
    have lines := plain.newline
    rw [Ini.Section.lines, List.forall_mem_cons] at lines
    have written : ∀ entry ∈ volume.entries size, '\n' ∉ entry.2.toList := fun item member =>
      (entry item (UbiVolume.mem_entries member).2).mp
        (lines.2 _ (List.mem_map_of_mem (List.mem_map_of_mem member)))
    obtain ⟨name, image⟩ := values.mp written
    exact ⟨⟨name, plain.name⟩, image⟩
  · rintro ⟨⟨name, bracket⟩, image⟩
    have written := values.mpr ⟨name, image⟩
    refine ⟨bracket, ?_, ?_⟩
    · intro line member
      obtain ⟨item, among, rfl⟩ := List.mem_map.mp member
      exact (UbiVolume.mem_entries among).1
    · rw [Ini.Section.lines, List.forall_mem_cons]
      refine ⟨?_, ?_⟩
      · simp [Ini.heading, UbiVolume.sectionWith, name]
      · intro line member
        obtain ⟨_, inner, rfl⟩ := List.mem_map.mp member
        obtain ⟨item, among, rfl⟩ := List.mem_map.mp inner
        exact (entry item (UbiVolume.mem_entries among).2).mpr (written item among)

/-- The section shows what is printed for the size. -/
theorem UbiVolume.sectionWith_inj (volume : UbiVolume) {size size' : String}
    (same : volume.sectionWith size = volume.sectionWith size') : size = size' := by
  have entries := congrArg Ini.Section.entries same
  unfold UbiVolume.sectionWith UbiVolume.entries at entries
  simp only [List.map_append, List.append_cancel_left_eq, List.append_cancel_right_eq] at entries
  have second := (List.cons.inj (List.cons.inj entries).2).1
  exact String.toList_inj.mp (Prod.mk.inj second).2

/-- **The lines of a volume** are those of its section. -/
theorem toList_ubiLines (part : Partition) (child : Option UbiChild) (i : Nat) (size : UInt64)
    {volume : UbiVolume} (name : volume.name = part.name) (image : volume.image = child.map (·.outfile))
    (id : volume.id = i) (static : volume.static = part.readOnly)
    (autoresize : volume.autoresize = part.autoresize) :
    (ubiLines part child i size).toList =
      Lines.terminated '\n' (volume.sectionWith (lld size)).lines := by
  unfold ubiLines UbiVolume.sectionWith UbiVolume.entries
  rw [name, image, id, static, autoresize]
  cases child <;> cases part.autoresize <;>
    simp [Ini.Section.lines, Ini.heading, Ini.entryLine, Lines.terminated]

/-- The loop goes on behind a volume with a size. -/
theorem ubiLoop_cons {imageGet : String → Option UbiChild} {part : Partition} {size : UInt64}
    (found : ubiSize part (part.image.bind imageGet) = some size) (i : Nat) (parts : List Partition) :
    ubiLoop imageGet i (part :: parts) = ((ubiLoop imageGet (i + 1) parts).1,
      ubiLines part (part.image.bind imageGet) i size ++ (ubiLoop imageGet (i + 1) parts).2) := by
  rw [ubiLoop]
  simp only [found]

/-- **The loop writes the sections of the volumes.** -/
theorem ubiLoop_eq {imageGet : String → Option UbiChild} {parts : List Partition}
    (sized : UbiSized imageGet parts) (i : Nat) : (ubiLoop imageGet i parts).1 = 0 ∧
      (ubiLoop imageGet i parts).2.toList =
        Ini.write ((ubiVolumes imageGet i parts).map fun volume =>
          volume.sectionWith (lld volume.size)) := by
  induction parts generalizing i with
  | nil => exact ⟨rfl, rfl⟩
  | cons part parts ih =>
    rw [UbiSized, List.forall_mem_cons] at sized
    obtain ⟨ret, text⟩ := ih sized.2 (i + 1)
    obtain ⟨size, found⟩ : ∃ size, ubiSize part (part.image.bind imageGet) = some size := by
      unfold ubiSize
      split_ifs with zero
      · exact Option.isSome_iff_exists.mp (by rw [Option.isSome_map]; exact sized.1 zero)
      · exact ⟨_, rfl⟩
    let volume : UbiVolume := ⟨part.name, (part.image.bind imageGet).map (·.outfile), i, size,
      part.readOnly, part.autoresize⟩
    have volumes : ubiVolumes imageGet i (part :: parts) =
        volume :: ubiVolumes imageGet (i + 1) parts := by
      rw [ubiVolumes, found, Option.getD_some]
    have lines : (ubiLines part (part.image.bind imageGet) i size).toList =
        Lines.terminated '\n' (volume.sectionWith (lld volume.size)).lines :=
      toList_ubiLines part _ i size rfl rfl rfl rfl rfl
    rw [ubiLoop_cons found, volumes, List.map_cons, Ini.write_cons, ← lines, ← text, String.toList_append]
    exact ⟨ret, rfl⟩

/-- **The loop stops** at a volume without a size. -/
theorem ubiLoop_unsized {imageGet : String → Option UbiChild} {parts : List Partition}
    (unsized : ¬ UbiSized imageGet parts) (i : Nat) : (ubiLoop imageGet i parts).1 = einval := by
  induction parts generalizing i with
  | nil =>
    have none : UbiSized imageGet [] := fun _ member => by cases member
    exact absurd none unsized
  | cons part parts ih =>
    cases found : ubiSize part (part.image.bind imageGet) with
    | none =>
      rw [ubiLoop]
      simp only [found]
    | some size =>
      have own : part.size = 0 → (part.image.bind imageGet).isSome = true := fun zero => by
        rw [ubiSize, if_pos zero, Option.map_eq_some_iff] at found
        obtain ⟨child, same, _⟩ := found
        rw [same, Option.isSome_some]
      have later : ¬ UbiSized imageGet parts := fun rest =>
        unsized (List.forall_mem_cons.mpr ⟨own, rest⟩)
      have rest := ih later (i + 1)
      rw [ubiLoop_cons found, rest]

/-- **The file of sized volumes** has the sections of all of them exactly when they are plain. -/
theorem read_ubiLoop {imageGet : String → Option UbiChild} {parts : List Partition}
    (sized : UbiSized imageGet parts) :
    Ini.read (ubiLoop imageGet 0 parts).2.toList =
        some ((ubiVolumes imageGet 0 parts).map UbiVolume.said) ↔
      ∀ volume ∈ ubiVolumes imageGet 0 parts, volume.Plain := by
  rw [(ubiLoop_eq sized 0).2]
  constructor
  · intro found
    obtain ⟨_, said⟩ := Ini.read_iff.mp found
    -- What is read is plain, so that the names and paths are, and then what was written is, too.
    have plain : ∀ volume ∈ ubiVolumes imageGet 0 parts,
        ('\n' ∉ volume.name.toList ∧ ']' ∉ volume.name.toList) ∧
          ∀ path, volume.image = some path → '\n' ∉ path.toList := fun volume member =>
      (volume.plain_sectionWith (newline_toString _)).mp (said _ (List.mem_map_of_mem member))
    have written := Ini.read_iff.mpr ⟨rfl, List.forall_mem_map.mpr fun volume member =>
      (UbiVolume.plain_sectionWith volume (newline_lld volume.size)).mpr (plain volume member)⟩
    have same := Option.some.inj (written.symm.trans found)
    intro volume member
    refine ⟨(plain volume member).1, (plain volume member).2, (lld_eq_iff _).mp ?_⟩
    exact volume.sectionWith_inj (List.map_inj_left.mp same volume member)
  · intro plain
    have same : (ubiVolumes imageGet 0 parts).map (fun volume => volume.sectionWith (lld volume.size)) =
        (ubiVolumes imageGet 0 parts).map UbiVolume.said :=
      List.map_congr_left fun volume member => by
        rw [UbiVolume.said, (lld_eq_iff volume.size).mpr (plain volume member).size]
    rw [same]
    refine Ini.read_iff.mpr ⟨rfl, List.forall_mem_map.mpr fun volume member => ?_⟩
    exact (volume.plain_sectionWith (newline_toString _)).mpr
      ⟨(plain volume member).name, (plain volume member).image⟩

/-- The volumes have the flags of the partitions. -/
theorem ubiVolumes_autoresize (imageGet : String → Option UbiChild) (i : Nat)
    (parts : List Partition) : ((ubiVolumes imageGet i parts).filter (·.autoresize)).length =
      (parts.map (·.autoresize.toNat)).sum := by
  induction parts generalizing i with
  | nil => rfl
  | cons part parts ih =>
    rw [ubiVolumes, List.map_cons, List.sum_cons, ← ih (i + 1), List.filter_cons]
    cases part.autoresize with
    | false => simp
    | true => simp [Nat.add_comm]

/-! ### The handler -/

theorem ubiSetup_eq_zero {image : UbiImage} (setup : ubiSetup image = 0) :
    (∃ flash, image.flashType = some flash) ∧ (image.partitions.map (·.autoresize.toNat)).sum ≤ 1 := by
  unfold ubiSetup at setup
  split_ifs at setup with missing several
  · exact absurd setup (by decide)
  · exact absurd setup (by decide)
  · rw [Bool.not_eq_true, Option.isNone_eq_false_iff, Option.isSome_iff_exists] at missing
    exact ⟨missing, not_lt.mp several⟩

/-- **What `ubinize` is told**: with a volume that has no size, nothing, and else the volumes of the
configuration, one of them at most with `autoresize`. They are in the file exactly when they are plain. -/
theorem ubiGenerate_reads_iff {image : UbiImage} (setup : ubiSetup image = 0) {tools : UbiTools}
    (opens : tools.fopen = none) : ∃ run flash text, ubiGenerate tools image = some run ∧
      image.flashType = some flash ∧ run.ini = some text ∧
      (¬ UbiSized tools.imageGet image.partitions → run.ret = einval ∧ run.command = none) ∧
      (UbiSized tools.imageGet image.partitions →
        run.command = some (ubinizeCommand tools image flash) ∧
        run.ret = tools.systemp (ubinizeCommand tools image flash) ∧
        ((ubiVolumes tools.imageGet 0 image.partitions).filter (·.autoresize)).length ≤ 1 ∧
        (Ini.read text.toList =
            some ((ubiVolumes tools.imageGet 0 image.partitions).map UbiVolume.said) ↔
          ∀ volume ∈ ubiVolumes tools.imageGet 0 image.partitions, volume.Plain)) := by
  obtain ⟨⟨flash, type⟩, single⟩ := ubiSetup_eq_zero setup
  rw [← ubiVolumes_autoresize tools.imageGet 0] at single
  unfold ubiGenerate
  rw [opens, type]
  simp only [Option.map_some]
  by_cases sized : UbiSized tools.imageGet image.partitions
  · rw [if_neg (not_not.mpr (ubiLoop_eq sized 0).1)]
    exact ⟨_, flash, _, rfl, rfl, rfl, fun unsized => absurd sized unsized,
      fun _ => ⟨rfl, rfl, single, read_ubiLoop sized⟩⟩
  · have failed := ubiLoop_unsized sized 0
    rw [if_pos (by rw [failed]; decide)]
    exact ⟨_, flash, _, rfl, rfl, rfl, fun _ => ⟨failed, rfl⟩, fun other => absurd other sized⟩

/-- A volume with the size of its image, and one that takes the rest. -/
def nandImage : UbiImage where
  partitions := parsePartitions [{ title := "rootfs", image := some "rootfs.ubifs", readOnly := true },
    { title := "data", size := 4096, autoresize := true }]
  flashType := some ⟨131072, 2048, 2048, 512⟩
  outfile := "images/nand.ubi"

def nandTools : UbiTools where
  imageGet name := if name = "rootfs.ubifs" then some ⟨"images/rootfs.ubifs", 65536⟩ else none
  tmppath := "tmp"
  systemp _ := 0

theorem ubiGenerate_reads_nandImage : ∃ run flash text, ubiGenerate nandTools nandImage = some run ∧
    run.ini = some text ∧ run.command = some (ubinizeCommand nandTools nandImage flash) ∧
    Ini.read text.toList = some ([⟨"rootfs", some "images/rootfs.ubifs", 0, 65536, true, false⟩,
      ⟨"data", none, 1, 4096, false, true⟩].map UbiVolume.said) := by
  have setup : ubiSetup nandImage = 0 := by decide
  have opens : nandTools.fopen = none := rfl
  obtain ⟨run, flash, text, generate, _, ini, _, told⟩ := ubiGenerate_reads_iff setup opens
  obtain ⟨command, _, _, reads⟩ := told (by unfold UbiSized; decide)
  have rootfs : UbiVolume.Plain ⟨"rootfs", some "images/rootfs.ubifs", 0, 65536, true, false⟩ :=
    ⟨by decide, fun path same => by rw [← Option.some.inj same]; decide, by decide⟩
  have data : UbiVolume.Plain ⟨"data", none, 1, 4096, false, true⟩ :=
    ⟨by decide, fun path none => (by cases none), by decide⟩
  exact ⟨run, flash, text, generate, ini, command, reads.mpr
    (List.forall_mem_cons.mpr ⟨rootfs, List.forall_mem_singleton.mpr data⟩)⟩

end Genimage
