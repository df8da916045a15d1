/-
**Hole specifications (`parse_holes`, and its callers in `main` and `file_setup`).**

A hole string is read with one `sscanf`; the variable for the length of what was read has no initial
value, and is compared with the length of the string also when the closing parenthesis is missing.
The count of the holes is set before the first string is read. `main` calls `parse_holes` for the
partitions with an implicit image and does not look at what it returns; `file_setup` calls it again
for every file image and does.

An invalid string never has the effect it should have (`parseHoles_right_iff`): the list of the image
has changed in any case, and for a partition the build goes on with it.
-/

import Genimage.Image.Partition
import Genimage.Image.VeritySig
import Genimage.Util.SuffixExact

namespace Genimage

open Library

/-! ### One hole string -/

/-- The characters of `%m[0-9skKMG]`. -/
def isHoleChar (c : UInt8) : Bool :=
  (0x30 ≤ c && c ≤ 0x39) || c = 0x73 || c = 0x6b || c = 0x4b || c = 0x4d || c = 0x47

/-- White space and then a character of the `sscanf` format: what follows it. -/
def scanChar (c : UInt8) (text : List UInt8) : Option (List UInt8) :=
  match text.dropWhile isspace with
  | [] => none
  | d :: rest => if d = c then some rest else none

/-- White space and then `%m[0-9skKMG]`: the characters and what follows them. -/
def scanWord (text : List UInt8) : Option (List UInt8 × List UInt8) :=
  let text := text.dropWhile isspace
  let word := text.takeWhile isHoleChar
  if word = [] then none else some (word, text.drop word.length)

/-- `sscanf(s, " ( %m[0-9skKMG] ; %m[0-9skKMG] ) %n", …)`: both words, if there are two, and what is
stored for `%n`, if it is reached. -/
def scanHole (text : List UInt8) : Option (List UInt8 × List UInt8 × Option Int32) := do
  let rest ← scanChar 0x28 text
  let (start, rest) ← scanWord rest
  let rest ← scanChar 0x3b rest
  let (stop, rest) ← scanWord rest
  return (start, stop, (scanChar 0x29 rest).map fun rest =>
    Int32.ofNat (text.length - (rest.dropWhile isspace).length))

/-- The string that `%m` allocates for a word. -/
def wordString (word : List UInt8) : String :=
  String.ofList (word.map fun c => Char.ofNat c.toNat)

/-- What becomes of one hole string: a hole, the error, or the exit of `strtoul_suffix`. -/
inductive HoleReading where
  | hole (extent : Extent)
  | invalid
  | exit
deriving DecidableEq, Repr

/-- The body of the loop of `parse_holes`. `len` is the value of the variable before `sscanf`. -/
def readHole (len : Int32) (s : String) : HoleReading :=
  match scanHole (cBytes s) with
  | none => .invalid
  | some (start, stop, length) =>
    if length.getD len ≠ Int32.ofNat (cBytes s).length then .invalid
    else
      match strtoulSuffix (wordString start) false, strtoulSuffix (wordString stop) false with
      | some (start, _), some (stop, _) => .hole ⟨start, stop⟩
      | _, _ => .exit

/-! ### The list of an image -/

/-- The loop of `parse_holes`, behind the holes it has added. The others are still zero. -/
def holesLoop (len : Nat → Int32) (added : List Extent) : List String → Option (Int × List Extent)
  | [] => some (0, added)
  | s :: rest =>
    match readHole (len added.length) s with
    | .hole hole => holesLoop len (added ++ [hole]) rest
    | .invalid => some (einval, added ++ List.replicate (rest.length + 1) ⟨0, 0⟩)
    | .exit => none

/-- `parse_holes` for an image with the list `holes`: the return value and the list then, or the
exit. `cfg` has the `holes` of the section, if there is one; `len` are the values of the variable
that is not initialised. -/
def parseHoles (len : Nat → Int32) (holes : List Extent) (cfg : Option (List String)) :
    Option (Int × List Extent) :=
  if holes.length > 0 then some (0, holes)
  else holesLoop len [] (cfg.getD [])

/-- `file_setup`: `stat` is what the check of the file returns. -/
def fileSetup (len : Nat → Int32) (stat : Int) (holes : List Extent) (cfg : Option (List String)) :
    Option (Int × List Extent) :=
  if stat ≠ 0 then some (stat, holes) else parseHoles len holes cfg

example : readHole 0 "(440; 1K)" = .hole ⟨440, 1024⟩ := by decide

/-! ### The run -/

/-- Where the hole strings of an image stand. -/
inductive HoleSource where
  /-- in the section of a `file` image -/
  | fileSection
  /-- in a partition with an implicit image -/
  | partition
deriving DecidableEq, Repr

/-- The list of a new image when `image_setup` comes to it. For an implicit image `main` has called
`parse_holes`, and nothing looks at the return value. -/
def holesOfNew (len : Nat → Int32) (strings : List String) : HoleSource → Option (List Extent)
  | .fileSection => some []
  | .partition => (parseHoles len [] (some strings)).map Prod.snd

/-- The section that `file_setup` gets. -/
def holesSection (strings : List String) : HoleSource → Option (List String)
  | .fileSection => some strings
  | .partition => none

section Run

variable (images : List Image) (outside : Outside (Fin images.length))

/-- The passes with the setup handler of a file image in its place. An exit ends the walk as an error
does. -/
def fileOutside (image : Fin images.length) (setup : Option (Int × List Extent)) :
    Outside (Fin images.length) where
  reply log event := if event = .setup image then setup.elim 1 Prod.fst else outside.reply log event
  removable := outside.removable

/-- **The calls of a run of `main`** in which one file image has hole strings and nothing else stops
in front of the passes. -/
def buildLog (len : Nat → Int32) (stat : Int) (strings : List String) (source : HoleSource)
    (image : Fin images.length) : Option (List (Call (Fin images.length))) :=
  match holesOfNew len strings source with
  | none => some []
  | some holes =>
    (runPasses images (fileOutside images outside image
      (fileSetup len stat holes (holesSection strings source)))).map fun result => result.2.world

end Run

/-! ### Valid hole strings -/

/-- A size in a hole string: digits with at most one suffix, and the value. -/
structure HoleSize (word : List UInt8) (value : UInt64) : Prop where
  nonempty : word ≠ []
  chars : ∀ c ∈ word, isHoleChar c = true
  exactly : ReadsExactly false word value false

/-- **A string of the form `(start;end)` with two valid sizes.** White space may stand everywhere but
in the sizes. -/
inductive ValidHole : List UInt8 → Extent → Prop
  | mk (first second third fourth fifth sixth start stop : List UInt8) (extent : Extent) :
      (∀ spaces ∈ [first, second, third, fourth, fifth, sixth], ∀ c ∈ spaces, isspace c = true) →
      HoleSize start extent.start → HoleSize stop extent.stop →
      ValidHole (first ++ 0x28 :: (second ++ (start ++ (third ++ 0x3b :: (fourth ++ (stop ++
        (fifth ++ 0x29 :: sixth))))))) extent

theorem scanChar_append {spaces : List UInt8} (blank : ∀ c ∈ spaces, isspace c = true) {c : UInt8}
    (solid : isspace c = false) (rest : List UInt8) :
    scanChar c (spaces ++ c :: rest) = some rest := by
  have skip : (spaces ++ c :: rest).dropWhile isspace = c :: rest := by
    rw [List.dropWhile_append_of_pos blank,
      List.dropWhile_cons_of_neg (by rw [solid]; exact Bool.false_ne_true)]
  unfold scanChar
  rw [skip]
  dsimp only
  rw [if_pos rfl]

/-- White space and the characters of the format do not go on with a size. -/
theorem takeWhile_isHoleChar {spaces : List UInt8} (blank : ∀ c ∈ spaces, isspace c = true)
    {c : UInt8} (other : isHoleChar c = false) (rest : List UInt8) :
    (spaces ++ c :: rest).takeWhile isHoleChar = [] := by
  have all : ∀ n < 256, isspace (UInt8.ofNat n) = true → isHoleChar (UInt8.ofNat n) = false := by
    decide +kernel
  have space : ∀ c, isspace c = true → isHoleChar c = false := by
    intro c blank
    have this := all c.toNat c.toNat_lt
    rw [UInt8.ofNat_toNat] at this
    exact this blank
  cases spaces with
  | nil => exact List.takeWhile_cons_of_neg (by rw [other]; exact Bool.false_ne_true)
  | cons d spaces =>
    have this := space d (blank d List.mem_cons_self)
    exact List.takeWhile_cons_of_neg (by rw [this]; exact Bool.false_ne_true)

theorem scanWord_append {spaces word spaces' : List UInt8}
    (blank : ∀ c ∈ spaces, isspace c = true) (blank' : ∀ c ∈ spaces', isspace c = true)
    (nonempty : word ≠ []) (chars : ∀ c ∈ word, isHoleChar c = true) {c : UInt8}
    (other : isHoleChar c = false) (rest : List UInt8) :
    scanWord (spaces ++ (word ++ (spaces' ++ c :: rest))) = some (word, spaces' ++ c :: rest) := by
  obtain ⟨first, tail, rfl⟩ := List.exists_cons_of_ne_nil nonempty
  have solid : isspace first = false := by
    have all : ∀ n < 256, isHoleChar (UInt8.ofNat n) = true → isspace (UInt8.ofNat n) = false := by
      decide +kernel
    have this := all first.toNat first.toNat_lt
    rw [UInt8.ofNat_toNat] at this
    exact this (chars first List.mem_cons_self)
  have skip : (spaces ++ (first :: tail ++ (spaces' ++ c :: rest))).dropWhile isspace =
      first :: tail ++ (spaces' ++ c :: rest) := by
    rw [List.dropWhile_append_of_pos blank, List.cons_append,
      List.dropWhile_cons_of_neg (by rw [solid]; exact Bool.false_ne_true)]
  have take : (first :: tail ++ (spaces' ++ c :: rest)).takeWhile isHoleChar = first :: tail := by
    rw [List.takeWhile_append_of_pos chars, takeWhile_isHoleChar blank' other, List.append_nil]
  unfold scanWord
  simp only [skip, take]
  rw [if_neg nonempty, List.drop_left]

/-- A word of hole characters is the text of its string. -/
theorem cBytes_wordString {word : List UInt8} (chars : ∀ c ∈ word, isHoleChar c = true) :
    cBytes (wordString word) = word := by
  have all : ∀ n < 256, isHoleChar (UInt8.ofNat n) = true → 0 < (Char.ofNat n).toNat ∧
      (Char.ofNat n).toNat < 128 ∧ (Char.ofNat n).toNat = n := by
    decide +kernel
  have each : ∀ c ∈ word, 0 < (Char.ofNat c.toNat).toNat ∧ (Char.ofNat c.toNat).toNat < 128 ∧
      (Char.ofNat c.toNat).toNat = c.toNat := by
    intro c member
    have this := all c.toNat c.toNat_lt
    rw [UInt8.ofNat_toNat] at this
    exact this (chars c member)
  have plain : ∀ d ∈ word.map (fun c => Char.ofNat c.toNat), 0 < d.toNat ∧ d.toNat < 128 := by
    intro d member
    obtain ⟨c, among, rfl⟩ := List.mem_map.mp member
    exact ⟨(each c among).1, (each c among).2.1⟩
  rw [wordString, cBytes_ofList plain, List.map_map]
  conv_rhs => rw [← List.map_id word]
  apply List.map_congr_left
  intro c member
  show UInt8.ofNat (Char.ofNat c.toNat).toNat = c
  rw [(each c member).2.2, UInt8.ofNat_toNat]

theorem HoleSize.strtoulSuffix {word : List UInt8} {value : UInt64} (size : HoleSize word value) :
    strtoulSuffix (wordString word) false = some (value, false) := by
  obtain ⟨nonempty, chars, exactly⟩ := size
  have text := cBytes_wordString chars
  cases exactly with
  | empty => exact absurd rfl nonempty
  | number number suffix number' factor flag word numeral known product =>
    rw [strtoulSuffix_numeral text numeral known]
    refine congrArg some (Prod.ext (UInt64.toNat_inj.mp ?_) rfl)
    rw [product]
    exact numberWord_mul (sizeSuffix_factor known).1 (product ▸ value.toNat_lt)

/-- **A valid hole string is read.** -/
theorem ValidHole.readHole {s : String} {extent : Extent} (valid : ValidHole (cBytes s) extent)
    (len : Int32) : readHole len s = .hole extent := by
  generalize text : cBytes s = bytes at valid
  obtain ⟨first, second, third, fourth, fifth, sixth, start, stop, extent, blank, size, size'⟩ := valid
  have scanned : scanHole (cBytes s) = some (start, stop, some (Int32.ofNat (cBytes s).length)) := by
    have end_ : sixth.dropWhile isspace = [] :=
      List.dropWhile_eq_nil_iff.mpr (blank sixth (by simp))
    unfold scanHole
    rw [text, scanChar_append (blank first (by simp)) rfl]
    simp only [bind, Option.bind, pure]
    rw [scanWord_append (blank second (by simp)) (blank third (by simp)) size.nonempty size.chars rfl]
    dsimp only
    rw [scanChar_append (blank third (by simp)) rfl]
    dsimp only
    rw [scanWord_append (blank fourth (by simp)) (blank fifth (by simp)) size'.nonempty size'.chars rfl]
    dsimp only
    rw [scanChar_append (blank fifth (by simp)) rfl, Option.map_some, end_]
    rfl
  unfold Genimage.readHole
  rw [scanned]
  dsimp only
  rw [Option.getD_some, if_neg (not_not_intro rfl), size.strtoulSuffix, size'.strtoulSuffix]

/-! ### The loop -/

/-- The strings in front of place `i` are read as holes. -/
def ReadTo (len : Nat → Int32) (start : Nat) (strings : List String) (i : Nat) : Prop :=
  ∀ j < i, ∀ s, strings[j]? = some s → ∃ hole, readHole (len (start + j)) s = .hole hole

theorem ReadTo.cons {len : Nat → Int32} {start i : Nat} {s : String} {strings : List String}
    {hole : Extent} (read : readHole (len start) s = .hole hole)
    (rest : ReadTo len (start + 1) strings i) : ReadTo len start (s :: strings) (i + 1) := by
  intro j less t at_
  cases j with
  | zero =>
    obtain rfl := Option.some.inj at_
    exact ⟨hole, read⟩
  | succ j =>
    rw [Nat.add_comm j, ← Nat.add_assoc]
    exact rest j (Nat.lt_of_succ_lt_succ less) t at_

/-- **The ways the loop can go**: all strings are read, or one ends it. -/
theorem holesLoop_cases (len : Nat → Int32) (added : List Extent) (strings : List String) :
    (ReadTo len added.length strings strings.length ∧
      ∃ holes, holesLoop len added strings = some (0, holes)) ∨
    ∃ i s, strings[i]? = some s ∧ ReadTo len added.length strings i ∧
      ((readHole (len (added.length + i)) s = .invalid ∧
          ∃ holes, holesLoop len added strings = some (einval, holes)) ∨
        (readHole (len (added.length + i)) s = .exit ∧ holesLoop len added strings = none)) := by
  induction strings generalizing added with
  | nil => exact Or.inl ⟨fun j less => absurd less (Nat.not_lt_zero j), added, rfl⟩
  | cons s rest ih =>
    rw [holesLoop]
    cases read : readHole (len added.length) s with
    | hole hole =>
      have length : (added ++ [hole]).length = added.length + 1 := List.length_append
      have := ih (added ++ [hole])
      rw [length] at this
      rcases this with ⟨all, result⟩ | ⟨i, t, at_, earlier, ends⟩
      · exact Or.inl ⟨ReadTo.cons read all, result⟩
      · rw [Nat.add_assoc, Nat.add_comm 1] at ends
        exact Or.inr ⟨i + 1, t, at_, ReadTo.cons read earlier, ends⟩
    | invalid =>
      exact Or.inr ⟨0, s, rfl, fun j less => absurd less (Nat.not_lt_zero j), Or.inl ⟨read, _, rfl⟩⟩
    | exit =>
      exact Or.inr ⟨0, s, rfl, fun j less => absurd less (Nat.not_lt_zero j), Or.inr ⟨read, rfl⟩⟩

/-- The list has as many holes as there are strings, whatever is returned. -/
theorem holesLoop_length {len : Nat → Int32} {added holes : List Extent} {strings : List String}
    {ret : Int} (run : holesLoop len added strings = some (ret, holes)) :
    holes.length = added.length + strings.length := by
  induction strings generalizing added with
  | nil =>
    cases run
    rfl
  | cons s rest ih =>
    rw [holesLoop] at run
    split at run
    · rw [ih run, List.length_append, List.length_singleton, List.length_cons]
      omega
    · cases run
      rw [List.length_append, List.length_replicate, List.length_cons]
    · cases run

/-- **Valid strings are added in order.** -/
theorem holesLoop_valid (len : Nat → Int32) {strings : List String} {holes : List Extent}
    (valid : List.Forall₂ (fun s => ValidHole (cBytes s)) strings holes) (added : List Extent) :
    holesLoop len added strings = some (0, added ++ holes) := by
  induction valid generalizing added with
  | nil => rw [holesLoop, List.append_nil]
  | cons one _ ih =>
    rw [holesLoop, one.readHole]
    dsimp only
    rw [ih, List.append_assoc, List.singleton_append]

/-! ### What the callers do -/

/-- **The build stops before an image is generated**: the run makes no calls but of setup handlers,
for all images and whatever else is called. -/
def StopsBuild (len : Nat → Int32) (strings : List String) (source : HoleSource) : Prop :=
  ∀ (images : List Image) (outside : Outside (Fin images.length)) (stat : Int)
    (image : Fin images.length), (images.get image).hasSetup = true →
    ∃ log, buildLog images outside len stat strings source image = some log ∧
      ∀ event ∈ log, ∃ other, event = .setup other

/-- **Hole strings have the effect they should have.** For a new image `parse_holes` refuses a list
with an invalid string, leaves the holes of the image alone, and the build stops; valid strings are
the holes of the image, also behind `file_setup`. -/
structure HolesRight (len : Nat → Int32) (strings : List String) (source : HoleSource) : Prop where
  refused : (∃ s ∈ strings, ∀ hole, ¬ ValidHole (cBytes s) hole) →
    ∃ ret, ret ≠ 0 ∧ parseHoles len [] (some strings) = some (ret, [])
  stops : (∃ s ∈ strings, ∀ hole, ¬ ValidHole (cBytes s) hole) → StopsBuild len strings source
  added : ∀ holes, List.Forall₂ (fun s => ValidHole (cBytes s)) strings holes →
    parseHoles len [] (some strings) = some (0, holes) ∧
    ∃ before, holesOfNew len strings source = some before ∧
      parseHoles len before (holesSection strings source) = some (0, holes)

/-- **What makes the build stop.** A string that is not read as a hole, for a file section; for a
partition only an exit. -/
def Stopping (len : Nat → Int32) (strings : List String) : HoleSource → Prop
  | .fileSection => ∃ i s, strings[i]? = some s ∧ ∀ hole, readHole (len i) s ≠ .hole hole
  | .partition => ∃ i s, strings[i]? = some s ∧ readHole (len i) s = .exit ∧
      ReadTo len 0 strings i

theorem parseHoles_new (len : Nat → Int32) (strings : List String) :
    parseHoles len [] (some strings) = holesLoop len [] strings :=
  if_neg (Nat.lt_irrefl 0)

/-- The call in `main` exits at the first string that cannot be read, when a size in it is invalid. -/
theorem holesOfNew_exit_iff (len : Nat → Int32) (strings : List String) :
    holesOfNew len strings .partition = none ↔ Stopping len strings .partition := by
  rw [holesOfNew, parseHoles_new, Option.map_eq_none_iff]
  rcases holesLoop_cases len [] strings with ⟨all, holes, run⟩ | ⟨i, s, at_, earlier, ends⟩
  · refine iff_of_false (by rw [run]; exact Option.some_ne_none _) ?_
    rintro ⟨j, t, at_, exits, _⟩
    obtain ⟨hole, read⟩ := all j (List.getElem?_eq_some_iff.mp at_).1 t at_
    rw [List.length_nil, Nat.zero_add, exits] at read
    cases read
  · rw [List.length_nil, Nat.zero_add] at ends
    rcases ends with ⟨invalid, holes, run⟩ | ⟨exits, run⟩
    · refine iff_of_false (by rw [run]; exact Option.some_ne_none _) ?_
      rintro ⟨j, t, at', exits, earlier'⟩
      rcases Nat.lt_trichotomy i j with before | rfl | behind
      · obtain ⟨hole, read⟩ := earlier' i before s at_
        rw [Nat.zero_add, invalid] at read
        cases read
      · obtain rfl := Option.some.inj (at_.symm.trans at')
        rw [invalid] at exits
        cases exits
      · obtain ⟨hole, read⟩ := earlier j behind t at'
        rw [List.length_nil, Nat.zero_add, exits] at read
        cases read
    · exact iff_of_true run ⟨i, s, at_, exits, earlier⟩

/-- An implicit image keeps its list. -/
theorem parseHoles_implicit (len : Nat → Int32) (holes : List Extent) :
    parseHoles len holes none = some (0, holes) := by
  unfold parseHoles
  split
  · rfl
  · next empty =>
    obtain rfl := List.eq_nil_of_length_eq_zero (Nat.le_zero.mp (not_lt.mp empty))
    rfl

/-- **If the setup handler fails, nothing is generated.** -/
theorem buildLog_failed {images : List Image} {outside : Outside (Fin images.length)}
    {image : Fin images.length} (has : (images.get image).hasSetup = true)
    {setup : Option (Int × List Extent)} (failed : setup.elim 1 Prod.fst ≠ 0) :
    ∃ log, (runPasses images (fileOutside images outside image setup)).map
        (fun result => result.2.world) = some log ∧ ∀ event ∈ log, ∃ other, event = .setup other := by
  obtain ⟨ret, marks, run⟩ : ∃ ret marks, setupAll images (fileOutside images outside image setup)
    (Marks.fresh images) = some (ret, marks) := Walk.pass_total (by simp)
  have refused : ret ≠ 0 := by
    refine Walk.pass_refused List.mem_finRange (fun other => ?_) image ?_ run
    · simp [Walk.Done, Marks.fresh, setupPass]
    · intro log
      have reply : (fileOutside images outside image setup).reply log (.setup image) =
        setup.elim 1 Prod.fst := if_pos rfl
      rw [setupBody, callIf, if_pos has, call, reply]
      exact failed
  refine ⟨marks.world, ?_, setupAll_quiet run⟩
  rw [runPasses, run]
  dsimp only
  rw [if_pos refused]
  rfl

/-- A single image whose setup succeeds is generated. -/
theorem runPasses_single (holes : List Extent) :
    (runPasses [{ file := "data.img" }] (fileOutside [{ file := "data.img" }]
      ⟨fun _ _ => 0, fun _ _ => false⟩ ⟨0, Nat.one_pos⟩ (some (0, holes)))).map
        (fun result => result.2.world) =
      some [.setup ⟨0, Nat.one_pos⟩, .setenv ⟨0, Nat.one_pos⟩, .generate ⟨0, Nat.one_pos⟩] := by
  rfl

/-- If the setup handler can succeed, the build can go on. -/
theorem not_stopsBuild {len : Nat → Int32} {strings : List String} {source : HoleSource}
    {before holes : List Extent} (new : holesOfNew len strings source = some before)
    (setup : parseHoles len before (holesSection strings source) = some (0, holes)) :
    ¬ StopsBuild len strings source := by
  intro stops
  obtain ⟨log, same, quiet⟩ := stops [{ file := "data.img" }] ⟨fun _ _ => 0, fun _ _ => false⟩ 0
    ⟨0, Nat.one_pos⟩ rfl
  rw [buildLog, new] at same
  dsimp only at same
  rw [fileSetup, if_neg (not_not_intro rfl), setup, runPasses_single] at same
  obtain rfl := Option.some.inj same
  obtain ⟨other, equal⟩ := quiet (.generate ⟨0, Nat.one_pos⟩) (by simp)
  cases equal

/-- **When the build stops.** -/
theorem stopsBuild_iff (len : Nat → Int32) (strings : List String) (source : HoleSource) :
    StopsBuild len strings source ↔ Stopping len strings source := by
  have cases := holesLoop_cases len [] strings
  rw [List.length_nil] at cases
  simp only [Nat.zero_add] at cases
  cases source with
  | fileSection =>
    rcases cases with ⟨all, holes, result⟩ | ⟨i, s, at_, -, ends⟩
    · refine iff_of_false (not_stopsBuild rfl ((parseHoles_new len strings).trans result)) ?_
      rintro ⟨i, s, at_, bad⟩
      have less := (List.getElem?_eq_some_iff.mp at_).1
      obtain ⟨hole, read⟩ := all i less s at_
      rw [Nat.zero_add] at read
      exact bad hole read
    · refine iff_of_true ?_ ⟨i, s, at_, fun hole read => ?_⟩
      · intro images outside stat image has
        refine buildLog_failed has ?_
        rw [fileSetup]
        split
        next bad => exact bad
        next =>
          rw [holesSection, parseHoles_new]
          rcases ends with ⟨-, holes, result⟩ | ⟨-, result⟩
          · rw [result]
            exact (by decide : einval ≠ 0)
          · rw [result]
            exact one_ne_zero
      · rcases ends with ⟨invalid, -⟩ | ⟨exit, -⟩
        · rw [read] at invalid
          cases invalid
        · rw [read] at exit
          cases exit
  | partition =>
    rw [← holesOfNew_exit_iff]
    cases new : holesOfNew len strings .partition with
    | none =>
      refine iff_of_true (fun images outside stat image _ => ⟨[], ?_, nofun⟩) rfl
      rw [buildLog, new]
    | some holes => exact iff_of_false (not_stopsBuild new (parseHoles_implicit len holes)) nofun

/-- **Hole strings have the effect they should have only if all of them are valid**; the build stops
for a string that is not read as a hole in a file section, but in a partition only for an exit. -/
theorem parseHoles_right_iff (len : Nat → Int32) (strings : List String) (source : HoleSource) :
    (HolesRight len strings source ↔ ∀ s ∈ strings, ∃ hole, ValidHole (cBytes s) hole) ∧
      (StopsBuild len strings source ↔ Stopping len strings source) := by
  refine ⟨⟨?_, ?_⟩, stopsBuild_iff len strings source⟩
  · intro right s member
    by_contra invalid
    obtain ⟨ret, -, result⟩ := right.refused ⟨s, member, fun hole valid => invalid ⟨hole, valid⟩⟩
    rw [parseHoles_new] at result
    have length := holesLoop_length result
    have := List.length_pos_of_mem member
    simp only [List.length_nil] at length
    omega
  · intro all
    have none : ¬ ∃ s ∈ strings, ∀ hole, ¬ ValidHole (cBytes s) hole := by
      rintro ⟨s, member, bad⟩
      obtain ⟨hole, valid⟩ := all s member
      exact bad hole valid
    refine ⟨fun bad => absurd bad none, fun bad => absurd bad none, ?_⟩
    intro holes valid
    have result : parseHoles len [] (some strings) = some (0, holes) := by
      rw [parseHoles_new, holesLoop_valid len valid, List.nil_append]
    refine ⟨result, ?_⟩
    cases source with
    | fileSection => exact ⟨[], rfl, result⟩
    | partition =>
      exact ⟨holes, by rw [holesOfNew, result]; rfl, parseHoles_implicit len holes⟩

/-- A range without parentheses in a partition: the build goes on with a hole of no bytes. -/
theorem parseHoles_unnoticed : ¬ HolesRight (fun _ => 0) ["440-512"] .partition := by
  intro right
  have invalid : ∀ hole, ¬ ValidHole (cBytes "440-512") hole := by
    intro hole valid
    have read := valid.readHole 0
    revert read
    have : readHole 0 "440-512" = .invalid := by decide
    rw [this]
    exact nofun
  have stops := right.stops ⟨_, List.mem_singleton_self _, invalid⟩
  refine not_stopsBuild ?_ (parseHoles_implicit (fun _ => 0) [⟨0, 0⟩]) stops
  decide

end Genimage
