/-
**INI files.**

A section is a heading in brackets and its entries, one in each line. `read_iff` says that the reader
accepts exactly the texts that `write` makes of plain sections, and gives these back: no name contains a
bracket that closes, no key an equals sign or a bracket in front, and nothing a newline.
-/

import Genimage.Library.Lines
import Mathlib.Data.List.TakeWhile

namespace Genimage.Library.Ini

open Lines

/-- A section of a file. -/
structure Section where
  name : List Char
  entries : List (List Char × List Char)
deriving DecidableEq

/-! ### The writer -/

def heading (name : List Char) : List Char := '[' :: (name ++ [']'])

def entryLine (entry : List Char × List Char) : List Char := entry.1 ++ '=' :: entry.2

def Section.lines (sec : Section) : List (List Char) :=
  heading sec.name :: sec.entries.map entryLine

/-- The text of a file. -/
def write (sections : List Section) : List Char := terminated '\n' (sections.flatMap Section.lines)

theorem write_cons (sec : Section) (sections : List Section) :
    write (sec :: sections) = terminated '\n' sec.lines ++ write sections := by
  rw [write, write, terminated, terminated, terminated, List.flatMap_cons, List.flatMap_append]

/-! ### The reader -/

/-- What a line says. -/
inductive Item where
  | heading (name : List Char)
  | entry (pair : List Char × List Char)
deriving DecidableEq

/-- A line with a bracket in front is a heading. Every other line is a key and a value. -/
def readLine (line : List Char) : Option Item :=
  if line.head? = some '[' then
    let name := line.tail.takeWhile (· ≠ ']')
    if line = heading name then some (.heading name) else none
  else
    let entry := (line.takeWhile (· ≠ '='), (line.dropWhile (· ≠ '=')).tail)
    if line = entryLine entry then some (.entry entry) else none

/-- A line in front of the entries of the section that has begun, and of the sections behind them. -/
def Item.add : Item → List (List Char × List Char) × List Section →
    List (List Char × List Char) × List Section
  | .heading name, rest => ([], ⟨name, rest.1⟩ :: rest.2)
  | .entry pair, rest => (pair :: rest.1, rest.2)

/-- The entries in front of the first heading, and the sections. -/
def readLines : List (List Char) → Option (List (List Char × List Char) × List Section)
  | [] => some ([], [])
  | line :: lines => (readLine line).bind fun item => (readLines lines).map item.add

/-- The sections of a file. No entry stands in front of the first one. -/
def read (text : List Char) : Option (List Section) :=
  ((linesOf '\n' text).bind readLines).bind fun found => if found.1 = [] then some found.2 else none

/-! ### Plain sections -/

/-- A key without an equals sign and without a bracket in front. -/
structure PlainKey (key : List Char) : Prop where
  equals : '=' ∉ key
  bracket : key.head? ≠ some '['

/-- **A section that can be read back.** -/
structure Section.Plain (sec : Section) : Prop where
  name : ']' ∉ sec.name
  keys : ∀ entry ∈ sec.entries, PlainKey entry.1
  newline : ∀ line ∈ sec.lines, '\n' ∉ line

theorem takeWhile_append_stop {stop : Char} {text : List Char} (inside : stop ∉ text)
    (rest : List Char) : (text ++ stop :: rest).takeWhile (· ≠ stop) = text ∧
      (text ++ stop :: rest).dropWhile (· ≠ stop) = stop :: rest := by
  have all : ∀ c ∈ text, decide (c ≠ stop) = true := fun c member => by
    rw [decide_eq_true_eq]
    rintro rfl
    exact inside member
  rw [List.takeWhile_append_of_pos all, List.dropWhile_append_of_pos all]
  simp

theorem readLine_heading {line name : List Char} :
    readLine line = some (.heading name) ↔ line = heading name ∧ ']' ∉ name := by
  unfold readLine
  simp only
  constructor
  · intro run
    split_ifs at run with bracket shown shown
    · obtain rfl := Item.heading.inj (Option.some.inj run)
      refine ⟨shown, fun member => ?_⟩
      simpa using List.mem_takeWhile_imp member
    · cases Option.some.inj run
  · rintro ⟨rfl, inside⟩
    have begins : (heading name).head? = some '[' := rfl
    have taken : (heading name).tail.takeWhile (· ≠ ']') = name := (takeWhile_append_stop inside []).1
    rw [if_pos begins, taken, if_pos rfl]

theorem readLine_entry {line : List Char} {entry : List Char × List Char} :
    readLine line = some (.entry entry) ↔ line = entryLine entry ∧ PlainKey entry.1 := by
  unfold readLine
  simp only
  constructor
  · intro run
    split_ifs at run with bracket shown shown
    · cases Option.some.inj run
    · obtain rfl := Item.entry.inj (Option.some.inj run)
      refine ⟨shown, fun member => ?_, fun first => bracket ?_⟩
      · simpa using List.mem_takeWhile_imp member
      · rw [shown, entryLine, List.head?_append, first, Option.some_or]
  · rintro ⟨rfl, equals, bracket⟩
    have begins : (entryLine entry).head? ≠ some '[' := by
      obtain ⟨key, value⟩ := entry
      cases key with
      | nil => exact fun same => absurd (Option.some.inj same) (by decide)
      | cons c key => exact bracket
    have split : (entryLine entry).takeWhile (· ≠ '=') = entry.1 ∧
        (entryLine entry).dropWhile (· ≠ '=') = '=' :: entry.2 := takeWhile_append_stop equals entry.2
    rw [if_neg begins, split.1, split.2, List.tail_cons, if_pos rfl]

/-- **The lines of a file**, by induction on them: the entries in front of the first heading, and the
sections. -/
theorem readLines_iff {lines : List (List Char)} {entries : List (List Char × List Char)}
    {sections : List Section} : readLines lines = some (entries, sections) ↔
      lines = entries.map entryLine ++ sections.flatMap Section.lines ∧
        (∀ entry ∈ entries, PlainKey entry.1) ∧
        ∀ sec ∈ sections, ']' ∉ sec.name ∧ ∀ entry ∈ sec.entries, PlainKey entry.1 := by
  induction lines generalizing entries sections with
  | nil =>
    rw [readLines]
    cases entries with
    | nil =>
      cases sections with
      | nil => simp
      | cons sec sections => simp [Section.lines]
    | cons entry entries => simp
  | cons line lines ih =>
    rw [readLines, Option.bind_eq_some_iff]
    simp only [Option.map_eq_some_iff]
    constructor
    · rintro ⟨item, one, ⟨entries', sections'⟩, others, same⟩
      obtain ⟨rfl, keys, rest⟩ := ih.mp others
      cases item with
      | heading name =>
        obtain ⟨rfl, inside⟩ := readLine_heading.mp one
        obtain ⟨rfl, rfl⟩ := Prod.mk.inj same
        refine ⟨by simp [Section.lines], by simp, ?_⟩
        exact List.forall_mem_cons.mpr ⟨⟨inside, keys⟩, rest⟩
      | entry entry =>
        obtain ⟨rfl, key⟩ := readLine_entry.mp one
        obtain ⟨rfl, rfl⟩ := Prod.mk.inj same
        exact ⟨rfl, List.forall_mem_cons.mpr ⟨key, keys⟩, rest⟩
    · rintro ⟨same, keys, rest⟩
      cases entries with
      | cons entry entries =>
        rw [List.forall_mem_cons] at keys
        obtain ⟨rfl, rfl⟩ := List.cons.inj same
        exact ⟨.entry entry, readLine_entry.mpr ⟨rfl, keys.1⟩, (entries, sections),
          ih.mpr ⟨rfl, keys.2, rest⟩, rfl⟩
      | nil =>
        cases sections with
        | nil => cases same
        | cons sec sections =>
          rw [List.forall_mem_cons] at rest
          obtain ⟨rfl, rfl⟩ := List.cons.inj same
          exact ⟨.heading sec.name, readLine_heading.mpr ⟨rfl, rest.1.1⟩, (sec.entries, sections),
            ih.mpr ⟨rfl, rest.1.2, rest.2⟩, rfl⟩

/-- **The reader accepts what is written of plain sections, and gives it back.** -/
theorem read_iff {text : List Char} {sections : List Section} :
    read text = some sections ↔ text = write sections ∧ ∀ sec ∈ sections, sec.Plain := by
  have inside : (∀ line ∈ sections.flatMap Section.lines, '\n' ∉ line) ↔
      ∀ sec ∈ sections, ∀ line ∈ sec.lines, '\n' ∉ line := by
    simp only [List.mem_flatMap]
    exact ⟨fun all sec member line among => all line ⟨sec, member, among⟩,
      fun all line ⟨sec, member, among⟩ => all sec member line among⟩
  unfold read
  simp only [Option.bind_eq_some_iff, linesOf_iff]
  constructor
  · rintro ⟨⟨entries, sections'⟩, ⟨lines, ⟨rfl, newline⟩, found⟩, none⟩
    split_ifs at none with first
    obtain rfl : entries = [] := first
    obtain rfl := Option.some.inj none
    obtain ⟨rfl, _, plain⟩ := readLines_iff.mp found
    exact ⟨rfl, fun sec member => ⟨(plain sec member).1, (plain sec member).2,
      inside.mp newline sec member⟩⟩
  · rintro ⟨rfl, plain⟩
    refine ⟨([], sections), ⟨_, ⟨rfl, inside.mpr fun sec member => (plain sec member).newline⟩, ?_⟩,
      if_pos rfl⟩
    exact readLines_iff.mpr ⟨rfl, by simp, fun sec member => ⟨(plain sec member).name,
      (plain sec member).keys⟩⟩

end Genimage.Library.Ini
