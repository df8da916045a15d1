/-
**Size strings and the numbers they denote.**

`Numeral` is the syntax of `strtoull` in base `0` as a grammar, with the number it denotes; `numberAt`
reads the longest one without any limit, and `strtoull` is `numberAt` cut to a word (`strtoull_eq`).
A reading is exact if the whole text is a numeral with at most one suffix and the result is the
product. `strtoul_suffix` misreads four kinds of texts (`Misread`) and reads all others exactly or
ends the program (`strtoulSuffix_exact_iff`).
-/

import Genimage.Util.Suffix
import Mathlib.Data.List.TakeWhile

namespace Genimage

/-! ### The grammar of numbers -/

/-- **The digits of a number with their base prefix**, and its magnitude. -/
inductive Magnitude : List UInt8 → Nat → Prop
  | hex (x : UInt8) (digits : List UInt8) : x = 0x78 ∨ x = 0x58 → digits ≠ [] →
      (∀ c ∈ digits, isDigitOf 16 c = true) →
      Magnitude (0x30 :: x :: digits) (digitsValue 16 digits)
  | octal (digits : List UInt8) : (∀ c ∈ digits, isDigitOf 8 c = true) →
      Magnitude (0x30 :: digits) (digitsValue 8 (0x30 :: digits))
  | decimal (first : UInt8) (digits : List UInt8) : first ≠ 0x30 →
      (∀ c ∈ first :: digits, isDigitOf 10 c = true) →
      Magnitude (first :: digits) (digitsValue 10 (first :: digits))

/-- The sign in front of the digits. -/
inductive Sign : List UInt8 → Int → Prop
  | absent : Sign [] 1
  | plus : Sign [0x2b] 1
  | minus : Sign [0x2d] (-1)

/-- **A number in the syntax of `strtoull` in base `0`**: white space, a sign, digits. -/
inductive Numeral : List UInt8 → Int → Prop
  | mk (spaces sign digits : List UInt8) (unit : Int) (magnitude : Nat) :
      (∀ c ∈ spaces, isspace c = true) → Sign sign unit → Magnitude digits magnitude →
      Numeral (spaces ++ (sign ++ digits)) (unit * magnitude)

/-- The number at the beginning of a text and what stands behind it. -/
def numberAt (text : List UInt8) : Option (Int × List UInt8) :=
  let (negative, unsigned) := splitSign (text.dropWhile isspace)
  let (base, body) := splitBase 0 unsigned
  let digits := body.takeWhile (isDigitOf base)
  if digits = [] then none
  else some (if negative then -(digitsValue base digits : Int) else digitsValue base digits,
    body.drop digits.length)

/-- What `strtoull` makes of a number. -/
def numberWord (value : Int) : UInt64 :=
  if 2 ^ 64 ≤ value.natAbs then UInt64.ofNat (2 ^ 64 - 1) else UInt64.ofInt value

theorem numberWord_natCast {value : Nat} (fits : value < 2 ^ 64) :
    (numberWord value).toNat = value := by
  rw [numberWord, if_neg (by rw [Int.natAbs_natCast]; exact fits.not_ge)]
  exact Library.toNat_ofInt_natCast fits

/-- **`strtoull` reads the number and cuts it to a word.** -/
theorem strtoull_eq (text : List UInt8) : strtoull text 0 = match numberAt text with
    | none => (0, text)
    | some (value, rest) => (numberWord value, rest) := by
  unfold strtoull numberAt
  rcases splitSign (text.dropWhile isspace) with ⟨negative, unsigned⟩
  dsimp only
  rcases splitBase 0 unsigned with ⟨base, body⟩
  dsimp only
  by_cases empty : body.takeWhile (isDigitOf base) = []
  · rw [if_pos empty, if_pos empty]
  · rw [if_neg empty, if_neg empty]
    generalize digitsValue base (body.takeWhile (isDigitOf base)) = value
    dsimp only
    congr 1
    unfold numberWord
    cases negative with
    | false =>
      rw [if_neg Bool.false_ne_true, if_neg Bool.false_ne_true, Int.natAbs_natCast]
      split
      · rfl
      · apply UInt64.toNat_inj.mp
        have fits : value < 2 ^ 64 := by omega
        rw [Library.toNat_ofInt_natCast fits, UInt64.toNat_ofNat_of_lt' fits]
    | true =>
      rw [if_pos rfl, if_pos rfl, Int.natAbs_neg, Int.natAbs_natCast]
      split
      · rfl
      · apply UInt64.toNat_inj.mp
        have fits : value < 2 ^ 64 := by omega
        rw [UInt64.toNat_sub, UInt64.toNat_ofNat_of_lt' fits, UInt64.toNat_zero, UInt64.ofInt]
        have reduced : (-(value : Int) % 2 ^ 64).toNat < 2 ^ 64 := by omega
        rw [UInt64.toNat_ofNat_of_lt' reduced]
        omega

/-! ### Scanning -/

/-- No number goes on here: the next character is no digit, nor the `x` of a base prefix. -/
def Stops (rest : List UInt8) : Prop :=
  ∀ c ∈ rest.head?, isDigitOf 16 c = false ∧ c ≠ 0x78 ∧ c ≠ 0x58

/-- A digit of a smaller base is one of a greater base. -/
theorem isDigitOf_mono {base greater : Nat} (le : base ≤ greater) {c : UInt8}
    (digit : isDigitOf base c = true) : isDigitOf greater c = true := by
  unfold isDigitOf at digit ⊢
  cases value : digitValue c with
  | none =>
    rw [value] at digit
    exact absurd digit Bool.false_ne_true
  | some value =>
    simp only [value, Option.any_some, decide_eq_true_eq] at digit ⊢
    omega

theorem takeWhile_digits {base : Nat} (le : base ≤ 16) {digits rest : List UInt8}
    (all : ∀ c ∈ digits, isDigitOf base c = true) (stops : Stops rest) :
    (digits ++ rest).takeWhile (isDigitOf base) = digits := by
  have none : rest.takeWhile (isDigitOf base) = [] := by
    cases rest with
    | nil => rfl
    | cons c rest =>
      have := (stops c rfl).1
      apply List.takeWhile_cons_of_neg
      intro digit
      rw [isDigitOf_mono le digit] at this
      exact absurd this (by decide)
  rw [List.takeWhile_append_of_pos all, none, List.append_nil]

theorem splitBase_octal {tail : List UInt8} (plain : ∀ c ∈ tail.head?, c ≠ 0x78 ∧ c ≠ 0x58) :
    splitBase 0 (0x30 :: tail) = (8, 0x30 :: tail) := by
  match tail, plain with
  | [], _ => rfl
  | [_], _ => rfl
  | x :: digit :: rest, plain =>
    have other := plain x rfl
    rw [splitBase, if_neg (by simp [other]), if_pos rfl]

theorem splitBase_decimal {first : UInt8} {tail : List UInt8} (other : first ≠ 0x30) :
    splitBase 0 (first :: tail) = (10, first :: tail) := by
  unfold splitBase
  split
  next same => exact absurd (List.cons.inj same).1 other
  next same => exact absurd (List.cons.inj same).1 other
  next => rfl

/-- **The base and the digits of a number are found.** -/
theorem Magnitude.scan {digits : List UInt8} {magnitude : Nat} (number : Magnitude digits magnitude)
    {rest : List UInt8} (stops : Stops rest) :
    ∃ base body found, splitBase 0 (digits ++ rest) = (base, body) ∧
      body.takeWhile (isDigitOf base) = found ∧ found ≠ [] ∧ body.drop found.length = rest ∧
      digitsValue base found = magnitude := by
  cases number with
  | hex x digits letter nonempty all =>
    refine ⟨16, digits ++ rest, digits, ?_, takeWhile_digits le_rfl all stops, nonempty,
      List.drop_left, rfl⟩
    obtain ⟨first, others, rfl⟩ := List.exists_cons_of_ne_nil nonempty
    rw [List.cons_append, List.cons_append, List.cons_append, splitBase, if_pos]
    simp [letter, all first List.mem_cons_self]
  | octal digits all =>
    have zero : isDigitOf 8 0x30 = true := by decide
    refine ⟨8, 0x30 :: digits ++ rest, 0x30 :: digits, splitBase_octal ?_, takeWhile_digits
      (by decide) (fun c member => ?_) stops, List.cons_ne_nil _ _, List.drop_left, rfl⟩
    · intro c next
      cases digits with
      | nil => exact (stops c next).2
      | cons digit digits =>
        obtain rfl := Option.some.inj next
        have octal := all digit List.mem_cons_self
        exact ⟨fun same => absurd (same ▸ octal) (by decide),
          fun same => absurd (same ▸ octal) (by decide)⟩
    · rcases List.mem_cons.mp member with rfl | member
      · exact zero
      · exact all c member
  | decimal first digits other all =>
    exact ⟨10, first :: digits ++ rest, first :: digits, splitBase_decimal other,
      takeWhile_digits (by decide) all stops, List.cons_ne_nil _ _, List.drop_left, rfl⟩

/-- A number begins with a digit. -/
theorem Magnitude.head {digits : List UInt8} {magnitude : Nat} (number : Magnitude digits magnitude) :
    ∃ first rest, digits = first :: rest ∧ isDigitOf 10 first = true := by
  cases number with
  | hex x digits _ _ _ => exact ⟨0x30, x :: digits, rfl, by decide⟩
  | octal digits _ => exact ⟨0x30, digits, rfl, by decide⟩
  | decimal first digits _ all => exact ⟨first, digits, rfl, all first List.mem_cons_self⟩

/-- White space is no digit, a digit no sign. -/
theorem isDigitOf_ten {c : UInt8} (digit : isDigitOf 10 c = true) :
    isspace c = false ∧ c ≠ 0x2d ∧ c ≠ 0x2b := by
  have all : ∀ n < 256, isDigitOf 10 (UInt8.ofNat n) = true →
      isspace (UInt8.ofNat n) = false ∧ UInt8.ofNat n ≠ 0x2d ∧ UInt8.ofNat n ≠ 0x2b := by
    decide +kernel
  have this := all c.toNat c.toNat_lt
  rw [UInt8.ofNat_toNat] at this
  exact this digit

/-- **A number in front of a text is read.** -/
theorem Numeral.numberAt {number rest : List UInt8} {value : Int} (numeral : Numeral number value)
    (stops : Stops rest) : numberAt (number ++ rest) = some (value, rest) := by
  obtain ⟨spaces, sign, digits, unit, magnitude, blank, signed, found⟩ := numeral
  obtain ⟨first, tail, begins, digit⟩ := found.head
  obtain ⟨space, minus, plus⟩ := isDigitOf_ten digit
  obtain ⟨base, body, taken, split, take, nonempty, drop, denotes⟩ := found.scan stops
  have skip : (spaces ++ (sign ++ digits) ++ rest).dropWhile isspace = sign ++ (digits ++ rest) := by
    rw [List.append_assoc, List.dropWhile_append_of_pos blank, List.append_assoc]
    cases signed with
    | absent =>
      rw [List.nil_append, begins, List.cons_append,
        List.dropWhile_cons_of_neg (by rw [space]; exact Bool.false_ne_true)]
    | plus => rfl
    | minus => rfl
  have signs : splitSign (sign ++ (digits ++ rest)) = (decide (unit < 0), digits ++ rest) := by
    cases signed with
    | absent =>
      rw [List.nil_append, begins, List.cons_append]
      unfold splitSign
      split
      next same => exact absurd (List.cons.inj same).1 minus
      next same => exact absurd (List.cons.inj same).1 plus
      next => rfl
    | plus => rfl
    | minus => rfl
  unfold Genimage.numberAt
  simp only [skip, signs, split, take]
  rw [if_neg nonempty, drop, denotes]
  cases signed with
  | absent => simp
  | plus => simp
  | minus => simp

theorem Magnitude.of_octal {tail found rest : List UInt8}
    (take : (0x30 :: tail).takeWhile (isDigitOf 8) = found) (parts : found ++ rest = 0x30 :: tail) :
    ∃ digits, 0x30 :: tail = digits ++ rest ∧ Magnitude digits (digitsValue 8 found) := by
  rw [List.takeWhile_cons_of_pos (by decide)] at take
  subst take
  exact ⟨_, parts.symm, Magnitude.octal _ fun c member => List.mem_takeWhile_imp member⟩

/-- The digits that are found make a number with what stands in front of them. -/
theorem splitBase_magnitude {unsigned body found rest : List UInt8} {base : Nat}
    (split : splitBase 0 unsigned = (base, body)) (take : body.takeWhile (isDigitOf base) = found)
    (nonempty : found ≠ []) (parts : found ++ rest = body) :
    ∃ digits, unsigned = digits ++ rest ∧ Magnitude digits (digitsValue base found) := by
  have all : ∀ c ∈ found, isDigitOf base c = true := by
    intro c member
    rw [← take] at member
    exact List.mem_takeWhile_imp member
  unfold splitBase at split
  split at split
  case h_1 x digit tail =>
    split at split
    case isTrue letter =>
      obtain ⟨rfl, rfl⟩ := Prod.mk.inj split
      simp only [decide_true, Bool.true_or, Bool.true_and, Bool.and_eq_true, Bool.or_eq_true,
        decide_eq_true_eq] at letter
      exact ⟨0x30 :: x :: found, by rw [List.cons_append, List.cons_append, parts],
        Magnitude.hex x found letter.1 nonempty all⟩
    case isFalse =>
      rw [if_pos rfl] at split
      obtain ⟨rfl, rfl⟩ := Prod.mk.inj split
      exact Magnitude.of_octal take parts
  case h_2 tail _ =>
    rw [if_pos rfl] at split
    obtain ⟨rfl, rfl⟩ := Prod.mk.inj split
    exact Magnitude.of_octal take parts
  case h_3 _ noZero =>
    rw [if_pos rfl] at split
    obtain ⟨rfl, rfl⟩ := Prod.mk.inj split
    obtain ⟨first, tail, rfl⟩ := List.exists_cons_of_ne_nil nonempty
    refine ⟨first :: tail, parts.symm, Magnitude.decimal first tail ?_ all⟩
    rintro rfl
    exact noZero _ parts.symm

/-- The sign that is split off. -/
theorem splitSign_sign {text unsigned : List UInt8} {negative : Bool}
    (split : splitSign text = (negative, unsigned)) :
    ∃ sign unit, text = sign ++ unsigned ∧ Sign sign unit ∧
      ∀ value : Nat, (if negative then -(value : Int) else value) = unit * value := by
  unfold splitSign at split
  split at split
  · obtain ⟨rfl, rfl⟩ := Prod.mk.inj split
    exact ⟨[0x2d], -1, rfl, Sign.minus, fun value => by simp⟩
  · obtain ⟨rfl, rfl⟩ := Prod.mk.inj split
    exact ⟨[0x2b], 1, rfl, Sign.plus, fun value => by simp⟩
  · obtain ⟨rfl, rfl⟩ := Prod.mk.inj split
    exact ⟨[], 1, rfl, Sign.absent, fun value => by simp⟩

/-- **What is read is a number.** -/
theorem numberAt_numeral {text rest : List UInt8} {value : Int}
    (read : numberAt text = some (value, rest)) :
    ∃ number, text = number ++ rest ∧ Numeral number value := by
  unfold numberAt at read
  rcases split : splitSign (text.dropWhile isspace) with ⟨negative, unsigned⟩
  rcases based : splitBase 0 unsigned with ⟨base, body⟩
  simp only [split, based] at read
  split at read
  case isTrue => cases read
  case isFalse nonempty =>
    obtain ⟨rfl, behind⟩ := Prod.mk.inj (Option.some.inj read)
    have parts : body.takeWhile (isDigitOf base) ++ rest = body := by
      rw [← behind]
      exact List.prefix_iff_eq_append.mp (List.takeWhile_prefix _)
    obtain ⟨sign, unit, front, signed, product⟩ := splitSign_sign split
    obtain ⟨digits, here, magnitude⟩ := splitBase_magnitude based rfl nonempty parts
    refine ⟨text.takeWhile isspace ++ (sign ++ digits), ?_, ?_⟩
    · conv_lhs => rw [← List.takeWhile_append_dropWhile (p := isspace) (l := text), front, here]
      rw [List.append_assoc, List.append_assoc]
    · rw [product]
      exact Numeral.mk _ _ _ _ _ (fun c member => List.mem_takeWhile_imp member) signed magnitude

/-! ### Suffixes -/

/-- What a suffix multiplies with, and whether it is the percent sign. -/
def sizeSuffix (percent : Bool) : List UInt8 → Option (Nat × Bool)
  | [] => some (1, false)
  | [0x47] => some (2 ^ 30, false)
  | [0x4d] => some (2 ^ 20, false)
  | [0x6b] => some (2 ^ 10, false)
  | [0x4b] => some (2 ^ 10, false)
  | [0x73] => some (512, false)
  | [0x25] => if percent then some (1, true) else none
  | _ => none

/-- **The text is read exactly**: it is a number that is not negative, with at most one suffix, and
the product is the value; or it is empty. -/
inductive ReadsExactly (percent : Bool) : List UInt8 → UInt64 → Bool → Prop
  | empty : ReadsExactly percent [] 0 false
  | number (number suffix : List UInt8) (value factor : Nat) (flag : Bool) (word : UInt64) :
      Numeral number value → sizeSuffix percent suffix = some (factor, flag) →
      word.toNat = value * factor → ReadsExactly percent (number ++ suffix) word flag

/-- **The texts that are misread.** -/
inductive Misread (percent : Bool) : List UInt8 → Prop
  /-- A suffix without a number in front of it. -/
  | noDigits (c : UInt8) (rest : List UInt8) (meaning : Nat × Bool) :
      sizeSuffix percent [c] = some meaning → Misread percent (c :: rest)
  /-- More text behind the suffix. -/
  | trailing (number : List UInt8) (value : Int) (c : UInt8) (rest : List UInt8)
      (meaning : Nat × Bool) : Numeral number value → sizeSuffix percent [c] = some meaning →
      rest ≠ [] → Misread percent (number ++ c :: rest)
  /-- A number below zero. -/
  | negative (number suffix : List UInt8) (value : Int) (meaning : Nat × Bool) :
      Numeral number value → sizeSuffix percent suffix = some meaning → value < 0 →
      Misread percent (number ++ suffix)
  /-- A product that is no 64-bit word. -/
  | tooLarge (number suffix : List UInt8) (value factor : Nat) (flag : Bool) :
      Numeral number value → sizeSuffix percent suffix = some (factor, flag) →
      2 ^ 64 ≤ value * factor → Misread percent (number ++ suffix)

/-! ### What `strtoul_suffix` makes of a text -/

section Suffix

variable {percent : Bool}

theorem sizeSuffix_letter {c : UInt8} {meaning : Nat × Bool}
    (known : sizeSuffix percent [c] = some meaning) :
    c ∈ ([0x47, 0x4d, 0x6b, 0x4b, 0x73, 0x25] : List UInt8) := by
  have all : ∀ percent, ∀ n < 256, (sizeSuffix percent [UInt8.ofNat n]).isSome = true →
      UInt8.ofNat n ∈ ([0x47, 0x4d, 0x6b, 0x4b, 0x73, 0x25] : List UInt8) := by
    decide +kernel
  have this := all percent c.toNat c.toNat_lt
  rw [UInt8.ofNat_toNat, known] at this
  exact this rfl

theorem sizeSuffix_cases {suffix : List UInt8} {meaning : Nat × Bool}
    (known : sizeSuffix percent suffix = some meaning) : suffix = [] ∨ ∃ c, suffix = [c] := by
  match suffix, known with
  | [], _ => exact Or.inl rfl
  | [c], _ => exact Or.inr ⟨c, rfl⟩
  | c :: d :: rest, known =>
    have none : sizeSuffix percent (c :: d :: rest) = none := by
      unfold sizeSuffix
      split
      all_goals first | rfl | next same => cases same
    rw [none] at known
    cases known

theorem sizeSuffix_factor {suffix : List UInt8} {factor : Nat} {flag : Bool}
    (known : sizeSuffix percent suffix = some (factor, flag)) : 1 ≤ factor ∧ factor < 2 ^ 64 := by
  unfold sizeSuffix at known
  split at known
  all_goals first | cases known | skip
  all_goals first | decide | skip
  cases percent with
  | false => cases known
  | true =>
    obtain ⟨rfl, -⟩ := Prod.mk.inj (Option.some.inj known)
    decide

theorem stops_suffix {c : UInt8} {meaning : Nat × Bool}
    (known : sizeSuffix percent [c] = some meaning) (rest : List UInt8) : Stops (c :: rest) := by
  intro d same
  obtain rfl := Option.some.inj same
  have all : ∀ d ∈ ([0x47, 0x4d, 0x6b, 0x4b, 0x73, 0x25] : List UInt8),
      isDigitOf 16 d = false ∧ d ≠ 0x78 ∧ d ≠ 0x58 := by decide +kernel
  exact all c (sizeSuffix_letter known)

/-- A suffix alone is no number. -/
theorem numberAt_suffix {c : UInt8} {meaning : Nat × Bool}
    (known : sizeSuffix percent [c] = some meaning) (rest : List UInt8) :
    numberAt (c :: rest) = none := by
  have all : ∀ d ∈ ([0x47, 0x4d, 0x6b, 0x4b, 0x73, 0x25] : List UInt8),
      isspace d = false ∧ d ≠ 0x2d ∧ d ≠ 0x2b ∧ d ≠ 0x30 ∧ isDigitOf 10 d = false := by
    decide +kernel
  obtain ⟨space, minus, plus, zero, digit⟩ := all c (sizeSuffix_letter known)
  have skip : (c :: rest).dropWhile isspace = c :: rest :=
    List.dropWhile_cons_of_neg (by rw [space]; exact Bool.false_ne_true)
  have sign : splitSign (c :: rest) = (false, c :: rest) := by
    unfold splitSign
    split
    next same => exact absurd (List.cons.inj same).1 minus
    next same => exact absurd (List.cons.inj same).1 plus
    next => rfl
  have take : (c :: rest).takeWhile (isDigitOf 10) = [] :=
    List.takeWhile_cons_of_neg (by rw [digit]; exact Bool.false_ne_true)
  unfold numberAt
  simp only [skip, sign, splitBase_decimal zero, take]
  rfl

theorem strtoulSuffix_nil {str : String} {val : UInt64} (read : strtoull (cBytes str) 0 = (val, [])) :
    strtoulSuffix str percent = some (val, false) := by
  unfold strtoulSuffix
  rw [read]
  rfl

theorem strtoulSuffix_cons {str : String} {val : UInt64} {c : UInt8} {rest : List UInt8}
    (read : strtoull (cBytes str) 0 = (val, c :: rest)) :
    strtoulSuffix str percent =
      (sizeSuffix percent [c]).map fun meaning => (val * UInt64.ofNat meaning.1, meaning.2) := by
  unfold strtoulSuffix
  rw [read]
  dsimp only [List.head?_cons]
  have giga : val * 1024 * 1024 * 1024 = val * UInt64.ofNat (2 ^ 30) := by
    rw [UInt64.mul_assoc, UInt64.mul_assoc]
    rfl
  have mega : val * 1024 * 1024 = val * UInt64.ofNat (2 ^ 20) := by
    rw [UInt64.mul_assoc]
    rfl
  split
  · next same => rw [Option.some.inj same, giga]; rfl
  · next same => rw [Option.some.inj same, mega]; rfl
  · next same => rw [Option.some.inj same]; rfl
  · next same => rw [Option.some.inj same]; rfl
  · next same => rw [Option.some.inj same]; rfl
  · next same =>
    rw [Option.some.inj same]
    cases percent with
    | false => rfl
    | true => exact congrArg some (Prod.ext (UInt64.mul_one val).symm rfl)
  · next g m k k' s p same =>
    obtain rfl := Option.some.inj same
    have none : sizeSuffix percent [c] = none := by
      cases known : sizeSuffix percent [c] with
      | none => rfl
      | some meaning =>
        have letter := sizeSuffix_letter known
        simp only [List.mem_cons, List.not_mem_nil, or_false] at letter
        rcases letter with rfl | rfl | rfl | rfl | rfl | rfl
        · exact absurd rfl g
        · exact absurd rfl m
        · exact absurd rfl k
        · exact absurd rfl k'
        · exact absurd rfl s
        · exact absurd rfl p
    rw [none]
    rfl
  · next same => cases same

theorem stops_sizeSuffix {suffix : List UInt8} {meaning : Nat × Bool}
    (known : sizeSuffix percent suffix = some meaning) : Stops suffix := by
  rcases sizeSuffix_cases known with rfl | ⟨c, rfl⟩
  · exact fun c next => absurd next (by simp)
  · exact stops_suffix known []

/-- What an exact reading has read. -/
theorem ReadsExactly.numberAt {text : List UInt8} {word : UInt64} {flag : Bool}
    (exactly : ReadsExactly percent text word flag) : text = [] ∨ ∃ value factor suffix,
      numberAt text = some (((value : Nat) : Int), suffix) ∧
      sizeSuffix percent suffix = some (factor, flag) ∧ word.toNat = value * factor := by
  cases exactly with
  | empty => exact Or.inl rfl
  | number number suffix value factor flag word numeral known product =>
    exact Or.inr ⟨value, factor, suffix, numeral.numberAt (stops_sizeSuffix known), known, product⟩

/-- The value is the word of the product if nothing is lost. -/
theorem numberWord_mul {value factor : Nat} (least : 1 ≤ factor) (fits : value * factor < 2 ^ 64) :
    (numberWord value * UInt64.ofNat factor).toNat = value * factor := by
  by_cases zero : value = 0
  · rw [zero, UInt64.toNat_mul, numberWord_natCast (by decide), Nat.zero_mul, Nat.zero_mul,
      Nat.zero_mod]
  · have small : value < 2 ^ 64 := (Nat.le_mul_of_pos_right value least).trans_lt fits
    have small' : factor < 2 ^ 64 :=
      (Nat.le_mul_of_pos_left factor (Nat.pos_of_ne_zero zero)).trans_lt fits
    rw [UInt64.toNat_mul, numberWord_natCast small, UInt64.toNat_ofNat_of_lt' small',
      Nat.mod_eq_of_lt fits]

/-- **A number with a suffix, read by `strtoul_suffix`.** -/
theorem strtoulSuffix_numeral {str : String} {number suffix : List UInt8} {value : Int}
    {factor : Nat} {flag : Bool} (text : cBytes str = number ++ suffix)
    (numeral : Numeral number value) (known : sizeSuffix percent suffix = some (factor, flag)) :
    strtoulSuffix str percent = some (numberWord value * UInt64.ofNat factor, flag) := by
  have read : strtoull (cBytes str) 0 = (numberWord value, suffix) := by
    rw [strtoull_eq, text, numeral.numberAt (stops_sizeSuffix known)]
  rcases sizeSuffix_cases known with rfl | ⟨c, rfl⟩
  · obtain ⟨rfl, rfl⟩ := Prod.mk.inj (Option.some.inj known)
    rw [strtoulSuffix_nil read]
    exact congrArg some (Prod.ext (UInt64.mul_one _).symm rfl)
  · rw [strtoulSuffix_cons read, known]
    rfl

/-- What stands at `*end` when the value is accepted. -/
theorem strtoulSuffix_some {str : String} {word : UInt64} {flag : Bool}
    (returned : strtoulSuffix str percent = some (word, flag)) :
    (strtoull (cBytes str) 0).2 = [] ∨ ∃ c rest factor, (strtoull (cBytes str) 0).2 = c :: rest ∧
      sizeSuffix percent [c] = some (factor, flag) := by
  rcases read : strtoull (cBytes str) 0 with ⟨val, stop⟩
  cases stop with
  | nil => exact Or.inl rfl
  | cons c rest =>
    rw [strtoulSuffix_cons read] at returned
    obtain ⟨⟨factor, flag'⟩, known, same⟩ := Option.map_eq_some_iff.mp returned
    obtain ⟨-, rfl⟩ := Prod.mk.inj same
    exact Or.inr ⟨c, rest, factor, rfl, known⟩

/-- **`strtoul_suffix` ends the program or reads the text exactly.** -/
def StrtoulSuffixExact (str : String) (percent : Bool) : Prop :=
  ∀ word flag, strtoulSuffix str percent = some (word, flag) →
    ReadsExactly percent (cBytes str) word flag

/-- A text that is misread is not read exactly. -/
theorem Misread.not_exact {str : String} {text : List UInt8} (misread : Misread percent text)
    (same : cBytes str = text) : ¬ StrtoulSuffixExact str percent := by
  intro exactly
  cases misread with
  | noDigits c rest meaning known =>
    have none := numberAt_suffix known rest
    have read : strtoull (cBytes str) 0 = (0, c :: rest) := by rw [strtoull_eq, same, none]
    have returned : strtoulSuffix str percent = _ := strtoulSuffix_cons read
    rw [known] at returned
    rcases (exactly _ _ returned).numberAt with empty | ⟨value, factor, suffix, found, -, -⟩
    · rw [same] at empty
      cases empty
    · rw [same, none] at found
      cases found
  | trailing number value c rest meaning numeral known more =>
    have found := numeral.numberAt (stops_suffix known rest)
    have read : strtoull (cBytes str) 0 = (numberWord value, c :: rest) := by
      rw [strtoull_eq, same, found]
    have returned : strtoulSuffix str percent = _ := strtoulSuffix_cons read
    rw [known] at returned
    rcases (exactly _ _ returned).numberAt with empty | ⟨value', factor, suffix, found', known', -⟩
    · rw [same] at empty
      exact absurd (List.append_eq_nil_iff.mp empty).2 (List.cons_ne_nil _ _)
    · rw [same, found] at found'
      obtain ⟨-, rfl⟩ := Prod.mk.inj (Option.some.inj found')
      rcases sizeSuffix_cases known' with none | ⟨d, single⟩
      · cases none
      · exact more (List.cons.inj single).2
  | negative number suffix value meaning numeral known below =>
    have found := numeral.numberAt (stops_sizeSuffix known)
    have returned := strtoulSuffix_numeral same numeral known
    rcases (exactly _ _ returned).numberAt with empty | ⟨value', factor, suffix, found', -, -⟩
    · rw [← same, empty] at found
      cases found
    · rw [same, found] at found'
      have := (Prod.mk.inj (Option.some.inj found')).1
      omega
  | tooLarge number suffix value factor flag numeral known large =>
    have found := numeral.numberAt (stops_sizeSuffix known)
    have returned := strtoulSuffix_numeral same numeral known
    rcases (exactly _ _ returned).numberAt with empty | ⟨value', factor', _, found', known', product⟩
    · rw [← same, empty] at found
      cases found
    · rw [same, found] at found'
      obtain ⟨equal, rfl⟩ := Prod.mk.inj (Option.some.inj found')
      obtain rfl := Int.ofNat.inj equal
      rw [known] at known'
      obtain ⟨rfl, -⟩ := Prod.mk.inj (Option.some.inj known')
      have := UInt64.toNat_lt (numberWord value * UInt64.ofNat factor)
      omega

/-- **All other texts are read exactly or end the program.** -/
theorem strtoulSuffix_exact {str : String} (good : ¬ Misread percent (cBytes str)) :
    StrtoulSuffixExact str percent := by
  intro word flag returned
  have stop := strtoulSuffix_some returned
  rw [strtoull_eq] at stop
  cases found : Genimage.numberAt (cBytes str) with
  | none =>
    rw [found] at stop
    rcases stop with empty | ⟨c, rest, factor, text, known⟩
    · dsimp only at empty
      rw [strtoulSuffix_nil (by rw [strtoull_eq, found, empty])] at returned
      obtain ⟨rfl, rfl⟩ := Prod.mk.inj (Option.some.inj returned)
      rw [empty]
      exact ReadsExactly.empty
    · dsimp only at text
      rw [text] at good
      exact absurd (Misread.noDigits c rest _ known) good
  | some read =>
    obtain ⟨value, suffix⟩ := read
    rw [found] at stop
    dsimp only at stop
    obtain ⟨number, text, numeral⟩ := numberAt_numeral found
    have accepted : ∃ factor flag', sizeSuffix percent suffix = some (factor, flag') := by
      rcases stop with rfl | ⟨c, rest, factor, rfl, known⟩
      · exact ⟨1, false, rfl⟩
      · by_cases more : rest = []
        · rw [more]
          exact ⟨factor, flag, known⟩
        · rw [text] at good
          exact absurd (Misread.trailing number value c rest _ numeral known more) good
    obtain ⟨factor, flag', known⟩ := accepted
    rw [strtoulSuffix_numeral text numeral known] at returned
    obtain ⟨rfl, rfl⟩ := Prod.mk.inj (Option.some.inj returned)
    rw [text] at good ⊢
    have least : 0 ≤ value := by
      by_contra below
      exact good (Misread.negative number suffix value _ numeral known (not_le.mp below))
    obtain ⟨value, rfl⟩ := Int.eq_ofNat_of_zero_le least
    have fits : value * factor < 2 ^ 64 := by
      by_contra large
      exact good (Misread.tooLarge number suffix value factor flag' numeral known (not_lt.mp large))
    exact ReadsExactly.number number suffix value factor flag' _ numeral known
      (numberWord_mul (sizeSuffix_factor known).1 fits)

end Suffix

/-- **Size strings are read exactly or end the program, except for the kinds of `Misread`.** -/
theorem strtoulSuffix_exact_iff (str : String) (percent : Bool) :
    StrtoulSuffixExact str percent ↔ ¬ Misread percent (cBytes str) :=
  ⟨fun exactly misread => misread.not_exact rfl exactly, strtoulSuffix_exact⟩

/-- The text behind the suffix is not looked at. -/
theorem strtoulSuffix_trailing : ¬ ∀ str percent, StrtoulSuffixExact str percent := by
  intro exactly
  have returned : strtoulSuffix "4Gx" false = some (2 ^ 32, false) := by decide
  rcases (exactly _ _ _ _ returned).numberAt with empty | ⟨value, factor, suffix, found, known, -⟩
  · exact absurd empty (by decide)
  · have here : numberAt (cBytes "4Gx") = some (4, [0x47, 0x78]) := by decide
    rw [here] at found
    rw [← (Prod.mk.inj (Option.some.inj found)).2] at known
    cases known

end Genimage
