/-
**C strings: bytes, character classes, `strcasecmp`, `strtoull`.**

A `String` of the model stands for a NUL-terminated array of bytes, `cBytes`: its UTF-8 encoding up
to the first NUL. `strtoull` follows the C standard for bases `0`, `8`, `10` and `16`: leading white
space, an optional sign, the base prefix, the longest run of digits, saturation at `2 ^ 64 - 1`, and
negation modulo `2 ^ 64` after a minus sign. Without digits the result is `0` and nothing is
consumed.
-/

import Genimage.Library.Word
import Mathlib.Data.List.TakeWhile

namespace Genimage

/-- The bytes of a C string. -/
def cBytes (text : String) : List UInt8 :=
  (text.toList.flatMap String.utf8EncodeChar).takeWhile (· ≠ 0)

/-- `isspace` in the C locale. -/
def isspace (c : UInt8) : Bool := c = 0x20 || (0x09 ≤ c && c ≤ 0x0d)

/-- `isxdigit` -/
def isxdigit (c : UInt8) : Bool :=
  (0x30 ≤ c && c ≤ 0x39) || (0x41 ≤ c && c ≤ 0x46) || (0x61 ≤ c && c ≤ 0x66)

/-- `tolower` in the C locale. -/
def tolower (c : UInt8) : UInt8 := if 0x41 ≤ c && c ≤ 0x5a then c + 0x20 else c

/-- `strcasecmp` finds no difference. -/
def strcaseEq (first second : String) : Bool :=
  (cBytes first).map tolower = (cBytes second).map tolower

/-- `strstr` finds the pattern. -/
def strstr (text pattern : String) : Bool := decide (cBytes pattern <:+: cBytes text)

/-- A `char`, which is signed, converted to a 16-bit word. -/
def widenChar (c : UInt8) : UInt16 := if c < 0x80 then c.toUInt16 else c.toUInt16 ||| 0xff00

/-- The value of a digit in the bases up to `36`. -/
def digitValue (c : UInt8) : Option Nat :=
  if 0x30 ≤ c && c ≤ 0x39 then some (c.toNat - 0x30)
  else if 0x41 ≤ c && c ≤ 0x5a then some (c.toNat - 0x41 + 10)
  else if 0x61 ≤ c && c ≤ 0x7a then some (c.toNat - 0x61 + 10)
  else none

/-- `c` is a digit of `base`. -/
def isDigitOf (base : Nat) (c : UInt8) : Bool := (digitValue c).any (· < base)

/-- The number a run of digits denotes. -/
def digitsValue (base : Nat) (digits : List UInt8) : Nat :=
  digits.foldl (fun value c => value * base + (digitValue c).getD 0) 0

/-- The base that `strtoull` uses, and what follows the base prefix. -/
def splitBase (base : Nat) (text : List UInt8) : Nat × List UInt8 :=
  match text with
  | 0x30 :: x :: digit :: rest =>
    if (base = 0 || base = 16) && (x = 0x78 || x = 0x58) && isDigitOf 16 digit then
      (16, digit :: rest)
    else if base = 0 then (8, text) else (base, text)
  | 0x30 :: _ => if base = 0 then (8, text) else (base, text)
  | _ => if base = 0 then (10, text) else (base, text)

/-- The sign in front of the number, `true` for a minus, and what follows it. -/
def splitSign (text : List UInt8) : Bool × List UInt8 :=
  match text with
  | 0x2d :: rest => (true, rest)
  | 0x2b :: rest => (false, rest)
  | _ => (false, text)

/-- `strtoull`: the value, and the text at `*endptr`. -/
def strtoull (text : List UInt8) (base : Nat) : UInt64 × List UInt8 :=
  let (negative, unsigned) := splitSign (text.dropWhile isspace)
  let (base, body) := splitBase base unsigned
  let digits := body.takeWhile (isDigitOf base)
  if digits = [] then (0, text)
  else
    let value := digitsValue base digits
    let word := if 2 ^ 64 ≤ value then UInt64.ofNat (2 ^ 64 - 1)
      else if negative then 0 - UInt64.ofNat value else UInt64.ofNat value
    (word, body.drop digits.length)

example : strtoull (cBytes "0x1fk") 0 = (31, cBytes "k") := by decide

/-- A text without NUL and non-ASCII characters has one byte for each character. -/
theorem cBytes_ofList {chars : List Char} (plain : ∀ c ∈ chars, 0 < c.toNat ∧ c.toNat < 128) :
    cBytes (String.ofList chars) = chars.map fun c => UInt8.ofNat c.toNat := by
  have encoded : chars.flatMap String.utf8EncodeChar = chars.map fun c => UInt8.ofNat c.toNat := by
    induction chars with
    | nil => rfl
    | cons c chars ih =>
      rw [List.flatMap_cons, List.map_cons, ih fun d member => plain d (List.mem_cons_of_mem _ member)]
      have small := (plain c List.mem_cons_self).2
      have single : String.utf8EncodeChar c = [UInt8.ofNat c.toNat] := by
        unfold String.utf8EncodeChar
        rw [if_pos (show c.val.toNat ≤ 0x7f from by have : c.val.toNat = c.toNat := rfl; omega)]
        rfl
      rw [single, List.singleton_append]
  rw [cBytes, String.toList_ofList, encoded, List.takeWhile_eq_self_iff]
  intro byte member
  obtain ⟨c, among, rfl⟩ := List.mem_map.mp member
  obtain ⟨positive, small⟩ := plain c among
  have value : (UInt8.ofNat c.toNat).toNat = c.toNat := UInt8.toNat_ofNat_of_lt' (small.trans (by decide))
  rw [decide_eq_true_eq]
  rintro zero
  rw [zero] at value
  have : (0 : UInt8).toNat = 0 := rfl
  omega

end Genimage
