/-
**UUIDs as text and as bytes (`util.c`).**

`uuidValidate` looks at the 36 positions of the text form, `uuidParse` reads the sixteen bytes in
the mixed-endian GUID order, `uuidRandom` prints eight masked random words. Its format string is
`"%04ux%04ux-%04ux-…"`: each word is printed in decimal and followed by the letter `x`.
-/

import Genimage.Util.CString

namespace Genimage

/-- The positions of the dashes of a UUID. -/
def isDashPosition (i : Nat) : Bool := i = 8 || i = 13 || i = 18 || i = 23

/-- `uuid_validate`: `0` for a well-formed UUID, `-1` otherwise. -/
def uuidValidate (text : String) : Int :=
  let str := cBytes text
  if str.length ≠ 36 then -1
  else if (List.range 36).all fun i =>
      if isDashPosition i then str.getD i 0 = 0x2d else isxdigit (str.getD i 0) then 0
  else -1

/-- `uuid_byte` -/
def uuidByte (hex : List UInt8) : UInt8 := (strtoull (hex.take 2) 16).1.toUInt8

/-- Where `uuid_parse` finds the two digits of each byte. -/
def uuidOffsets : List Nat := [6, 4, 2, 0, 11, 9, 16, 14, 19, 21, 24, 26, 28, 30, 32, 34]

/-- `uuid_parse` -/
def uuidParse (text : String) : List UInt8 :=
  uuidOffsets.map fun offset => uuidByte ((cBytes text).drop offset)

@[simp]
theorem uuidParse_length (text : String) : (uuidParse text).length = 16 := by
  simp [uuidParse, uuidOffsets]

/-- The sixteen bytes of a GUID. -/
abbrev Guid := { bytes : List UInt8 // bytes.length = 16 }

/-- The GUID that `uuid_parse` reads. -/
def guidOf (text : String) : Guid := ⟨uuidParse text, uuidParse_length text⟩

/-- A word printed with `"%04ux"`. -/
def printWord (word : UInt32) : List Char :=
  let digits := Nat.toDigits 10 word.toNat
  List.replicate (4 - digits.length) '0' ++ digits ++ ['x']

/-- `uuid_random`. Value `i` is that of the `i`-th argument with a call of `random32`; in which order the
calls are made is open in C. -/
def uuidRandom (random32 : Nat → UInt32) : String :=
  String.ofList <|
    printWord (random32 0 &&& 0xffff) ++ printWord (random32 1 &&& 0xffff) ++ ['-'] ++
    printWord (random32 2 &&& 0xffff) ++ ['-'] ++
    printWord (random32 3 &&& 0x0fff ||| 0x4000) ++ ['-'] ++
    printWord (random32 4 &&& 0x3fff ||| 0x8000) ++ ['-'] ++
    printWord (random32 5 &&& 0xffff) ++ printWord (random32 6 &&& 0xffff) ++
    printWord (random32 7 &&& 0xffff)

end Genimage
