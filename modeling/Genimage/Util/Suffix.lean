/-
**Numbers with a size suffix (`util.c`, `config.c`).**

`strtoul_suffix` multiplies the value of `strtoull` as the suffix says, modulo `2 ^ 64`, and looks at
one character behind the number only. An invalid suffix ends the program.
-/

import Genimage.Util.CString

namespace Genimage

/-- `strtoul_suffix`: the value and `*percent`, or the exit. `percent` says whether the caller asks
for a percent sign. -/
def strtoulSuffix (str : String) (percent : Bool) : Option (UInt64 × Bool) :=
  let (val, stop) := strtoull (cBytes str) 0
  match stop.head? with
  | some 0x47 => some (val * 1024 * 1024 * 1024, false)
  | some 0x4d => some (val * 1024 * 1024, false)
  | some 0x6b => some (val * 1024, false)
  | some 0x4b => some (val * 1024, false)
  | some 0x73 => some (val * 512, false)
  | some 0x25 => if percent then some (val, true) else none
  | some _ => none
  | none => some (val, false)

/-- `cfg_getint_suffix`; an option without a value is `0`. -/
def cfgGetintSuffix (option : Option String) : Option UInt64 :=
  match option with
  | none => some 0
  | some str => (strtoulSuffix str false).map Prod.fst

/-- `cfg_getint_suffix_percent` -/
def cfgGetintSuffixPercent (option : Option String) : Option (UInt64 × Bool) :=
  match option with
  | none => some (0, false)
  | some str => strtoulSuffix str true

example : cfgGetintSuffix (some "4G") = some (2 ^ 32) := by decide

end Genimage
