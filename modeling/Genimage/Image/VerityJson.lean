/-
**The signature file of a verity-sig image (`verity_sig_write_json`).**

Three files are put together into a JSON object: the root hash that `veritysetup` has written, the
fingerprint of the certificate, and the signature in PEM form. They are read in pieces of at most 127
bytes. Of the root hash the first piece is taken, and every piece of the signature loses its last byte,
which is meant to be the newline.

`veritySigGenerate_reads_iff` is the round trip: the object is valid, and it says what the files say
exactly when the root hash has at most 127 digits and the lines of the signature have at most 126
characters. A root hash of SHA-512 has 128 digits.
-/

import Genimage.Library.Json
import Genimage.Library.Lines
import Genimage.Util.Errno
import Genimage.Util.UuidText
import Genimage.Util.Sys

namespace Genimage

open Library Library.Json Library.Lines

/-! ### The writer -/

/-- What successive calls of `fgets` with `char line[0x80]` read. -/
def fgetsLines (text : List UInt8) : List (List UInt8) := pieces (0x80 - 1) 0x0a text

/-- The bytes of a buffer up to its first NUL. -/
def cText (line : List UInt8) : List UInt8 := line.takeWhile (· ≠ 0)

/-- `verity_sig_write_json_rh`: the return value, and what is written. -/
def veritySigWriteJsonRh : Option (List UInt8) → Int × List UInt8
  | none => (eio, [])
  | some rh =>
    match fgetsLines rh with
    | [] => (eio, [])
    | line :: _ => (0, cBytes "\"rootHash\":\"" ++ cText line ++ cBytes "\"")

/-- A literal part of a `scanf` format. -/
def scanLiteral (literal : String) (text : List UInt8) : Option (List UInt8) :=
  if text.take (cBytes literal).length = cBytes literal then
    some (text.drop (cBytes literal).length)
  else none

/-- `%02hhX` in `scanf`: white space, then at most two bytes that make a hexadecimal number. -/
def scanHexByte (text : List UInt8) : Option (UInt8 × List UInt8) :=
  let item := text.dropWhile isspace
  let sign := (item.take 1).filter fun c => c = 0x2b || c = 0x2d
  let digits := ((item.drop sign.length).take (2 - sign.length)).takeWhile isxdigit
  -- The base prefix fills the field, and leaves no room for a digit.
  if digits = [] ∨ (item.take 2).map tolower = [0x30, 0x78] then none
  else some ((strtoull (sign ++ digits) 16).1.toUInt8, item.drop (sign.length + digits.length))

/-- The bytes behind the first one, each behind a colon. -/
def scanHexBytes : Nat → List UInt8 → Option (List UInt8)
  | 0, _ => some []
  | count + 1, text =>
    match (scanLiteral ":" text).bind scanHexByte with
    | none => none
    | some (byte, text) => (scanHexBytes count text).map (byte :: ·)

/-- The `fscanf` of the fingerprint, which reads 32 bytes or fails. The blank in the format stands for any
white space, also for none. -/
def scanFingerprint (text : List UInt8) : Option (List UInt8) :=
  match scanLiteral "sha256" text with
  | none => none
  | some text =>
    match (scanLiteral "Fingerprint=" (text.dropWhile isspace)).bind scanHexByte with
    | none => none
    | some (byte, text) => (scanHexBytes 31 text).map (byte :: ·)

/-- `verity_sig_write_json_certfp` -/
def veritySigWriteJsonCertfp (certfp : Option (List UInt8)) : Int × List UInt8 :=
  match certfp.bind scanFingerprint with
  | none => (eio, [])
  | some bytes =>
    (0, cBytes "\"certificateFingerprint\":\"" ++ bytes.flatMap hexBytes ++ cBytes "\"")

/-- `begin` and `end` -/
def beginMark : String := "-----BEGIN CMS-----"

def endMark : String := "-----END CMS-----"

/-- The `strncmp` of a line with a mark finds no difference. -/
def beginsWith (mark : String) (line : List UInt8) : Bool :=
  line.take (cBytes mark).length = cBytes mark

/-- The loop over the lines behind the first one. A line without a character in front of its first NUL
has no length to subtract from, and the write runs off the buffer. -/
def p7sLoop : List (List UInt8) → Option (Int × List UInt8)
  | [] => some (eio, [])
  | line :: lines =>
    if beginsWith endMark line then some (0, cBytes "\"")
    else if cText line = [] then none
    else (p7sLoop lines).map fun result => (result.1, (cText line).dropLast ++ result.2)

/-- `verity_sig_write_json_p7s` -/
def veritySigWriteJsonP7s : Option (List UInt8) → Option (Int × List UInt8)
  | none => some (eio, [])
  | some p7s =>
    match fgetsLines p7s with
    | [] => some (eio, [])
    | line :: lines =>
      if beginsWith beginMark line then
        (p7sLoop lines).map fun result => (result.1, cBytes "\"signature\":\"" ++ result.2)
      else some (eio, [])

/-- The files that the commands have left behind; `none` is one that cannot be opened. -/
structure SigFiles where
  rh : Option (List UInt8)
  certfp : Option (List UInt8)
  p7s : Option (List UInt8)

/-- The object that is written, and the return value of the last function. -/
def veritySigObject (files : SigFiles) : Option (Int × List UInt8) :=
  let rh := veritySigWriteJsonRh files.rh
  let certfp := if rh.1 ≠ 0 then (rh.1, []) else veritySigWriteJsonCertfp files.certfp
  let p7s := if certfp.1 ≠ 0 then some (certfp.1, []) else veritySigWriteJsonP7s files.p7s
  p7s.map fun p7s =>
    (p7s.1, cBytes "\x7b" ++ rh.2 ++ cBytes "," ++ certfp.2 ++ cBytes "," ++ p7s.2 ++ cBytes "\x7d")

/-- `size += 4095; size &= ~4095;` -/
def paddedSize (size : Nat) : Nat := (size + 4095) / 4096 * 4096

/-- The system calls on the output file that fail. -/
structure OutputFaults where
  fopen : Option Errno := none
  ftruncate : Option Errno := none

/-- The end of `verity_sig_write_json`: the padding. -/
def padJson (faults : OutputFaults) (object : Int × List UInt8) : Int × Option (List UInt8) :=
  if object.1 ≠ 0 then (object.1, some object.2)
  else
    match faults.ftruncate with
    | some errno => (-(errno.1 : Int), some object.2)
    | none => (paddedSize object.2.length,
        some (object.2 ++ List.replicate (paddedSize object.2.length - object.2.length) 0))

/-- `verity_sig_write_json`: the size or an error, and the output file. -/
def veritySigWriteJson (faults : OutputFaults) (files : SigFiles) :
    Option (Int × Option (List UInt8)) :=
  match faults.fopen with
  | some errno => some (-(errno.1 : Int), none)
  | none => (veritySigObject files).map (padJson faults)

/-- What the calls in front of `verity_sig_write_json` return. -/
structure SigCalls where
  prepareImage : Int := 0
  sign : Int := 0
  fingerprint : Int := 0

/-- `verity_sig_generate`: the return value, `image->size` and the output file, where it is written. -/
def veritySigGenerate (calls : SigCalls) (faults : OutputFaults) (files : SigFiles) (size : UInt64) :
    Option (Int × UInt64 × Option (List UInt8)) :=
  if calls.prepareImage < 0 then some (calls.prepareImage, size, none)
  else if calls.sign ≠ 0 then some (calls.sign, size, none)
  else if calls.fingerprint ≠ 0 then some (calls.fingerprint, size, none)
  else
    (veritySigWriteJson faults files).map fun written =>
      if written.1 < 0 then (written.1, size, written.2)
      else if size ≠ 0 ∧ size.toNat < written.1.toNat then (e2big, size, written.2)
      else (0, UInt64.ofNat written.1.toNat, written.2)

/-! ### The signature -/

/-- A byte of a line in base64. -/
def isBase64 (c : UInt8) : Bool :=
  (0x41 ≤ c && c ≤ 0x5a) || (0x61 ≤ c && c ≤ 0x7a) || (0x30 ≤ c && c ≤ 0x39) ||
    c = 0x2b || c = 0x2f || c = 0x3d

/-- What a byte in base64 is not. -/
theorem base64_plain {c : UInt8} (base64 : isBase64 c = true) :
    isPlain c = true ∧ c ≠ 0 ∧ c ≠ 0x0a ∧ c ≠ 0x2d := by
  have all : ∀ n < 256, isBase64 (UInt8.ofNat n) = true → isPlain (UInt8.ofNat n) = true ∧
      UInt8.ofNat n ≠ 0 ∧ UInt8.ofNat n ≠ 0x0a ∧ UInt8.ofNat n ≠ 0x2d := by
    decide +kernel
  have this := all c.toNat c.toNat_lt
  rw [UInt8.ofNat_toNat] at this
  exact this base64

/-- A signature in PEM form. -/
def pemText (lines : List (List UInt8)) : List UInt8 :=
  cBytes beginMark ++ 0x0a :: (terminated 0x0a lines ++ cBytes endMark)

theorem cText_of_forall {line : List UInt8} (all : ∀ c ∈ line, c ≠ 0) : cText line = line :=
  List.takeWhile_eq_self_iff.mpr fun c member => decide_eq_true (all c member)

/-- **The loop in front of the end mark**: every line loses its last byte. -/
theorem p7sLoop_shorn {lines : List (List UInt8)}
    (plain : ∀ line ∈ lines, line ≠ [] ∧ beginsWith endMark line = false ∧ ∀ c ∈ line, c ≠ 0)
    {last : List UInt8} (ends : beginsWith endMark last = true) (more : List (List UInt8)) :
    p7sLoop (lines ++ last :: more) = some (0, shorn lines ++ cBytes "\"") := by
  induction lines with
  | nil => rw [List.nil_append, p7sLoop, if_pos ends]; rfl
  | cons line lines ih =>
    rw [List.forall_mem_cons] at plain
    obtain ⟨⟨some, other, all⟩, rest⟩ := plain
    rw [List.cons_append, p7sLoop, if_neg (by rw [other]; decide), cText_of_forall all, if_neg some,
      ih rest, Option.map_some]
    simp [shorn]

/-- **What is written of a signature in PEM form.** -/
theorem veritySigWriteJsonP7s_pem {lines : List (List UInt8)}
    (base64 : ∀ line ∈ lines, ∀ c ∈ line, isBase64 c = true) (more : List UInt8) :
    veritySigWriteJsonP7s (some (pemText lines ++ more)) = some (0, cBytes "\"signature\":\"" ++
      shorn (fgetsLines (terminated 0x0a lines)) ++ cBytes "\"") := by
  have inside : ∀ line ∈ lines, (0x0a : UInt8) ∉ line := fun line member newline =>
    (base64_plain (base64 line member _ newline)).2.2.1 rfl
  -- The pieces of the file are the first line, those of the body, and one that begins with the end mark.
  obtain ⟨last, rest, final, mark⟩ : ∃ piece rest, fgetsLines (cBytes endMark ++ more) = piece :: rest ∧
      [] ++ cBytes endMark <+: piece := piecesFrom_mark (by decide) (by decide) (by decide) more
  have split : fgetsLines (pemText lines ++ more) =
      (cBytes beginMark ++ [0x0a]) :: (fgetsLines (terminated 0x0a lines) ++ last :: rest) := by
    rw [← final, fgetsLines, pemText, List.append_assoc, List.cons_append, List.append_assoc, pieces,
      piecesFrom_split (by decide), piecesFrom_short (by decide) (by decide), pieces_terminated inside]
    rfl
  have ends : beginsWith endMark last = true :=
    decide_eq_true (List.prefix_iff_eq_take.mp mark).symm
  have plain : ∀ line ∈ fgetsLines (terminated 0x0a lines),
      line ≠ [] ∧ beginsWith endMark line = false ∧ ∀ c ∈ line, c ≠ 0 := by
    intro line member
    have bytes : ∀ c ∈ line, c ≠ 0 ∧ c ≠ 0x2d := by
      intro c among
      obtain ⟨own, listed, part⟩ := List.mem_flatMap.mp (mem_pieces member c among)
      rcases List.mem_append.mp part with body | newline
      · have plain := base64_plain (base64 own listed c body)
        exact ⟨plain.2.1, plain.2.2.2⟩
      · rw [List.mem_singleton.mp newline]
        decide
    refine ⟨(piecesFrom_length (by decide) _ line member).1, ?_, fun c among => (bytes c among).1⟩
    refine decide_eq_false fun same => ?_
    have dash : (0x2d : UInt8) ∈ line := by
      refine List.mem_of_mem_take (i := (cBytes endMark).length) ?_
      rw [same]
      decide
    exact (bytes _ dash).2 rfl
  rw [veritySigWriteJsonP7s, split]
  simp only
  rw [if_pos (by decide), p7sLoop_shorn plain ends, Option.map_some, List.append_assoc]

/-! ### The fingerprint and the root hash -/

/-- The output of `openssl x509 -fingerprint -sha256`: two digits for each byte, in any letter case. -/
def fingerprintText (digits : List (UInt8 × UInt8)) : List UInt8 :=
  cBytes "sha256 Fingerprint=" ++ [0x3a].intercalate (digits.map fun pair => [pair.1, pair.2])

/-- Both digits are hexadecimal. -/
def HexPair (pair : UInt8 × UInt8) : Prop := isxdigit pair.1 = true ∧ isxdigit pair.2 = true

theorem scanHexByte_pair {pair : UInt8 × UInt8} (hex : HexPair pair) (rest : List UInt8) :
    scanHexByte (pair.1 :: pair.2 :: rest) = some (uuidByte [pair.1, pair.2], rest) := by
  obtain ⟨a, b⟩ := pair
  obtain ⟨first, second⟩ : isxdigit a = true ∧ isxdigit b = true := hex
  obtain ⟨high, digit⟩ := isHexDigit_of_isxdigit first
  have digits : (List.take 2 (a :: b :: rest)).takeWhile isxdigit = [a, b] := by
    simp [first, second]
  have base : (List.take 2 (a :: b :: rest)).map tolower ≠ [0x30, 0x78] := by
    have all : ∀ n < 256, isxdigit (UInt8.ofNat n) = true → tolower (UInt8.ofNat n) ≠ 0x78 := by
      decide +kernel
    have none := all b.toNat b.toNat_lt
    rw [UInt8.ofNat_toNat] at none
    intro same
    exact none second (List.cons.inj (List.cons.inj same).2).1
  have spaces : (a :: b :: rest).dropWhile isspace = a :: b :: rest :=
    List.dropWhile_cons_of_neg (by rw [digit.space]; decide)
  have sign : (List.take 1 (a :: b :: rest)).filter (fun c => c = 0x2b || c = 0x2d) = [] := by
    simp [digit.plus, digit.minus]
  rw [scanHexByte, spaces]
  simp only [sign, List.length_nil, List.drop_zero, Nat.sub_zero, digits]
  rw [if_neg (not_or.mpr ⟨List.cons_ne_nil _ _, base⟩)]
  rfl

/-- The bytes behind colons are read one after the other. -/
theorem scanHexBytes_pairs {digits : List (UInt8 × UInt8)} (hex : ∀ pair ∈ digits, HexPair pair)
    (rest : List UInt8) : scanHexBytes digits.length
      (digits.flatMap (fun pair => [0x3a, pair.1, pair.2]) ++ rest) =
        some (digits.map fun pair => uuidByte [pair.1, pair.2]) := by
  induction digits with
  | nil => rfl
  | cons pair digits ih =>
    rw [List.forall_mem_cons] at hex
    have colon : scanLiteral ":" (List.flatMap (fun pair => [0x3a, pair.1, pair.2]) (pair :: digits) ++
        rest) = some (pair.1 :: pair.2 :: (digits.flatMap (fun pair => [0x3a, pair.1, pair.2]) ++
          rest)) := by
      rfl
    rw [List.length_cons, scanHexBytes, colon, Option.bind_some, scanHexByte_pair hex.1]
    simp only
    rw [ih hex.2, Option.map_some, List.map_cons]

theorem intercalate_cons (pair : UInt8 × UInt8) (digits : List (UInt8 × UInt8)) :
    [0x3a].intercalate ((pair :: digits).map fun pair => [pair.1, pair.2]) =
      pair.1 :: pair.2 :: digits.flatMap fun pair => [0x3a, pair.1, pair.2] := by
  induction digits generalizing pair with
  | nil => rfl
  | cons second digits ih =>
    have step := ih second
    simp only [List.map_cons, List.intercalate_cons_cons, List.flatMap_cons] at step ⊢
    rw [step]
    rfl

/-- **What is written of a fingerprint**: its digits in lower case. -/
theorem veritySigWriteJsonCertfp_text {digits : List (UInt8 × UInt8)}
    (hex : ∀ pair ∈ digits, HexPair pair) (count : digits.length = 32) (more : List UInt8) :
    veritySigWriteJsonCertfp (some (fingerprintText digits ++ more)) =
      (0, cBytes "\"certificateFingerprint\":\"" ++
        digits.flatMap (fun pair => [tolower pair.1, tolower pair.2]) ++ cBytes "\"") := by
  obtain ⟨pair, others, rfl⟩ := List.exists_cons_of_length_pos (show 0 < digits.length by omega)
  have length : others.length = 31 := Nat.succ.inj count
  rw [List.forall_mem_cons] at hex
  have scanned : scanFingerprint (fingerprintText (pair :: others) ++ more) =
      some ((pair :: others).map fun pair => uuidByte [pair.1, pair.2]) := by
    have name : ∀ text, scanLiteral "sha256" (cBytes "sha256 Fingerprint=" ++ text) =
        some (cBytes " Fingerprint=" ++ text) := fun _ => rfl
    have blank : ∀ text, scanLiteral "Fingerprint=" ((cBytes " Fingerprint=" ++ text).dropWhile isspace) =
        some text := fun _ => rfl
    rw [scanFingerprint, fingerprintText, intercalate_cons, List.append_assoc, name]
    simp only
    rw [blank, Option.bind_some, List.cons_append, List.cons_append, scanHexByte_pair hex.1]
    simp only
    rw [← length, scanHexBytes_pairs hex.2, Option.map_some, List.map_cons]
  have lower : ((pair :: others).map fun pair => uuidByte [pair.1, pair.2]).flatMap hexBytes =
      (pair :: others).flatMap fun pair => [tolower pair.1, tolower pair.2] := by
    rw [List.flatMap_map]
    refine List.flatMap_congr fun own member => ?_
    obtain ⟨first, second⟩ := List.forall_mem_cons.mpr hex own member
    exact hexBytes_uuidByte first second []
  rw [veritySigWriteJsonCertfp, Option.bind_some, scanned]
  simp only
  rw [lower]

/-- **What is written of a root hash**: its first 127 bytes. -/
theorem veritySigWriteJsonRh_text {hash : List UInt8} (nonempty : hash ≠ [])
    (hex : ∀ c ∈ hash, isxdigit c = true) : veritySigWriteJsonRh (some hash) =
      (0, cBytes "\"rootHash\":\"" ++ hash.take 127 ++ cBytes "\"") := by
  obtain ⟨more, pieces⟩ : ∃ more, fgetsLines hash = ([] ++ hash).take 127 :: more := by
    refine piecesFrom_head (fun newline => ?_) (by decide) nonempty
    exact absurd (hex _ newline) (by decide)
  have text : cText (hash.take 127) = hash.take 127 := by
    refine cText_of_forall fun c member zero => ?_
    rw [zero] at member
    exact absurd (hex _ (List.mem_of_mem_take member)) (by decide)
  rw [List.nil_append] at pieces
  rw [veritySigWriteJsonRh, pieces]
  simp only
  rw [text]

/-! ### The object -/

/-- The members of the object. -/
def sigMembers (rootHash fingerprint signature : List UInt8) : List (List UInt8 × List UInt8) := [
  (cBytes "rootHash", rootHash),
  (cBytes "certificateFingerprint", fingerprint),
  (cBytes "signature", signature)]

theorem paddedSize_spec (size : Nat) :
    size ≤ paddedSize size ∧ paddedSize size < size + 4096 ∧ 4096 ∣ paddedSize size := by
  unfold paddedSize
  exact ⟨by omega, by omega, Nat.dvd_mul_left _ _⟩

/-- What is written for well-formed files is an object. -/
theorem veritySigObject_text {hash : List UInt8} (nonempty : hash ≠ [])
    (hexHash : ∀ c ∈ hash, isxdigit c = true) {digits : List (UInt8 × UInt8)}
    (hex : ∀ pair ∈ digits, HexPair pair) (count : digits.length = 32) {lines : List (List UInt8)}
    (base64 : ∀ line ∈ lines, ∀ c ∈ line, isBase64 c = true) (more rest : List UInt8) :
    veritySigObject ⟨some hash, some (fingerprintText digits ++ more), some (pemText lines ++ rest)⟩ =
      some (0, writeObject (sigMembers (hash.take 127)
        (digits.flatMap fun pair => [tolower pair.1, tolower pair.2])
        (shorn (fgetsLines (terminated 0x0a lines))))) := by
  rw [veritySigObject, veritySigWriteJsonRh_text nonempty hexHash]
  simp only [ne_eq, not_true_eq_false, if_false]
  rw [veritySigWriteJsonCertfp_text hex count]
  simp only [not_true_eq_false, if_false]
  rw [veritySigWriteJsonP7s_pem base64, Option.map_some]
  have root : cBytes "\"rootHash\":\"" = 0x22 :: (cBytes "rootHash" ++ [0x22, 0x3a, 0x22]) := by decide
  have certificate : cBytes "\"certificateFingerprint\":\"" =
      0x22 :: (cBytes "certificateFingerprint" ++ [0x22, 0x3a, 0x22]) := by decide
  have signature : cBytes "\"signature\":\"" =
      0x22 :: (cBytes "signature" ++ [0x22, 0x3a, 0x22]) := by decide
  have quote : cBytes "\"" = [0x22] := by decide
  have comma : cBytes "," = [0x2c] := by decide
  have front : cBytes "\x7b" = [0x7b] := by decide
  have back : cBytes "\x7d" = [0x7d] := by decide
  simp only [root, certificate, signature, quote, comma, front, back, sigMembers, writeObject,
    writeMembers, writeNamed, writeString, List.append_assoc, List.cons_append, List.nil_append]

/-- A hexadecimal digit is plain, also in lower case. -/
theorem hex_plain {c : UInt8} (hex : isxdigit c = true) :
    isPlain c = true ∧ isPlain (tolower c) = true := by
  have all : ∀ n < 256, isxdigit (UInt8.ofNat n) = true →
      isPlain (UInt8.ofNat n) = true ∧ isPlain (tolower (UInt8.ofNat n)) = true := by
    decide +kernel
  have this := all c.toNat c.toNat_lt
  rw [UInt8.ofNat_toNat] at this
  exact this hex

/-- The members that are written are plain. -/
theorem sigMembers_plain {hash : List UInt8} (hexHash : ∀ c ∈ hash, isxdigit c = true)
    {digits : List (UInt8 × UInt8)} (hex : ∀ pair ∈ digits, HexPair pair)
    {lines : List (List UInt8)} (base64 : ∀ line ∈ lines, ∀ c ∈ line, isBase64 c = true) :
    ∀ member ∈ sigMembers (hash.take 127)
      (digits.flatMap fun pair => [tolower pair.1, tolower pair.2])
      (shorn (fgetsLines (terminated 0x0a lines))), PlainMember member := by
  have keys : (cBytes "rootHash").all isPlain = true ∧
      (cBytes "certificateFingerprint").all isPlain = true ∧
      (cBytes "signature").all isPlain = true := by decide
  rw [sigMembers, List.forall_mem_cons, List.forall_mem_cons, List.forall_mem_singleton]
  refine ⟨⟨keys.1, ?_⟩, ⟨keys.2.1, ?_⟩, ⟨keys.2.2, ?_⟩⟩ <;>
    refine List.all_eq_true.mpr fun c member => ?_
  · exact (hex_plain (hexHash c (List.mem_of_mem_take member))).1
  · obtain ⟨pair, listed, among⟩ := List.mem_flatMap.mp member
    rcases List.mem_pair.mp among with rfl | rfl
    · exact (hex_plain (hex pair listed).1).2
    · exact (hex_plain (hex pair listed).2).2
  · obtain ⟨line, listed, among⟩ := mem_shorn_lines member
    exact (base64_plain (base64 line listed c among)).1

/-- **The round trip of a verity-sig image.** For a root hash in hexadecimal digits, a fingerprint of 32
bytes and a signature in base64, `verity_sig_generate` returns `0` when the configured size is none or
large enough. The output is a JSON object with zeros up to a multiple of 4096, and it says what the files say
exactly when the root hash has at most 127 digits and the lines of the signature at most 126 characters. -/
theorem veritySigGenerate_reads_iff {hash : List UInt8} (nonempty : hash ≠ [])
    (hexHash : ∀ c ∈ hash, isxdigit c = true) {digits : List (UInt8 × UInt8)}
    (hex : ∀ pair ∈ digits, HexPair pair) (count : digits.length = 32) {lines : List (List UInt8)}
    (base64 : ∀ line ∈ lines, ∀ c ∈ line, isBase64 c = true) (more rest : List UInt8) :
    ∃ output rootHash signature zeros,
      readObject output = some (sigMembers rootHash
        (digits.flatMap fun pair => [tolower pair.1, tolower pair.2]) signature, zeros) ∧
      (∀ c ∈ zeros, c = 0) ∧ zeros.length < 4096 ∧ 4096 ∣ output.length ∧
      (rootHash = hash ∧ signature = lines.flatten ↔
        hash.length ≤ 127 ∧ ∀ line ∈ lines, line.length ≤ 126) ∧
      ∀ size : UInt64, veritySigGenerate {} {} ⟨some hash, some (fingerprintText digits ++ more),
          some (pemText lines ++ rest)⟩ size =
        if size ≠ 0 ∧ size.toNat < output.length then some (e2big, size, some output)
        else some (0, UInt64.ofNat output.length, some output) := by
  have whole := veritySigObject_text nonempty hexHash hex count base64 more rest
  have inside : ∀ line ∈ lines, (0x0a : UInt8) ∉ line := fun line member newline =>
    (base64_plain (base64 line member _ newline)).2.2.1 rfl
  obtain ⟨least, most, aligned⟩ := paddedSize_spec (writeObject (sigMembers (hash.take 127)
    (digits.flatMap fun pair => [tolower pair.1, tolower pair.2])
    (shorn (fgetsLines (terminated 0x0a lines))))).length
  generalize object_eq : writeObject (sigMembers (hash.take 127)
    (digits.flatMap fun pair => [tolower pair.1, tolower pair.2])
    (shorn (fgetsLines (terminated 0x0a lines)))) = object at whole least most aligned
  have length : (object ++ List.replicate (paddedSize object.length - object.length) 0).length =
      paddedSize object.length := by
    rw [List.length_append, List.length_replicate]
    omega
  refine ⟨object ++ List.replicate (paddedSize object.length - object.length) 0, hash.take 127,
    shorn (fgetsLines (terminated 0x0a lines)),
    List.replicate (paddedSize object.length - object.length) 0, ?_, ?_, ?_, ?_, ?_, ?_⟩
  · rw [← object_eq]
    exact readObject_writeObject (sigMembers_plain hexHash hex base64) _
  · exact fun c member => List.eq_of_mem_replicate member
  · rw [List.length_replicate]
    omega
  · rwa [length]
  · rw [List.take_eq_self_iff, fgetsLines, shorn_lines_iff (by decide) inside]
    exact and_congr_right fun _ => forall₂_congr fun line _ => Nat.lt_succ_iff
  · intro size
    have run : veritySigWriteJson {} ⟨some hash, some (fingerprintText digits ++ more),
        some (pemText lines ++ rest)⟩ = some ((paddedSize object.length : Int),
          some (object ++ List.replicate (paddedSize object.length - object.length) 0)) := by
      rw [veritySigWriteJson, whole]
      rfl
    have positive : ¬ ((paddedSize object.length : Int) < 0) := by omega
    rw [veritySigGenerate, run, length, Option.map_some]
    simp only [positive, if_false, Int.toNat_natCast, lt_irrefl, not_true_eq_false, ne_eq]
    split_ifs <;> rfl

/-- A root hash of 128 digits loses the last one. -/
theorem veritySigGenerate_reads_long : ∃ output rootHash signature zeros,
    readObject output = some (sigMembers rootHash ((List.replicate 32 (0x41, 0x42)).flatMap
      fun pair => [tolower pair.1, tolower pair.2]) signature, zeros) ∧
    ¬ (rootHash = List.replicate 128 0x61 ∧ signature = [List.replicate 64 0x41].flatten) := by
  have hash : ∀ c ∈ List.replicate 128 (0x61 : UInt8), isxdigit c = true := by
    intro c member
    rw [List.eq_of_mem_replicate member]
    decide
  have digits : ∀ pair ∈ List.replicate 32 ((0x41, 0x42) : UInt8 × UInt8), HexPair pair := by
    intro pair member
    rw [List.eq_of_mem_replicate member]
    exact ⟨by decide, by decide⟩
  have lines : ∀ line ∈ [List.replicate 64 (0x41 : UInt8)], ∀ c ∈ line, isBase64 c = true := by
    intro line listed c member
    rw [List.mem_singleton.mp listed] at member
    rw [List.eq_of_mem_replicate member]
    decide
  obtain ⟨output, rootHash, signature, zeros, read, _, _, _, exact, _⟩ :=
    veritySigGenerate_reads_iff (by simp) hash digits (List.length_replicate) lines [0x0a] [0x0a]
  refine ⟨output, rootHash, signature, zeros, read, fun same => ?_⟩
  have short := (exact.mp same).1
  rw [List.length_replicate] at short
  omega

end Genimage
