/-
**The text of a GUID.**

`formatGuid` writes the sixteen bytes that `uuid_parse` has stored in the GUID text layout: the first
three groups backwards, all digits in lower case. For the strings that `uuid_validate` accepts it is
the inverse of `uuid_parse` up to letter case (`uuid_text_round_trip`).

`uuid_random` does not write such a text. Its format prints each word in decimal with the letter `x`
behind it, so that the string is too long for every sequence of random words (`uuidRandom_rejected`).
-/

import Genimage.Util.Uuid
import Mathlib.Data.List.GetD
import Mathlib.Data.List.TakeWhile

namespace Genimage

/-! ### Hexadecimal digits -/

/-- A digit in lower case, as `printf` writes it. -/
def hexDigit (digit : Nat) : Char :=
  if digit < 10 then Char.ofNat (48 + digit) else Char.ofNat (87 + digit)

/-- `"%02x"` -/
def hexByte (byte : UInt8) : List Char := [hexDigit (byte.toNat / 16), hexDigit (byte.toNat % 16)]

/-- The same as bytes. -/
def hexBytes (byte : UInt8) : List UInt8 := (hexByte byte).map fun c => UInt8.ofNat c.toNat

/-- **What makes a hexadecimal digit**: its value, and the digit that is written for the value. -/
structure IsHexDigit (c : UInt8) (value : Nat) : Prop where
  small : value < 16
  read : digitValue c = some value
  written : UInt8.ofNat (hexDigit value).toNat = tolower c
  space : isspace c = false
  minus : c ≠ 0x2d
  plus : c ≠ 0x2b

theorem isHexDigit_of_isxdigit {c : UInt8} (digit : isxdigit c = true) :
    ∃ value, IsHexDigit c value := by
  have all : ∀ n < 256, isxdigit (UInt8.ofNat n) = true → ∃ value < 16,
      digitValue (UInt8.ofNat n) = some value ∧
      UInt8.ofNat (hexDigit value).toNat = tolower (UInt8.ofNat n) ∧
      isspace (UInt8.ofNat n) = false ∧ UInt8.ofNat n ≠ 0x2d ∧ UInt8.ofNat n ≠ 0x2b := by
    decide +kernel
  have this := all c.toNat c.toNat_lt
  rw [UInt8.ofNat_toNat] at this
  obtain ⟨value, small, read, written, space, minus, plus⟩ := this digit
  exact ⟨value, small, read, written, space, minus, plus⟩

/-- A digit that is written is one. -/
theorem isxdigit_hexDigit {digit : Nat} (small : digit < 16) :
    isxdigit (UInt8.ofNat (hexDigit digit).toNat) = true ∧
      tolower (UInt8.ofNat (hexDigit digit).toNat) = UInt8.ofNat (hexDigit digit).toNat ∧
      digitValue (UInt8.ofNat (hexDigit digit).toNat) = some digit ∧
      0 < (hexDigit digit).toNat ∧ (hexDigit digit).toNat < 128 := by
  have all : ∀ digit < 16, isxdigit (UInt8.ofNat (hexDigit digit).toNat) = true ∧
      tolower (UInt8.ofNat (hexDigit digit).toNat) = UInt8.ofNat (hexDigit digit).toNat ∧
      digitValue (UInt8.ofNat (hexDigit digit).toNat) = some digit ∧
      0 < (hexDigit digit).toNat ∧ (hexDigit digit).toNat < 128 := by
    decide +kernel
  exact all digit small

/-- `strtoul` of two hexadecimal digits. -/
theorem strtoull_pair {a b : UInt8} {high low : Nat} (first : IsHexDigit a high)
    (second : IsHexDigit b low) : (strtoull [a, b] 16).1 = UInt64.ofNat (high * 16 + low) := by
  have sign : splitSign [a, b] = (false, [a, b]) := by
    unfold splitSign
    split
    next same => exact absurd (List.cons.inj same).1 first.minus
    next same => exact absurd (List.cons.inj same).1 first.plus
    next => rfl
  have base : splitBase 16 [a, b] = (16, [a, b]) := by
    unfold splitBase
    split
    next same => cases same
    next => rfl
    next => rfl
  have digits : [a, b].takeWhile (isDigitOf 16) = [a, b] := by
    rw [List.takeWhile_eq_self_iff]
    intro c member
    rcases List.mem_pair.mp member with rfl | rfl
    · simp [isDigitOf, first.read, first.small]
    · simp [isDigitOf, second.read, second.small]
  have value : digitsValue 16 [a, b] = high * 16 + low := by
    simp [digitsValue, first.read, second.read]
  have := first.small
  have := second.small
  have spaces : [a, b].dropWhile isspace = [a, b] := by
    rw [List.dropWhile_cons_of_neg (by simp [first.space])]
  unfold strtoull
  simp only [spaces, sign, base, digits, value]
  rw [if_neg (by simp), if_neg (by omega), if_neg Bool.false_ne_true]

/-- **`uuid_byte` reads two digits**, high one first. -/
theorem toNat_uuidByte {a b : UInt8} {high low : Nat} (first : IsHexDigit a high)
    (second : IsHexDigit b low) (rest : List UInt8) :
    (uuidByte (a :: b :: rest)).toNat = high * 16 + low := by
  have := first.small
  have := second.small
  rw [uuidByte, List.take_succ_cons, List.take_succ_cons, List.take_zero,
    strtoull_pair first second, UInt64.toNat_toUInt8, UInt64.toNat_ofNat']
  omega

/-- **A byte is written with the digits it is read from**, in lower case. -/
theorem hexBytes_uuidByte {a b : UInt8} (first : isxdigit a = true) (second : isxdigit b = true)
    (rest : List UInt8) : hexBytes (uuidByte (a :: b :: rest)) = [tolower a, tolower b] := by
  obtain ⟨high, first⟩ := isHexDigit_of_isxdigit first
  obtain ⟨low, second⟩ := isHexDigit_of_isxdigit second
  have := second.small
  have top : (high * 16 + low) / 16 = high := by omega
  have bottom : (high * 16 + low) % 16 = low := by omega
  rw [hexBytes, hexByte, toNat_uuidByte first second, top, bottom, List.map_cons, List.map_cons,
    List.map_nil, first.written, second.written]

/-- **A written byte is read back.** -/
theorem uuidByte_hexBytes (byte : UInt8) (rest : List UInt8) :
    uuidByte (hexBytes byte ++ rest) = byte := by
  have := byte.toNat_lt
  have top : byte.toNat / 16 < 16 := by omega
  have bottom : byte.toNat % 16 < 16 := Nat.mod_lt _ (by decide)
  obtain ⟨high, first⟩ := isHexDigit_of_isxdigit (isxdigit_hexDigit top).1
  obtain ⟨low, second⟩ := isHexDigit_of_isxdigit (isxdigit_hexDigit bottom).1
  have sameTop : high = byte.toNat / 16 :=
    Option.some.inj (first.read.symm.trans (isxdigit_hexDigit top).2.2.1)
  have sameBottom : low = byte.toNat % 16 :=
    Option.some.inj (second.read.symm.trans (isxdigit_hexDigit bottom).2.2.1)
  apply UInt8.toNat_inj.mp
  show (uuidByte (_ :: _ :: rest)).toNat = byte.toNat
  rw [toNat_uuidByte first second, sameTop, sameBottom]
  omega

/-! ### The layout -/

/-- The GUID text layout: the number of the byte that each pair of digits shows, and the dashes. -/
def guidLayout : List (Option Nat) :=
  [some 3, some 2, some 1, some 0, none, some 5, some 4, none, some 7, some 6, none, some 8, some 9,
    none, some 10, some 11, some 12, some 13, some 14, some 15]

/-- The text of a GUID. -/
def formatGuid (guid : Guid) : String :=
  String.ofList (guidLayout.flatMap fun
    | some i => hexByte (guid.1.getD i 0)
    | none => ['-'])

/-- One part of the layout as bytes. -/
def cellBytes (byte : Nat → UInt8) : Option Nat → List UInt8
  | some i => hexBytes (byte i)
  | none => [0x2d]

theorem cBytes_formatGuid (guid : Guid) :
    cBytes (formatGuid guid) = guidLayout.flatMap (cellBytes (guid.1.getD · 0)) := by
  have plain : ∀ c ∈ guidLayout.flatMap (fun
      | some i => hexByte (guid.1.getD i 0)
      | none => ['-']), 0 < c.toNat ∧ c.toNat < 128 := by
    intro c member
    obtain ⟨cell, -, among⟩ := List.mem_flatMap.mp member
    cases cell with
    | none =>
      rw [List.mem_singleton.mp among]
      decide
    | some i =>
      have := (guid.1.getD i 0).toNat_lt
      rcases List.mem_pair.mp among with rfl | rfl
      · exact (isxdigit_hexDigit (by omega)).2.2.2
      · exact (isxdigit_hexDigit (Nat.mod_lt _ (by decide))).2.2.2
  rw [formatGuid, cBytes_ofList plain, List.map_flatMap]
  congr 1
  funext cell
  cases cell with
  | none => rfl
  | some i => rfl

/-- What `uuid_validate` asks at one position. -/
def PositionOk (str : List UInt8) (i : Nat) : Prop :=
  if isDashPosition i then str.getD i 0 = 0x2d else isxdigit (str.getD i 0) = true

theorem uuidValidate_eq_zero {text : String} :
    uuidValidate text = 0 ↔ (cBytes text).length = 36 ∧ ∀ i < 36, PositionOk (cBytes text) i := by
  have all : ((List.range 36).all fun i => if isDashPosition i then (cBytes text).getD i 0 = 0x2d
      else isxdigit ((cBytes text).getD i 0)) = true ↔ ∀ i < 36, PositionOk (cBytes text) i := by
    rw [List.all_eq_true]
    apply forall_congr'
    intro i
    rw [List.mem_range, PositionOk]
    split <;> simp
  unfold uuidValidate
  by_cases length : (cBytes text).length = 36
  · rw [if_neg (not_not_intro length)]
    by_cases good : ∀ i < 36, PositionOk (cBytes text) i
    · rw [if_pos (all.mpr good)]
      exact iff_of_true rfl ⟨length, good⟩
    · rw [if_neg fun holds => good (all.mp holds)]
      exact iff_of_false (by decide) fun both => good both.2
  · rw [if_pos length]
    exact iff_of_false (by decide) fun both => length both.1

/-- **The cells from `offset` on stand where the validator and the parser look for them.** -/
def Aligned (offset : Nat) : List (Option Nat) → Prop
  | [] => offset = 36
  | some i :: cells => uuidOffsets.getD i 0 = offset ∧ isDashPosition offset = false ∧
      isDashPosition (offset + 1) = false ∧ Aligned (offset + 2) cells
  | none :: cells => isDashPosition offset = true ∧ Aligned (offset + 1) cells

theorem aligned_guidLayout : Aligned 0 guidLayout := by
  simp [Aligned, guidLayout, uuidOffsets, isDashPosition]

theorem Aligned.le {offset : Nat} {cells : List (Option Nat)} (aligned : Aligned offset cells) :
    offset ≤ 36 := by
  induction cells generalizing offset with
  | nil => exact le_of_eq aligned
  | cons cell cells ih =>
    cases cell with
    | none => exact (Nat.le_succ _).trans (ih aligned.2)
    | some i => exact (Nat.le_add_right _ 2).trans (ih aligned.2.2.2)

/-- **The cells show the text that the bytes are read from**, in lower case. -/
theorem Aligned.written {str : List UInt8} (length : str.length = 36)
    (good : ∀ i < 36, PositionOk str i) {offset : Nat} {cells : List (Option Nat)}
    (aligned : Aligned offset cells) :
    cells.flatMap (cellBytes fun i => uuidByte (str.drop (uuidOffsets.getD i 0))) =
      (str.drop offset).map tolower := by
  induction cells generalizing offset with
  | nil =>
    rw [show offset = 36 from aligned, ← length, List.drop_length]
    rfl
  | cons cell cells ih =>
    have step : ∀ k, k < 36 → str.drop k = str.getD k 0 :: str.drop (k + 1) := by
      intro k inside
      rw [List.drop_eq_getElem_cons (length ▸ inside), List.getD_eq_getElem _ _ (length ▸ inside)]
    cases cell with
    | none =>
      obtain ⟨dash, next⟩ := aligned
      have inside : offset < 36 := next.le
      have here := good offset inside
      rw [PositionOk, if_pos dash] at here
      rw [List.flatMap_cons, ih next, step offset inside, here]
      rfl
    | some i =>
      obtain ⟨place, noDash, noDash', next⟩ := aligned
      have inside : offset + 1 < 36 := next.le
      have high := good offset (by omega)
      have low := good (offset + 1) inside
      rw [PositionOk, if_neg (by rw [noDash]; exact Bool.false_ne_true)] at high
      rw [PositionOk, if_neg (by rw [noDash']; exact Bool.false_ne_true)] at low
      rw [List.flatMap_cons, ih next, cellBytes, place, step offset (by omega),
        step (offset + 1) inside, hexBytes_uuidByte high low]
      rfl

/-- **What stands where the cells are written**: the text passes the validator's test, and the
parser finds each byte. -/
structure Shown (byte : Nat → UInt8) (offset : Nat) (cells : List (Option Nat))
    (str : List UInt8) : Prop where
  length : str.length = 36
  good : ∀ i, offset ≤ i → i < 36 → PositionOk str i
  found : ∀ i, some i ∈ cells → uuidByte (str.drop (uuidOffsets.getD i 0)) = byte i

theorem Aligned.shown (byte : Nat → UInt8) {offset : Nat} {cells : List (Option Nat)}
    (aligned : Aligned offset cells) (earlier : List UInt8) (length : earlier.length = offset) :
    Shown byte offset cells (earlier ++ cells.flatMap (cellBytes byte)) := by
  induction cells generalizing offset earlier with
  | nil =>
    have done : offset = 36 := aligned
    exact ⟨by rw [List.flatMap_nil, List.append_nil, length, done], fun i _ _ => by omega,
      fun i member => absurd member List.not_mem_nil⟩
  | cons cell cells ih =>
    cases cell with
    | none =>
      obtain ⟨dash, next⟩ := aligned
      have rest := ih next (earlier ++ [0x2d]) (by rw [List.length_append, length]; rfl)
      rw [List.append_assoc] at rest
      refine ⟨rest.length, ?_, ?_⟩
      · intro i least inside
        rcases Nat.eq_or_lt_of_le least with rfl | later
        · rw [PositionOk, if_pos dash, ← length, List.getD_append_right _ _ _ _ le_rfl, Nat.sub_self]
          rfl
        · exact rest.good i later inside
      · intro i member
        rcases List.mem_cons.mp member with same | member
        · exact absurd same (Option.some_ne_none i)
        · exact rest.found i member
    | some j =>
      obtain ⟨place, noDash, noDash', next⟩ := aligned
      have rest := ih next (earlier ++ hexBytes (byte j))
        (by rw [List.length_append, length]; rfl)
      rw [List.append_assoc] at rest
      have := (byte j).toNat_lt
      have digits : ∀ i, offset ≤ i → i < offset + 2 → isxdigit
          ((earlier ++ (some j :: cells).flatMap (cellBytes byte)).getD i 0) = true := by
        intro i least inside
        rw [List.getD_append_right _ _ _ _ (length ▸ least), length]
        obtain same | same : i - offset = 0 ∨ i - offset = 1 := by omega
        · rw [same]
          exact (isxdigit_hexDigit (show (byte j).toNat / 16 < 16 by omega)).1
        · rw [same]
          exact (isxdigit_hexDigit (show (byte j).toNat % 16 < 16 by omega)).1
      refine ⟨rest.length, ?_, ?_⟩
      · intro i least inside
        by_cases later : offset + 2 ≤ i
        · exact rest.good i later inside
        · have digit := digits i least (by omega)
          obtain rfl | rfl : i = offset ∨ i = offset + 1 := by omega
          · rwa [PositionOk, if_neg (by rw [noDash]; exact Bool.false_ne_true)]
          · rwa [PositionOk, if_neg (by rw [noDash']; exact Bool.false_ne_true)]
      · intro i member
        rcases List.mem_cons.mp member with same | member
        · obtain rfl := Option.some.inj same
          rw [place, ← length, List.drop_left]
          exact uuidByte_hexBytes (byte i) _
        · exact rest.found i member

/-! ### Round trip -/

/-- **Formatting the GUID of an accepted text gives the text back**, in lower case. -/
theorem formatGuid_guidOf {text : String} (accepted : uuidValidate text = 0) :
    cBytes (formatGuid (guidOf text)) = (cBytes text).map tolower := by
  obtain ⟨length, good⟩ := uuidValidate_eq_zero.mp accepted
  have bytes : ∀ cell ∈ guidLayout, cellBytes ((guidOf text).1.getD · 0) cell =
      cellBytes (fun i => uuidByte ((cBytes text).drop (uuidOffsets.getD i 0))) cell := by
    intro cell member
    cases cell with
    | none => rfl
    | some i =>
      have small : ∀ i, some i ∈ guidLayout → i < 16 := by
        intro i member
        simp only [guidLayout, List.mem_cons, Option.some.injEq, reduceCtorEq, List.not_mem_nil,
          or_false, false_or] at member
        omega
      have inside : i < uuidOffsets.length := small i member
      rw [cellBytes, cellBytes, guidOf]
      dsimp only
      rw [uuidParse, List.getD_eq_getElem _ _ (by rwa [List.length_map]), List.getElem_map,
        List.getD_eq_getElem _ _ inside]
  rw [cBytes_formatGuid, List.flatMap_congr bytes, aligned_guidLayout.written length good,
    List.drop_zero]

/-- **The formatted text of a GUID is accepted and read as this GUID.** -/
theorem guidOf_formatGuid (guid : Guid) :
    uuidValidate (formatGuid guid) = 0 ∧ guidOf (formatGuid guid) = guid := by
  have shown := aligned_guidLayout.shown (guid.1.getD · 0) [] rfl
  rw [List.nil_append, ← cBytes_formatGuid] at shown
  refine ⟨uuidValidate_eq_zero.mpr ⟨shown.length, fun i => shown.good i (Nat.zero_le i)⟩, ?_⟩
  apply Subtype.ext
  apply List.ext_getElem (by rw [(guidOf _).2, guid.2])
  intro i inside inside'
  have member : some i ∈ guidLayout := by
    have all : ∀ i < 16, some i ∈ guidLayout := by decide
    exact all i (guid.2 ▸ inside')
  have found := shown.found i member
  have small : i < uuidOffsets.length := lt_of_lt_of_eq inside' guid.2
  rw [List.getD_eq_getElem _ _ small, List.getD_eq_getElem _ _ inside'] at found
  rw [← found]
  simp only [guidOf, uuidParse, List.getElem_map]

theorem guidOf_congr {first second : String} (same : cBytes first = cBytes second) :
    guidOf first = guidOf second := by
  apply Subtype.ext
  simp only [guidOf, uuidParse, same]

/-- **UUID text survives the mixed-endian encoding**, both ways, and two accepted texts are read as
the same GUID exactly if they are equal up to letter case. -/
theorem uuid_text_round_trip :
    (∀ text, uuidValidate text = 0 →
      cBytes (formatGuid (guidOf text)) = (cBytes text).map tolower) ∧
    (∀ guid, uuidValidate (formatGuid guid) = 0 ∧ guidOf (formatGuid guid) = guid) ∧
    (∀ first second, uuidValidate first = 0 → uuidValidate second = 0 →
      (guidOf first = guidOf second ↔ strcaseEq first second = true)) := by
  refine ⟨fun text => formatGuid_guidOf, guidOf_formatGuid, ?_⟩
  intro first second accepted accepted'
  have lower := formatGuid_guidOf accepted
  have lower' := formatGuid_guidOf accepted'
  rw [strcaseEq, decide_eq_true_eq]
  constructor
  · intro same
    rw [← lower, ← lower', same]
  · intro same
    rw [← lower, ← lower'] at same
    rw [← (guidOf_formatGuid (guidOf first)).2, ← (guidOf_formatGuid (guidOf second)).2]
    exact guidOf_congr same

/-- A text with capital letters, its bytes and the text that they are written as. -/
theorem uuid_text_round_trip_capital :
    cBytes (formatGuid (guidOf "0FC63DAF-8483-4772-8E79-3d69d8477de4")) =
      (cBytes "0FC63DAF-8483-4772-8E79-3d69d8477de4").map tolower :=
  uuid_text_round_trip.1 _ (by decide +kernel)

/-! ### Random UUIDs -/

/-- The words that `uuid_random` prints: the random bits with the version and the variant. -/
def maskedWords (random32 : Nat → UInt32) : List UInt32 :=
  [random32 0 &&& 0xffff, random32 1 &&& 0xffff, random32 2 &&& 0xffff,
    random32 3 &&& 0x0fff ||| 0x4000, random32 4 &&& 0x3fff ||| 0x8000, random32 5 &&& 0xffff,
    random32 6 &&& 0xffff, random32 7 &&& 0xffff]

/-- **The random words give a version 4 UUID**: the text is accepted, its bytes carry the version
and the variant, and other random bits give another UUID. -/
structure Version4 (random32 : Nat → UInt32) : Prop where
  accepted : uuidValidate (uuidRandom random32) = 0
  version : (guidOf (uuidRandom random32)).1.getD 7 0 >>> 4 = 4
  variant : (guidOf (uuidRandom random32)).1.getD 8 0 >>> 6 = 2
  preserved : ∀ other : Nat → UInt32, maskedWords random32 ≠ maskedWords other →
    guidOf (uuidRandom random32) ≠ guidOf (uuidRandom other)

/-- A printed word has at least four digits and the letter `x`. -/
theorem printWord_length (word : UInt32) : 5 ≤ (printWord word).length := by
  unfold printWord
  rw [List.length_append, List.length_append, List.length_replicate, List.length_singleton]
  omega

theorem printWord_plain (word : UInt32) : ∀ c ∈ printWord word, 0 < c.toNat ∧ c.toNat < 128 := by
  intro c member
  rcases List.mem_append.mp member with member | member
  · rcases List.mem_append.mp member with member | member
    · rw [List.eq_of_mem_replicate member]
      decide
    · have digit := Nat.isDigit_of_mem_toDigits (by decide) (by decide) member
      obtain ⟨least, most⟩ := Char.isDigit_iff_toNat.mp digit
      exact ⟨(show 0 < 48 by decide).trans_le least, most.trans_lt (show 57 < 128 by decide)⟩
  · rw [List.mem_singleton.mp member]
    decide

theorem uuidRandom_length (random32 : Nat → UInt32) : 44 ≤ (cBytes (uuidRandom random32)).length := by
  unfold uuidRandom
  rw [cBytes_ofList]
  · simp only [List.length_map, List.length_append, List.length_singleton]
    have := printWord_length (random32 0 &&& 0xffff)
    have := printWord_length (random32 1 &&& 0xffff)
    have := printWord_length (random32 2 &&& 0xffff)
    have := printWord_length (random32 3 &&& 0x0fff ||| 0x4000)
    have := printWord_length (random32 4 &&& 0x3fff ||| 0x8000)
    have := printWord_length (random32 5 &&& 0xffff)
    have := printWord_length (random32 6 &&& 0xffff)
    have := printWord_length (random32 7 &&& 0xffff)
    omega
  · intro c member
    simp only [List.mem_append, List.mem_singleton] at member
    have dash : 0 < '-'.toNat ∧ '-'.toNat < 128 := by decide
    have word := fun word => printWord_plain word c
    rcases member with ((((((((((member | member) | member) | member) | member) | member) | member) |
      member) | member) | member) | member) | member
    all_goals first | exact word _ member | exact member ▸ dash

/-- **No random words give a version 4 UUID**: the text is too long to be accepted. -/
theorem uuidRandom_rejected (random32 : Nat → UInt32) : ¬ Version4 random32 := by
  intro valid
  have length := (uuidValidate_eq_zero.mp valid.accepted).1
  have := uuidRandom_length random32
  omega

/-- With all random words zero the text is refused, and its bytes have no version. -/
theorem uuidRandom_zero : ¬ ∀ random32, Version4 random32 := by
  intro all
  have accepted := (all fun _ => 0).accepted
  revert accepted
  decide +kernel

end Genimage
