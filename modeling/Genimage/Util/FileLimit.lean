/-
**`write_bytes` against the largest offset.**

`offset` and `size` of `write_bytes` are 64-bit words, and their sum is not checked. The loop writes
byte after byte, so where it returns it has stayed below the largest offset and the sum has not
wrapped. The fast path computes the sum first: one that wraps to a position behind the end of the file
(`EndWraps`) makes the file a little longer, and nothing is written.

`writeBytes_exact_iff`: everywhere else the fast path and the loop leave what one `pwrite` leaves.
-/

import Genimage.Util.FileSpecs

namespace Genimage

open Library Effect

variable {os : Os} {world : World} {contents : File}

/-- **The loop returns only where there was room for all bytes**; by induction on the fuel. -/
theorem fillLoop_room {byte : UInt8} {fuel : Nat} {size offset : UInt64}
    (same : world.contents = contents) (small : contents.length < offLimit)
    (enough : size.toNat ≤ fuel) :
    Ensures True (fillLoop os byte fuel size offset) world fun _ _ =>
      size.toNat ≤ Sys.room os contents offset.toNat := by
  induction fuel generalizing world contents size offset with
  | zero => exact (Nat.le_zero.mp enough).trans_le (Nat.zero_le _)
  | succ fuel ih =>
    rw [fillLoop]
    split
    next empty => exact (eq_zero_iff.mp empty).trans_le (Nat.zero_le _)
    next some =>
      have positive := toNat_pos.mpr some
      have now_le : (minSize size 4096).toNat ≤ size.toNat := by
        rw [toNat_minSize]
        exact min_le_left _ _
      have now_pos : 0 < (minSize size 4096).toNat := by
        rw [toNat_minSize, show (4096 : UInt64).toNat = 4096 from rfl]
        omega
      simp only
      generalize minSize size 4096 = now at *
      refine Sys.pwrite_ensures.bind fun ret middle facts => ?_
      obtain ⟨_, written⟩ := facts
      rw [List.length_replicate, same] at written
      rcases written with ⟨rfl, _⟩ | ⟨count, rfl, le, more, inside, _, file⟩
      · rw [if_pos (by decide), Sys.throwErrno_ensures]
        trivial
      · have moved := more (by simp; omega)
        rw [if_neg (by omega)]
        rw [List.take_replicate, min_eq_left le] at file
        have below := Sys.add_room_lt small moved inside
        have length := contents.length_pwrite_le_max offset.toNat (List.replicate count byte)
        have limit : offLimit = 2 ^ 63 := rfl
        have word : (UInt64.ofInt (count : Int)).toNat = count := toNat_ofInt_natCast (by omega)
        have size_eq : (size - UInt64.ofInt count).toNat = size.toNat - count := by
          rw [toNat_sub_of_le (by omega), word]
        have offset_eq : (offset + UInt64.ofInt count).toNat = offset.toNat + count := by
          rw [toNat_add_of_lt (by omega), word]
        have room := Sys.room_pwrite os contents offset.toNat (List.replicate count byte)
        rw [List.length_replicate] at length room
        have contents_eq : middle.contents =
            contents.pwrite offset.toNat (List.replicate count byte) := by
          rw [World.contents, file, Option.getD_some]
        refine (ih contents_eq (by omega) (by omega)).mono fun _ _ rest => ?_
        rw [offset_eq, room, size_eq] at rest
        omega

theorem fillLoop_inside {byte : UInt8} {fuel : Nat} {size offset : UInt64}
    (same : world.contents = contents) (small : contents.length < offLimit)
    (enough : size.toNat ≤ fuel) (some : size ≠ 0) :
    Ensures True (fillLoop os byte fuel size offset) world fun _ _ =>
      offset.toNat + size.toNat < offLimit := by
  refine (fillLoop_room same small enough).mono fun _ _ room => ?_
  exact Sys.add_room_lt small (toNat_pos.mpr some) room

/-! ### The fast path -/

theorem punchOrFill_inside {size offset : UInt64} (same : world.contents = contents)
    (small : contents.length < offLimit) (some : size ≠ 0) :
    Ensures True (punchOrFill os size offset) world fun _ _ =>
      offset.toNat + size.toNat < offLimit := by
  refine Sys.punchHole_ensures.bind fun ret middle punched => ?_
  rcases punched with ⟨rfl, kept⟩ | ⟨rfl, below, _⟩
  · rw [if_neg (by decide)]
    exact fillLoop_inside ((World.contents_congr kept).trans same) small le_rfl some
  · rw [if_pos rfl, ensures_pure]
    exact below

/-- **The end of the range wraps to a position behind the end of the file.** -/
def EndWraps (contents : File) (size offset : UInt64) : Prop :=
  contents.length ≤ offset.toNat ∧ offset.toNat < offLimit ∧
    contents.length + 2 ^ 64 < offset.toNat + size.toNat

instance (contents : File) (size offset : UInt64) : Decidable (EndWraps contents size offset) := by
  unfold EndWraps
  infer_instance

/-- **A successful `write_bytes` stays below the largest offset**, unless the end of the range
wraps. -/
theorem writeBytes_inside {byte : UInt8} {sparse : Bool} {size offset : UInt64}
    (same : world.contents = contents) (some : size ≠ 0) :
    Ensures True (writeBytes os size offset byte sparse) world fun _ _ =>
      offset.toNat + size.toNat < offLimit ∨
        (os.blockDevice = false ∧ byte = 0 ∧ sparse = true ∧ EndWraps contents size offset) := by
  have limit : offLimit = 2 ^ 63 := rfl
  have positive := toNat_pos.mpr some
  rw [writeBytes, if_neg some]
  refine Sys.statOut_ensures.bind fun length middle facts => ?_
  obtain ⟨kept, found⟩ := facts
  rw [same] at found
  have same := (World.contents_congr kept).trans same
  rcases found with ⟨rfl, _⟩ | ⟨rfl, _, small⟩
  · trivial
  have length : (UInt64.ofNat contents.length).toNat = contents.length :=
    UInt64.toNat_ofNat_of_lt' (small.trans (by decide))
  simp only
  split
  next zeros =>
    simp only [Bool.and_eq_true, Bool.not_eq_eq_eq_not, Bool.not_true, decide_eq_true_eq] at zeros
    obtain ⟨⟨regular, rfl⟩, rfl⟩ := zeros
    split
    next longer =>
      rw [gt_iff_lt, UInt64.lt_iff_toNat_lt, length] at longer
      refine Sys.ftruncate_ensures.bind fun ret last truncated => ?_
      rcases truncated with ⟨rfl, _⟩ | ⟨rfl, below, file⟩
      · rw [if_pos (by decide), ensures_bind, Sys.throwErrno_ensures]
        trivial
      have small : (UInt64.ofNat contents.length).toNat < 2 ^ 63 := by omega
      rw [if_neg (by decide), toLongLong_of_lt small, length]
      rw [same] at file
      have sum : (offset + size).toNat = (offset.toNat + size.toNat) % 2 ^ 64 := UInt64.toNat_add _ _
      have := offset.toNat_lt
      have := size.toNat_lt
      split
      next behind =>
        rw [ensures_pure]
        unfold toLongLong at behind
        split at behind
        next addressed =>
          by_cases wraps : offset.toNat + size.toNat < 2 ^ 64
          · exact Or.inl (by omega)
          · exact Or.inr ⟨regular, rfl, rfl, by omega, by omega, by omega⟩
        next => omega
      next before =>
        have contents_eq : last.contents = contents.truncate (offset + size).toNat := by
          rw [World.contents, file, Option.getD_some]
        have rest : UInt64.ofNat contents.length - offset ≠ 0 := by
          intro zero
          have zero := eq_zero_iff.mp zero
          rw [UInt64.toNat_sub, length] at zero
          have equal : offset.toNat = contents.length := by omega
          rw [toLongLong_of_lt (by omega), equal] at before
          omega
        refine (punchOrFill_inside contents_eq below rest).mono fun _ _ inside => ?_
        rw [toLongLong_of_lt (by omega)] at before
        exact Or.inl (by omega)
    next => exact (punchOrFill_inside same small some).mono fun _ _ => Or.inl
  next => exact (fillLoop_inside same small le_rfl some).mono fun _ _ => Or.inl

/-- **Where the end wraps, the file is made longer and nothing is written.** -/
theorem writeBytes_wrapped (regular : os.blockDevice = false) (willing : os.Willing)
    {size offset : UInt64} (file : world.file = some contents)
    (wraps : EndWraps contents size offset) :
    Ensures False (writeBytes os size offset 0 true) world fun _ next =>
      next.file = some (contents.truncate (offset + size).toNat) := by
  have limit : offLimit = 2 ^ 63 := rfl
  obtain ⟨behind, addressed, beyond⟩ := wraps
  have := size.toNat_lt
  have sum : (offset + size).toNat = offset.toNat + size.toNat - 2 ^ 64 :=
    toNat_add_of_le (by omega)
  have same : world.contents = contents := by rw [World.contents, file, Option.getD_some]
  have some : size ≠ 0 := fun zero => by
    rw [eq_zero_iff.mp zero] at beyond
    omega
  rw [writeBytes, if_neg some]
  refine Sys.statOut_ensures.bind fun length middle facts => ?_
  obtain ⟨kept, found⟩ := facts
  rw [same] at found
  have same := (World.contents_congr kept).trans same
  rcases found with ⟨rfl, failed⟩ | ⟨rfl, _, small⟩
  · simp only [Sys.throwErrno_ensures]
    exact failed ⟨willing, by rw [file]; rfl, by omega⟩
  have length : (UInt64.ofNat contents.length).toNat = contents.length :=
    UInt64.toNat_ofNat_of_lt' (small.trans (by decide))
  simp only [regular, Bool.not_false, decide_true, Bool.and_self, if_true]
  rw [if_pos (by rw [gt_iff_lt, UInt64.lt_iff_toNat_lt, length]; omega)]
  refine Sys.ftruncate_ensures.bind fun ret last truncated => ?_
  rw [same] at truncated
  rcases truncated with ⟨rfl, _, failed⟩ | ⟨rfl, _, file⟩
  · rw [if_pos (by decide), ensures_bind, Sys.throwErrno_ensures]
    exact failed ⟨willing, regular, by omega⟩
  · rw [if_neg (by decide), toLongLong_of_lt (by omega), toLongLong_of_lt (by omega), length,
      if_pos (by omega), ensures_pure]
    exact file

/-! ### One `pwrite` -/

/-- **What one `pwrite` of `size` copies of `byte` leaves**: a gap in front of it reads as zeros, and
the old bytes outside of the range stay. -/
structure Filled (before : File) (size offset : Nat) (byte : UInt8) (after : File) : Prop where
  file : after = before.pwrite offset (List.replicate size byte)
  gap : ∀ i, before.length ≤ i → i < offset → after.byte i = 0
  outside : ∀ i < before.length, ¬ (offset ≤ i ∧ i < offset + size) → after.byte i = before.byte i

theorem Filled.of_eq {before after : File} {size offset : Nat} {byte : UInt8}
    (file : after = before.pwrite offset (List.replicate size byte)) :
    Filled before size offset byte after := by
  have kept : ∀ i, ¬ (offset ≤ i ∧ i < offset + size) → after.byte i = before.byte i := by
    intro i outside
    rw [file, File.pwrite_byte_of_not_mem (by rwa [List.length_replicate])]
  refine ⟨file, fun i behind before_offset => ?_, fun i _ => kept i⟩
  rw [kept i (by omega)]
  exact before.beyond i behind

/-- **`write_bytes` does what one `pwrite` does**, unless a call reports an error or the file has no
room for the range. Writes may be cut short, and holes may be refused. -/
def WritesLikePwrite (device : Bool) (contents : File) (size offset : UInt64) (byte : UInt8)
    (sparse : Bool) : Prop :=
  ∀ (os : Os) (world : World), os.blockDevice = device → world.file = some contents →
    contents.length < offLimit →
    Ensures (¬ os.Willing ∨ Sys.room os contents offset.toNat < size.toNat)
      (writeBytes os size offset byte sparse) world
      fun _ next => Filled contents size.toNat offset.toNat byte next.contents

/-- Where the end wraps, what is left is shorter than the range. -/
theorem EndWraps.not_written {contents : File} {size offset : UInt64}
    (wraps : EndWraps contents size offset) :
    ¬ WritesLikePwrite false contents size offset 0 true := by
  intro exactly
  have limit : offLimit = 2 ^ 63 := rfl
  have ⟨behind, addressed, beyond⟩ := wraps
  have := size.toNat_lt
  let os : Os := ⟨fun _ => .full, false⟩
  let world : World := ⟨some contents, 0, 0, 0⟩
  have willing : os.Willing := fun _ _ => nofun
  have present : world.file = some contents := rfl
  obtain ⟨_, final, run, file⟩ := (writeBytes_wrapped rfl willing present wraps).returns
  have filled := (exactly _ _ rfl rfl (behind.trans_lt addressed)).of_returns run
  have length := congrArg File.length filled.file
  rw [World.contents, file, Option.getD_some, File.length_truncate, toNat_add_of_le (by omega),
    File.length_pwrite (List.ne_nil_of_length_pos (by rw [List.length_replicate]; omega)),
    List.length_replicate] at length
  omega

/-- **The fast path and the loop of `write_bytes` are one `pwrite`**, exactly where the end of the
range does not wrap to a position behind the end of the file. -/
theorem writeBytes_exact_iff {device : Bool} {contents : File} {size offset : UInt64} {byte : UInt8}
    {sparse : Bool} : WritesLikePwrite device contents size offset byte sparse ↔
      ¬ (device = false ∧ byte = 0 ∧ sparse = true ∧ EndWraps contents size offset) := by
  have limit : offLimit = 2 ^ 63 := rfl
  constructor
  · rintro exactly ⟨rfl, rfl, rfl, wraps⟩
    exact wraps.not_written exactly
  · intro exempt os world device_eq file small
    have same : world.contents = contents := by rw [World.contents, file, Option.getD_some]
    by_cases fits : offset.toNat + size.toNat < 2 ^ 64
    · refine (writeBytes_roomy (.of_file file) fits ?_ ?_).mono fun _ next holds => ?_
      · exact Or.inr ⟨by rw [file]; rfl, small⟩
      · by_cases willing : os.Willing
        · by_cases room : size.toNat ≤ Sys.room os contents offset.toNat
          · exact Or.inr ⟨willing, room⟩
          · exact Or.inl (Or.inr (not_le.mp room))
        · exact Or.inl (Or.inl willing)
      · exact .of_eq holds.contents
    · have room : Sys.room os contents offset.toNat < size.toNat := by
        have := size.toNat_lt
        have := offset.toNat_lt
        rw [Sys.room]
        split_ifs <;> omega
      have some : size ≠ 0 := toNat_pos.mp (by omega)
      refine Ensures.imp (fun _ => Or.inr room) ((writeBytes_inside same some).mono ?_)
      rintro _ next (below | ⟨regular, zero, holes, wraps⟩)
      · omega
      · exact absurd ⟨device_eq.symm.trans regular, zero, holes, wraps⟩ exempt

/-- A file of one byte grows to two where the range ends at `2 ^ 64 + 2`. -/
theorem writeBytes_wraps :
    ¬ WritesLikePwrite false (File.ofList [7]) 13835058055282163714 4611686018427387904 0 true :=
  EndWraps.not_written (by decide)

end Genimage
