/-
**What the writing functions leave in the output file.**

`Holds os world contents` says that the output file is there with these contents. Each function gets
one lemma: what it leaves when it returns, and, where `Safe` or `Roomy` excludes a fault, that it
returns. `insert_data` leaves a beginning of the data, all of it when no transfer is cut short;
`write_bytes` leaves a `pwrite`, whichever calls it uses for it.
-/

import Genimage.Util.FileOps

namespace Genimage

open Library Effect

/-- **The output file is there, with these contents.** -/
structure Holds (os : Os) (world : World) (contents : File) : Prop where
  contents : world.contents = contents
  present : os.blockDevice = false → world.file.isSome

section Specs

variable {os : Os} {fault : Prop} {world next : World} {contents : File} {data : List UInt8}

theorem Holds.frame (holds : Holds os world contents) (same : next.file = world.file) :
    Holds os next contents :=
  ⟨(World.contents_congr same).trans holds.contents, fun regular => same ▸ holds.present regular⟩

theorem Holds.of_file (file : next.file = some contents) : Holds os next contents :=
  ⟨by rw [World.contents, file, Option.getD_some], fun _ => by rw [file]; rfl⟩

theorem openFile_ensures (same : world.contents = contents) (safe : fault ∨ os.Reliable) :
    Ensures fault (openFile os false) world fun _ next => Holds os next contents := by
  refine isBlockDevice_ensures.bind fun _ middle kept => ?_
  replace same := (World.contents_congr kept).trans same
  refine Sys.openOut_ensures.bind fun ret next opened => ?_
  rcases opened with ⟨rfl, failed⟩ | ⟨rfl, _, file⟩
  · rw [if_pos (by decide), Sys.throwErrno_ensures]
    exact safe.resolve_right failed
  · rw [if_neg (by decide), ensures_pure]
    cases device : os.blockDevice with
    | true =>
      rw [device, if_pos rfl] at file
      exact ⟨(World.contents_congr file).trans same, by simp [device]⟩
    | false =>
      rw [device] at file
      simp only [Bool.false_eq_true, if_false, same] at file
      exact .of_file file

theorem Safe.reliable {bound : Nat} (safe : Safe fault os bound) : fault ∨ os.Reliable :=
  safe.imp_right And.left

/-! ### `insert_data` -/

theorem returnErrno_ensures {post : Unit → World → Prop} (failed : world.errno ≠ 0 → fault)
    (returned : world.errno = 0 → post () world) : Ensures fault returnErrno world post := by
  rw [returnErrno, ensures_bind, ensures_get]
  split
  next nonzero => exact failed nonzero
  next zero => exact returned (not_not.mp zero)

/-- **The loop writes the data from its beginning**; by induction on the fuel. -/
theorem insertLoop_ensures {fuel : Nat} (holds : Holds os world contents)
    (enough : data.length ≤ fuel) (safe : Safe fault os (world.position + data.length)) :
    Ensures fault (insertLoop os fuel data) world fun _ next => ∃ count ≤ data.length,
      (os.Whole → count = data.length) ∧
        Holds os next (contents.pwrite world.position (data.take count)) := by
  have nothing : data = [] → Ensures fault (pure () : Sys Unit) world fun _ next =>
      ∃ count ≤ data.length, (os.Whole → count = data.length) ∧
        Holds os next (contents.pwrite world.position (data.take count)) := by
    rintro rfl
    refine ⟨0, le_rfl, fun _ => rfl, ?_⟩
    rw [List.take_nil, File.pwrite_nil]
    exact holds
  induction fuel generalizing world contents data with
  | zero => exact nothing (List.length_eq_zero_iff.mp (Nat.le_zero.mp enough))
  | succ fuel ih =>
    rw [insertLoop]
    split
    next empty => exact nothing empty
    next some =>
      have positive := List.length_pos_of_ne_nil some
      have now : (data.take (min data.length 4096)).length = min data.length 4096 := by
        rw [List.length_take]
        omega
      refine Sys.write_ensures.bind fun ret middle written => ?_
      rw [now] at written
      rcases written with ⟨rfl, errno, kept, failed⟩ | ⟨count, rfl, small, _, whole, position, file⟩
      · rw [if_pos (by omega)]
        refine returnErrno_ensures (fun _ => ?_) fun zero => absurd zero errno
        exact safe.allowed fun both => failed ⟨both.1, by omega⟩
      · rw [holds.contents, List.take_take] at file
        split
        next short =>
          refine returnErrno_ensures (fun _ => ?_) fun _ => ?_
          · exact safe.allowed fun both => absurd (whole both.1.whole) (by omega)
          · refine ⟨min count (min data.length 4096), by omega, fun all => ?_, .of_file file⟩
            exact absurd (whole all) (by omega)
        next full =>
          have count_eq : count = min data.length 4096 := by omega
          rw [count_eq, min_self] at file
          rw [count_eq] at position
          have rest : (data.drop (min data.length 4096)).length =
              data.length - min data.length 4096 := List.length_drop
          refine (ih (.of_file file) (by omega) (safe.mono (by omega)) ?_).mono ?_
          · rintro none
            refine ⟨0, Nat.zero_le _, fun _ => by rw [none]; rfl, ?_⟩
            rw [List.take_zero, File.pwrite_nil]
            exact .of_file file
          · rintro _ next ⟨more, le, all, holds'⟩
            refine ⟨min data.length 4096 + more, by omega, fun given => ?_, ?_⟩
            · have := all given
              omega
            · have joined := contents.pwrite_pwrite world.position
                (data.take (min data.length 4096)) ((data.drop (min data.length 4096)).take more)
              rw [now, ← position, ← List.take_add] at joined
              rw [joined] at holds'
              exact holds'

/-- **`insert_data`** leaves a beginning of the data at `offset`. -/
theorem insertData_ensures {offset : UInt64} (same : world.contents = contents)
    (safe : Safe fault os (offset.toNat + data.length)) :
    Ensures fault (insertData os data offset) world fun _ next => offset.toNat < offLimit ∧
      ∃ count ≤ data.length, (os.Whole → count = data.length) ∧
        Holds os next (contents.pwrite offset.toNat (data.take count)) := by
  refine (openFile_ensures same safe.reliable).bind fun _ opened holds => ?_
  refine Sys.lseekSet_ensures.bind fun ret middle ⟨kept, moved⟩ => ?_
  rcases moved with ⟨rfl, failed⟩ | ⟨rfl, position, inside⟩
  · rw [if_pos (by decide), Sys.throwErrno_ensures]
    exact safe.allowed fun both => failed ⟨both.1, by omega⟩
  · rw [if_neg (by omega)]
    refine (insertLoop_ensures (holds.frame kept) le_rfl (by rwa [position])).mono ?_
    intro _ next written
    rw [position] at written
    exact ⟨inside, written⟩

/-- Without short transfers `insert_data` leaves all of the data. -/
theorem insertData_whole {offset : UInt64} (whole : os.Whole) (same : world.contents = contents)
    (safe : Safe fault os (offset.toNat + data.length)) :
    Ensures fault (insertData os data offset) world fun _ next =>
      offset.toNat < offLimit ∧ Holds os next (contents.pwrite offset.toNat data) := by
  refine (insertData_ensures same safe).mono ?_
  rintro _ next ⟨inside, count, _, all, holds⟩
  rw [all whole, List.take_length] at holds
  exact ⟨inside, holds⟩

/-- **`extend_file`** fails on a longer file, and makes a shorter one longer. -/
theorem extendFile_ensures {size : UInt64} (same : world.contents = contents)
    (safe : fault ∨ (os.Reliable ∧ size.toNat < offLimit ∧ contents.length ≤ size.toNat)) :
    Ensures fault (extendFile os size) world fun _ next =>
      contents.length ≤ size.toNat ∧ Holds os next (contents.truncate size.toNat) := by
  refine (openFile_ensures same (safe.imp_right And.left)).bind fun _ opened holds => ?_
  refine Sys.lseekEnd_ensures.bind fun ret middle ⟨kept, moved⟩ => ?_
  rw [holds.contents] at moved
  rcases moved with ⟨rfl, failed⟩ | ⟨rfl, _, inside⟩
  · rw [if_pos (by decide), Sys.throwErrno_ensures]
    exact safe.resolve_right fun all => failed ⟨all.1, by omega⟩
  · rw [if_neg (by omega)]
    have length : (UInt64.ofInt (contents.length : Int)).toNat = contents.length :=
      toNat_ofInt_natCast (inside.trans (by decide))
    have holds := holds.frame kept
    simp only
    split
    next longer =>
      rw [gt_iff_lt, UInt64.lt_iff_toNat_lt, length] at longer
      rw [ensures_throw]
      exact safe.resolve_right fun all => absurd all.2.2 (by omega)
    next fits =>
      rw [gt_iff_lt, UInt64.lt_iff_toNat_lt, length, not_lt] at fits
      split
      next equal =>
        have equal : contents.length = size.toNat := by rw [← equal, length]
        have unchanged : contents.truncate size.toNat = contents :=
          File.ext equal.symm (File.truncate_byte equal.le)
        rw [ensures_pure, unchanged]
        exact ⟨fits, holds⟩
      next =>
        refine Sys.ftruncate_ensures.bind fun ret last truncated => ?_
        rw [holds.contents] at truncated
        rcases truncated with ⟨rfl, _, failed⟩ | ⟨rfl, _, file⟩
        · rw [if_pos rfl, Sys.throwErrno_ensures]
          exact safe.resolve_right fun all => failed ⟨all.1.willing, all.1.2, all.2.1⟩
        · rw [if_neg (by decide), ensures_pure]
          exact ⟨fits, .of_file file⟩

/-! ### `write_bytes` -/

/-- What the words of a loop are when it has moved by `count`. -/
theorem advance_words {size offset : UInt64} {count : Nat} (le : count ≤ size.toNat)
    (fits : offset.toNat + size.toNat < 2 ^ 64) :
    (size - UInt64.ofInt (count : Int)).toNat = size.toNat - count ∧
      (offset + UInt64.ofInt (count : Int)).toNat = offset.toNat + count := by
  have word : (UInt64.ofInt (count : Int)).toNat = count :=
    toNat_ofInt_natCast (le.trans_lt size.toNat_lt)
  rw [toNat_sub_of_le (by rw [word]; exact le), toNat_add_of_lt (by rw [word]; omega), word]
  exact ⟨rfl, rfl⟩

/-- **The last loop writes `size` bytes**; by induction on the fuel. -/
theorem fillLoop_ensures {byte : UInt8} {fuel : Nat} {size offset : UInt64}
    (holds : Holds os world contents) (enough : size.toNat ≤ fuel)
    (fits : offset.toNat + size.toNat < 2 ^ 64)
    (roomy : Roomy fault os contents offset.toNat size.toNat) :
    Ensures fault (fillLoop os byte fuel size offset) world fun _ next =>
      Holds os next (contents.pwrite offset.toNat (List.replicate size.toNat byte)) := by
  have nothing : size.toNat = 0 → Ensures fault (pure () : Sys Unit) world fun _ next =>
      Holds os next (contents.pwrite offset.toNat (List.replicate size.toNat byte)) := by
    intro zero
    rw [ensures_pure, zero, List.replicate_zero, File.pwrite_nil]
    exact holds
  induction fuel generalizing world contents size offset with
  | zero => exact nothing (Nat.le_zero.mp enough)
  | succ fuel ih =>
    rw [fillLoop]
    split
    next empty => exact nothing (eq_zero_iff.mp empty)
    next some =>
      have positive := toNat_pos.mpr some
      have now_le : (minSize size 4096).toNat ≤ size.toNat := by
        rw [toNat_minSize]
        exact min_le_left _ _
      have now_pos : 0 < (minSize size 4096).toNat := by
        rw [toNat_minSize, show (4096 : UInt64).toNat = 4096 from rfl]
        omega
      simp only
      generalize minSize size 4096 = now at *
      refine Sys.pwrite_ensures.bind fun ret middle ⟨_, written⟩ => ?_
      rw [List.length_replicate, holds.contents] at written
      rcases written with ⟨rfl, _, _, failed⟩ | ⟨count, rfl, small, more, _, _, file⟩
      · rw [if_pos (by decide), Sys.throwErrno_ensures]
        exact roomy.resolve_right fun both => failed ⟨both.1, now_le.trans both.2⟩
      · have moved := more (by simp; omega)
        obtain ⟨size_eq, offset_eq⟩ := advance_words (small.trans now_le) fits
        rw [List.take_replicate, min_eq_left small] at file
        rw [if_neg (by omega)]
        have rest := roomy.rest (List.replicate count byte)
        rw [List.length_replicate, ← size_eq, ← offset_eq] at rest
        have joined := contents.pwrite_pwrite offset.toNat (List.replicate count byte)
          (List.replicate (size.toNat - count) byte)
        rw [List.length_replicate, List.replicate_append_replicate,
          Nat.add_sub_cancel' (small.trans now_le)] at joined
        refine (ih (.of_file file) (by omega) (by omega) rest ?_).mono ?_
        · intro zero
          rw [zero, List.replicate_zero, File.pwrite_nil]
          exact .of_file file
        · rintro _ next holds'
          rwa [size_eq, offset_eq, joined] at holds'

theorem punchOrFill_ensures {size offset : UInt64} (holds : Holds os world contents)
    (inside : offset.toNat + size.toNat ≤ contents.length) (small : contents.length < offLimit)
    (safe : fault ∨ (os.Willing ∧ os.blockDevice = false)) :
    Ensures fault (punchOrFill os size offset) world fun _ next =>
      Holds os next (contents.pwrite offset.toNat (List.replicate size.toNat 0)) := by
  have limit : offLimit = 2 ^ 63 := rfl
  refine Sys.punchHole_ensures.bind fun ret middle punched => ?_
  rw [holds.contents] at punched
  rcases punched with ⟨rfl, kept⟩ | ⟨rfl, _, file⟩
  · rw [if_neg (by decide)]
    refine fillLoop_ensures (holds.frame kept) le_rfl (by omega) ?_
    exact safe.imp_right fun both => ⟨both.1, Sys.le_room both.2 (by omega)⟩
  · rw [if_pos rfl, ensures_pure, ← File.punch_eq_pwrite inside]
    exact .of_file file

/-- **`write_bytes` writes `size` bytes**, by a longer file, a hole or a loop. -/
theorem writeBytes_roomy {byte : UInt8} {sparse : Bool} {size offset : UInt64}
    (holds : Holds os world contents) (fits : offset.toNat + size.toNat < 2 ^ 64)
    (there : fault ∨ (world.file.isSome ∧ contents.length < offLimit))
    (roomy : Roomy fault os contents offset.toNat size.toNat) :
    Ensures fault (writeBytes os size offset byte sparse) world fun _ next =>
      Holds os next (contents.pwrite offset.toNat (List.replicate size.toNat byte)) := by
  have limit : offLimit = 2 ^ 63 := rfl
  rw [writeBytes]
  split
  next empty =>
    rw [eq_zero_iff.mp empty, List.replicate_zero, File.pwrite_nil, ensures_pure]
    exact holds
  next some =>
    have positive := toNat_pos.mpr some
    refine Sys.statOut_ensures.bind fun length middle ⟨kept, found⟩ => ?_
    rw [holds.contents] at found
    have holds := holds.frame kept
    rcases found with ⟨rfl, failed⟩ | ⟨rfl, _, small⟩
    · simp only [Sys.throwErrno_ensures]
      rcases there with allowed | there
      · exact allowed
      · exact roomy.resolve_right fun both => failed ⟨both.1, there⟩
    · have length : (UInt64.ofNat contents.length).toNat = contents.length :=
        UInt64.toNat_ofNat_of_lt' (small.trans (by decide))
      have sum : (offset + size).toNat = offset.toNat + size.toNat := toNat_add_of_lt fits
      simp only
      split
      next zeros =>
        simp only [Bool.and_eq_true, Bool.not_eq_eq_eq_not, Bool.not_true, decide_eq_true_eq] at zeros
        obtain ⟨⟨regular, rfl⟩, _⟩ := zeros
        have safe : fault ∨ (os.Willing ∧ os.blockDevice = false) :=
          roomy.imp_right fun both => ⟨both.1, regular⟩
        split
        next longer =>
          rw [gt_iff_lt, UInt64.lt_iff_toNat_lt, length, sum] at longer
          refine Sys.ftruncate_ensures.bind fun ret last truncated => ?_
          rw [holds.contents, sum] at truncated
          rcases truncated with ⟨rfl, _, failed⟩ | ⟨rfl, _, file⟩
          · rw [if_pos (by decide), ensures_bind, Sys.throwErrno_ensures]
            refine roomy.resolve_right fun both => failed ⟨both.1, regular, ?_⟩
            have room := both.2
            rw [Sys.room, if_neg (by rw [regular]; decide)] at room
            omega
          · rw [if_neg (by decide), toLongLong_of_lt (by omega),
              toLongLong_of_lt (by omega), length]
            split
            next behind =>
              rw [ensures_pure, ← File.truncate_eq_pwrite positive longer.le]
              · exact .of_file file
              · intro i le
                exact contents.beyond i (by omega)
            next before =>
              have rest : (UInt64.ofNat contents.length - offset).toNat =
                  contents.length - offset.toNat := by
                rw [toNat_sub_of_le (by omega), length]
              refine (punchOrFill_ensures (.of_file file) ?_ ?_ safe).mono ?_
              · rw [rest, File.length_truncate]
                omega
              · rw [File.length_truncate]
                omega
              · intro _ next holds'
                rw [rest, File.truncate_pwrite_zeros (by omega) longer.le] at holds'
                rwa [show offset.toNat + size.toNat - offset.toNat = size.toNat by omega] at holds'
        next inside =>
          rw [gt_iff_lt, UInt64.lt_iff_toNat_lt, length, sum, not_lt] at inside
          exact punchOrFill_ensures holds inside small safe
      next => exact fillLoop_ensures holds le_rfl fits roomy

/-- The same on a reliable system. -/
theorem writeBytes_ensures {byte : UInt8} {sparse : Bool} {size offset : UInt64}
    (holds : Holds os world contents) (fits : offset.toNat + size.toNat < 2 ^ 64)
    (safe : Safe fault os (max contents.length (offset.toNat + size.toNat))) :
    Ensures fault (writeBytes os size offset byte sparse) world fun _ next =>
      Holds os next (contents.pwrite offset.toNat (List.replicate size.toNat byte)) := by
  refine writeBytes_roomy holds fits ?_ (safe.mono (le_max_right _ _)).roomy
  exact safe.imp_right fun ⟨reliable, below⟩ =>
    ⟨holds.present reliable.2, (le_max_left _ _).trans_lt below⟩

/-! ### `prepare_image` -/

/-- **`prepare_image`** leaves a file of zeros, or none when it can be removed. -/
theorem prepareImage_ensures {size : UInt64} (regular : os.blockDevice = false)
    (safe : Safe fault os size.toNat) :
    Ensures fault (prepareImage os size) world fun _ next => os.Reliable ∨ size ≠ 0 →
      next.file = if size = 0 then none else some (File.empty.truncate size.toNat) := by
  unfold prepareImage
  rw [regular, if_neg Bool.false_ne_true]
  split
  next zero =>
    refine Sys.unlink_ensures.bind fun ret middle removed => ?_
    rcases removed with ⟨rfl, kept, missing⟩ | ⟨rfl, file⟩
    · rw [if_pos (by decide), ensures_bind, ensures_get]
      split
      next other =>
        rw [Sys.throwErrno_ensures]
        exact safe.allowed fun both => other (missing both.1).2
      next =>
        rw [ensures_pure, kept]
        exact fun removable => (missing (removable.resolve_right (not_not.mpr zero))).1
    · rw [if_neg (by decide), ensures_pure]
      exact fun _ => file
  next some =>
    refine ensures_bind.mpr (isBlockDevice_ensures.bind fun _ _ _ => ?_)
    refine Sys.openOut_ensures.bind fun ret opened file => ?_
    rcases file with ⟨rfl, failed⟩ | ⟨rfl, _, file⟩
    · rw [if_pos (by decide), Sys.throwErrno_ensures]
      exact safe.reliable.resolve_right failed
    rw [if_neg (by decide), ensures_pure]
    simp only [regular, Bool.false_eq_true, if_false, if_true] at file
    refine Sys.ftruncate_ensures.bind fun ret last truncated => ?_
    rw [World.contents, file, Option.getD_some] at truncated
    rcases truncated with ⟨rfl, _, failed⟩ | ⟨rfl, _, file⟩
    · rw [if_pos (by decide), Sys.throwErrno_ensures]
      exact safe.allowed fun both => failed ⟨both.1.willing, regular, both.2⟩
    · rw [if_neg (by decide), ensures_pure]
      exact fun _ => file

end Specs

end Genimage
