/-
**What `insert_image` leaves in the output file.**

`ExtentMap` is what `map_file_extents` promises: sorted extents that cover every byte that is not
zero. `copiedUpTo` is the input position that the copy loop reaches; everything behind it is filled.
`Copied` is the invariant of the loops.
-/

import Genimage.Util.FileLimit

namespace Genimage

open Library Effect

section Specs

variable {os : Os} {fault : Prop} {world next : World} {contents : File}

/-- **What `map_file_extents` promises** about the first `limit` bytes of a file: the extents are
sorted and end at `limit` at most, and every byte that is not zero lies in one. -/
structure ExtentMap (input : File) (limit : Nat) (extents : List Extent) : Prop where
  sorted : extents.Pairwise fun a b => a.stop.toNat ≤ b.start.toNat
  ordered : ∀ extent ∈ extents, extent.start.toNat ≤ extent.stop.toNat
  inside : ∀ extent ∈ extents, extent.stop.toNat ≤ limit
  data : ∀ i < limit, input.byte i ≠ 0 → ∃ extent ∈ extents, extent.start.toNat ≤ i ∧
    i < extent.stop.toNat

/-- The position in an input of `length` bytes behind an extent. -/
def passExtent (length position : Nat) (extent : Extent) : Nat :=
  max (max position extent.start.toNat) (min extent.stop.toNat length)

/-- **The position that the copy loop reaches** when enough bytes are wanted. -/
def copiedUpTo (length : Nat) (extents : List Extent) (start : Nat) : Nat :=
  extents.foldl (passExtent length) start

theorem le_copiedUpTo (length : Nat) (extents : List Extent) (start : Nat) :
    start ≤ copiedUpTo length extents start := by
  induction extents generalizing start with
  | nil => exact le_rfl
  | cons extent rest ih =>
    exact (le_max_left _ _).trans ((le_max_left _ _).trans (ih (passExtent length start extent)))

theorem copiedUpTo_append (length : Nat) (first second : List Extent) (start : Nat) :
    copiedUpTo length (first ++ second) start =
      copiedUpTo length second (copiedUpTo length first start) := List.foldl_append

/-- The loop stays in front of a position that no extent starts or ends behind. -/
theorem copiedUpTo_le_iff {length bound : Nat} {extents : List Extent} {start : Nat} :
    copiedUpTo length extents start ≤ bound ↔ start ≤ bound ∧ ∀ extent ∈ extents,
      extent.start.toNat ≤ bound ∧ min extent.stop.toNat length ≤ bound := by
  induction extents generalizing start with
  | nil => simp [copiedUpTo]
  | cons extent rest ih =>
    rw [copiedUpTo, List.foldl_cons, ← copiedUpTo, ih, List.forall_mem_cons, passExtent, max_le_iff,
      max_le_iff, and_assoc, and_assoc, and_assoc]

/-- The loop gets past every extent, as far as there is input. -/
theorem stop_le_copiedUpTo (length : Nat) {extents : List Extent} {extent : Extent} (start : Nat)
    (member : extent ∈ extents) :
    min extent.stop.toNat length ≤ copiedUpTo length extents start := by
  induction extents generalizing start with
  | nil => cases member
  | cons head rest ih =>
    rcases List.mem_cons.mp member with rfl | member
    · exact (le_max_right _ _).trans (le_copiedUpTo length rest (passExtent length start extent))
    · exact ih (passExtent length start head) member

/-- **What the loops need of the extents**: they are sorted, and a byte below `last` that lies in front
of an extent and in none is zero. -/
structure Covering (input : File) (last : Nat) (extents : List Extent) : Prop where
  sorted : extents.Pairwise fun a b =>
    a.start.toNat ≤ a.stop.toNat ∧ a.stop.toNat ≤ b.start.toNat
  data : ∀ i < last, input.byte i ≠ 0 → (∃ extent ∈ extents, i < extent.start.toNat) →
    ∃ extent ∈ extents, extent.start.toNat ≤ i ∧ i < extent.stop.toNat

theorem ExtentMap.covering {input : File} {limit last : Nat} {extents : List Extent}
    (map : ExtentMap input limit extents) (le : last ≤ limit) : Covering input last extents where
  sorted := map.sorted.imp_of_mem fun member _ before => ⟨map.ordered _ member, before⟩
  data := fun i below nonzero _ => map.data i (below.trans_le le) nonzero

/-- The input has only zeros behind the last extent. -/
theorem ExtentMap.zero_behind {input : File} {limit i : Nat} {extents : List Extent}
    (map : ExtentMap input limit extents) (start : Nat)
    (behind : copiedUpTo input.length extents start ≤ i) (below : i < limit) :
    input.byte i = 0 := by
  by_contra nonzero
  obtain ⟨extent, member, _, inside⟩ := map.data i below nonzero
  have := stop_le_copiedUpTo input.length start member
  have : i < input.length := not_le.mp fun past => nonzero (input.beyond i past)
  omega

/-- The input has only zeros between two extents. -/
theorem Covering.zero_between {input : File} {last i : Nat} {done rest : List Extent}
    {extent : Extent} (covering : Covering input last (done ++ extent :: rest)) (start : Nat)
    (behind : copiedUpTo input.length done start ≤ i) (before : i < extent.start.toNat)
    (below : i < last) : input.byte i = 0 := by
  by_contra nonzero
  obtain ⟨other, member, above, inside⟩ :=
    covering.data i below nonzero ⟨extent, by simp, before⟩
  have : i < input.length := not_le.mp fun past => nonzero (input.beyond i past)
  rcases List.mem_append.mp member with early | late
  · have := stop_le_copiedUpTo input.length start early
    omega
  · rcases List.mem_cons.mp late with rfl | late
    · omega
    · have order :=
        (List.pairwise_cons.mp (List.pairwise_append.mp covering.sorted).2.1).1 other late
      omega

/-! ### The loops -/

/-- The words of the loop do not wrap: a regular file ends below the largest offset, and on a device
the sum is a word. -/
def Fits (os : Os) (loop : CopyLoop) : Prop :=
  if os.blockDevice then loop.offset.toNat + loop.size.toNat < 2 ^ 64
  else loop.offset.toNat < offLimit

/-- What there was room for is representable. -/
theorem Fits.reached {loop : CopyLoop} {count : Nat} (fits : Fits os loop)
    (room : count ≤ Sys.room os contents loop.offset.toNat) :
    if os.blockDevice then loop.offset.toNat + loop.size.toNat < 2 ^ 64
      else loop.offset.toNat + count < offLimit := by
  rw [Fits] at fits
  rw [Sys.room] at room
  split_ifs at fits room ⊢ <;> omega

/-- **`count` bytes of the input have been copied** since the loop was at `loop`. -/
structure Copied (os : Os) (input contents : File) (loop : CopyLoop) (count : Nat)
    (result : CopyLoop) (world : World) : Prop where
  le : count ≤ loop.size.toNat
  size : result.size.toNat = loop.size.toNat - count
  offset : result.offset.toNat = loop.offset.toNat + count
  inPos : result.inPos.toNat = loop.inPos.toNat + count
  fits : Fits os result
  holds : Holds os world
    (contents.pwrite loop.offset.toNat (input.slice loop.inPos.toNat count))

namespace Copied

variable {input : File} {loop middle result : CopyLoop} {count more : Nat}

theorem refl (holds : Holds os world contents) (fits : Fits os loop) :
    Copied os input contents loop 0 loop world := by
  refine ⟨Nat.zero_le _, rfl, rfl, rfl, fits, ?_⟩
  rw [show input.slice loop.inPos.toNat 0 = [] from rfl, File.pwrite_nil]
  exact holds

theorem trans (first : Copied os input contents loop count middle world)
    (second : Copied os input
      (contents.pwrite loop.offset.toNat (input.slice loop.inPos.toNat count)) middle more result
      next) :
    Copied os input contents loop (count + more) result next := by
  have le := first.le
  have le' := second.le
  rw [first.size] at le'
  have holds := second.holds
  rw [first.offset, first.inPos] at holds
  have joined := contents.pwrite_pwrite loop.offset.toNat (input.slice loop.inPos.toNat count)
    (input.slice (loop.inPos.toNat + count) more)
  rw [File.length_slice, File.slice_append] at joined
  rw [joined] at holds
  exact {
    le := by omega
    size := by rw [second.size, first.size]; omega
    offset := by rw [second.offset, first.offset]; omega
    inPos := by rw [second.inPos, first.inPos]; omega
    fits := second.fits
    holds := holds }

/-- The words of a loop that has moved. -/
theorem of_advance {step : UInt64} (same : step.toNat = count) (le : count ≤ loop.size.toNat)
    (fits : if os.blockDevice then loop.offset.toNat + loop.size.toNat < 2 ^ 64
      else loop.offset.toNat + count < offLimit)
    (fits' : loop.inPos.toNat + count < 2 ^ 64)
    (holds : Holds os world
      (contents.pwrite loop.offset.toNat (input.slice loop.inPos.toNat count))) :
    Copied os input contents loop count (loop.advance step) world := by
  have limit : offLimit = 2 ^ 63 := rfl
  have size : (loop.size - step).toNat = loop.size.toNat - count := by
    rw [toNat_sub_of_le (by rw [same]; exact le), same]
  have offset : (loop.offset + step).toNat = loop.offset.toNat + count := by
    rw [toNat_add_of_lt (by split_ifs at fits <;> omega), same]
  have inPos : (loop.inPos + step).toNat = loop.inPos.toNat + count := by
    rw [toNat_add_of_lt (by omega), same]
  refine ⟨le, size, offset, inPos, ?_, holds⟩
  show if os.blockDevice then (loop.offset + step).toNat + (loop.size - step).toNat < 2 ^ 64
    else (loop.offset + step).toNat < offLimit
  rw [size, offset]
  split_ifs at fits ⊢ <;> omega

end Copied

/-- What a loop that has moved still copies is in what it was to copy. -/
theorem rest_le {size count position target last : Nat} (le : count ≤ size)
    (here : position + count ≤ last) (onward : target ≤ last) :
    count + min (size - count) (target - (position + count)) ≤ min size (last - position) := by
  omega

/-- **One transfer** copies at least a byte, unless the input is at its end. -/
theorem copyStep_ensures {input : File} {stop : UInt64} {loop : CopyLoop}
    (holds : Holds os world contents) (before : loop.inPos.toNat < stop.toNat)
    (wanted : 0 < loop.size.toNat) (fits : Fits os loop)
    (safe : Safe fault os (loop.offset.toNat +
      min loop.size.toNat (min stop.toNat input.length - loop.inPos.toNat)))
    (readable : fault ∨ loop.inPos.toNat < offLimit) :
    Ensures fault (copyStep os input stop loop) world fun result next => match result with
      | none => Holds os next contents ∧ input.length ≤ loop.inPos.toNat
      | some result => ∃ count, 0 < count ∧ Copied os input contents loop count result next ∧
        loop.inPos.toNat + count ≤ min stop.toNat input.length := by
  have now_le : (minSize (minSize (stop - loop.inPos) 4096) loop.size).toNat ≤
      min (stop.toNat - loop.inPos.toNat) loop.size.toNat := by
    rw [toNat_minSize, toNat_minSize, toNat_sub_of_le before.le]
    omega
  have now_pos : 0 < (minSize (minSize (stop - loop.inPos) 4096) loop.size).toNat := by
    rw [toNat_minSize, toNat_minSize, toNat_sub_of_le before.le,
      show (4096 : UInt64).toNat = 4096 from rfl]
    omega
  rw [copyStep]
  generalize minSize (minSize (stop - loop.inPos) 4096) loop.size = now at *
  refine Sys.pread_ensures.bind fun data middle facts => ?_
  obtain ⟨kept, got⟩ := facts
  have holds := holds.frame kept
  rcases got with ⟨rfl, failed⟩ | ⟨got, rfl, small, more, inside⟩
  · simp only [Sys.throwErrno_ensures]
    rcases readable with allowed | readable
    · exact allowed
    · exact safe.allowed fun both => failed ⟨both.1, readable⟩
  simp only
  split
  next empty =>
    rw [ensures_pure]
    refine ⟨holds, not_lt.mp fun some => ?_⟩
    have := more now_pos some
    have none := congrArg List.length empty
    rw [File.length_slice, List.length_nil] at none
    omega
  next some =>
    have positive : 0 < got := by
      rcases Nat.eq_zero_or_pos got with rfl | positive
      · exact absurd rfl some
      · exact positive
    have le_size : got ≤ loop.size.toNat := by omega
    have to_stop : loop.inPos.toNat + got ≤ stop.toNat := by omega
    have to_end : loop.inPos.toNat + got ≤ input.length := by omega
    have to_copy : got ≤ min loop.size.toNat (min stop.toNat input.length - loop.inPos.toNat) :=
      le_min le_size (Nat.le_sub_of_add_le' (le_min to_stop to_end))
    refine Sys.pwrite_ensures.bind fun ret last facts => ?_
    obtain ⟨_, written⟩ := facts
    rw [File.length_slice, holds.contents] at written
    rw [File.length_slice]
    rcases written with ⟨rfl, _, _, failed⟩ | ⟨count, rfl, le, _, room, whole, file⟩
    · rw [if_pos (by omega), if_pos (by decide), Sys.throwErrno_ensures]
      refine safe.allowed fun both => failed ⟨both.1.willing, Sys.le_room both.1.2 ?_⟩
      exact (Nat.add_le_add_left to_copy _).trans_lt both.2
    · split
      next short =>
        rw [if_neg (by omega), ensures_throw]
        exact safe.allowed fun both => absurd (whole both.1.whole) (by omega)
      next full =>
        have same : count = got := by omega
        subst same
        rw [List.take_of_length_le (by rw [File.length_slice])] at file
        rw [ensures_pure]
        have := stop.toNat_lt
        have word : (UInt64.ofInt (count : Int)).toNat = count := toNat_ofInt_natCast (by omega)
        exact ⟨count, positive,
          .of_advance word le_size (fits.reached room) (by omega) (.of_file file),
          le_min to_stop to_end⟩

/-- **The input can be read up to `stop`**: the positions are representable, or there is nothing to
read. -/
def Reads (input : File) (loop : CopyLoop) (stop : Nat) : Prop :=
  loop.inPos.toNat + loop.size.toNat ≤ offLimit ∨
    (input.length < offLimit ∧ loop.inPos.toNat < offLimit) ∨ stop ≤ loop.inPos.toNat

/-- **The loop over an extent** goes to its end, to the end of the input, or stops when it has copied
enough; by induction on the fuel. -/
theorem copyLoop_ensures {input : File} {stop : UInt64} {fuel : Nat} {loop : CopyLoop}
    (holds : Holds os world contents) (enough : loop.size.toNat ≤ fuel) (fits : Fits os loop)
    (safe : Safe fault os (loop.offset.toNat +
      min loop.size.toNat (min stop.toNat input.length - loop.inPos.toNat)))
    (readable : fault ∨ Reads input loop stop.toNat) :
    Ensures fault (copyLoop os input stop fuel loop) world fun result next => ∃ count,
      Copied os input contents loop count result next ∧ loop.inPos.toNat + count =
        min (max loop.inPos.toNat (min stop.toNat input.length))
          (loop.inPos.toNat + loop.size.toNat) := by
  have stay : ¬ (loop.inPos.toNat < stop.toNat ∧ 0 < loop.size.toNat) →
      Ensures fault (pure loop : Sys CopyLoop) world fun result next => ∃ count,
        Copied os input contents loop count result next ∧ loop.inPos.toNat + count =
          min (max loop.inPos.toNat (min stop.toNat input.length))
            (loop.inPos.toNat + loop.size.toNat) :=
    fun finished => ⟨0, .refl holds fits, by omega⟩
  induction fuel generalizing world contents loop with
  | zero => exact stay (by omega)
  | succ fuel ih =>
    rw [copyLoop]
    split
    next going =>
      obtain ⟨before, wanted⟩ := going
      rw [UInt64.lt_iff_toNat_lt] at before
      have wanted : 0 < loop.size.toNat := UInt64.lt_iff_toNat_lt.mp wanted
      have addressed : fault ∨ loop.inPos.toNat < offLimit :=
        readable.imp_right fun reads => by unfold Reads at reads; omega
      refine (copyStep_ensures holds before wanted fits safe addressed).bind
        fun result next post => ?_
      cases result with
      | none =>
        obtain ⟨holds, past⟩ := post
        exact ⟨0, .refl holds fits, by omega⟩
      | some result =>
        obtain ⟨count, positive, copied, inside⟩ := post
        have size := copied.size
        have offset := copied.offset
        have inPos := copied.inPos
        have le := copied.le
        have reads : fault ∨ Reads input result stop.toNat :=
          readable.imp_right fun reads => by unfold Reads at reads ⊢; omega
        have rest : result.offset.toNat +
            min result.size.toNat (min stop.toNat input.length - result.inPos.toNat) ≤
            loop.offset.toNat +
              min loop.size.toNat (min stop.toNat input.length - loop.inPos.toNat) := by
          rw [offset, size, inPos, Nat.add_assoc]
          exact Nat.add_le_add_left (rest_le le inside le_rfl) _
        refine (ih copied.holds (by omega) copied.fits (safe.mono rest) reads ?_).mono ?_
        · exact fun finished => ⟨0, .refl copied.holds copied.fits, by omega⟩
        · rintro final last ⟨more, rest, reached⟩
          exact ⟨count + more, copied.trans rest, by omega⟩
    next finished =>
      rw [UInt64.lt_iff_toNat_lt, gt_iff_lt, UInt64.lt_iff_toNat_lt] at finished
      exact stay finished

/-- The end of a gap is a word, or no fast path computes it. -/
def ShortGap (sparse : Bool) (loop : CopyLoop) (start : Nat) : Prop :=
  loop.offset.toNat + loop.size.toNat < 2 ^ 64 ∨ start < offLimit ∨ sparse = false

/-- A gap that is written ends below the largest offset. -/
theorem writeBytes_reaches {byte : UInt8} {sparse : Bool} {len : UInt64} {loop : CopyLoop}
    (fits : Fits os loop) (same : world.contents = contents)
    (word : loop.offset.toNat + len.toNat < 2 ^ 64) :
    Ensures True (writeBytes os len loop.offset byte sparse) world fun _ _ =>
      if os.blockDevice then loop.offset.toNat + loop.size.toNat < 2 ^ 64
      else loop.offset.toNat + len.toNat < offLimit := by
  rw [Fits] at fits
  by_cases none : len = 0
  · rw [writeBytes, if_pos none, ensures_pure, eq_zero_iff.mp none]
    exact fits
  · refine (writeBytes_inside same none).mono fun _ _ inside => ?_
    split_ifs at fits ⊢
    · exact fits
    · rcases inside with below | ⟨_, _, _, _, _, wraps⟩
      · exact below
      · omega

/-- **A gap** is written as zeros, which is what the input holds there. -/
theorem skipGap_ensures {input : File} {sparse : Bool} {start : UInt64} {loop : CopyLoop}
    (holds : Holds os world contents) (fits : Fits os loop) (short : ShortGap sparse loop start.toNat)
    (zero : ∀ i, loop.inPos.toNat ≤ i → i < start.toNat →
      i < loop.inPos.toNat + loop.size.toNat → input.byte i = 0)
    (safe : Safe fault os (max contents.length
      (loop.offset.toNat + min loop.size.toNat (start.toNat - loop.inPos.toNat)))) :
    Ensures fault (skipGap os sparse start loop) world fun result next => ∃ count,
      Copied os input contents loop count result next ∧ loop.inPos.toNat + count =
        min (max loop.inPos.toNat start.toNat) (loop.inPos.toNat + loop.size.toNat) := by
  have limit : offLimit = 2 ^ 63 := rfl
  unfold skipGap
  split
  next gap =>
    rw [UInt64.lt_iff_toNat_lt] at gap
    have len_eq : (minSize (start - loop.inPos) loop.size).toNat =
        min (start.toNat - loop.inPos.toNat) loop.size.toNat := by
      rw [toNat_minSize, toNat_sub_of_le gap.le]
    simp only
    generalize minSize (start - loop.inPos) loop.size = len at *
    by_cases word : loop.offset.toNat + len.toNat < 2 ^ 64
    case neg =>
      have := len.toNat_lt
      have some : len ≠ 0 := fun none => by
        have := loop.offset.toNat_lt
        rw [eq_zero_iff.mp none] at word
        omega
      have solid : sparse = false := by
        rw [Fits] at fits
        rcases short with short | short | solid
        · omega
        · split_ifs at fits <;> omega
        · exact solid
      have allowed : fault := safe.allowed fun both => by
        have := both.2
        omega
      refine Ensures.imp (fun _ => allowed) ((writeBytes_inside holds.contents some).bind ?_)
      rintro _ next (below | ⟨_, _, holes, _⟩)
      · omega
      · rw [solid] at holes
        cases holes
    refine ((writeBytes_ensures holds word (safe.mono (by omega))).and
      (writeBytes_reaches fits holds.contents word)).bind fun _ next ⟨holds, reached⟩ => ?_
    have zeros : List.replicate len.toNat (0 : UInt8) =
        input.slice loop.inPos.toNat len.toNat := by
      refine (File.slice_eq_replicate fun i above below => ?_).symm
      exact zero i above (by omega) (by omega)
    rw [zeros] at holds
    rw [ensures_pure]
    have := start.toNat_lt
    exact ⟨len.toNat, .of_advance rfl (by omega) reached (by omega) holds, by omega⟩
  next behind =>
    rw [UInt64.lt_iff_toNat_lt] at behind
    exact ⟨0, .refl holds fits, by omega⟩

theorem copyExtent_ensures {input : File} {sparse : Bool} {loop : CopyLoop} {extent : Extent}
    (holds : Holds os world contents) (fits : Fits os loop)
    (short : ShortGap sparse loop extent.start.toNat)
    (zero : ∀ i, loop.inPos.toNat ≤ i → i < extent.start.toNat →
      i < loop.inPos.toNat + loop.size.toNat → input.byte i = 0)
    (safe : Safe fault os (max contents.length (loop.offset.toNat +
      min loop.size.toNat (passExtent input.length loop.inPos.toNat extent - loop.inPos.toNat))))
    (readable : fault ∨ (Reads input loop extent.stop.toNat ∧
      (loop.inPos.toNat + loop.size.toNat ≤ offLimit ∨ extent.stop.toNat ≤ loop.inPos.toNat ∨
        extent.start.toNat < offLimit))) :
    Ensures fault (copyExtent os input sparse loop extent) world fun result next => ∃ count,
      Copied os input contents loop count result next ∧ loop.inPos.toNat + count =
        min (passExtent input.length loop.inPos.toNat extent)
          (loop.inPos.toNat + loop.size.toNat) := by
  have start_le : extent.start.toNat ≤ passExtent input.length loop.inPos.toNat extent :=
    (le_max_right _ _).trans (le_max_left _ _)
  have here_le : loop.inPos.toNat ≤ passExtent input.length loop.inPos.toNat extent :=
    (le_max_left _ _).trans (le_max_left _ _)
  have stop_le : min extent.stop.toNat input.length ≤
      passExtent input.length loop.inPos.toNat extent := le_max_right _ _
  unfold copyExtent
  split
  next empty =>
    have := eq_zero_iff.mp empty
    exact ⟨0, .refl holds fits, by omega⟩
  next =>
    have gap_le : max contents.length
        (loop.offset.toNat + min loop.size.toNat (extent.start.toNat - loop.inPos.toNat)) ≤
        max contents.length (loop.offset.toNat + min loop.size.toNat
          (passExtent input.length loop.inPos.toNat extent - loop.inPos.toNat)) :=
      max_le_max le_rfl (Nat.add_le_add_left
        (min_le_min le_rfl (Nat.sub_le_sub_right start_le _)) _)
    refine (skipGap_ensures holds fits short zero (safe.mono gap_le)).bind
      fun middle next ⟨count, gap, reached⟩ => ?_
    have size := gap.size
    have offset := gap.offset
    have inPos := gap.inPos
    have le := gap.le
    have reads : fault ∨ Reads input middle extent.stop.toNat := by
      refine readable.imp_right fun ⟨reads, begins⟩ => ?_
      unfold Reads at reads ⊢
      omega
    have rest : middle.offset.toNat + min middle.size.toNat
          (min extent.stop.toNat input.length - middle.inPos.toNat) ≤
        max contents.length (loop.offset.toNat + min loop.size.toNat
          (passExtent input.length loop.inPos.toNat extent - loop.inPos.toNat)) := by
      rw [offset, size, inPos, Nat.add_assoc]
      exact le_max_of_le_right (Nat.add_le_add_left (rest_le le (by omega) stop_le) _)
    refine (copyLoop_ensures gap.holds le_rfl gap.fits (safe.mono rest) reads).mono ?_
    rintro result last ⟨more, copied, reached'⟩
    refine ⟨count + more, gap.trans copied, ?_⟩
    unfold passExtent
    omega

/-- The number of bytes that are copied from the child. -/
def copyCount (input : File) (extents : List Extent) (size imageoffset : Nat) : Nat :=
  min size (copiedUpTo input.length extents imageoffset - imageoffset)

/-- **What the loops need** to copy the part of the input that they want. -/
structure CanCopy (fault : Prop) (os : Os) (contents input : File) (extents : List Extent)
    (sparse : Bool) (loop : CopyLoop) : Prop where
  fits : Fits os loop
  covering : Covering input (loop.inPos.toNat + loop.size.toNat) extents
  short : ∀ extent ∈ extents, ShortGap sparse loop extent.start.toNat
  safe : Safe fault os (max contents.length
    (loop.offset.toNat + copyCount input extents loop.size.toNat loop.inPos.toNat))
  readable : fault ∨ loop.inPos.toNat + loop.size.toNat ≤ offLimit ∨
    (∀ extent ∈ extents, extent.stop.toNat ≤ loop.inPos.toNat) ∨
    (input.length < offLimit ∧ loop.inPos.toNat < offLimit ∧
      ∀ extent ∈ extents, extent.start.toNat < offLimit)

/-- **The loop over the extents**, whose invariant is that the input is copied up to
`copiedUpTo`. -/
theorem copyExtents_ensures {input : File} {sparse : Bool} (loop : CopyLoop)
    {extents : List Extent} (holds : Holds os world contents)
    (can : CanCopy fault os contents input extents sparse loop) :
    Ensures fault (extents.foldlM (copyExtent os input sparse) loop) world fun result next =>
      Copied os input contents loop (copyCount input extents loop.size.toNat loop.inPos.toNat)
        result next := by
  have start := le_copiedUpTo input.length extents loop.inPos.toNat
  refine (Ensures.foldlM (fun done result next => ∃ count,
      Copied os input contents loop count result next ∧ loop.inPos.toNat + count =
        min (copiedUpTo input.length done loop.inPos.toNat)
          (loop.inPos.toNat + loop.size.toNat)) ?_ ?_).mono ?_
  · exact ⟨0, .refl holds can.fits, (min_eq_left (Nat.le_add_right _ _)).symm⟩
  · rintro done extent rest state middle split ⟨count, copied, reached⟩
    have member : extent ∈ extents := by simp [split]
    have size := copied.size
    have offset := copied.offset
    have inPos := copied.inPos
    have le := copied.le
    have length : (contents.pwrite loop.offset.toNat
        (input.slice loop.inPos.toNat count)).length ≤
        max contents.length (loop.offset.toNat + count) := by
      refine (File.length_pwrite_le_max _ _ _).trans ?_
      rw [File.length_slice]
    have pass : copiedUpTo input.length (done ++ [extent]) loop.inPos.toNat =
        passExtent input.length (copiedUpTo input.length done loop.inPos.toNat) extent :=
      copiedUpTo_append input.length done [extent] loop.inPos.toNat
    have grown := le_copiedUpTo input.length [extent]
      (copiedUpTo input.length done loop.inPos.toNat)
    rw [← copiedUpTo_append] at grown
    have onward : copiedUpTo input.length (done ++ [extent]) loop.inPos.toNat ≤
        copiedUpTo input.length extents loop.inPos.toNat := by
      rw [split, List.append_cons done extent rest, copiedUpTo_append _ _ rest]
      exact le_copiedUpTo input.length rest _
    refine (copyExtent_ensures copied.holds copied.fits ?_ ?_ (can.safe.mono ?_) ?_).mono ?_
    · exact (can.short extent member).imp_left fun short => by omega
    · intro i above before below
      have covering := can.covering
      rw [split] at covering
      exact covering.zero_between loop.inPos.toNat (by omega) before (by omega)
    · refine max_le (length.trans (max_le_max le_rfl ?_)) (le_max_of_le_right ?_)
      · exact Nat.add_le_add_left (le_min le (by omega)) _
      · rw [offset, size, inPos, Nat.add_assoc]
        rcases Nat.eq_zero_or_pos (loop.size.toNat - count) with full | some
        · rw [full, Nat.zero_min, Nat.add_zero]
          exact Nat.add_le_add_left (le_min le (by omega)) _
        · have here : loop.inPos.toNat + count = copiedUpTo input.length done loop.inPos.toNat := by
            omega
          rw [here, ← pass, ← here]
          exact Nat.add_le_add_left (rest_le le (by omega) onward) _
    · refine can.readable.imp_right ?_
      rintro (inside | finished | ⟨short, first, begins⟩)
      · exact ⟨Or.inl (by omega), Or.inl (by omega)⟩
      · have := finished extent member
        exact ⟨Or.inr (Or.inr (by omega)), Or.inr (Or.inl (by omega))⟩
      · have below : copiedUpTo input.length done loop.inPos.toNat ≤ offLimit - 1 := by
          refine copiedUpTo_le_iff.mpr ⟨by omega, fun other early => ?_⟩
          have := begins other (by simp [split, early])
          omega
        exact ⟨Or.inr (Or.inl ⟨short, by omega⟩), Or.inr (Or.inr (begins extent member))⟩
    · rintro result last ⟨more, copied', reached'⟩
      refine ⟨count + more, copied.trans copied', ?_⟩
      have stays := le_copiedUpTo input.length [extent] state.inPos.toNat
      rw [show copiedUpTo input.length [extent] state.inPos.toNat =
        passExtent input.length state.inPos.toNat extent from rfl] at stays
      rcases Nat.eq_zero_or_pos (loop.size.toNat - count) with full | some
      · omega
      · have here : copiedUpTo input.length done loop.inPos.toNat = state.inPos.toNat := by omega
        rw [pass, here]
        omega
  · rintro result last ⟨count, copied, reached⟩
    have count_eq : count = copyCount input extents loop.size.toNat loop.inPos.toNat := by
      have := copied.le
      unfold copyCount
      omega
    rwa [← count_eq]

/-- **What `map_file_extents` promises about the child's file.** -/
def ChildOutput.Mapped (sub : ChildOutput) : Prop :=
  ∀ input, sub.contents = some input → ∀ size extents, sub.mapped size = .ok extents →
    ExtentMap input size.toNat extents

/-- A child on a file system without extent maps: `whole_file_exent`. -/
def ChildOutput.wholeFile (bytes : List UInt8) : ChildOutput where
  size := 0
  contents := some (File.ofList bytes)
  mapped size := .ok [⟨0, size⟩]

theorem ChildOutput.wholeFile_mapped (bytes : List UInt8) : (wholeFile bytes).Mapped := by
  intro input _ size extents mapped
  rw [← Except.ok.inj mapped]
  refine ⟨List.pairwise_singleton _ _, ?_, ?_, ?_⟩
  · simp
  · simp
  · exact fun i below _ => ⟨_, List.mem_singleton_self _, Nat.zero_le _, below⟩

/-- The child's file is there, and its extents can be read. -/
def ChildOutput.Readable (sub : ChildOutput) : Prop :=
  sub.contents.isSome ∧ ∀ size, ∃ extents, sub.mapped size = .ok extents

/-- **The bytes of a partition**: a part of the child, then the fill byte. -/
def imageBytes (input : File) (extents : List Extent) (size imageoffset : Nat) (byte : UInt8) :
    List UInt8 :=
  input.slice imageoffset (copyCount input extents size imageoffset) ++
    List.replicate (size - copyCount input extents size imageoffset) byte

@[simp]
theorem length_imageBytes (input : File) (extents : List Extent) (size imageoffset : Nat)
    (byte : UInt8) : (imageBytes input extents size imageoffset byte).length = size := by
  rw [imageBytes, List.length_append, File.length_slice, List.length_replicate]
  exact Nat.add_sub_cancel' (min_le_left _ _)

theorem imageBytes_getD {input : File} {extents : List Extent} {size imageoffset i : Nat}
    {byte : UInt8} (inside : i < size) :
    (imageBytes input extents size imageoffset byte).getD i 0 =
      if i < copyCount input extents size imageoffset then input.byte (imageoffset + i) else byte := by
  unfold imageBytes
  split_ifs with copied
  · rw [List.getD_append _ _ _ _ (by rwa [File.length_slice]), File.slice_getD _ _ copied]
  · have length := input.length_slice imageoffset (copyCount input extents size imageoffset)
    rw [List.getD_append_right _ _ _ _ (by rw [length]; exact not_lt.mp copied), length]
    exact List.getD_replicate _ (by omega)

/-- Filled with zeros, a partition holds the child's bytes. -/
theorem imageBytes_zero {input : File} {extents : List Extent} {size imageoffset limit : Nat}
    (map : ExtentMap input limit extents) (wanted : imageoffset + size ≤ limit) :
    imageBytes input extents size imageoffset 0 = input.slice imageoffset size := by
  have reached := le_copiedUpTo input.length extents imageoffset
  have rest : List.replicate (size - copyCount input extents size imageoffset) (0 : UInt8) =
      input.slice (imageoffset + copyCount input extents size imageoffset)
        (size - copyCount input extents size imageoffset) := by
    refine (File.slice_eq_replicate fun i above below => ?_).symm
    unfold copyCount at above below
    exact map.zero_behind imageoffset (by omega) (by omega)
  have whole : copyCount input extents size imageoffset +
      (size - copyCount input extents size imageoffset) = size :=
    Nat.add_sub_cancel' (min_le_left _ _)
  rw [imageBytes, rest, File.slice_append, whole]

/-! ### `insert_image` -/

/-- **The parts of `insert_image`**: the seek, the copy and the fill. -/
theorem insertImage_rule {sub : Option ChildOutput} {size offset imageoffset : UInt64} {byte : UInt8}
    {sparse : Bool} {post : Unit → World → Prop} (same : world.contents = contents)
    (safe : Safe fault os offset.toNat)
    (rest : ∀ middle, Holds os middle contents → offset.toNat < offLimit →
      Ensures fault (copySub os sub sparse ⟨size, offset, imageoffset⟩) middle fun loop next =>
        Ensures fault (writeBytes os loop.size loop.offset byte sparse) next post) :
    Ensures fault (insertImage os sub size offset imageoffset byte sparse) world post := by
  refine (openFile_ensures same safe.reliable).bind fun _ opened holds => ?_
  refine Sys.lseekSet_ensures.bind fun ret middle ⟨kept, moved⟩ => ?_
  rcases moved with ⟨rfl, failed⟩ | ⟨rfl, _, inside⟩
  · rw [if_pos (by decide), Sys.throwErrno_ensures]
    exact safe.allowed failed
  · rw [if_neg (by omega), ensures_bind]
    exact rest middle (holds.frame kept) inside

/-- **The child is copied** as far as its extents and the wanted size go. -/
theorem copySub_ensures {sub : ChildOutput} {sparse : Bool} {loop : CopyLoop}
    (holds : Holds os world contents) (readable : fault ∨ (os.Reliable ∧ sub.contents.isSome ∧
      ∃ extents, sub.mapped (loop.size + loop.inPos) = .ok extents))
    (can : ∀ input extents, sub.contents = some input →
      sub.mapped (loop.size + loop.inPos) = .ok extents →
      CanCopy fault os contents input extents sparse loop) :
    Ensures fault (copySub os (some sub) sparse loop) world fun result next =>
      ∃ input extents, sub.contents = some input ∧
        sub.mapped (loop.size + loop.inPos) = .ok extents ∧
        Copied os input contents loop
          (copyCount input extents loop.size.toNat loop.inPos.toNat) result next := by
  rw [copySub, copyImage]
  refine Sys.openIn_ensures.bind fun input next ⟨kept, opened⟩ => ?_
  have holds := holds.frame kept
  rcases opened with ⟨rfl, failed⟩ | ⟨found, present⟩
  · simp only [Sys.throwErrno_ensures]
    exact readable.resolve_right fun both => failed ⟨both.1, both.2.1⟩
  obtain ⟨input, given⟩ := Option.isSome_iff_exists.mp present
  rw [given] at found
  subst found
  simp only
  cases mapped : sub.mapped (loop.size + loop.inPos) with
  | error ret =>
    simp only [ensures_throw]
    rcases readable with allowed | ⟨_, _, extents, answer⟩
    · exact allowed
    · rw [mapped] at answer
      cases answer
  | ok extents =>
    refine (copyExtents_ensures loop holds (can input extents given mapped)).mono ?_
    exact fun result last copied => ⟨input, extents, given, rfl, copied⟩

/-- **The fill behind the copy** completes the bytes of the partition. -/
theorem Copied.fill_ensures {input : File} {extents : List Extent} {loop result : CopyLoop}
    {byte : UInt8} {sparse : Bool}
    (copied : Copied os input contents loop
      (copyCount input extents loop.size.toNat loop.inPos.toNat) result world)
    (word : loop.offset.toNat + loop.size.toNat < 2 ^ 64)
    (safe : Safe fault os (max contents.length (loop.offset.toNat + loop.size.toNat))) :
    Ensures fault (writeBytes os result.size result.offset byte sparse) world fun _ next =>
      Holds os next (contents.pwrite loop.offset.toNat
        (imageBytes input extents loop.size.toNat loop.inPos.toNat byte)) := by
  have size_eq := copied.size
  have offset_eq := copied.offset
  have le := copied.le
  have length : (contents.pwrite loop.offset.toNat (input.slice loop.inPos.toNat
      (copyCount input extents loop.size.toNat loop.inPos.toNat))).length ≤
      max contents.length (loop.offset.toNat + loop.size.toNat) := by
    refine (File.length_pwrite_le_max _ _ _).trans ?_
    rw [File.length_slice]
    omega
  refine (writeBytes_ensures copied.holds (by omega) (safe.mono (by omega))).mono ?_
  intro _ final holds
  have joined := contents.pwrite_pwrite loop.offset.toNat
    (input.slice loop.inPos.toNat
      (copyCount input extents loop.size.toNat loop.inPos.toNat))
    (List.replicate (loop.size.toNat -
      copyCount input extents loop.size.toNat loop.inPos.toNat) byte)
  rw [File.length_slice] at joined
  rwa [size_eq, offset_eq, joined] at holds

/-- **`insert_image` without a child** fills `size` bytes. -/
theorem insertImage_none_ensures {size offset imageoffset : UInt64} {byte : UInt8} {sparse : Bool}
    (same : world.contents = contents) (fits : offset.toNat + size.toNat < 2 ^ 64)
    (safe : Safe fault os (max contents.length (offset.toNat + size.toNat))) :
    Ensures fault (insertImage os none size offset imageoffset byte sparse) world fun _ next =>
      Holds os next (contents.pwrite offset.toNat (List.replicate size.toNat byte)) := by
  refine insertImage_rule same (safe.mono (by omega)) fun middle holds _ => ?_
  rw [copySub, ensures_pure]
  exact writeBytes_ensures holds fits safe

/-- **`insert_image`** leaves `imageBytes`. -/
theorem insertImage_ensures {sub : ChildOutput} {size offset imageoffset : UInt64} {byte : UInt8}
    {sparse : Bool} (same : world.contents = contents)
    (fits : offset.toNat + size.toNat < 2 ^ 64) (fits' : imageoffset.toNat + size.toNat < 2 ^ 64)
    (promise : sub.Mapped)
    (safe : Safe fault os (max contents.length (offset.toNat + size.toNat)))
    (readable : fault ∨ (sub.Readable ∧ imageoffset.toNat + size.toNat ≤ offLimit)) :
    Ensures fault (insertImage os (some sub) size offset imageoffset byte sparse) world
      fun _ next => ∃ input extents, sub.contents = some input ∧
        sub.mapped (size + imageoffset) = .ok extents ∧ Holds os next (contents.pwrite offset.toNat
          (imageBytes input extents size.toNat imageoffset.toNat byte)) := by
  have limit : (size + imageoffset).toNat = imageoffset.toNat + size.toNat := by
    rw [toNat_add_of_lt (by omega), Nat.add_comm]
  refine insertImage_rule same (safe.mono (by omega)) fun middle holds addressed => ?_
  refine (copySub_ensures holds ?_ fun input extents given mapped => ?_).mono ?_
  · rcases safe with allowed | safe
    · exact Or.inl allowed
    · exact readable.imp_right fun readable => ⟨safe.1, readable.1.1, readable.1.2 _⟩
  · have map := promise input given _ _ mapped
    rw [limit] at map
    have copied : copyCount input extents size.toNat imageoffset.toNat ≤ size.toNat :=
      min_le_left _ _
    exact {
      fits := by rw [Fits]; split_ifs <;> assumption
      covering := map.covering le_rfl
      short := fun _ _ => Or.inl fits
      safe := safe.mono (max_le_max le_rfl (Nat.add_le_add_left copied _))
      readable := readable.imp_right fun readable => Or.inl readable.2 }
  · rintro result last ⟨input, extents, given, mapped, copied⟩
    exact (copied.fill_ensures fits safe).mono fun _ next holds =>
      ⟨input, extents, given, mapped, holds⟩

/-! ### Beyond the largest offset -/

/-- **Where the fill returns, the range has stayed below the largest offset**, unless its end wraps and
nothing has been copied. -/
theorem Copied.fill_inside {input : File} {loop result : CopyLoop} {count : Nat} {byte : UInt8}
    {sparse : Bool} (regular : os.blockDevice = false)
    (copied : Copied os input contents loop count result world) :
    Ensures True (writeBytes os result.size result.offset byte sparse) world fun _ _ =>
      loop.offset.toNat + loop.size.toNat < offLimit ∨
        (byte = 0 ∧ sparse = true ∧ count = 0 ∧ EndWraps contents loop.size loop.offset) := by
  have limit : offLimit = 2 ^ 63 := rfl
  have size := copied.size
  have offset := copied.offset
  have le := copied.le
  have fits := copied.fits
  rw [Fits, if_neg (by rw [regular]; decide)] at fits
  by_cases none : result.size = 0
  · have := eq_zero_iff.mp none
    rw [writeBytes, if_pos none, ensures_pure]
    exact Or.inl (by omega)
  · refine (writeBytes_inside copied.holds.contents none).mono ?_
    rintro _ _ (below | ⟨_, zero, holes, behind, addressed, beyond⟩)
    · exact Or.inl (by omega)
    · have nothing : count = 0 := by
        by_contra some
        have data : input.slice loop.inPos.toNat count ≠ [] :=
          List.ne_nil_of_length_pos (by rw [File.length_slice]; omega)
        have length : (contents.pwrite loop.offset.toNat _).length = _ := File.length_pwrite data
        rw [File.length_slice] at length
        have := result.size.toNat_lt
        omega
      subst nothing
      rw [show input.slice loop.inPos.toNat 0 = [] from rfl, File.pwrite_nil] at behind beyond
      exact Or.inr ⟨zero, holes, rfl, by omega, by omega, by omega⟩

/-- Where the end wraps and nothing has been copied, the file is made longer and nothing is written. -/
theorem Copied.fill_wrapped {input : File} {loop result : CopyLoop} {count : Nat}
    (regular : os.blockDevice = false) (willing : os.Willing)
    (copied : Copied os input contents loop count result world) (nothing : count = 0)
    (wraps : EndWraps contents loop.size loop.offset) :
    Ensures False (writeBytes os result.size result.offset 0 true) world fun _ next =>
      next.file = some (contents.truncate (loop.offset + loop.size).toNat) := by
  subst nothing
  have size : result.size = loop.size := UInt64.toNat_inj.mp copied.size
  have offset : result.offset = loop.offset := UInt64.toNat_inj.mp copied.offset
  have holds := copied.holds
  rw [show input.slice loop.inPos.toNat 0 = [] from rfl, File.pwrite_nil] at holds
  obtain ⟨file, there⟩ := Option.isSome_iff_exists.mp (holds.present regular)
  have file_eq : file = contents := by
    rw [← holds.contents, World.contents, there, Option.getD_some]
  rw [size, offset]
  exact writeBytes_wrapped regular willing (by rw [there, file_eq]) wraps

/-- **A successful `insert_image` without holes stays below the largest offset.** -/
theorem insertImage_inside (regular : os.blockDevice = false) {sub : Option ChildOutput}
    {size offset : UInt64} {byte : UInt8} (promise : ∀ child, sub = some child → child.Mapped) :
    Ensures True (insertImage os sub size offset 0 byte false) world fun _ _ =>
      offset.toNat + size.toNat < offLimit := by
  refine insertImage_rule rfl (Or.inl trivial) fun middle holds addressed => ?_
  have fits : Fits os ⟨size, offset, 0⟩ := by
    rwa [Fits, if_neg (by rw [regular]; decide)]
  have filled {input : File} {count : Nat} {result : CopyLoop} {next : World}
      (copied : Copied os input world.contents ⟨size, offset, 0⟩ count result next) :
      Ensures True (writeBytes os result.size result.offset byte false) next fun _ _ =>
        offset.toNat + size.toNat < offLimit := by
    refine (copied.fill_inside regular).mono ?_
    rintro _ _ (below | ⟨_, holes, _⟩)
    · exact below
    · cases holes
  cases sub with
  | none =>
    have copied : Copied os .empty world.contents ⟨size, offset, 0⟩ 0 ⟨size, offset, 0⟩ middle :=
      .refl holds fits
    exact filled copied
  | some sub =>
    refine (copySub_ensures holds (Or.inl trivial) fun input extents given mapped => ?_).mono ?_
    · have map := promise sub rfl input given _ _ mapped
      exact {
        fits := fits
        covering := map.covering (by
          show (0 : UInt64).toNat + size.toNat ≤ (size + 0).toNat
          rw [UInt64.add_zero, UInt64.toNat_zero, Nat.zero_add])
        short := fun _ _ => Or.inr (Or.inr rfl)
        safe := Or.inl trivial
        readable := Or.inl trivial }
    · rintro result last ⟨_, _, _, _, copied⟩
      exact filled copied

end Specs

end Genimage
