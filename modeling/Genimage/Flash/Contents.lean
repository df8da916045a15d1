/-
**What a flash image holds.**

`flashGenerate` writes the output from its beginning to its end, so the file behind the loop is known
byte by byte: `FlashInv` says which bytes lie where, and `flashGenerate_ensures` that it holds at the
end. `FlashContents` is what is asked of the file, `FlashFits` the condition on the image and the
files of its children under which the file has it.

The code does not compare the length of a child's file with its partition, nor a given image size with
the partitions, and it fills a partition from the end of the last extent on, which is not the end of
the file when the file ends in a hole.
-/

import Genimage.Flash.Setup
import Genimage.Util.CopySpecs

namespace Genimage

open Library
open Library.Effect

variable {imageGet : String → Option FlashChild}

/-! ### The property and the condition -/

/-- The file of the child of a partition. -/
def childFile (imageGet : String → Option FlashChild) (part : Partition) : Option File :=
  (part.image.bind imageGet).bind (·.output.contents)

/-- **The output is as it should be**: it has the size of the image, every child lies complete in its
partition, and all other bytes are erased ones. -/
structure FlashContents (imageGet : String → Option FlashChild) (image : FlashImage) (out : File) :
    Prop where
  length : out.length = image.size.toNat
  complete : ∀ part ∈ image.partitions, ∀ child, childFile imageGet part = some child →
    child.length ≤ part.size.toNat ∧
      ∀ i < child.length, out.byte (part.offset.toNat + i) = child.byte i
  erased : ∀ j < image.size.toNat, (∀ part ∈ image.partitions, ∀ child,
      childFile imageGet part = some child → ¬ (part.offset.toNat ≤ j ∧
        j < part.offset.toNat + child.length)) → out.byte j = erased

/-- **Everything fits**: there is something to write, the partitions end inside the image, a child is
not longer than its partition, and its extents reach up to its end and not past it. -/
structure FlashFits (imageGet : String → Option FlashChild) (image : FlashImage) : Prop where
  present : image.partitions ≠ [] ∨ image.size ≠ 0
  inside : ∀ part ∈ image.partitions, part.span.stop ≤ image.size.toNat
  short : ∀ part ∈ image.partitions, ∀ child, childFile imageGet part = some child →
    child.length ≤ part.size.toNat
  tight : ∀ part ∈ image.partitions, ∀ child, part.image.bind imageGet = some child →
    ∀ input extents, child.output.contents = some input →
      child.output.mapped part.size = .ok extents →
      (∀ extent ∈ extents, extent.start.toNat ≤ input.length) ∧
        (input.length = 0 ∨ ∃ extent ∈ extents, input.length ≤ extent.stop.toNat)

/-! ### The bytes of the output -/

/-- **The bytes that are written for a partition.** -/
inductive FlashBytes (imageGet : String → Option FlashChild) (part : Partition) : List UInt8 → Prop
  | blank (none : part.image.bind imageGet = none) :
    FlashBytes imageGet part (List.replicate part.size.toNat erased)
  | child (child : FlashChild) (input : File) (extents : List Extent)
      (found : part.image.bind imageGet = some child)
      (contents : child.output.contents = some input)
      (mapped : child.output.mapped part.size = .ok extents) :
    FlashBytes imageGet part (imageBytes input extents part.size.toNat 0 erased)

theorem FlashBytes.length {part : Partition} {bytes : List UInt8}
    (written : FlashBytes imageGet part bytes) : bytes.length = part.size.toNat := by
  cases written with
  | blank => exact List.length_replicate
  | child => exact length_imageBytes _ _ _ _ _

/-- **The output up to `stop`**: the partitions of `done`, in this order, and erased bytes. -/
structure FlashInv (imageGet : String → Option FlashChild) (size : Nat) (done : List Partition)
    (stop : Nat) (contents : File) : Prop where
  length : contents.length = max size stop
  below : ∀ part ∈ done, part.span.stop ≤ stop
  ordered : done.Pairwise fun part next => part.span.stop ≤ next.span.start
  bytes : ∀ part ∈ done, ∃ bytes, FlashBytes imageGet part bytes ∧
    ∀ i < part.size.toNat, contents.byte (part.offset.toNat + i) = bytes.getD i 0
  rest : ∀ j < stop, (∀ part ∈ done, ¬ (part.span.start ≤ j ∧ j < part.span.stop)) →
    contents.byte j = erased

namespace FlashInv

variable {size stop : Nat} {done : List Partition} {contents : File}

/-- Writing `data` at `stop` and nothing else. -/
theorem length_pwrite (inv : FlashInv imageGet size done stop contents) (data : List UInt8) :
    (contents.pwrite stop data).length = max size (stop + data.length) := by
  by_cases none : data = []
  · rw [none, File.pwrite_nil, inv.length, List.length_nil, Nat.add_zero]
  · rw [File.length_pwrite none, inv.length]
    omega

theorem byte_pwrite (data : List UInt8) {j : Nat} (before : j < stop) :
    (contents.pwrite stop data).byte j = contents.byte j :=
  File.pwrite_byte_of_not_mem (by omega)

/-- The partitions in front of `stop` stay as they are. -/
theorem bytes_pwrite (inv : FlashInv imageGet size done stop contents) (data : List UInt8) :
    ∀ part ∈ done, ∃ bytes, FlashBytes imageGet part bytes ∧ ∀ i < part.size.toNat,
      (contents.pwrite stop data).byte (part.offset.toNat + i) = bytes.getD i 0 := by
  intro part member
  obtain ⟨bytes, written, same⟩ := inv.bytes part member
  refine ⟨bytes, written, fun i inside => ?_⟩
  have below : part.offset.toNat + part.size.toNat ≤ stop := inv.below part member
  rw [byte_pwrite data (by omega)]
  exact same i inside

/-- **Padding.** -/
theorem pad (inv : FlashInv imageGet size done stop contents) (count : Nat) :
    FlashInv imageGet size done (stop + count)
      (contents.pwrite stop (List.replicate count erased)) where
  length := by rw [inv.length_pwrite, List.length_replicate]
  below part member := (inv.below part member).trans (Nat.le_add_right _ _)
  ordered := inv.ordered
  bytes := inv.bytes_pwrite _
  rest j inside outside := by
    by_cases before : j < stop
    · rw [byte_pwrite _ before]
      exact inv.rest j before outside
    · rw [File.pwrite_byte_of_mem (by rw [List.length_replicate]; omega)]
      exact List.getD_replicate _ (by omega)

/-- **A partition.** -/
theorem add (inv : FlashInv imageGet size done stop contents) {part : Partition}
    {bytes : List UInt8} (start : part.offset.toNat = stop)
    (written : FlashBytes imageGet part bytes) :
    FlashInv imageGet size (done ++ [part]) (stop + part.size.toNat)
      (contents.pwrite stop bytes) where
  length := by rw [inv.length_pwrite, written.length]
  below other member := by
    rcases List.mem_append.mp member with old | new
    · exact (inv.below other old).trans (Nat.le_add_right _ _)
    · rw [List.mem_singleton.mp new, ← start]
      exact le_rfl
  ordered := by
    refine List.pairwise_append.mpr ⟨inv.ordered, List.pairwise_singleton _ _, ?_⟩
    intro old member new same
    rw [List.mem_singleton.mp same]
    exact (inv.below old member).trans start.ge
  bytes := by
    intro other member
    rcases List.mem_append.mp member with old | new
    · exact inv.bytes_pwrite bytes other old
    · rw [List.mem_singleton.mp new]
      refine ⟨bytes, written, fun i inside => ?_⟩
      rw [start, File.pwrite_byte_of_mem (by rw [written.length]; omega), Nat.add_sub_cancel_left]
  rest j inside outside := by
    have before : j < stop := by
      by_contra behind
      refine outside part (by simp) ⟨?_, ?_⟩
      · exact start.le.trans (not_lt.mp behind)
      · rw [Partition.span, start]
        exact inside
    rw [byte_pwrite _ before]
    exact inv.rest j before fun other member => outside other (by simp [member])

end FlashInv

/-! ### `flash_generate` -/

section Generate

variable {os : Os} {world : World} {contents : File}

theorem padTo_ensures (regular : os.blockDevice = false) {stop target : UInt64}
    (same : world.contents = contents) :
    Ensures True (padTo os stop target) world fun _ next =>
      next.contents = contents.pwrite stop.toNat
          (List.replicate (target.toNat - stop.toNat) erased) ∧
        (world.file.isSome → next.file.isSome) ∧ (target ≤ stop → next = world) := by
  unfold padTo
  split
  next room =>
    have le : stop.toNat ≤ target.toNat := (UInt64.lt_iff_toNat_lt.mp room).le
    have size := toNat_sub_of_le le
    have target_lt := target.toNat_lt
    refine (insertImage_none_ensures same (by omega) (Or.inl trivial)).mono fun _ next holds => ?_
    rw [size] at holds
    exact ⟨holds.contents, fun _ => holds.present regular,
      fun reached => absurd room (UInt64.not_lt.mpr reached)⟩
  next full =>
    have le := UInt64.le_iff_toNat_le.mp (UInt64.not_lt.mp full)
    rw [ensures_pure, Nat.sub_eq_zero_of_le le, List.replicate_zero, File.pwrite_nil]
    exact ⟨same, id, fun _ => rfl⟩

/-- `insert_image` for a partition: where it returns, the partition ends at a representable offset
and holds its bytes. -/
theorem insertFlash_ensures (regular : os.blockDevice = false)
    (promise : ∀ name child, imageGet name = some child → child.output.Mapped) {part : Partition}
    (same : world.contents = contents) :
    Ensures True (insertImage os ((part.image.bind imageGet).map (·.output)) part.size part.offset 0
        erased false) world fun _ next => part.Fits ∧ ∃ bytes, FlashBytes imageGet part bytes ∧
      Holds os next (contents.pwrite part.offset.toNat bytes) := by
  have limit : offLimit = 2 ^ 63 := rfl
  by_cases fits : part.Fits
  · cases found : part.image.bind imageGet with
    | none =>
      refine (insertImage_none_ensures same fits (Or.inl trivial)).mono fun _ next holds => ?_
      exact ⟨fits, _, .blank found, holds⟩
    | some child =>
      obtain ⟨name, _, known⟩ := Option.bind_eq_some_iff.mp found
      refine (insertImage_ensures same fits ?_ (promise name child known) (Or.inl trivial)
        (Or.inl trivial)).mono ?_
      · rw [UInt64.toNat_zero, Nat.zero_add]
        exact part.size.toNat_lt
      · rintro _ next ⟨input, extents, file, mapped, holds⟩
        rw [UInt64.add_zero] at mapped
        exact ⟨fits, _, .child child input extents found file mapped, holds⟩
  · refine (insertImage_inside regular fun output given => ?_).mono
      fun _ next inside => absurd ?_ fits
    · obtain ⟨child, found, rfl⟩ := Option.map_eq_some_iff.mp given
      obtain ⟨name, _, known⟩ := Option.bind_eq_some_iff.mp found
      exact promise name child known
    · exact inside.trans (by decide)

/-- **The state of the loop in `flash_generate`.** -/
structure FlashLoop (imageGet : String → Option FlashChild) (size : Nat) (done : List Partition)
    (stop : UInt64) (world : World) : Prop where
  inv : FlashInv imageGet size done stop.toNat world.contents
  reached : stop = 0 ∨ ∃ part ∈ done, part.span.stop = stop.toNat
  present : done ≠ [] ∨ size ≠ 0 → world.file.isSome
  missing : done = [] → size = 0 → world.file = none

/-- **One partition.** -/
theorem generateFlashPart_ensures (regular : os.blockDevice = false)
    (promise : ∀ name child, imageGet name = some child → child.output.Mapped) {size : Nat}
    {done : List Partition} {stop : UInt64} {part : Partition}
    (loop : FlashLoop imageGet size done stop world) (behind : stop ≤ part.offset) :
    Ensures True (generateFlashPart os imageGet stop part) world fun stop' next =>
      stop' = part.partitionEnd ∧ FlashLoop imageGet size (done ++ [part]) stop' next := by
  have le := UInt64.le_iff_toNat_le.mp behind
  refine (padTo_ensures regular rfl).bind fun _ padded ⟨gap, _⟩ => ?_
  refine (insertFlash_ensures regular promise gap).bind fun _ next ⟨fits, bytes, written, holds⟩ => ?_
  have stopEq := Partition.toNat_partitionEnd fits
  refine ⟨rfl, ?_, Or.inr ⟨part, by simp, stopEq.symm⟩, fun _ => holds.present regular, by simp⟩
  have inv := (loop.inv.pad (part.offset.toNat - stop.toNat)).add (by omega) written
  rw [Nat.add_sub_cancel' le] at inv
  rw [holds.contents, stopEq]
  exact inv

/-- **The loop over the partitions.** -/
theorem generateFlashParts_ensures (regular : os.blockDevice = false)
    (promise : ∀ name child, imageGet name = some child → child.output.Mapped) {size : Nat}
    {rest : List Partition} : ∀ {done : List Partition} {stop : UInt64} {world : World},
      FlashLoop imageGet size done stop world → FollowsEnd stop rest →
      Ensures True (rest.foldlM (generateFlashPart os imageGet) stop) world fun stop' next =>
        FlashLoop imageGet size (done ++ rest) stop' next := by
  induction rest with
  | nil =>
    intro done stop world loop _
    rw [List.foldlM_nil, ensures_pure, List.append_nil]
    exact loop
  | cons part rest ih =>
    intro done stop world loop ordered
    rw [List.foldlM_cons]
    refine (generateFlashPart_ensures regular promise loop ordered.1).bind
      fun stop' next ⟨same, loop⟩ => ?_
    rw [← List.singleton_append, ← List.append_assoc]
    exact ih loop (same ▸ ordered.2)

/-- **The file behind `flash_generate`.** -/
structure FlashDone (imageGet : String → Option FlashChild) (image : FlashImage) (stop : Nat)
    (final : World) : Prop where
  inv : FlashInv imageGet image.size.toNat image.partitions (max stop image.size.toNat)
    final.contents
  reached : stop = 0 ∨ ∃ part ∈ image.partitions, part.span.stop = stop
  present : image.partitions ≠ [] ∨ image.size ≠ 0 → final.file.isSome
  missing : image.partitions = [] → image.size = 0 → final.file = none

/-- **`flash_generate`**, whichever calls fail, where the old file is gone: all calls succeed, or the file
is made anew. -/
theorem flashGenerate_ensures (regular : os.blockDevice = false)
    (promise : ∀ name child, imageGet name = some child → child.output.Mapped) {image : FlashImage}
    (ordered : FollowsEnd 0 image.partitions) (gone : os.Reliable ∨ image.size ≠ 0) :
    Ensures True (flashGenerate os imageGet image) world fun _ final =>
      ∃ stop, FlashDone imageGet image stop final := by
  refine (prepareImage_ensures regular (Or.inl trivial)).bind fun _ fresh prepared => ?_
  have file := prepared gone
  have start : FlashLoop imageGet image.size.toNat [] 0 fresh := by
    refine ⟨⟨?_, by simp, .nil, by simp, by simp⟩, Or.inl rfl, ?_, ?_⟩
    · rw [World.contents, file]
      split_ifs with zero
      · simp [zero, File.empty]
      · simp
    · intro given
      rw [file, if_neg]
      · rfl
      · exact fun zero => by simp [zero] at given
    · intro _ zero
      rw [file, if_pos (eq_zero_iff.mpr zero)]
  refine (generateFlashParts_ensures regular promise start ordered).bind fun stop next loop => ?_
  rw [List.nil_append] at loop
  refine (padTo_ensures regular rfl).mono fun _ final facts => ⟨stop.toNat, ?_⟩
  obtain ⟨tail, kept, idle⟩ := facts
  have nonzero : image.size ≠ 0 ↔ image.size.toNat ≠ 0 := eq_zero_iff.not
  refine ⟨?_, loop.reached.imp_left eq_zero_iff.mp, ?_, ?_⟩
  · have inv := loop.inv.pad (image.size.toNat - stop.toNat)
    rw [tail, show max stop.toNat image.size.toNat =
      stop.toNat + (image.size.toNat - stop.toNat) by omega]
    exact inv
  · rw [nonzero]
    exact fun given => kept (loop.present given)
  · intro none zero
    rw [idle (by rw [zero]; exact UInt64.zero_le)]
    exact loop.missing none (eq_zero_iff.mp zero)

end Generate

/-! ### The equivalence -/

/-- **The extents reach the end of the file and no further.** -/
theorem copiedUpTo_eq_length_iff {input : File} {limit : Nat} {extents : List Extent}
    (map : ExtentMap input limit extents) :
    copiedUpTo input.length extents 0 = input.length ↔
      (∀ extent ∈ extents, extent.start.toNat ≤ input.length) ∧
        (input.length = 0 ∨ ∃ extent ∈ extents, input.length ≤ extent.stop.toNat) := by
  constructor
  · intro same
    have starts := (copiedUpTo_le_iff.mp same.le).2
    refine ⟨fun extent member => (starts extent member).1, ?_⟩
    by_contra short
    push Not at short
    obtain ⟨positive, short⟩ := short
    have : copiedUpTo input.length extents 0 ≤ input.length - 1 := by
      refine copiedUpTo_le_iff.mpr ⟨Nat.zero_le _, fun extent member => ?_⟩
      have := map.ordered extent member
      have := short extent member
      omega
    omega
  · rintro ⟨starts, reached⟩
    refine le_antisymm (copiedUpTo_le_iff.mpr ⟨Nat.zero_le _, fun extent member => ?_⟩) ?_
    · exact ⟨starts extent member, min_le_right _ _⟩
    · rcases reached with zero | ⟨extent, member, reached⟩
      · rw [zero]
        exact Nat.zero_le _
      · have := stop_le_copiedUpTo input.length 0 member
        rwa [min_eq_right reached] at this

/-- The extents of a child end inside its partition, so that much is copied. -/
theorem copyCount_eq {input : File} {size : Nat} {extents : List Extent}
    (map : ExtentMap input size extents) :
    copyCount input extents size 0 = copiedUpTo input.length extents 0 := by
  have : copiedUpTo input.length extents 0 ≤ size := by
    refine copiedUpTo_le_iff.mpr ⟨Nat.zero_le _, fun extent member => ?_⟩
    have := map.ordered extent member
    have := map.inside extent member
    omega
  unfold copyCount
  omega

namespace FlashDone

variable {image : FlashImage} {stop : Nat} {final : World}

/-- The file does not pass the image exactly when no partition does. -/
theorem stop_le_iff (done : FlashDone imageGet image stop final) :
    stop ≤ image.size.toNat ↔ ∀ part ∈ image.partitions, part.span.stop ≤ image.size.toNat := by
  constructor
  · intro le part member
    have := done.inv.below part member
    omega
  · intro inside
    rcases done.reached with zero | ⟨part, member, same⟩
    · omega
    · rw [← same]
      exact inside part member

/-- The bytes of a partition with a child. -/
theorem child_byte (done : FlashDone imageGet image stop final)
    (promise : ∀ name child, imageGet name = some child → child.output.Mapped)
    {part : Partition} (member : part ∈ image.partitions) {child : FlashChild}
    (found : part.image.bind imageGet = some child) :
    ∃ input extents, child.output.contents = some input ∧
      child.output.mapped part.size = .ok extents ∧
      ExtentMap input part.size.toNat extents ∧
      ∀ i < part.size.toNat, final.contents.byte (part.offset.toNat + i) =
        if i < copiedUpTo input.length extents 0 then input.byte i else Genimage.erased := by
  obtain ⟨bytes, written, same⟩ := done.inv.bytes part member
  cases written with
  | blank none =>
    rw [none] at found
    cases found
  | child other input extents found' contents mapped =>
    obtain rfl := Option.some.inj (found'.symm.trans found)
    obtain ⟨name, _, known⟩ := Option.bind_eq_some_iff.mp found
    have map := promise name other known input contents part.size extents mapped
    refine ⟨input, extents, contents, mapped, map, fun i inside => ?_⟩
    rw [same i inside, imageBytes_getD inside, copyCount_eq map, Nat.zero_add]

/-- A byte of a partition without a child is erased. -/
theorem blank_byte (done : FlashDone imageGet image stop final) {part : Partition}
    (member : part ∈ image.partitions) (none : part.image.bind imageGet = none) {i : Nat}
    (inside : i < part.size.toNat) :
    final.contents.byte (part.offset.toNat + i) = Genimage.erased := by
  obtain ⟨bytes, written, same⟩ := done.inv.bytes part member
  cases written with
  | blank =>
    rw [same i inside]
    exact List.getD_replicate _ inside
  | child _ _ _ found =>
    rw [none] at found
    cases found

/-- Two partitions with a common byte are the same. -/
theorem eq_of_common (done : FlashDone imageGet image stop final) {part other : Partition}
    (member : part ∈ image.partitions) (member' : other ∈ image.partitions) {j : Nat}
    (inside : part.span.start ≤ j ∧ j < part.span.stop)
    (inside' : other.span.start ≤ j ∧ j < other.span.stop) : part = other := by
  by_contra different
  have apart : image.partitions.Pairwise fun part other => part.span.Apart other.span :=
    done.inv.ordered.imp Or.inl
  have symmetric : Std.Symm fun part other : Partition => part.span.Apart other.span :=
    ⟨fun _ _ apart => apart.symm⟩
  rcases apart.forall member member' different with before | behind
  · omega
  · omega

/-- **From the file to the condition.** -/
theorem fits (done : FlashDone imageGet image stop final)
    (promise : ∀ name child, imageGet name = some child → child.output.Mapped) {out : File}
    (file : final.file = some out) (meets : FlashContents imageGet image out) :
    FlashFits imageGet image := by
  have same : final.contents = out := by rw [World.contents, file, Option.getD_some]
  have length : max image.size.toNat (max stop image.size.toNat) = image.size.toNat := by
    rw [← done.inv.length, same, meets.length]
  have inside := done.stop_le_iff.mp (by omega)
  have short : ∀ part ∈ image.partitions, ∀ child, childFile imageGet part = some child →
      child.length ≤ part.size.toNat := fun part member child found =>
    (meets.complete part member child found).1
  refine ⟨?_, inside, short, ?_⟩
  · by_contra none
    push Not at none
    rw [done.missing none.1 none.2] at file
    cases file
  · intro part member child found input extents contents mapped
    obtain ⟨input', extents', contents', mapped', map, bytes⟩ :=
      done.child_byte promise member found
    obtain rfl := Option.some.inj (contents'.symm.trans contents)
    obtain rfl := Except.ok.inj (mapped'.symm.trans mapped)
    have named : childFile imageGet part = some input' := by
      rw [childFile, found, Option.bind_some, contents]
    obtain ⟨le, complete⟩ := meets.complete part member input' named
    rw [← copiedUpTo_eq_length_iff map]
    rw [same] at bytes
    refine le_antisymm ?_ ?_
    · -- a byte behind the child that is written as a zero
      by_contra past
      have reach : copiedUpTo input'.length extents' 0 ≤ part.size.toNat := by
        rw [← copyCount_eq map]
        exact min_le_left _ _
      have byte := bytes input'.length (by omega)
      rw [if_pos (by omega), input'.beyond _ le_rfl, meets.erased] at byte
      · exact absurd byte (by decide)
      · have := inside part member
        have : part.span.stop = part.offset.toNat + part.size.toNat := rfl
        omega
      · intro other member' file' found' inner
        have le' := short other member' file' found'
        have here : part.offset.toNat + input'.length < part.offset.toNat + part.size.toNat := by
          omega
        have there : part.offset.toNat + input'.length <
            other.offset.toNat + other.size.toNat := by omega
        obtain rfl := done.eq_of_common member member' ⟨Nat.le_add_right _ _, here⟩
          ⟨inner.1, there⟩
        obtain rfl := Option.some.inj (named.symm.trans found')
        omega
    · -- a byte of the child that is not written
      by_contra short'
      have byte := bytes (copiedUpTo input'.length extents' 0) (by omega)
      rw [if_neg (lt_irrefl _), complete _ (by omega), map.zero_behind 0 le_rfl (by omega)] at byte
      exact absurd byte (by decide)

/-- **From the condition to the file.** -/
theorem contents (done : FlashDone imageGet image stop final)
    (promise : ∀ name child, imageGet name = some child → child.output.Mapped)
    (fits : FlashFits imageGet image) :
    ∃ out, final.file = some out ∧ FlashContents imageGet image out := by
  obtain ⟨out, file⟩ := Option.isSome_iff_exists.mp (done.present fits.present)
  have same : final.contents = out := by rw [World.contents, file, Option.getD_some]
  have stop_le := done.stop_le_iff.mpr fits.inside
  have length := done.inv.length
  rw [same] at length
  refine ⟨out, file, ?_, ?_, ?_⟩
  · omega
  · intro part member input found
    refine ⟨fits.short part member input found, fun i inside => ?_⟩
    obtain ⟨child, known, contents⟩ := Option.bind_eq_some_iff.mp found
    obtain ⟨input', extents, contents', mapped, map, bytes⟩ := done.child_byte promise member known
    obtain rfl := Option.some.inj (contents'.symm.trans contents)
    have tight := (copiedUpTo_eq_length_iff map).mpr
      (fits.tight part member child known input' extents contents mapped)
    have le := fits.short part member input' found
    rw [← same, bytes i (by omega), if_pos (by omega)]
  · intro j below outside
    by_cases among : ∃ part ∈ image.partitions, part.span.start ≤ j ∧ j < part.span.stop
    · obtain ⟨part, member, above, before⟩ := among
      have start : part.span.start = part.offset.toNat := rfl
      have stop : part.span.stop = part.offset.toNat + part.size.toNat := rfl
      obtain ⟨i, rfl⟩ := Nat.exists_eq_add_of_le above
      rw [start] at before outside ⊢
      cases found : part.image.bind imageGet with
      | none =>
        rw [← same]
        exact done.blank_byte member found (by omega)
      | some child =>
        obtain ⟨input, extents, contents, mapped, map, bytes⟩ := done.child_byte promise member found
        have named : childFile imageGet part = some input := by
          rw [childFile, found, Option.bind_some, contents]
        have tight := (copiedUpTo_eq_length_iff map).mpr
          (fits.tight part member child found input extents contents mapped)
        have behind := outside part member input named
        rw [← same, bytes i (by omega), if_neg (by omega)]
    · push Not at among
      rw [← same]
      exact done.inv.rest j (by omega) fun part member inside =>
        absurd inside.2 (not_lt.mpr (among part member inside.1))

end FlashDone

/-- **The output of `flash_generate` is as it should be exactly when everything fits.** -/
theorem flashGenerate_contents_iff {os : Os} {config : FlashConfig} {image : FlashImage}
    {world final : World} (accepted : flashSetup imageGet config = .ok image)
    (reliable : os.Reliable)
    (promise : ∀ name child, imageGet name = some child → child.output.Mapped)
    (run : Returns (flashGenerate os imageGet image) world () final) :
    (∃ out, final.file = some out ∧ FlashContents imageGet image out) ↔
      FlashFits imageGet image := by
  have ordered := (flashSetup_ok accepted).1
  obtain ⟨stop, done⟩ :=
    (flashGenerate_ensures reliable.2 promise ordered (Or.inl reliable)).of_returns run
  exact ⟨fun ⟨_, file, meets⟩ => done.fits promise file meets, done.contents promise⟩

/-- A flash of four erase blocks with a boot loader and a root file system. -/
def flashConfig : FlashConfig where
  flashType := some ⟨4, 4⟩
  partitions := [
    { title := "barebox", size := 4, image := some "barebox.bin" },
    { title := "root", offset := 8, size := 8, image := some "root.jffs2" }]

/-- Children whose sizes are not known in setup. -/
def flashChild (loader : List UInt8) (name : String) : Option FlashChild :=
  if name = "barebox.bin" then some ⟨⟨name, name, 0, []⟩, .wholeFile loader⟩
  else if name = "root.jffs2" then some ⟨⟨name, name, 0, []⟩, .wholeFile [0x85, 0x19, 0, 0]⟩
  else none

theorem flashChild_mapped (loader : List UInt8) (name : String) (child : FlashChild)
    (found : flashChild loader name = some child) : child.output.Mapped := by
  unfold flashChild at found
  split_ifs at found
  all_goals
    rw [← Option.some.inj found]
    exact ChildOutput.wholeFile_mapped _

/-- A run of the handler from an empty directory. -/
theorem exists_flash (loader : List UInt8)
    (run : ((flashSetup (flashChild loader) flashConfig).toOption.any fun image =>
      returnsWith (flashGenerate .calm (flashChild loader) image) ⟨none, 0, 0, 0⟩ fun _ _ =>
        image.partitions.any fun part =>
          decide (part.image = some "barebox.bin" ∧ part.size = 4)) = true) :
    ∃ image final part, flashSetup (flashChild loader) flashConfig = .ok image ∧
      Returns (flashGenerate .calm (flashChild loader) image) ⟨none, 0, 0, 0⟩ () final ∧
      part ∈ image.partitions ∧ part.image = some "barebox.bin" ∧ part.size = 4 := by
  cases accepted : flashSetup (flashChild loader) flashConfig with
  | error _ =>
    rw [accepted] at run
    cases run
  | ok image =>
    rw [accepted] at run
    obtain ⟨_, final, returned, check⟩ := exists_returns run
    obtain ⟨part, member, check⟩ := List.any_eq_true.mp check
    exact ⟨image, final, part, rfl, returned, member, of_decide_eq_true check⟩

/-- The boot loader has six bytes, its partition four. -/
theorem flashGenerate_cuts :
    ∃ image final, flashSetup (flashChild [1, 2, 3, 4, 5, 6]) flashConfig = .ok image ∧
      Returns (flashGenerate .calm (flashChild [1, 2, 3, 4, 5, 6]) image) ⟨none, 0, 0, 0⟩ () final ∧
      ¬ ∃ out, final.file = some out ∧
        FlashContents (flashChild [1, 2, 3, 4, 5, 6]) image out := by
  obtain ⟨image, final, part, accepted, run, member, named, size⟩ :=
    exists_flash [1, 2, 3, 4, 5, 6] (by decide +kernel)
  refine ⟨image, final, accepted, run, fun ⟨out, _, meets⟩ => ?_⟩
  have found : childFile (flashChild [1, 2, 3, 4, 5, 6]) part =
      some (File.ofList [1, 2, 3, 4, 5, 6]) := by
    rw [childFile, named]
    rfl
  have := (meets.complete part member _ found).1
  rw [size] at this
  exact absurd this (by decide)

theorem flashGenerate_contents_iff_barebox :
    ∃ image final, flashSetup (flashChild [1, 2, 3]) flashConfig = .ok image ∧
      Returns (flashGenerate .calm (flashChild [1, 2, 3]) image) ⟨none, 0, 0, 0⟩ () final ∧
      ((∃ out, final.file = some out ∧ FlashContents (flashChild [1, 2, 3]) image out) ↔
        FlashFits (flashChild [1, 2, 3]) image) := by
  obtain ⟨image, final, _, accepted, run, _⟩ := exists_flash [1, 2, 3] (by decide +kernel)
  exact ⟨image, final, accepted, run,
    flashGenerate_contents_iff accepted Os.calm_reliable (flashChild_mapped _) run⟩

end Genimage
