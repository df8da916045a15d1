/-
**`insert_image` against the bytes it promises.**

The comment of `insert_image` promises that exactly the range `[offset, offset + size)` is updated,
with the bytes of the child and the fill byte behind its end. The loop over the extents stops behind
the last one, so a hole at the end of the child is filled with the fill byte too, which is right for
zeros only (`Misfilled`). `insertImage_exact_iff` says where the promise is kept, for every file,
every extent list that the kernel may answer with and all values of the other arguments.
-/

import Genimage.Util.CopySpecs

namespace Genimage

open Library Effect

/-! ### `map_file_extents` -/

/-- `EOPNOTSUPP` -/
def Errno.opnotsupp : Errno := ⟨95, by decide⟩

/-- `ENOTTY` -/
def Errno.notty : Errno := ⟨25, by decide⟩

/-- `struct fiemap_extent`, as far as it is read. -/
structure FiemapExtent where
  logical : UInt64
  length : UInt64

/-- The extent in the array that `map_file_extents` builds. -/
def FiemapExtent.extent (fiemap : FiemapExtent) : Extent :=
  ⟨fiemap.logical, fiemap.logical + fiemap.length⟩

/-- The last extent may reach past the end of the file; it is limited to `size`. -/
def limitLast (size : UInt64) : List Extent → List Extent
  | [] => []
  | [last] => [if last.stop > size then ⟨last.start, size⟩ else last]
  | extent :: rest => extent :: limitLast size rest

/-- `map_file_extents`, by what the `ioctl` answers. -/
def mapFileExtents (fiemap : UInt64 → Except Errno (List FiemapExtent)) (size : UInt64) :
    Except Int (List Extent) :=
  match fiemap size with
  | .ok extents => .ok (limitLast size (extents.map FiemapExtent.extent))
  | .error errno =>
    if errno = .opnotsupp ∨ errno = .notty then .ok (wholeFileExtent size)
    else .error (-(errno.1 : Int))

/-- **The extents of a file**: sorted and disjoint, at file offsets, around every byte that is not
zero. The last may reach past the end of the file. -/
structure FileExtents (input : File) (extents : List Extent) : Prop where
  sorted : extents.Pairwise fun a b =>
    a.start.toNat ≤ a.stop.toNat ∧ a.stop.toNat ≤ b.start.toNat
  begins : ∀ extent ∈ extents, extent.start.toNat < offLimit
  data : ∀ i, input.byte i ≠ 0 → ∃ extent ∈ extents, extent.start.toNat ≤ i ∧ i < extent.stop.toNat

/-- **What is left of them when the last one is limited.** -/
structure LimitedExtents (input : File) (limit : Nat) (extents : List Extent) : Prop where
  covering : ∀ last, Covering input last extents
  begins : ∀ extent ∈ extents, extent.start.toNat < offLimit
  data : ∀ i < limit, input.byte i ≠ 0 → ∃ extent ∈ extents, extent.start.toNat ≤ i ∧
    i < extent.stop.toNat

theorem limitLast_concat (size : UInt64) (done : List Extent) (last : Extent) :
    limitLast size (done ++ [last]) =
      done ++ [if last.stop > size then ⟨last.start, size⟩ else last] := by
  induction done with
  | nil => rfl
  | cons extent rest ih =>
    have some : rest ++ [last] ≠ [] := by simp
    rw [List.cons_append, limitLast, ih, List.cons_append]
    exact some

theorem FileExtents.limitLast {input : File} {extents : List Extent}
    (file : FileExtents input extents) (size : UInt64) :
    LimitedExtents input size.toNat (limitLast size extents) := by
  rcases List.eq_nil_or_concat extents with rfl | ⟨done, last, rfl⟩
  · refine ⟨fun _ => ⟨List.Pairwise.nil, fun i _ nonzero _ => file.data i nonzero⟩, nofun, ?_⟩
    exact fun i _ => file.data i
  rw [List.concat_eq_append] at file
  rw [List.concat_eq_append, limitLast_concat]
  obtain ⟨sorted, -, before⟩ := List.pairwise_append.mp file.sorted
  generalize limited : (if last.stop > size then (⟨last.start, size⟩ : Extent) else last) = final
  have start : final.start = last.start := by
    rw [← limited]
    split_ifs <;> rfl
  have stop : final.stop.toNat = min last.stop.toNat size.toNat := by
    rw [← limited]
    split_ifs with longer
    · exact (min_eq_right (UInt64.lt_iff_toNat_lt.mp longer).le).symm
    · exact (min_eq_left (not_lt.mp (mt UInt64.lt_iff_toNat_lt.mpr longer))).symm
  have member {extent : Extent} (given : extent ∈ done ++ [final]) :
      extent ∈ done ∨ extent = final := by simpa using given
  constructor
  · refine fun _ => ⟨List.pairwise_append.mpr ⟨sorted, List.pairwise_singleton _ _, ?_⟩, ?_⟩
    · intro a early b late
      rw [List.mem_singleton.mp late, start]
      exact before a early last (List.mem_singleton_self last)
    · rintro i - nonzero ⟨extent, given, front⟩
      obtain ⟨other, among, above, inside⟩ := file.data i nonzero
      rcases List.mem_append.mp among with early | late
      · exact ⟨other, List.mem_append_left _ early, above, inside⟩
      · rw [List.mem_singleton.mp late] at above
        rcases member given with early | rfl
        · have := before extent early last (List.mem_singleton_self last)
          omega
        · rw [start] at front
          omega
  · intro extent given
    rcases member given with early | rfl
    · exact file.begins extent (List.mem_append_left _ early)
    · rw [start]
      exact file.begins last (by simp)
  · intro i below nonzero
    obtain ⟨other, among, above, inside⟩ := file.data i nonzero
    rcases List.mem_append.mp among with early | late
    · exact ⟨other, List.mem_append_left _ early, above, inside⟩
    · rw [List.mem_singleton.mp late] at above inside
      exact ⟨final, by simp, by rwa [start], by omega⟩

theorem wholeFileExtent_limited (input : File) (size : UInt64) :
    LimitedExtents input size.toNat (wholeFileExtent size) where
  covering _ := ⟨List.pairwise_singleton _ _, by simp [wholeFileExtent]⟩
  begins := by simp [wholeFileExtent, offLimit]
  data i below _ := ⟨_, List.mem_singleton_self _, Nat.zero_le _, below⟩

/-- **What `map_file_extents` answers with.** -/
theorem mapFileExtents_limited {input : File} {size : UInt64} {extents : List Extent}
    {fiemap : UInt64 → Except Errno (List FiemapExtent)}
    (promise : ∀ answer, fiemap size = .ok answer →
      FileExtents input (answer.map FiemapExtent.extent))
    (mapped : mapFileExtents fiemap size = .ok extents) :
    LimitedExtents input size.toNat extents := by
  unfold mapFileExtents at mapped
  split at mapped
  next answer answered =>
    rw [← Except.ok.inj mapped]
    exact (promise answer answered).limitLast size
  next errno _ =>
    split_ifs at mapped
    rw [← Except.ok.inj mapped]
    exact wholeFileExtent_limited input size

/-! ### The promise -/

/-- **What `insert_image` promises**: the child's bytes in the range and `byte` behind its end, the
old bytes everywhere else, and a file that is longer only for the range. -/
structure Inserted (before input : File) (size offset imageoffset : Nat) (byte : UInt8)
    (after : File) : Prop where
  inside : ∀ i < size, after.byte (offset + i) =
    if imageoffset + i < input.length then input.byte (imageoffset + i) else byte
  outside : ∀ i, ¬ (offset ≤ i ∧ i < offset + size) → after.byte i = before.byte i
  length : after.length = if size = 0 then before.length else max before.length (offset + size)

/-- **`insert_image` keeps its promise** for a child with these extents, unless an operation fails: a
call is refused or cut short, the range does not end at a file offset, or the child is to be read
where there is none. -/
def InsertsExactly (child : ChildOutput) (contents input : File) (extents : List Extent)
    (size offset imageoffset : UInt64) (byte : UInt8) (sparse : Bool) : Prop :=
  ∀ (os : Os) (world : World), os.blockDevice = false → world.file = some contents →
    Ensures (¬ os.Reliable ∨ offLimit ≤ offset.toNat + size.toNat ∨
        (offLimit ≤ imageoffset.toNat ∧ ∃ extent ∈ extents, imageoffset < extent.stop))
      (insertImage os (some child) size offset imageoffset byte sparse) world
      fun _ next => Inserted contents input size.toNat offset.toNat imageoffset.toNat byte next.contents

/-- **A position that is wanted and gets the wrong fill**: it lies in a hole at the end of the child,
behind every extent, or behind the child's end and in front of an extent. -/
def Misfilled (input : File) (extents : List Extent) (size imageoffset : UInt64) : Prop :=
  ∃ i, imageoffset.toNat ≤ i ∧ i < imageoffset.toNat + size.toNat ∧
    ((i < input.length ∧ ∀ extent ∈ extents, extent.start.toNat ≤ i ∧ extent.stop.toNat ≤ i) ∨
      (input.length ≤ i ∧ ∃ extent ∈ extents, i < extent.start.toNat))

/-- The loop over the extents finds nothing to copy, and no operation fails. -/
def NothingToCopy (input : File) (extents : List Extent) (imageoffset : UInt64) : Prop :=
  ∀ extent ∈ extents, extent.start ≤ imageoffset ∧ (extent.stop ≤ imageoffset ∨
    (input.length ≤ imageoffset.toNat ∧ imageoffset.toNat < offLimit))

/-- The loop over the extents stops at the child's end, but for misfilled positions. -/
theorem copied_iff_of_not_misfilled {input : File} {extents : List Extent}
    {size imageoffset : UInt64} (solid : ¬ Misfilled input extents size imageoffset) {i : Nat}
    (above : imageoffset.toNat ≤ i) (below : i < imageoffset.toNat + size.toNat) :
    i < copiedUpTo input.length extents imageoffset.toNat ↔ i < input.length := by
  constructor
  · intro copied
    by_contra past
    refine solid ⟨i, above, below, Or.inr ⟨not_lt.mp past, ?_⟩⟩
    by_contra none
    push Not at none
    refine absurd (copiedUpTo_le_iff.mpr ⟨above, fun extent member => ?_⟩) (not_le.mpr copied)
    have := none extent member
    omega
  · intro inside
    by_contra behind
    have reached := copiedUpTo_le_iff.mp (not_lt.mp behind)
    refine solid ⟨i, above, below, Or.inl ⟨inside, fun extent member => ?_⟩⟩
    have := reached.2 extent member
    omega

/-- At a misfilled position the loop has not stopped at the child's end. -/
theorem Misfilled.exists_fill {input : File} {extents : List Extent} {size imageoffset : UInt64}
    (misfilled : Misfilled input extents size imageoffset) :
    ∃ i < size.toNat, ¬ (imageoffset.toNat + i <
      copiedUpTo input.length extents imageoffset.toNat ↔ imageoffset.toNat + i < input.length) := by
  obtain ⟨i, above, below, wrong⟩ := misfilled
  refine ⟨i - imageoffset.toNat, by omega, ?_⟩
  rw [Nat.add_sub_cancel' above]
  rcases wrong with ⟨inside, behind⟩ | ⟨past, extent, member, front⟩
  · have reached : copiedUpTo input.length extents imageoffset.toNat ≤ i := by
      refine copiedUpTo_le_iff.mpr ⟨above, fun extent member => ?_⟩
      have := behind extent member
      omega
    exact fun same => absurd (same.mpr inside) (not_lt.mpr reached)
  · intro same
    have reached := copiedUpTo_le_iff.mp (not_lt.mp fun copied => absurd (same.mp copied) (by omega))
    have := reached.2 extent member
    omega

theorem NothingToCopy.copyCount {input : File} {extents : List Extent} {imageoffset : UInt64}
    (nothing : NothingToCopy input extents imageoffset) (size : Nat) :
    copyCount input extents size imageoffset.toNat = 0 := by
  have reached : copiedUpTo input.length extents imageoffset.toNat ≤ imageoffset.toNat := by
    refine copiedUpTo_le_iff.mpr ⟨le_rfl, fun extent member => ?_⟩
    have first := UInt64.le_iff_toNat_le.mp (nothing extent member).1
    rcases (nothing extent member).2 with second | second
    · have := UInt64.le_iff_toNat_le.mp second
      omega
    · omega
  unfold Genimage.copyCount
  omega

/-- Where nothing has been copied, there was nothing to copy. -/
theorem nothingToCopy_of_copyCount {input : File} {extents : List Extent} {imageoffset : UInt64}
    {size : Nat} (some : size ≠ 0) (none : copyCount input extents size imageoffset.toNat = 0)
    (reads : offLimit ≤ imageoffset.toNat → ∀ extent ∈ extents, extent.stop ≤ imageoffset) :
    NothingToCopy input extents imageoffset := by
  unfold copyCount at none
  have reached : copiedUpTo input.length extents imageoffset.toNat ≤ imageoffset.toNat := by omega
  intro extent member
  obtain ⟨start, stop⟩ := (copiedUpTo_le_iff.mp reached).2 extent member
  refine ⟨UInt64.le_iff_toNat_le.mpr start, ?_⟩
  by_cases far : offLimit ≤ imageoffset.toNat
  · exact Or.inl (reads far extent member)
  · rw [UInt64.le_iff_toNat_le]
    omega

section Exact

variable {child : ChildOutput} {contents input : File} {extents : List Extent}
  {size offset imageoffset : UInt64} {byte : UInt8} {sparse : Bool} {os : Os} {world : World}

/-- The loops can copy what is wanted of the child. -/
theorem LimitedExtents.canCopy {fault : Prop} {limit : Nat}
    (limited : LimitedExtents input limit extents) (regular : os.blockDevice = false)
    (addressed : offset.toNat < offLimit) (short : input.length < offLimit)
    (safe : Safe fault os (max contents.length
      (offset.toNat + copyCount input extents size.toNat imageoffset.toNat)))
    (readable : fault ∨ imageoffset.toNat < offLimit ∨
      ∀ extent ∈ extents, extent.stop ≤ imageoffset) :
    CanCopy fault os contents input extents sparse ⟨size, offset, imageoffset⟩ where
  fits := by
    rw [Fits, if_neg (by rw [regular]; decide)]
    exact addressed
  covering := limited.covering _
  short extent member := Or.inr (Or.inl (limited.begins extent member))
  safe := safe
  readable := by
    refine readable.imp_right fun readable => Or.inr ?_
    rcases readable with first | behind
    · exact Or.inr ⟨short, first, limited.begins⟩
    · exact Or.inl fun extent member => UInt64.le_iff_toNat_le.mp (behind extent member)

/-- **Where the child is to be read behind the largest offset**, the loops do not return. -/
theorem copySub_reads (given : child.contents = some input)
    (mapped : child.mapped (size + imageoffset) = .ok extents)
    (limited : LimitedExtents input (size + imageoffset).toNat extents) (some : size ≠ 0)
    (beyond : offLimit ≤ imageoffset.toNat) :
    Ensures True (copySub os (.some child) sparse ⟨size, offset, imageoffset⟩) world fun _ _ =>
      ∀ extent ∈ extents, extent.stop ≤ imageoffset := by
  rw [copySub, copyImage]
  refine Sys.openIn_ensures.bind fun opened middle facts => ?_
  obtain ⟨_, found⟩ := facts
  rcases found with ⟨rfl, _⟩ | ⟨rfl, _⟩
  · trivial
  simp only [given, mapped]
  refine (Ensures.foldlM (fun done loop _ => loop = ⟨size, offset, imageoffset⟩ ∧
    ∀ extent ∈ done, extent.stop ≤ imageoffset) 
    ⟨rfl, fun extent member => by cases member⟩ ?_).mono fun _ _ => And.right
  rintro done extent rest _ last split ⟨rfl, behind⟩
  have begins := limited.begins extent (by simp [split])
  have fuel : size.toNat = size.toNat - 1 + 1 := (Nat.sub_add_cancel (toNat_pos.mpr some)).symm
  rw [copyExtent, if_neg some, skipGap, if_neg (by
    show ¬ imageoffset < extent.start
    rw [UInt64.lt_iff_toNat_lt]
    omega), pure_bind]
  show Ensures True (copyLoop os input extent.stop size.toNat _) last _
  rw [fuel, copyLoop]
  split
  next =>
    rw [copyStep, ensures_bind, ensures_bind]
    refine (Sys.pread_beyond beyond).mono fun data _ none => ?_
    rw [none]
    trivial
  next finished =>
    rw [ensures_pure]
    refine ⟨rfl, fun other member => ?_⟩
    rcases List.mem_append.mp member with early | late
    · exact behind other early
    · rw [List.mem_singleton.mp late]
      refine UInt64.not_lt.mp fun before => finished ⟨before, ?_⟩
      exact UInt64.lt_iff_toNat_lt.mpr (toNat_pos.mpr some)

/-- **The copy of the child**, for any values of the arguments. -/
theorem copyChild_ensures {fault : Prop} {post : Unit → World → Prop}
    (regular : os.blockDevice = false) (short : input.length < offLimit)
    (given : child.contents = some input)
    (mapped : child.mapped (size + imageoffset) = .ok extents)
    (limited : LimitedExtents input (size + imageoffset).toNat extents)
    (same : world.contents = contents)
    (safe : Safe fault os (max contents.length
      (offset.toNat + copyCount input extents size.toNat imageoffset.toNat)))
    (readable : fault ∨ imageoffset.toNat < offLimit ∨
      ∀ extent ∈ extents, extent.stop ≤ imageoffset)
    (rest : ∀ result middle, Copied os input contents ⟨size, offset, imageoffset⟩
      (copyCount input extents size.toNat imageoffset.toNat) result middle →
      (size ≠ 0 → offLimit ≤ imageoffset.toNat → ∀ extent ∈ extents, extent.stop ≤ imageoffset) →
      Ensures fault (writeBytes os result.size result.offset byte sparse) middle post) :
    Ensures fault (insertImage os (some child) size offset imageoffset byte sparse) world post := by
  refine insertImage_rule same (safe.mono (by omega)) fun middle holds addressed => ?_
  have reads : Ensures True (copySub os (some child) sparse ⟨size, offset, imageoffset⟩) middle
      fun _ _ => size ≠ 0 → offLimit ≤ imageoffset.toNat →
        ∀ extent ∈ extents, extent.stop ≤ imageoffset := by
    by_cases both : size ≠ 0 ∧ offLimit ≤ imageoffset.toNat
    · exact (copySub_reads given mapped limited both.1 both.2).mono fun _ _ behind _ _ => behind
    · exact Ensures.of_forall fun _ _ some beyond => absurd ⟨some, beyond⟩ both
  refine ((copySub_ensures holds ?_ fun input' extents' given' mapped' => ?_).and reads).mono ?_
  · exact safe.imp_right fun both => ⟨both.1, by rw [given]; rfl, extents, mapped⟩
  · obtain rfl := Option.some.inj (given.symm.trans given')
    obtain rfl := Except.ok.inj (mapped.symm.trans mapped')
    exact limited.canCopy regular addressed short safe readable
  · rintro result last ⟨⟨input', extents', given', mapped', copied⟩, behind⟩
    obtain rfl := Option.some.inj (given.symm.trans given')
    obtain rfl := Except.ok.inj (mapped.symm.trans mapped')
    exact rest result last copied behind

/-- Behind the position that the loop reaches, the child holds zeros. -/
theorem LimitedExtents.zero_behind {i : Nat}
    (limited : LimitedExtents input (size + imageoffset).toNat extents)
    (short : input.length < offLimit) (fits : size.toNat < offLimit)
    (above : imageoffset.toNat ≤ i) (below : i < imageoffset.toNat + size.toNat)
    (behind : copiedUpTo input.length extents imageoffset.toNat ≤ i) : input.byte i = 0 := by
  have limit : offLimit = 2 ^ 63 := rfl
  by_contra nonzero
  have inside : i < input.length := not_le.mp fun past => nonzero (input.beyond i past)
  have wanted : (size + imageoffset).toNat = size.toNat + imageoffset.toNat :=
    toNat_add_of_lt (by omega)
  obtain ⟨extent, member, _, before⟩ := limited.data i (by omega) nonzero
  have := stop_le_copiedUpTo input.length imageoffset.toNat member
  omega

/-- What `insert_image` leaves in the range. -/
theorem pwrite_imageBytes_byte (contents : File) {i : Nat} (inside : i < size.toNat) :
    (contents.pwrite offset.toNat
      (imageBytes input extents size.toNat imageoffset.toNat byte)).byte (offset.toNat + i) =
      if imageoffset.toNat + i < copiedUpTo input.length extents imageoffset.toNat
      then input.byte (imageoffset.toNat + i) else byte := by
  have start := le_copiedUpTo input.length extents imageoffset.toNat
  rw [File.pwrite_byte_of_mem (by rw [length_imageBytes]; omega), Nat.add_sub_cancel_left,
    imageBytes_getD inside]
  refine if_congr ?_ rfl rfl
  unfold copyCount
  omega

/-- **The bytes of the range** are those that are promised, but for misfilled positions. -/
theorem imageBytes_inserted (contents : File)
    (limited : LimitedExtents input (size + imageoffset).toNat extents)
    (short : input.length < offLimit) (fits : size.toNat < offLimit)
    (solid : byte = 0 ∨ ¬ Misfilled input extents size imageoffset) :
    Inserted contents input size.toNat offset.toNat imageoffset.toNat byte
      (contents.pwrite offset.toNat
        (imageBytes input extents size.toNat imageoffset.toNat byte)) where
  inside i inside := by
    rw [pwrite_imageBytes_byte contents inside]
    rcases solid with rfl | solid
    · split_ifs with copied within within
      · rfl
      · exact input.beyond _ (not_lt.mp within)
      · exact (limited.zero_behind short fits (by omega) (by omega) (not_lt.mp copied)).symm
      · rfl
    · exact if_congr (copied_iff_of_not_misfilled solid (by omega) (by omega)) rfl rfl
  outside i outside := File.pwrite_byte_of_not_mem (by rwa [length_imageBytes])
  length := by
    by_cases none : size.toNat = 0
    · rw [if_pos none]
      have empty : imageBytes input extents size.toNat imageoffset.toNat byte = [] :=
        List.eq_nil_of_length_eq_zero (by rw [length_imageBytes, none])
      rw [empty, File.pwrite_nil]
    · rw [if_neg none, File.length_pwrite (List.ne_nil_of_length_pos
        (by rw [length_imageBytes]; omega)), length_imageBytes]

/-- A misfilled position holds a byte that is not promised. -/
theorem Misfilled.not_inserted (misfilled : Misfilled input extents size imageoffset)
    (limited : LimitedExtents input (size + imageoffset).toNat extents)
    (short : input.length < offLimit) (fits : size.toNat < offLimit) (nonzero : byte ≠ 0) :
    ¬ Inserted contents input size.toNat offset.toNat imageoffset.toNat byte
      (contents.pwrite offset.toNat
        (imageBytes input extents size.toNat imageoffset.toNat byte)) := by
  intro inserted
  obtain ⟨i, inside, wrong⟩ := misfilled.exists_fill
  have promised := inserted.inside i inside
  rw [pwrite_imageBytes_byte contents inside] at promised
  split_ifs at promised with copied within within
  · exact wrong (iff_of_true copied within)
  · exact nonzero (promised.symm.trans (input.beyond _ (not_lt.mp within)))
  · refine nonzero (promised.trans ?_)
    exact limited.zero_behind short fits (by omega) (by omega) (not_lt.mp copied)
  · exact wrong (iff_of_false copied within)

/-- **`insert_image` keeps its promise exactly where** no position gets the wrong fill, or the fill is
zero; and where the range does not end at a file offset, as long as its end does not wrap with nothing
to copy. -/
theorem insertImage_exact_iff {fiemap : UInt64 → Except Errno (List FiemapExtent)}
    (small : contents.length < offLimit) (short : input.length < offLimit)
    (given : child.contents = some input) (answers : child.mapped = mapFileExtents fiemap)
    (mapped : mapFileExtents fiemap (size + imageoffset) = .ok extents)
    (promise : ∀ answer, fiemap (size + imageoffset) = .ok answer →
      FileExtents input (answer.map FiemapExtent.extent)) :
    InsertsExactly child contents input extents size offset imageoffset byte sparse ↔
      if offset.toNat + size.toNat < offLimit then
        byte = 0 ∨ ¬ Misfilled input extents size imageoffset
      else ¬ (byte = 0 ∧ sparse = true ∧ EndWraps contents size offset ∧
        NothingToCopy input extents imageoffset) := by
  have limit : offLimit = 2 ^ 63 := rfl
  have limited := mapFileExtents_limited promise mapped
  have mapped : child.mapped (size + imageoffset) = .ok extents := by rw [answers, mapped]
  have start : (⟨some contents, 0, 0, 0⟩ : World).contents = contents := rfl
  have reliable : (⟨fun _ => .full, false⟩ : Os).Reliable := ⟨fun _ => rfl, rfl⟩
  have copied_le : copyCount input extents size.toNat imageoffset.toNat ≤ size.toNat :=
    min_le_left _ _
  constructor
  · intro exactly
    split_ifs with fits
    · by_contra wrong
      rw [not_or, not_not] at wrong
      obtain ⟨nonzero, misfilled⟩ := wrong
      have first : imageoffset.toNat < offLimit := by
        obtain ⟨i, above, _, ⟨inside, _⟩ | ⟨_, extent, member, front⟩⟩ := misfilled
        · omega
        · have := limited.begins extent member
          omega
      have filled : Ensures False
          (insertImage ⟨fun _ => .full, false⟩ (some child) size offset imageoffset byte sparse)
          ⟨some contents, 0, 0, 0⟩ fun _ next => Holds ⟨fun _ => .full, false⟩ next
            (contents.pwrite offset.toNat
              (imageBytes input extents size.toNat imageoffset.toNat byte)) :=
        copyChild_ensures rfl short given mapped limited start (Or.inr ⟨reliable, by omega⟩)
          (Or.inr (Or.inl first)) fun _ _ copied _ =>
            copied.fill_ensures (by simp only; omega) (Or.inr ⟨reliable, by simp only; omega⟩)
      obtain ⟨_, final, run, holds⟩ := filled.returns
      have inserted := (exactly _ _ rfl rfl).of_returns run
      rw [holds.contents] at inserted
      exact misfilled.not_inserted limited short (by omega) nonzero inserted
    · rintro ⟨rfl, rfl, wraps, nothing⟩
      have ⟨behind, addressed, beyond⟩ := wraps
      have none := nothing.copyCount size.toNat
      have readable : imageoffset.toNat < offLimit ∨ ∀ extent ∈ extents, extent.stop ≤ imageoffset := by
        refine or_iff_not_imp_left.mpr fun far extent member => ?_
        exact (nothing extent member).2.resolve_right fun both => far both.2
      have wrapped : Ensures False
          (insertImage ⟨fun _ => .full, false⟩ (some child) size offset imageoffset 0 true)
          ⟨some contents, 0, 0, 0⟩ fun _ next =>
            next.file = some (contents.truncate (offset + size).toNat) :=
        copyChild_ensures rfl short given mapped limited start
          (Or.inr ⟨reliable, by rw [none]; omega⟩) (Or.inr readable)
          fun _ _ copied _ => copied.fill_wrapped rfl reliable.willing none wraps
      obtain ⟨_, final, run, file⟩ := wrapped.returns
      have inserted := (exactly _ _ rfl rfl).of_returns run
      have length := inserted.length
      have := size.toNat_lt
      rw [World.contents, file, Option.getD_some, File.length_truncate, if_neg (by omega),
        toNat_add_of_le (by omega)] at length
      omega
  · intro cond os world regular file
    have same : world.contents = contents := by rw [World.contents, file, Option.getD_some]
    split_ifs at cond with fits
    · refine (copyChild_ensures regular short given mapped limited same ?_ ?_ fun _ _ copied _ =>
        copied.fill_ensures (by simp only; omega) ?_).mono fun _ next holds => ?_
      · by_cases ready : os.Reliable
        · exact Or.inr ⟨ready, by omega⟩
        · exact Or.inl (Or.inl ready)
      · by_cases first : imageoffset.toNat < offLimit
        · exact Or.inr (Or.inl first)
        · by_cases some : ∃ extent ∈ extents, imageoffset < extent.stop
          · exact Or.inl (Or.inr (Or.inr ⟨not_lt.mp first, some⟩))
          · push Not at some
            exact Or.inr (Or.inr fun extent member => UInt64.not_lt.mp (some extent member))
      · by_cases ready : os.Reliable
        · exact Or.inr ⟨ready, by simp only; omega⟩
        · exact Or.inl (Or.inl ready)
      · rw [holds.contents]
        exact imageBytes_inserted contents limited short (by omega) cond
    · refine Ensures.imp (fun _ => Or.inr (Or.inl (not_lt.mp fits))) (copyChild_ensures regular short
        given mapped limited same (Or.inl trivial) (Or.inl trivial) fun _ _ copied reads =>
          (copied.fill_inside regular).mono ?_)
      rintro _ next (below | ⟨zero, holes, none, wraps⟩)
      · exact absurd below fits
      · have some : size.toNat ≠ 0 := by
          have := wraps.2.2
          have := wraps.2.1
          simp only at this
          omega
        refine absurd ⟨zero, holes, wraps, nothingToCopy_of_copyCount some none fun far => ?_⟩ cond
        exact reads (toNat_pos.mp (Nat.pos_of_ne_zero some)) far

end Exact

/-! ### Two children -/

/-- A child of two bytes on which the file system reports `stop` bytes of data. -/
def shortChild (first second : UInt8) (stop : UInt64) : ChildOutput where
  size := 2
  contents := some (File.ofList [first, second])
  mapped := mapFileExtents fun _ => .ok [⟨0, stop⟩]

theorem shortChild_extents {first second : UInt8} {stop : UInt64}
    (enough : second ≠ 0 → 2 ≤ stop.toNat) (positive : 1 ≤ stop.toNat) :
    FileExtents (File.ofList [first, second])
      ([(⟨0, stop⟩ : FiemapExtent)].map FiemapExtent.extent) where
  sorted := List.pairwise_singleton _ _
  begins := by simp [FiemapExtent.extent, offLimit]
  data := by
    have stop_eq : (0 : UInt64) + stop = stop := UInt64.zero_add stop
    intro i nonzero
    refine ⟨_, List.mem_singleton_self _, Nat.zero_le _, ?_⟩
    show i < ((0 : UInt64) + stop).toNat
    rw [stop_eq]
    match i with
    | 0 => exact positive
    | 1 => exact enough nonzero
    | _ + 2 => exact absurd rfl nonzero

/-- Data up to the end: the rest of the range is filled. -/
theorem insertImage_exact_shortChild :
    InsertsExactly (shortChild 1 2 4096) .empty (File.ofList [1, 2]) [⟨0, 4⟩] 4 0 0 255 false := by
  have answers : (shortChild 1 2 4096).mapped = mapFileExtents fun _ => .ok [⟨0, 4096⟩] := rfl
  refine (insertImage_exact_iff (by decide) (by decide) rfl answers rfl ?_).mpr ?_
  · intro answer answered
    rw [← Except.ok.inj answered]
    exact shortChild_extents (by decide) (by decide)
  · rw [if_pos (by decide)]
    refine Or.inr ?_
    rintro ⟨i, _, _, ⟨inside, behind⟩ | ⟨_, extent, member, front⟩⟩
    · have stop : 4 ≤ i := (behind _ (List.mem_singleton_self _)).2
      have : i < 2 := inside
      omega
    · rw [List.mem_singleton.mp member] at front
      exact absurd front (Nat.not_lt_zero i)

/-- A hole at the end: the second byte is a zero and becomes the fill byte. -/
theorem insertImage_fills_hole :
    FileExtents (File.ofList [1, 0]) ([(⟨0, 1⟩ : FiemapExtent)].map FiemapExtent.extent) ∧
      (shortChild 1 0 1).mapped 2 = .ok [⟨0, 1⟩] ∧
      ¬ InsertsExactly (shortChild 1 0 1) .empty (File.ofList [1, 0]) [⟨0, 1⟩] 2 0 0 255 false := by
  refine ⟨shortChild_extents (by decide) (by decide), rfl, fun exactly => ?_⟩
  have run : returnsWith (insertImage ⟨fun _ => .full, false⟩ (some (shortChild 1 0 1)) 2 0 0 255 false)
      ⟨some .empty, 0, 0, 0⟩ (fun _ next => next.contents.byte 1 == 255) = true := by decide +kernel
  obtain ⟨_, final, returned, filled⟩ := exists_returns run
  have promised := ((exactly _ _ rfl rfl).of_returns returned).inside 1 (by decide)
  rw [show (0 : UInt64).toNat + 1 = 1 from rfl, beq_iff_eq.mp filled] at promised
  exact absurd promised (by decide)

end Genimage
