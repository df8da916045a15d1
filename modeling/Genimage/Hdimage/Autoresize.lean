/-
**`autoresize` takes the remaining space.**

`remaining` is the space behind the offset of a partition in integers; it is negative when the offset
is behind the end of the image. `setup_part_autoresize` computes it in 64-bit words, so that a
negative one is a large word, and rounds before it looks at the sign. With a large `align` the result
can be positive again (`WrapsPositive`).

`autoresize_exact_iff` is about the function and about whole runs: an accepted layout has one
partition at most that is resized, and that fills the image exactly if its offset is inside.
-/

import Genimage.Hdimage.Origin
import Mathlib.Data.UInt

namespace Genimage

open Library

/-- The bytes that are kept for the GPT backup. -/
def backupBytes (tableType : TableType) : Nat := if tableType.hasGpt then 33 * 512 else 0

/-- The space behind the offset of a partition. -/
def remaining (hd : Hdimage) (size : UInt64) (part : Partition) : Int :=
  size.toNat - part.offset.toNat - backupBytes hd.tableType

/-- The largest multiple of `align` that the space has room for. -/
def largestSize (hd : Hdimage) (size : UInt64) (part : Partition) : Int :=
  remaining hd size part / part.align.toNat * part.align.toNat

/-- The same on the word for the space. -/
def wrappedSize (hd : Hdimage) (size : UInt64) (part : Partition) : Nat :=
  (remaining hd size part % 2 ^ 64).toNat / part.align.toNat * part.align.toNat

/-- **There is no space, but the word for it passes the checks.** -/
structure WrapsPositive (hd : Hdimage) (size : UInt64) (part : Partition) : Prop where
  negative : remaining hd size part < 0
  positive : 0 < wrappedSize hd size part
  signed : wrappedSize hd size part < 2 ^ 63
  enough : part.size.toNat ≤ wrappedSize hd size part

/-- `setup_part_autoresize` with `part` and `*resized` in place: the error, and what they are then. -/
def setupPartAutoresizeInPlace (hd : Hdimage) (size : UInt64) (part : Partition) (resized : Bool) :
    Option SetupError × Partition × Bool :=
  if !part.autoresize then (none, part, resized)
  else if resized then (some .autoresizeTwice, part, resized)
  else if size = 0 then (some .autoresizeNoSize, part, resized)
  else
    let partsize := autoresizeSpace hd size part
    if toLongLong partsize ≤ 0 then (some .autoresizeNoSpace, part, resized)
    else if toLongLong partsize < toLongLong part.size then
      (some (.autoresizeTooSmall part.name (toLongLong partsize) part.size), part, resized)
    else (none, part.withSize partsize, true)

/-- **One call is exact**: it fails, and changes nothing, exactly without an image size, for a second
partition and without enough space; else the partition gets the space. -/
structure AutoresizeExact (hd : Hdimage) (size : UInt64) (part : Partition) (resized : Bool) :
    Prop where
  fails : (setupPartAutoresizeInPlace hd size part resized).1.isSome ↔ size = 0 ∨ resized = true ∨
    largestSize hd size part ≤ 0 ∨ largestSize hd size part < part.size.toNat
  unchanged : (setupPartAutoresizeInPlace hd size part resized).1.isSome →
    (setupPartAutoresizeInPlace hd size part resized).2 = (part, resized)
  resizes : (setupPartAutoresizeInPlace hd size part resized).1 = none →
    ∃ new, (setupPartAutoresizeInPlace hd size part resized).2 = (part.withSize new, true) ∧
      (new.toNat : Int) = largestSize hd size part

/-- **A partition fills an image of the given size.** -/
structure FillsImage (env : Env) (hd : Hdimage) (size given : UInt64) (placed : Partition) :
    Prop where
  sized : size ≠ 0
  greatest : IsGreatest {bytes : Nat | placed.align.toNat ∣ bytes ∧
    placed.offset.toNat + bytes + backupBytes hd.tableType ≤ size.toNat} placed.size.toNat
  positive : 0 < placed.size.toNat
  configured : given.toNat ≤ placed.size.toNat
  data : ∀ image child, placed.image = some image → env.imageGet image = some child →
    (child.dataSize placed.imageoffset).toNat ≤ placed.size.toNat

/-- **An accepted layout is exact**: one partition at most is resized, and it fills the image. -/
structure AutoresizeLayout (env : Env) (config : HdimageConfig) (size : UInt64) (layout : Layout) :
    Prop where
  once : layout.partitions.countP (·.autoresize) ≤ 1
  fills : List.Forall₂ (fun partsec placed => partsec.autoresize = true →
      FillsImage env layout.hd size partsec.size placed)
    config.partitions (userPartitions layout.partitions)

/-- A call with its offset inside the image, and the backup behind it. -/
def CallInside (prepared : Prepared) (visit : SetupState × Partition) : Prop :=
  visit.2.autoresize = true →
    (chosenOffset prepared.hd visit.1.now (visit.2.withAlign prepared.hd)).toNat +
      backupBytes prepared.hd.tableType ≤ prepared.size.toNat

instance (prepared : Prepared) (visit : SetupState × Partition) :
    Decidable (CallInside prepared visit) :=
  inferInstanceAs (Decidable (_ → _))

/-- **Every call in a run of `hdimage_setup` has its offset inside the image.** -/
def AutoresizeInside (env : Env) (config : HdimageConfig) : Prop :=
  match prepare env config with
  | .ok prepared => ∀ visit ∈ setupVisits env prepared, CallInside prepared visit
  | .error _ => True

instance (env : Env) (config : HdimageConfig) : Decidable (AutoresizeInside env config) :=
  match run : prepare env config with
  | .ok prepared =>
    decidable_of_iff (∀ visit ∈ setupVisits env prepared, CallInside prepared visit)
      (by rw [AutoresizeInside, run])
  | .error _ => isTrue (by simp only [AutoresizeInside, run])

/-! ### One call -/

section Call

variable {hd : Hdimage} {size : UInt64} {part : Partition} {resized : Bool}

/-- The error of the call in place is the one of `setupPartAutoresize`. -/
theorem setupPartAutoresize_eq : setupPartAutoresize hd size resized part =
    match setupPartAutoresizeInPlace hd size part resized with
    | (none, result) => .ok result
    | (some error, _) => .error error := by
  unfold setupPartAutoresize setupPartAutoresizeInPlace failIf
  by_cases off : (!part.autoresize) = true
  · rw [if_pos off, if_pos off]
  rw [if_neg off, if_neg off]
  by_cases twice : resized = true
  · rw [if_pos twice, if_pos twice]
    rfl
  rw [if_neg twice, if_neg twice]
  by_cases unsized : size = 0
  · rw [if_pos unsized, if_pos unsized]
    rfl
  rw [if_neg unsized, if_neg unsized]
  by_cases none : toLongLong (autoresizeSpace hd size part) ≤ 0
  · simp only [if_pos none]
    rfl
  simp only [if_neg none]
  by_cases small : toLongLong (autoresizeSpace hd size part) < toLongLong part.size
  · rw [if_pos small, if_pos small]
    rfl
  · rw [if_neg small, if_neg small]
    rfl

theorem toNat_autoresizeSpace :
    (autoresizeSpace hd size part).toNat = wrappedSize hd size part := by
  have word : (if hd.tableType.hasGpt then size - part.offset - gptSectors * 512
      else size - part.offset).toNat = (remaining hd size part % 2 ^ 64).toNat := by
    have bytes : (gptSectors * 512).toNat = 33 * 512 := rfl
    have := size.toNat_lt
    have := part.offset.toNat_lt
    unfold remaining backupBytes
    split_ifs
    · rw [UInt64.toNat_sub, UInt64.toNat_sub, bytes]
      omega
    · rw [UInt64.toNat_sub]
      omega
  rw [autoresizeSpace, toNat_rounddown, word, wrappedSize]
  have := Nat.div_add_mod' (remaining hd size part % 2 ^ 64).toNat part.align.toNat
  omega

/-- Space that is there is no wrapped word. -/
theorem wrappedSize_of_nonneg (inside : 0 ≤ remaining hd size part) :
    (wrappedSize hd size part : Int) = largestSize hd size part := by
  have small : remaining hd size part < 2 ^ 64 := by
    have := size.toNat_lt
    unfold remaining
    omega
  have same : ((remaining hd size part % 2 ^ 64).toNat : Int) = remaining hd size part := by
    rw [Int.emod_eq_of_lt inside small, Int.toNat_of_nonneg inside]
  rw [wrappedSize, largestSize, Nat.cast_mul, Int.natCast_ediv, same]

theorem largestSize_le (hd : Hdimage) (size : UInt64) (nonzero : part.align ≠ 0) :
    largestSize hd size part ≤ remaining hd size part := by
  have positive := toNat_pos.mpr nonzero
  exact Int.ediv_mul_le _ (by omega)

theorem largestSize_neg (nonzero : part.align ≠ 0) (outside : remaining hd size part < 0) :
    largestSize hd size part < 0 := by
  have positive : (0 : Int) < part.align.toNat := by exact_mod_cast toNat_pos.mpr nonzero
  exact mul_neg_of_neg_of_pos (Int.ediv_neg_of_neg_of_pos outside positive) positive

/-- The checks of `setup_part_autoresize`, without the signs. -/
structure Passes (hd : Hdimage) (size : UInt64) (part : Partition) : Prop where
  positive : 0 < wrappedSize hd size part
  signed : wrappedSize hd size part < 2 ^ 63
  enough : part.size.toNat ≤ wrappedSize hd size part

theorem passes_iff (small : part.size.toNat < 2 ^ 63) :
    Passes hd size part ↔ 0 < toLongLong (autoresizeSpace hd size part) ∧
      toLongLong part.size ≤ toLongLong (autoresizeSpace hd size part) := by
  have word := (autoresizeSpace hd size part).toNat_lt
  have space : toLongLong (autoresizeSpace hd size part) =
      if wrappedSize hd size part < 2 ^ 63 then (wrappedSize hd size part : Int)
      else wrappedSize hd size part - 2 ^ 64 := by
    rw [toLongLong, toNat_autoresizeSpace]
  rw [toNat_autoresizeSpace] at word
  rw [space, toLongLong_of_lt small]
  constructor
  · rintro ⟨positive, signed, enough⟩
    rw [if_pos signed]
    omega
  · rintro ⟨positive, enough⟩
    split_ifs at positive enough with signed
    · exact ⟨by omega, signed, by omega⟩
    · omega

/-- **The outcome of a call** for a partition with `autoresize`. -/
theorem inPlace_outcome (on : part.autoresize = true) (small : part.size.toNat < 2 ^ 63) :
    (resized = false ∧ size ≠ 0 ∧ Passes hd size part ∧
      setupPartAutoresizeInPlace hd size part resized =
        (none, part.withSize (autoresizeSpace hd size part), true)) ∨
    ((resized = true ∨ size = 0 ∨ ¬Passes hd size part) ∧
      ∃ error, setupPartAutoresizeInPlace hd size part resized = (some error, part, resized)) := by
  unfold setupPartAutoresizeInPlace
  rw [on, passes_iff small]
  by_cases twice : resized = true
  · exact Or.inr ⟨Or.inl twice, _, if_pos twice⟩
  by_cases unsized : size = 0
  · exact Or.inr ⟨Or.inr (Or.inl unsized), _, (if_neg twice).trans (if_pos unsized)⟩
  simp only [Bool.not_true, Bool.false_eq_true, if_false, if_neg twice, if_neg unsized]
  by_cases none : toLongLong (autoresizeSpace hd size part) ≤ 0
  · exact Or.inr ⟨Or.inr (Or.inr fun both => absurd both.1 (not_lt.mpr none)), _, if_pos none⟩
  by_cases less : toLongLong (autoresizeSpace hd size part) < toLongLong part.size
  · exact Or.inr ⟨Or.inr (Or.inr fun both => absurd both.2 (not_le.mpr less)), _,
      (if_neg none).trans (if_pos less)⟩
  · exact Or.inl ⟨Bool.eq_false_iff.mpr twice, unsized, ⟨not_le.mp none, not_lt.mp less⟩,
      (if_neg none).trans (if_neg less)⟩

/-- Where there is space the checks are about the largest multiple. -/
theorem passes_of_nonneg (nonzero : part.align ≠ 0) (sized : size.toNat < 2 ^ 63)
    (inside : 0 ≤ remaining hd size part) : Passes hd size part ↔
      0 < largestSize hd size part ∧ part.size.toNat ≤ largestSize hd size part := by
  have same := wrappedSize_of_nonneg inside
  have below := largestSize_le hd size nonzero
  have small : remaining hd size part < 2 ^ 63 := by
    unfold remaining
    omega
  constructor
  · rintro ⟨positive, signed, enough⟩
    omega
  · rintro ⟨positive, enough⟩
    exact ⟨by omega, by omega, by omega⟩

/-- **A call is exact** exactly if it does not take a wrapped word for space. -/
theorem autoresizeExact_iff (on : part.autoresize = true) (nonzero : part.align ≠ 0)
    (sized : size.toNat < 2 ^ 63) (small : part.size.toNat < 2 ^ 63) :
    AutoresizeExact hd size part resized ↔
      resized = true ∨ size = 0 ∨ ¬WrapsPositive hd size part := by
  have wrapped (negative : remaining hd size part < 0) :
      WrapsPositive hd size part ↔ Passes hd size part :=
    ⟨fun wraps => ⟨wraps.positive, wraps.signed, wraps.enough⟩,
      fun passes => ⟨negative, passes.positive, passes.signed, passes.enough⟩⟩
  rcases inPlace_outcome on small with ⟨fresh, given, passes, outcome⟩ | ⟨why, error, outcome⟩
  · by_cases inside : 0 ≤ remaining hd size part
    · have ⟨positive, enough⟩ := (passes_of_nonneg nonzero sized inside).mp passes
      refine iff_of_true ⟨?_, ?_, ?_⟩ (Or.inr (Or.inr fun wraps => ?_))
      · rw [outcome, fresh]
        simp [given, positive, enough]
      · rw [outcome]
        exact nofun
      · rw [outcome]
        refine fun _ => ⟨_, rfl, ?_⟩
        rw [toNat_autoresizeSpace]
        exact wrappedSize_of_nonneg inside
      · exact absurd inside (not_le.mpr wraps.negative)
    · have negative := not_le.mp inside
      refine iff_of_false (fun precise => ?_) ?_
      · have failed := precise.fails.mpr
          (Or.inr (Or.inr (Or.inl (largestSize_neg nonzero negative).le)))
        rw [outcome] at failed
        cases failed
      · rw [fresh, wrapped negative]
        simp [given, passes]
  · have short : ¬Passes hd size part → largestSize hd size part ≤ 0 ∨
        largestSize hd size part < part.size.toNat := by
      intro fails
      by_cases inside : 0 ≤ remaining hd size part
      · rw [passes_of_nonneg nonzero sized inside] at fails
        omega
      · exact Or.inl (largestSize_neg nonzero (not_le.mp inside)).le
    refine iff_of_true ⟨?_, ?_, ?_⟩ ?_
    · rw [outcome]
      refine iff_of_true rfl ?_
      rcases why with twice | unsized | fails
      · exact Or.inr (Or.inl twice)
      · exact Or.inl unsized
      · exact Or.inr (Or.inr (short fails))
    · rw [outcome]
      exact fun _ => rfl
    · rw [outcome]
      exact nofun
    · refine why.imp_right fun why => why.imp_right fun fails wraps => ?_
      exact fails ((wrapped wraps.negative).mp wraps)

end Call

/-! ### A whole run -/

section Run

variable {env : Env} {hd : Hdimage} {size given : UInt64} {part placed : Partition}

/-- **A resized partition fills the image** exactly if its offset leaves space. -/
theorem SizeRule.fillsImage_iff (rule : SizeRule env hd size given placed)
    (on : placed.autoresize = true) (nonzero : placed.align ≠ 0) (sized : size.toNat < 2 ^ 63)
    (small : given.toNat < 2 ^ 63)
    (data : ∀ image child, placed.image = some image → env.imageGet image = some child →
      child.dataSize placed.imageoffset ≤ placed.size) :
    FillsImage env hd size given placed ↔
      placed.offset.toNat + backupBytes hd.tableType ≤ size.toNat := by
  constructor
  · intro fills
    have := fills.greatest.1.2
    omega
  intro inside
  have space : 0 ≤ remaining hd size placed := by
    unfold remaining
    omega
  cases rule with
  | option off => exact absurd on (by simp [off])
  | unset off => exact absurd on (by simp [off])
  | data off => exact absurd on (by simp [off])
  | autoresize _ same positive enough =>
    have below := largestSize_le hd size nonzero
    have largest : (placed.size.toNat : Int) = largestSize hd size placed := by
      rw [same, toNat_autoresizeSpace]
      exact wrappedSize_of_nonneg space
    have remains : remaining hd size placed =
        size.toNat - placed.offset.toNat - backupBytes hd.tableType := rfl
    have value : toLongLong placed.size = placed.size.toNat := toLongLong_of_lt (by omega)
    rw [value] at positive enough
    rw [toLongLong_of_lt small] at enough
    refine ⟨?_, ⟨⟨?_, by omega⟩, ?_⟩, by omega, by omega, ?_⟩
    · rintro rfl
      have : (0 : UInt64).toNat = 0 := rfl
      omega
    · rw [same]
      exact dvd_rounddown _ _
    · rintro bytes ⟨⟨count, rfl⟩, fits⟩
      have fits : (placed.align.toNat * count : Int) ≤ remaining hd size placed := by
        rw [remains]
        omega
      have quotient : (count : Int) ≤ remaining hd size placed / placed.align.toNat :=
        (Int.le_ediv_iff_mul_le (by exact_mod_cast toNat_pos.mpr nonzero)).mpr
          (by rwa [mul_comm])
      have bound := mul_le_mul_of_nonneg_right quotient (Nat.cast_nonneg placed.align.toNat)
      rw [← largestSize, ← largest, mul_comm] at bound
      exact_mod_cast bound
    · exact fun image child named known => UInt64.le_iff_toNat_le.mp (data image child named known)

/-- At most one partition is resized, and the flag says whether there is one. -/
theorem autoresize_once {parts : List Partition} {start final : SetupState} (empty : start.done = [])
    (fresh : start.resized = false)
    (run : parts.foldlM (setupPart env hd size) start = .ok final) :
    final.done.countP (·.autoresize) = if final.resized then 1 else 0 := by
  refine loop_invariant (fun _ state => state.done.countP (·.autoresize) =
    if state.resized then 1 else 0) ?_ ?_ run
  · rw [empty, fresh]
    rfl
  · intro done part rest state placed next _ count step
    have kept : (state.done.map (Partition.grow next.now)).countP (·.autoresize) =
        state.done.countP (·.autoresize) := by
      rw [List.countP_map]
      rfl
    have passed : next.done.countP (·.autoresize) =
        state.done.countP (·.autoresize) + if placed.autoresize then 1 else 0 := by
      obtain ⟨keep, same, ⟨_, rfl⟩ | ⟨_, rfl⟩⟩ := step.done_cases
      · rw [same, List.countP_append, kept, List.countP_singleton]
      · rw [same, List.countP_append, List.map_id, List.countP_singleton]
    rw [passed, count, step.resized_eq]
    cases on : placed.autoresize with
    | false => simp
    | true => simp [(step.resized_once on).1]

/-- Only a partition of the configuration is resized. -/
theorem Ready.parsed_of_autoresize {config : HdimageConfig} {prepared : Prepared}
    (ready : Ready env config prepared) (member : part ∈ prepared.partitions)
    (on : part.autoresize = true) : part.node = .parsed := by
  obtain ⟨parts, scanned, list⟩ := ready.list_eq
  rw [list, List.mem_append] at member
  rcases member with member | member
  · rcases setupLogicalPartitions_mem scanned member with ⟨_, _, _, rfl⟩ | ⟨_, _, rfl⟩
    · rfl
    · cases on
  · unfold tableAreas at member
    split_ifs at member
    all_goals simp only [List.mem_cons, List.not_mem_nil, or_false] at member
    · rcases member with rfl | rfl | rfl | rfl <;> cases on
    · rw [member] at on
      cases on

/-- The offsets of the calls are those of the resized partitions in the final list. -/
theorem autoresizeInside_iff {config : HdimageConfig} {prepared : Prepared} {state : SetupState}
    (run : prepare env config = .ok prepared)
    (loop : prepared.partitions.foldlM (setupPart env prepared.hd prepared.size) prepared.start =
      .ok state) :
    AutoresizeInside env config ↔ ∀ placed ∈ state.done, placed.autoresize = true →
      placed.offset.toNat + backupBytes prepared.hd.tableType ≤ prepared.size.toNat := by
  rw [AutoresizeInside, run]
  refine Related.forall_iff (loop_visits rfl loop) ?_
  rintro ⟨before, part⟩ placed ⟨length, next, step, _⟩
  have offset : placed.offset = chosenOffset prepared.hd before.now (part.withAlign prepared.hd) :=
    step.offset_eq
  have on : (placed.withSize length).autoresize = part.autoresize := step.autoresize_eq
  rw [CallInside, offset, ← on]
  rfl

/-- **An accepted layout is exact** exactly if every call has its offset inside the image. -/
theorem hdimageSetup_autoresize_iff {config : HdimageConfig} {layout : Layout}
    (accepted : hdimageSetup env config = .ok layout)
    (sized : outputSize env config.size = .ok size) (small : size.toNat < 2 ^ 63)
    (smalls : ∀ partsec ∈ config.partitions, partsec.size.toNat < 2 ^ 63) :
    AutoresizeLayout env config size layout ↔ AutoresizeInside env config := by
  obtain ⟨prepared, state, run, ready, loop, finished⟩ := hdimageSetup_ok accepted
  obtain ⟨prepared', run', _, sections⟩ := setup_sections accepted
  rw [run, Except.ok.injEq] at run'
  subst run'
  rw [ready.size, Except.ok.injEq] at sized
  subst sized
  have parsed : ∀ placed ∈ state.done, placed.autoresize = true → placed.node = .parsed := by
    intro placed among on
    obtain ⟨part, member, origin⟩ := Related.exists_left (loop_origins rfl loop) among
    rw [origin.node_eq]
    exact ready.parsed_of_autoresize member ((congrArg Partition.autoresize origin.kept).symm.trans on)
  have fills : List.Forall₂ (fun partsec placed => partsec.autoresize = true →
        FillsImage env layout.hd prepared.size partsec.size placed)
      config.partitions (userPartitions layout.partitions) ↔
      ∀ placed ∈ userPartitions layout.partitions, placed.autoresize = true →
        placed.offset.toNat + backupBytes prepared.hd.tableType ≤ prepared.size.toNat := by
    have both : List.Forall₂ (fun partsec placed => partsec.size.toNat < 2 ^ 63 ∧ ∃ part,
        FromSection partsec part ∧ Origin env prepared.hd prepared.size part placed)
        config.partitions (userPartitions layout.partitions) :=
      List.forall₂_iff_zip.mpr ⟨sections.length_eq, fun member =>
        ⟨smalls _ (List.of_mem_zip member).1, (List.forall₂_iff_zip.mp sections).2 member⟩⟩
    refine Related.forall₂_iff both ?_
    rintro partsec placed ⟨given, _, ⟨logical, rfl⟩, origin⟩
    have on : placed.autoresize = partsec.autoresize := congrArg Partition.autoresize origin.kept
    have other : placed.node ≠ .extended := by
      rw [origin.node_eq]
      exact nofun
    have nonzero : placed.align ≠ 0 := by
      rw [origin.align_eq]
      exact withAlign_align_ne_zero ready.align_ne_zero _
    obtain ⟨rule, _, _, data⟩ := origin.sized other
    rw [on, finished.hd_eq]
    refine imp_congr_right fun set => ?_
    exact rule.fillsImage_iff (on.trans set) nonzero small given data
  have listed : (∀ placed ∈ userPartitions layout.partitions, placed.autoresize = true →
        placed.offset.toNat + backupBytes prepared.hd.tableType ≤ prepared.size.toNat) ↔
      AutoresizeInside env config := by
    rw [autoresizeInside_iff run loop, finished.partitions_eq]
    refine ⟨fun inside placed among on => ?_, fun inside placed among => ?_⟩
    · exact inside placed (List.mem_filter.mpr ⟨among, by simpa using parsed placed among on⟩) on
    · exact inside placed (List.mem_filter.mp among).1
  have once : layout.partitions.countP (·.autoresize) ≤ 1 := by
    rw [finished.partitions_eq, autoresize_once rfl rfl loop]
    split_ifs <;> decide
  rw [← listed, ← fills]
  exact ⟨fun precise => precise.fills, fun filled => ⟨once, filled⟩⟩

end Run

/-- **When `autoresize` is exact.** -/
theorem autoresize_exact_iff (size : UInt64) (sized : size.toNat < 2 ^ 63) :
    (∀ (hd : Hdimage) (part : Partition) (resized : Bool),
      part.autoresize = true → part.align ≠ 0 → part.size.toNat < 2 ^ 63 →
      (AutoresizeExact hd size part resized ↔
        resized = true ∨ size = 0 ∨ ¬WrapsPositive hd size part)) ∧
    ∀ (env : Env) (config : HdimageConfig) (layout : Layout),
      hdimageSetup env config = .ok layout → outputSize env config.size = .ok size →
      (∀ partsec ∈ config.partitions, partsec.size.toNat < 2 ^ 63) →
      (AutoresizeLayout env config size layout ↔ AutoresizeInside env config) :=
  ⟨fun _ _ _ on nonzero small => autoresizeExact_iff on nonzero sized small,
    fun _ _ _ accepted output smalls => hdimageSetup_autoresize_iff accepted output sized smalls⟩

/-- The handler data of a table type, with the defaults of the options. -/
def plainHdimage (tableType : TableType) : Hdimage where
  extendedPartitionIndex := 0
  align := effectiveAlign tableType 0
  disksig := 0
  diskUuid := ""
  tableType := tableType
  gptLocation := 2 * 512
  gptNoBackup := false
  fill := false

/-- A boot partition in front of one that takes the rest. -/
def filledConfig : HdimageConfig where
  size := 4194304
  options := { partitionTableType := "gpt" }
  partitions := [
    { title := "boot", size := 65536 },
    { title := "data", size := 4096, align := 4096, autoresize := true }]

theorem autoresize_exact_iff_filled :
    AutoresizeExact (plainHdimage .gpt) 4194304
      ((parsePartition { title := "data", autoresize := true, align := 4096 }).withOffset 86016)
      false ∧
    ∃ layout, hdimageSetup .bare filledConfig = .ok layout ∧
      AutoresizeLayout .bare filledConfig 4194304 layout := by
  obtain ⟨layout, accepted, _⟩ := exists_layout .bare filledConfig (fun _ => true) (by decide +kernel)
  refine ⟨?_, layout, accepted, ?_⟩
  · refine ((autoresize_exact_iff 4194304 (by decide)).1 _ _ _ rfl (by decide)
      (by decide +kernel)).mpr ?_
    exact Or.inr (Or.inr fun wraps => absurd wraps.negative (by decide +kernel))
  · exact ((autoresize_exact_iff 4194304 (by decide)).2 _ _ _ accepted rfl (by decide)).mpr
      (by decide +kernel)

/-- A large `align`, and the first multiple of it that is free is behind the image. -/
def wrappedConfig : HdimageConfig where
  size := 7 * 2 ^ 60
  options := { partitionTableType := "none" }
  partitions := [
    { title := "boot", size := 6 * 2 ^ 60 + 1 },
    { title := "data", align := 6 * 2 ^ 60, autoresize := true }]

/-- The second of two partitions begins behind a place. -/
def secondBehind (place : Nat) (layout : Layout) : Bool :=
  match userPartitions layout.partitions with
  | [_, placed] => decide (place < placed.offset.toNat)
  | _ => false

/-- **A partition behind the end of the image is resized**, in one call and in an accepted run. -/
theorem autoresize_takes_wrapped :
    ¬ AutoresizeExact (plainHdimage .none) (2 ^ 62)
      ((parsePartition { title := "data", autoresize := true, align := 2 ^ 63 - 2 ^ 20 }).withOffset
        (2 ^ 62 + 2 ^ 22)) false ∧
    ∃ layout, hdimageSetup .bare wrappedConfig = .ok layout ∧
      ¬ AutoresizeLayout .bare wrappedConfig (7 * 2 ^ 60) layout := by
  constructor
  · intro precise
    have failed := precise.fails.mpr (Or.inr (Or.inr (Or.inl (by decide +kernel))))
    exact absurd failed (by decide +kernel)
  · obtain ⟨layout, accepted, beyond⟩ := exists_layout .bare wrappedConfig
      (secondBehind (7 * 2 ^ 60)) (by decide +kernel)
    refine ⟨layout, accepted, fun precise => ?_⟩
    have fills := precise.fills
    unfold secondBehind at beyond
    split at beyond
    next first placed list =>
      rw [list] at fills
      obtain ⟨_, tail⟩ := List.forall₂_cons.mp fills
      obtain ⟨filled, _⟩ := List.forall₂_cons.mp tail
      have inside := (filled rfl).greatest.1.2
      have beyond := of_decide_eq_true beyond
      have : (7 * 2 ^ 60 : UInt64).toNat = 7 * 2 ^ 60 := by decide +kernel
      omega
    next => cases beyond

end Genimage
