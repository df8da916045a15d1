/-
**What a verity-sig image signs.**

`SignsRight` is asked of the calls of a run: when a `verity-sig` image is generated, the verity image
that its `image` option names has been generated, and is the last verity image to have written the
root hash that is read. Only the certificate and the key are dependencies of a `verity-sig` image, so
the order is left to the sections; and two verity images can share a path.

`SignsWhen` is the condition on the sections, in terms of `Earlier`; `veritySig_signs_iff` says that
it is exact. The calls of a run are those of a prefix of the order of a complete walk
(`pass_ran`, `generated_prefix`), and every generate handler but the last has returned `0`.
-/

import Genimage.Image.Verity
import Genimage.Library.Postorder
import Genimage.Library.Related

namespace Genimage

open Library Library.Walk

/-! ### The property and the condition -/

section Property

variable (paths : Paths) (sections : List ImageSection) (images : List Image)

/-- **A verity-sig image names a verity image.** -/
def Signs (sig verity : Fin images.length) : Prop :=
  ∃ name, signedName sections images sig = some name ∧ imageGet images name = some verity ∧
    isVerity sections images verity = true

/-- The path of the root hash of a verity image. -/
def rootHash (verity : Fin images.length) : String :=
  verityTmpPath paths (images.get verity).file "root-hash"

/-- The generate handler of an image has returned `0`. -/
def Completed (outside : Outside (Fin images.length)) (log : List (Call (Fin images.length)))
    (image : Fin images.length) : Prop :=
  ∃ front back, log = front ++ .generate image :: back ∧ outside.reply front (.generate image) = 0

/-- **Every verity-sig image finds the root hash of the image that it names.** -/
def SignsRight (outside : Outside (Fin images.length)) (log : List (Call (Fin images.length))) :
    Prop :=
  ∀ before sig after, log = before ++ .generate sig :: after → ∀ verity,
    Signs sections images sig verity → Completed images outside before verity ∧
      rootHashWriter paths sections images before (rootHash paths images verity) = some verity

/-- One image is generated before another one. -/
def GeneratedBefore (first second : Fin images.length) : Prop :=
  Earlier (refs images) first second ((List.finRange images.length).map some)

/-- **When it is so**: the verity image is generated before the verity-sig image, and no other verity
image that writes the same path comes between the two. -/
def SignsWhen : Prop :=
  ∀ sig verity, Signs sections images sig verity → GeneratedBefore images verity sig ∧
    ∀ other, other ≠ verity →
      verityWrites paths sections images other (rootHash paths images verity) = true →
      GeneratedBefore images sig other ∨ GeneratedBefore images other verity

end Property

/-! ### The images of a configuration -/

section Images

variable {sections : List ImageSection} {images : List Image}

theorem imageGet_isSome {name : String} :
    (imageGet images name).isSome = true ↔ ∃ image ∈ images, image.file = name := by
  unfold imageGet
  rw [← Option.ne_none_iff_isSome, ne_eq, List.findFinIdx?_eq_none_iff]
  simp

theorem mem_addImplicit {name : String} {image : Image} :
    image ∈ addImplicit images name → image ∈ images ∨ image = { file := name } := by
  unfold addImplicit
  split_ifs
  · exact Or.inl
  · exact fun member => (List.mem_append.mp member).imp id List.mem_singleton.mp

theorem addImplicit_begins (name : String) : images <+: addImplicit images name := by
  unfold addImplicit
  split_ifs
  · exact List.prefix_rfl
  · exact List.prefix_append _ _

theorem addImplicit_has (images : List Image) (name : String) :
    ∃ image ∈ addImplicit images name, image.file = name := by
  unfold addImplicit
  split_ifs with known
  · exact imageGet_isSome.mp known
  · exact ⟨_, List.mem_append_right _ List.mem_cons_self, rfl⟩

/-- The loop over the names adds `file` images until each name has an image. -/
theorem foldl_addImplicit (names : List String) : ∀ images : List Image,
    images <+: names.foldl addImplicit images ∧
    (∀ image ∈ names.foldl addImplicit images,
      image ∈ images ∨ ∃ name, image = { file := name }) ∧
    ∀ name ∈ names, ∃ image ∈ names.foldl addImplicit images, image.file = name := by
  induction names with
  | nil => exact fun images => ⟨List.prefix_rfl, fun _ => Or.inl, by simp⟩
  | cons name names ih =>
    intro images
    rw [List.foldl_cons]
    obtain ⟨begins, origin, has⟩ := ih (addImplicit images name)
    refine ⟨(addImplicit_begins name).trans begins, fun image member => ?_, fun other among => ?_⟩
    · rcases origin image member with old | new
      · exact (mem_addImplicit old).imp id fun same => ⟨name, same⟩
      · exact Or.inr new
    · rcases List.mem_cons.mp among with rfl | later
      · obtain ⟨image, member, named⟩ := addImplicit_has images other
        exact ⟨image, begins.subset member, named⟩
      · exact has other later

/-- Every handler has a generate function. -/
theorem parseImage_hasGenerate {imagesec : ImageSection} {image : Image}
    (parsed : parseImage imagesec = .ok image) : image.hasGenerate = true := by
  simp only [parseImage, do_eq_ok, pure_eq_ok] at parsed
  obtain ⟨added, _, rfl⟩ := parsed
  rfl

/-- **The images can be resolved**, and all have a generate function. -/
theorem imagesOf_ok (parsed : imagesOf sections = .ok images) :
    (∀ image, none ∉ refs images image) ∧ ∀ image, (images.get image).hasGenerate = true := by
  simp only [imagesOf, do_eq_ok, pure_eq_ok] at parsed
  obtain ⟨own, parsed, rfl⟩ := parsed
  obtain ⟨begins, origin, has⟩ := foldl_addImplicit
    (own.flatMap fun image => image.partitions.filterMap id) own
  constructor
  · intro image absent
    obtain ⟨part, member, lost⟩ := List.mem_filterMap.mp absent
    cases part with
    | none => cases lost
    | some name =>
      have known : ∃ image ∈ addImplicits own, image.file = name := by
        rcases origin _ (List.get_mem _ image) with old | ⟨file, same⟩
        · exact has name (List.mem_flatMap.mpr ⟨_, old, List.mem_filterMap.mpr ⟨_, member, rfl⟩⟩)
        · have none : ((addImplicits own).get image).partitions = [] := congrArg Image.partitions same
          rw [none] at member
          cases member
      rw [← imageGet_isSome, Option.some.inj lost] at known
      cases known
  · intro image
    rcases origin _ (List.get_mem _ image) with old | ⟨file, same⟩
    · obtain ⟨imagesec, _, from'⟩ := Related.exists_left (Related.of_mapM parsed) old
      exact parseImage_hasGenerate from'
    · exact congrArg Image.hasGenerate same

end Images

/-! ### The calls of a run -/

section Calls

variable {images : List Image} {outside : Outside (Fin images.length)}
  {log : List (Call (Fin images.length))}

theorem generated_append {ι : Type} (log more : List (Call ι)) :
    generated (log ++ more) = generated log ++ generated more :=
  List.filterMap_append

/-- Every generate handler has returned `0`. -/
def Answered (outside : Outside (Fin images.length)) (log : List (Call (Fin images.length))) :
    Prop :=
  ∀ front image back, log = front ++ .generate image :: back →
    outside.reply front (.generate image) = 0

/-- Every generate handler but the last has returned `0`. -/
def AnsweredButLast (outside : Outside (Fin images.length))
    (log : List (Call (Fin images.length))) : Prop :=
  ∀ front image back, log = front ++ .generate image :: back →
    outside.reply front (.generate image) = 0 ∨ generated back = []

theorem Answered.butLast (answered : Answered outside log) : AnsweredButLast outside log :=
  fun front image back split => Or.inl (answered front image back split)

theorem Answered.snoc (answered : Answered outside log) {event : Call (Fin images.length)}
    (zero : ∀ image, event = .generate image → outside.reply log event = 0) :
    Answered outside (log ++ [event]) := by
  intro front image back split
  rcases Related.snoc_eq_split split with ⟨rfl, rfl⟩ | ⟨rest, same⟩
  · exact zero image rfl
  · exact answered front image rest same

theorem Answered.snoc_butLast (answered : Answered outside log) (event : Call (Fin images.length)) :
    AnsweredButLast outside (log ++ [event]) := by
  intro front image back split
  rcases List.eq_nil_or_concat back with rfl | ⟨rest, last, rfl⟩
  · exact Or.inr rfl
  · rw [List.concat_eq_append, ← List.cons_append, ← List.append_assoc] at split
    exact Or.inl (answered front image rest (List.append_inj' split rfl).1)

theorem AnsweredButLast.snoc (answered : AnsweredButLast outside log)
    {event : Call (Fin images.length)} (other : ∀ image, event ≠ .generate image) :
    AnsweredButLast outside (log ++ [event]) := by
  intro front image back split
  rcases List.eq_nil_or_concat back with rfl | ⟨rest, last, rfl⟩
  · exact Or.inr rfl
  · rw [List.concat_eq_append, ← List.cons_append, ← List.append_assoc] at split
    obtain ⟨same, final⟩ := List.append_inj' split rfl
    obtain rfl : event = last := (List.cons.inj final).1
    refine (answered front image rest same).imp id fun none => ?_
    rw [List.concat_eq_append, generated_append, none]
    cases event with
    | generate image => exact absurd rfl (other image)
    | _ => rfl

/-- A log with more calls of other kinds. -/
structure Quiet (outside : Outside (Fin images.length))
    (log next : List (Call (Fin images.length))) : Prop where
  generated : generated next = generated log
  answered : Answered outside log → Answered outside next
  butLast : AnsweredButLast outside log → AnsweredButLast outside next

theorem call_quiet (outside : Outside (Fin images.length)) (log : List (Call (Fin images.length)))
    (event : Call (Fin images.length)) (other : ∀ image, event ≠ .generate image) :
    Quiet outside log (call images outside event log).2 where
  generated := by
    rw [call, generated_append]
    cases event with
    | generate image => exact absurd rfl (other image)
    | _ => exact List.append_nil _
  answered answered := answered.snoc fun image same => absurd same (other image)
  butLast answered := answered.snoc other

theorem callIf_quiet (outside : Outside (Fin images.length)) (log : List (Call (Fin images.length)))
    (condition : Bool) (event : Call (Fin images.length)) (other : ∀ image, event ≠ .generate image) :
    Quiet outside log (callIf images outside condition event log).2 := by
  unfold callIf
  split_ifs
  · exact call_quiet outside log event other
  · exact ⟨rfl, id, id⟩

/-- **What a generation adds to a log**: nothing but itself, and itself when it succeeds. -/
structure Adds (outside : Outside (Fin images.length)) (image : Fin images.length)
    (log : List (Call (Fin images.length))) (result : Int × List (Call (Fin images.length))) :
    Prop where
  success : result.1 = 0 →
    Answered outside result.2 ∧ generated result.2 = generated log ++ [image]
  butLast : AnsweredButLast outside result.2
  generated : generated result.2 = generated log ∨ generated result.2 = generated log ++ [image]

theorem Adds.fail {image : Fin images.length} {result : Int × List (Call (Fin images.length))}
    (answered : Answered outside log) (quiet : Quiet outside log result.2) (failed : result.1 ≠ 0) :
    Adds outside image log result :=
  ⟨fun zero => absurd zero failed, (quiet.answered answered).butLast, Or.inl quiet.generated⟩

/-- Behind other calls. -/
theorem Adds.behind {image : Fin images.length} {first : Int × List (Call (Fin images.length))}
    {rest : List (Call (Fin images.length)) → Int × List (Call (Fin images.length))}
    (answered : Answered outside log) (quiet : Quiet outside log first.2)
    (adds : Adds outside image first.2 (rest first.2)) :
    Adds outside image log (andThen first rest) := by
  unfold andThen
  split_ifs with failed
  · exact .fail answered quiet failed
  · obtain ⟨success, butLast, more⟩ := adds
    rw [quiet.generated] at success more
    exact ⟨success, butLast, more⟩

/-- In front of other calls. -/
theorem Adds.inFront {image : Fin images.length} {first : Int × List (Call (Fin images.length))}
    {rest : List (Call (Fin images.length)) → Int × List (Call (Fin images.length))}
    (adds : Adds outside image log first) (quiet : Quiet outside first.2 (rest first.2).2) :
    Adds outside image log (andThen first rest) := by
  unfold andThen
  split_ifs with failed
  · exact adds
  · obtain ⟨answered, more⟩ := adds.success (not_not.mp failed)
    have same := quiet.generated.trans more
    exact ⟨fun _ => ⟨quiet.answered answered, same⟩, (quiet.answered answered).butLast, Or.inr same⟩

theorem generateHandler_adds (image : Fin images.length) (answered : Answered outside log) :
    Adds outside image log (generateHandler images outside image log) := by
  have noted : generated (log ++ [.generate image]) = generated log ++ [image] :=
    generated_append _ _
  by_cases has : !(images.get image).hasGenerate
  · rw [generateHandler, if_pos has]
    exact .fail answered ⟨rfl, id, id⟩ (show einval ≠ 0 by decide)
  · have run : generateHandler images outside image log = (outside.reply log (.generate image),
        if outside.reply log (.generate image) ≠ 0 ∧
            outside.removable (log ++ [.generate image]) image then
          (call images outside (.remove image) (log ++ [.generate image])).2
        else log ++ [.generate image]) := if_neg has
    rw [run]
    split_ifs with failed
    · have quiet := call_quiet outside (log ++ [.generate image]) (.remove image)
        fun other same => by cases same
      exact ⟨fun zero => absurd zero failed.1, quiet.butLast (answered.snoc_butLast _),
        Or.inr (quiet.generated.trans noted)⟩
    · refine ⟨fun zero => ⟨answered.snoc fun other same => ?_, noted⟩, answered.snoc_butLast _,
        Or.inr noted⟩
      exact zero

/-- **What `image_generate` adds to the log behind its loop.** -/
theorem generateBody_adds (image : Fin images.length) (answered : Answered outside log) :
    Adds outside image log (generateBody images outside image log) := by
  have setenv := call_quiet outside log (.setenv image) nofun
  have execPre := callIf_quiet outside (call images outside (.setenv image) log).2
    (images.get image).execPre (.execPre image) nofun
  have handler := generateHandler_adds image (execPre.answered (setenv.answered answered))
  have execPost := callIf_quiet outside (generateHandler images outside image
    (callIf images outside (images.get image).execPre (.execPre image)
      (call images outside (.setenv image) log).2).2).2
    (images.get image).execPost (.execPost image) nofun
  exact .behind answered setenv (.behind (setenv.answered answered) execPre
    (handler.inFront execPost))

/-- The generations that succeed. -/
theorem generated_of_allZero (order : List (Fin images.length)) :
    ∀ log : List (Call (Fin images.length)), Answered outside log →
      AllZero (generateBody images outside) order log →
      Answered outside (runBodies (generateBody images outside) order log) ∧
        generated (runBodies (generateBody images outside) order log) = generated log ++ order := by
  induction order with
  | nil => exact fun log answered _ => ⟨answered, (List.append_nil _).symm⟩
  | cons image rest ih =>
    intro log answered zero
    obtain ⟨answered', same⟩ := (generateBody_adds image answered).success zero.1
    obtain ⟨all, generated⟩ := ih _ answered' zero.2
    refine ⟨all, generated.trans ?_⟩
    rw [same, List.append_assoc, List.singleton_append]

/-- **The generate handlers that a pass calls** are those of a prefix of its order. -/
theorem generated_prefix {start next : List (Call (Fin images.length))} {ret : Int}
    {order : List (Fin images.length)} (ran : Ran (generateBody images outside) start next ret order)
    (answered : Answered outside start) (none : generated start = []) :
    AnsweredButLast outside next ∧ generated next <+: order ∧
      (ret = 0 → generated next = order) := by
  obtain ⟨rfl, good, last, rfl, zero, few, all⟩ := ran
  obtain ⟨answered', same⟩ := generated_of_allZero good start answered zero
  rw [none, List.nil_append] at same
  have split : runBodies (generateBody images outside) (good ++ last) start =
      runBodies (generateBody images outside) last
        (runBodies (generateBody images outside) good start) := List.foldl_append
  rw [split]
  rcases last with _ | ⟨image, _ | ⟨_, _⟩⟩
  · rw [List.append_nil]
    exact ⟨answered'.butLast, ⟨[], (List.append_nil _).trans same⟩, fun _ => same⟩
  · have adds := generateBody_adds image answered'
    refine ⟨adds.butLast, ?_, fun zero => absurd (all zero) (List.cons_ne_nil _ _)⟩
    rcases adds.generated with old | new
    · exact ⟨[image], congrArg (· ++ [image]) (old.trans same)⟩
    · rw [same] at new
      exact ⟨[], (List.append_nil _).trans new⟩
  · simp at few

end Calls

/-! ### Who has written the root hash -/

section Writer

variable {paths : Paths} {sections : List ImageSection} {images : List Image}
  {outside : Outside (Fin images.length)}

/-- A verity image writes its root hash. -/
theorem verityWrites_rootHash (paths : Paths) {verity : Fin images.length}
    (own : isVerity sections images verity = true) :
    verityWrites paths sections images verity (rootHash paths images verity) = true := by
  unfold verityWrites rootHash
  rw [own, Bool.true_and]
  unfold isVerity at own
  cases found : sectionOf sections images verity with
  | none =>
    rw [found] at own
    cases own
  | some imagesec =>
    have file : imagesec.file = (images.get verity).file := by
      simpa using (List.find?_eq_some_iff_append.mp found).1
    simp [file]

/-- A verity-sig image is no verity image. -/
theorem Signs.ne_writer {sig verity : Fin images.length} (signs : Signs sections images sig verity)
    {other : Fin images.length} {path : String}
    (writes : verityWrites paths sections images other path = true) : sig ≠ other := by
  rintro rfl
  obtain ⟨name, named, _⟩ := signs
  unfold verityWrites isVerity at writes
  unfold signedName at named
  split at named
  next same =>
    rw [same] at writes
    cases writes
  next => cases named

/-- **The last writer of a path** is generated, and no other writer behind it. -/
theorem rootHashWriter_eq_some {log : List (Call (Fin images.length))} {path : String}
    {verity : Fin images.length} : rootHashWriter paths sections images log path = some verity ↔
      verityWrites paths sections images verity path = true ∧ ∃ front back,
        generated log = front ++ verity :: back ∧
          ∀ other ∈ back, verityWrites paths sections images other path = false := by
  unfold rootHashWriter
  rw [List.find?_eq_some_iff_append]
  refine and_congr_right fun _ => ⟨?_, ?_⟩
  · rintro ⟨back, front, same, others⟩
    refine ⟨front.reverse, back.reverse, ?_, fun other member => ?_⟩
    · rw [← List.reverse_reverse (generated log), same]
      simp
    · simpa using others other (List.mem_reverse.mp member)
  · rintro ⟨front, back, same, others⟩
    refine ⟨back.reverse, front.reverse, ?_, fun other member => ?_⟩
    · rw [same]
      simp
    · simpa using others other (List.mem_reverse.mp member)

end Writer

/-! ### When a verity-sig image signs the right root hash -/

section Main

variable {paths : Paths} {sections : List ImageSection} {images : List Image}
  {outside : Outside (Fin images.length)} {ret : Int} {start marks : Marks images}

/-- The setup pass makes no other calls. -/
theorem setupAll_quiet (run : setupAll images outside (Marks.fresh images) = some (ret, marks)) :
    ∀ event ∈ marks.world, ∃ image, event = .setup image := by
  obtain ⟨order, same, _⟩ := pass_ran (by simp) run
  rw [runBodies_log setupBody_log] at same
  intro event member
  rw [same] at member
  obtain ⟨image, _, among⟩ := List.mem_flatMap.mp ((List.nil_append _) ▸ member)
  unfold setupCalls at among
  split_ifs at among
  · exact ⟨image, List.mem_singleton.mp among⟩
  · cases among

/-- The setup pass calls no generate handler. -/
theorem setupAll_generated (run : setupAll images outside (Marks.fresh images) = some (ret, marks)) :
    Answered outside marks.world ∧ generated marks.world = [] := by
  have quiet := setupAll_quiet run
  constructor
  · intro front image back split
    obtain ⟨other, same⟩ := quiet (.generate image) (by rw [split]; simp)
    cases same
  · rw [generated, List.filterMap_eq_nil_iff]
    intro event member
    obtain ⟨image, rfl⟩ := quiet event member
    rfl

/-- **The order in which a run calls the generate handlers.** -/
theorem generateAll_order (acyclic : Acyclic (refs images))
    (resolvable : ∀ image, none ∉ refs images image) (clean : MarksIn (· ≤ 0) start)
    (answered : Answered outside start.world) (none : generated start.world = [])
    (run : generateAll images outside start = some (ret, marks)) :
    ∃ order, Postorder (refs images) ((List.finRange images.length).map some) order ∧
      AnsweredButLast outside marks.world ∧ generated marks.world <+: order ∧
      (ret = 0 → generated marks.world = order) := by
  have fresh : ∀ image, ¬ Seen generatePass start image := fun image => by
    simpa [Seen, generatePass] using (clean image).1
  have fresh' : ∀ image, ¬ Done generatePass start image := fun image => by
    simpa [Done, generatePass] using (clean image).2
  obtain ⟨order, postorder, ran, begins, bodies, whole⟩ :=
    pass_postorder (by simp) acyclic resolvable List.mem_finRange fresh fresh' run
  obtain ⟨butLast, calls, all⟩ := generated_prefix bodies answered none
  exact ⟨order, postorder, butLast, calls.trans begins, fun zero => (all zero).trans (whole zero)⟩

/-- The images that are generated in front of another one. -/
theorem generated_split {before after : List (Call (Fin images.length))} {image : Fin images.length}
    (split : marks.world = before ++ .generate image :: after) :
    generated marks.world = generated before ++ image :: generated after := by
  rw [split, generated_append]
  rfl

theorem mem_generated {log : List (Call (Fin images.length))} {image : Fin images.length} :
    image ∈ generated log ↔ .generate image ∈ log := by
  unfold generated
  rw [List.mem_filterMap]
  constructor
  · rintro ⟨event, member, same⟩
    cases event <;> cases same
    exact member
  · exact fun member => ⟨_, member, rfl⟩

/-- **Under the condition** every verity-sig image that is generated finds its root hash. -/
theorem SignsWhen.signsRight {order : List (Fin images.length)}
    (condition : SignsWhen paths sections images)
    (postorder : Postorder (refs images) ((List.finRange images.length).map some) order)
    (answered : AnsweredButLast outside marks.world) (begins : generated marks.world <+: order) :
    SignsRight paths sections images outside marks.world := by
  intro before sig after split verity signs
  obtain ⟨_, named, found, own⟩ := id signs
  obtain ⟨first, between⟩ := condition sig verity signs
  obtain ⟨rest, whole⟩ := begins
  rw [generated_split split, List.append_assoc, List.cons_append] at whole
  have nodup := whole ▸ postorder.nodup
  have distinct := signs.ne_writer (verityWrites_rootHash paths own)
  have inFront : ∀ other, other ≠ sig → GeneratedBefore images other sig →
      other ∈ generated before := by
    intro other different earlier
    have stands := (postorder.before_iff other sig different).mpr earlier
    rw [← whole] at stands
    exact (before_split nodup).mp stands
  have member := inFront verity (Ne.symm distinct) first
  constructor
  · obtain ⟨front, back, same⟩ := List.append_of_mem (mem_generated.mp member)
    refine ⟨front, back, same, (answered front verity (back ++ .generate sig :: after)
      (by rw [split, same, List.append_assoc, List.cons_append])).resolve_right ?_⟩
    intro none
    rw [generated_append] at none
    cases (List.append_eq_nil_iff.mp none).2
  · obtain ⟨front, back, same⟩ := List.append_of_mem member
    refine rootHashWriter_eq_some.mpr ⟨verityWrites_rootHash paths own, front, back, same, ?_⟩
    intro other inBack
    by_contra writes
    rw [Bool.not_eq_false] at writes
    have whole' : order = front ++ verity :: (back ++ sig :: (generated after ++ rest)) := by
      rw [← whole, same, List.append_assoc, List.cons_append]
    have nodup' := whole' ▸ postorder.nodup
    have different : other ≠ verity := by
      rintro rfl
      exact (List.nodup_middle.mp nodup').notMem (by simp [inBack])
    rcases between other different writes with later | earlier
    · -- the other image would come behind the verity-sig image
      have stands := (postorder.before_iff sig other (signs.ne_writer writes)).mpr later
      refine stands.not_symm postorder.nodup ?_
      rw [← whole]
      exact (before_split nodup).mpr (by rw [same]; simp [inBack])
    · have stands := (postorder.before_iff other verity different).mpr earlier
      rw [whole', before_split nodup'] at stands
      exact (List.nodup_append.mp nodup').2.2 other stands other (by simp [inBack]) rfl

/-- **Where a complete run is right the condition holds.** -/
theorem signsWhen_of_run {order : List (Fin images.length)}
    (postorder : Postorder (refs images) ((List.finRange images.length).map some) order)
    (whole : generated marks.world = order)
    (right : SignsRight paths sections images outside marks.world) :
    SignsWhen paths sections images := by
  intro sig verity signs
  obtain ⟨_, _, _, own⟩ := id signs
  have called : .generate sig ∈ marks.world := mem_generated.mp (whole ▸ postorder.all sig)
  obtain ⟨before, after, split⟩ := List.append_of_mem called
  obtain ⟨⟨front, back, same, _⟩, writer⟩ := right before sig after split verity signs
  have order_split := whole ▸ generated_split split
  have nodup := order_split ▸ postorder.nodup
  have inFront : ∀ other ∈ generated before, Before order other sig := by
    intro other member
    rw [order_split]
    exact (before_split nodup).mpr member
  constructor
  · have distinct := signs.ne_writer (verityWrites_rootHash paths own)
    refine (postorder.before_iff verity sig (Ne.symm distinct)).mp (inFront verity ?_)
    rw [mem_generated, same]
    exact List.mem_append_right _ List.mem_cons_self
  · intro other different writes
    have distinct := signs.ne_writer writes
    obtain ⟨_, front, back, generated, others⟩ := rootHashWriter_eq_some.mp writer
    rcases before_total (postorder.all sig) (postorder.all other) distinct with later | earlier
    · exact Or.inl ((postorder.before_iff sig other distinct).mp later)
    · rw [order_split, before_split nodup, generated] at earlier
      rcases List.mem_append.mp earlier with inFront' | inBack
      · refine Or.inr ((postorder.before_iff other verity different).mp ?_)
        rw [order_split, generated, List.append_assoc, List.cons_append]
        exact ⟨front, _, rfl, inFront'⟩
      · have member := (List.mem_cons.mp inBack).resolve_left different
        rw [others other member] at writes
        cases writes

/-- **A verity-sig image signs the root hash of the image that it names**, in every run over the
sections, exactly under the condition. A cycle of references ends the run in the setup pass. -/
theorem veritySig_signs_iff (paths : Paths) (parsed : imagesOf sections = .ok images) :
    (∀ outside ret marks, runPasses images outside = some (ret, marks) →
      SignsRight paths sections images outside marks.world) ↔
    (Acyclic (refs images) → SignsWhen paths sections images) := by
  obtain ⟨resolvable, has⟩ := imagesOf_ok parsed
  constructor
  · intro right acyclic
    let outside : Outside (Fin images.length) := ⟨fun _ _ => 0, fun _ _ => false⟩
    obtain ⟨ret, marks, setup, correct⟩ : ∃ ret marks, setupAll images outside _ = some (ret, marks) ∧
        SetupCorrect images outside ret marks := setupAll_correct resolvable
    obtain ⟨ret', marks', generate, correct'⟩ : ∃ ret' marks', generateAll images outside marks =
        some (ret', marks') ∧ GenerateCorrect images outside marks ret' marks' :=
      generateAll_correct resolvable correct.marks
    obtain ⟨rfl, _⟩ := correct.acyclic acyclic fun _ _ => rfl
    obtain ⟨rfl, _⟩ := correct'.acyclic acyclic (fun _ _ => rfl) has
    obtain ⟨answered, none⟩ := setupAll_generated setup
    obtain ⟨order, postorder, _, _, whole⟩ :=
      generateAll_order acyclic resolvable correct.marks answered none generate
    refine signsWhen_of_run postorder (whole rfl) (right outside 0 marks' ?_)
    rw [runPasses, setup]
    exact generate
  · intro condition outside ret marks run
    obtain ⟨ret', marks', setup, correct⟩ : ∃ ret' marks', setupAll images outside _ =
        some (ret', marks') ∧ SetupCorrect images outside ret' marks' := setupAll_correct resolvable
    obtain ⟨answered, none⟩ := setupAll_generated setup
    rw [runPasses, setup] at run
    simp only at run
    split_ifs at run with failed
    · obtain ⟨rfl, rfl⟩ := Prod.mk.inj (Option.some.inj run)
      intro before sig after split
      have called := generated_split split
      rw [none] at called
      simp at called
    · have acyclic : Acyclic (refs images) := by
        by_contra cyclic
        exact failed (correct.cyclic cyclic).1
      obtain ⟨order, postorder, butLast, begins, _⟩ :=
        generateAll_order acyclic resolvable correct.marks answered none run
      exact (condition acyclic).signsRight postorder butLast begins

end Main

/-! ### Examples -/

section Examples

variable {paths : Paths} {sections : List ImageSection} {images : List Image}
  {outside : Outside (Fin images.length)}

theorem signs_iff {sig verity : Fin images.length} :
    (signedName sections images sig).bind (imageGet images) = some verity ∧
      isVerity sections images verity = true ↔ Signs sections images sig verity := by
  rw [Option.bind_eq_some_iff]
  exact ⟨fun ⟨⟨name, named, found⟩, own⟩ => ⟨name, named, found, own⟩,
    fun ⟨name, named, found, own⟩ => ⟨⟨name, named, found⟩, own⟩⟩

instance {sig verity : Fin images.length} : Decidable (Signs sections images sig verity) :=
  decidable_of_iff _ signs_iff

/-- The writers are right in the log. -/
def checkSigned (paths : Paths) (sections : List ImageSection) (images : List Image)
    (log : List (Call (Fin images.length))) : Bool :=
  (List.range log.length).all fun n =>
    match log.drop n with
    | .generate sig :: _ => decide (∀ verity, Signs sections images sig verity →
        rootHashWriter paths sections images (log.take n) (rootHash paths images verity) = some verity)
    | _ => true

theorem SignsRight.checked {log : List (Call (Fin images.length))}
    (right : SignsRight paths sections images outside log) :
    checkSigned paths sections images log = true := by
  refine List.all_eq_true.mpr fun n _ => ?_
  split
  next sig rest split =>
    refine decide_eq_true fun verity signs => (right (log.take n) sig rest ?_ verity signs).2
    rw [← split, List.take_append_drop]
  next => rfl

/-- Calls that succeed, but for the generation of one image. -/
def outsideBut (count failing : Nat) : Outside (Fin count) :=
  ⟨fun _ event =>
    match event with
    | .generate image => if image.val = failing then 1 else 0
    | _ => 0, fun _ _ => true⟩

/-- A run in which a writer is wrong. -/
def signsWrong (paths : Paths) (sections : List ImageSection) (failing : Nat) : Bool :=
  match imagesOf sections with
  | .error _ => false
  | .ok images =>
    match runPasses images (outsideBut images.length failing) with
    | none => false
    | some (_, marks) => !checkSigned paths sections images marks.world

theorem signsWrong_run (failing : Nat) (wrong : signsWrong paths sections failing = true) :
    ∃ images, imagesOf sections = .ok images ∧ ∃ outside ret marks,
      runPasses images outside = some (ret, marks) ∧
        ¬ SignsRight paths sections images outside marks.world := by
  unfold signsWrong at wrong
  split at wrong
  next => cases wrong
  next images parsed =>
    split at wrong
    next => cases wrong
    next ret marks run =>
      refine ⟨images, parsed, _, ret, marks, run, fun right => ?_⟩
      rw [right.checked] at wrong
      cases wrong

def somePaths : Paths := ⟨"/build/tmp", "/build/images"⟩

def hashSection : ImageSection := { file := "test.verity-hash", handler := .verity "test.verity-data" none }

def sigSection : ImageSection :=
  { file := "test.verity-sig"
    handler := .veritySig "test.verity-hash" "signing-ca/signing.cert.pem" "pkcs11:object=key" }

/-- The images of the two sections. -/
def signedImages : List Image :=
  [{ file := "test.verity-hash", partitions := [some "test.verity-data"], hasSetup := false },
    { file := "test.verity-sig", partitions := [some "signing-ca/signing.cert.pem"],
      hasSetup := false },
    { file := "test.verity-data" }, { file := "signing-ca/signing.cert.pem" }]

def hashImage : Fin signedImages.length := ⟨0, by decide⟩

def sigImage : Fin signedImages.length := ⟨1, by decide⟩

def dataImage : Fin signedImages.length := ⟨2, by decide⟩

/-- What the verity image leads to. -/
theorem leads_hashImage {image : Fin signedImages.length}
    (leads : Leads (refs signedImages) hashImage image) : image = hashImage ∨ image = dataImage := by
  have closed : ∀ image child, image = hashImage ∨ image = dataImage →
      some child ∈ refs signedImages image → child = hashImage ∨ child = dataImage := by
    decide +kernel
  induction leads with
  | refl => exact Or.inl rfl
  | tail _ refers ih => exact closed _ _ ih refers

/-- The verity image in front of the verity-sig image. -/
theorem veritySig_signs_inOrder :
    SignsWhen somePaths [hashSection, sigSection] signedImages ∧
      ∀ (outside : Outside (Fin signedImages.length)) (ret : Int) (marks : Marks signedImages),
        runPasses signedImages outside = some (ret, marks) →
          SignsRight somePaths [hashSection, sigSection] signedImages outside marks.world := by
  have only : ∀ sig verity, Signs [hashSection, sigSection] signedImages sig verity →
      sig = sigImage ∧ verity = hashImage := by
    decide +kernel
  have alone : ∀ other, other ≠ hashImage → verityWrites somePaths [hashSection, sigSection]
      signedImages other (rootHash somePaths signedImages hashImage) = false := by
    decide +kernel
  have condition : SignsWhen somePaths [hashSection, sigSection] signedImages := by
    intro sig verity signs
    obtain ⟨rfl, rfl⟩ := only sig verity signs
    refine ⟨.alone Relation.ReflTransGen.refl fun leads => ?_, fun other different writes => ?_⟩
    · exact absurd (leads_hashImage leads) (by decide)
    · rw [alone other different] at writes
      cases writes
  exact ⟨condition, (veritySig_signs_iff somePaths (by decide +kernel)).mpr fun _ => condition⟩

/-- **The verity-sig image in front of the verity image**, and two verity images with one path. -/
theorem veritySig_signs_wrong :
    (∃ images, imagesOf [sigSection, hashSection] = .ok images ∧ ∃ outside ret marks,
      runPasses images outside = some (ret, marks) ∧
        ¬ SignsRight somePaths [sigSection, hashSection] images outside marks.world) ∧
    ∃ images, imagesOf [{ file := "a/b", handler := .verity "a.img" none },
        { file := "a-b", handler := .verity "b.img" none },
        { file := "a.sig", handler := .veritySig "a/b" "pkcs11:cert" "pkcs11:key" }] = .ok images ∧
      ∃ outside ret marks, runPasses images outside = some (ret, marks) ∧
        ¬ SignsRight somePaths [{ file := "a/b", handler := .verity "a.img" none },
          { file := "a-b", handler := .verity "b.img" none },
          { file := "a.sig", handler := .veritySig "a/b" "pkcs11:cert" "pkcs11:key" }]
          images outside marks.world :=
  ⟨signsWrong_run 0 (by decide +kernel), signsWrong_run 5 (by decide +kernel)⟩

end Examples

end Genimage
