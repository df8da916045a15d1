/-
**Text that is read in lines with a bounded buffer.**

`pieces limit stop text` are the pieces in which successive reads take `text`: a read ends behind the
terminator `stop`, when it has `limit` elements, and at the end of the text. A text made of terminated
lines comes in its lines when they are short; the pieces without their last elements make up the lines
exactly then (`shorn_lines_iff`).
-/

import Mathlib.Tactic

set_option linter.unusedSectionVars false

namespace Genimage.Library.Lines

variable {α : Type} [DecidableEq α]

/-- The pieces of a text behind the elements `current` of a read that has begun. -/
def piecesFrom (limit : Nat) (stop : α) : List α → List α → List (List α)
  | current, [] => if current = [] then [] else [current]
  | current, c :: rest =>
    if c = stop ∨ current.length + 1 = limit then (current ++ [c]) :: piecesFrom limit stop [] rest
    else piecesFrom limit stop (current ++ [c]) rest

/-- The pieces of a text. -/
def pieces (limit : Nat) (stop : α) (text : List α) : List (List α) := piecesFrom limit stop [] text

/-- The pieces without their last elements. -/
def shorn (pieces : List (List α)) : List α := pieces.flatMap List.dropLast

/-- Lines with their terminators. -/
def terminated (stop : α) (lines : List (List α)) : List α := lines.flatMap (· ++ [stop])

/-- The lines of a text that ends behind a terminator. -/
def linesOf (stop : α) : List α → Option (List (List α))
  | [] => some []
  | c :: rest =>
    if c = stop then (linesOf stop rest).map ([] :: ·)
    else (linesOf stop rest).bind fun lines => lines.head?.map fun line => (c :: line) :: lines.tail

variable {limit : Nat} {stop : α}

/-! ### Lines -/

/-- **A text has the lines of which it was made**, when they contain no terminator; by induction on the
text. -/
theorem linesOf_iff {text : List α} {lines : List (List α)} :
    linesOf stop text = some lines ↔ text = terminated stop lines ∧ ∀ line ∈ lines, stop ∉ line := by
  induction text generalizing lines with
  | nil =>
    rw [linesOf]
    cases lines with
    | nil => simp [terminated]
    | cons line lines => simp [terminated]
  | cons c rest ih =>
    rw [linesOf]
    split_ifs with ends
    · subst ends
      rw [Option.map_eq_some_iff]
      simp only [ih]
      constructor
      · rintro ⟨after, ⟨rfl, inside⟩, rfl⟩
        exact ⟨rfl, List.forall_mem_cons.mpr ⟨List.not_mem_nil, inside⟩⟩
      · rintro ⟨same, inside⟩
        cases lines with
        | nil => simp [terminated] at same
        | cons line lines =>
          rw [List.forall_mem_cons] at inside
          cases line with
          | nil => exact ⟨lines, ⟨(List.cons.inj same).2, inside.2⟩, rfl⟩
          | cons d line =>
            have first : c = d := (List.cons.inj same).1
            exact absurd (first ▸ List.mem_cons_self) inside.1
    · rw [Option.bind_eq_some_iff]
      simp only [ih, Option.map_eq_some_iff]
      constructor
      · rintro ⟨after, ⟨rfl, inside⟩, line, first, rfl⟩
        cases after with
        | nil => cases first
        | cons line' after =>
          obtain rfl := Option.some.inj first
          rw [List.forall_mem_cons] at inside
          refine ⟨rfl, List.forall_mem_cons.mpr ⟨?_, inside.2⟩⟩
          rw [List.mem_cons, not_or]
          exact ⟨fun same => ends same.symm, inside.1⟩
      · rintro ⟨same, inside⟩
        cases lines with
        | nil => simp [terminated] at same
        | cons line lines =>
          rw [List.forall_mem_cons] at inside
          cases line with
          | nil => exact absurd (List.cons.inj same).1 ends
          | cons d line =>
            obtain ⟨rfl, after⟩ := List.cons.inj same
            refine ⟨line :: lines, ⟨after, ?_⟩, line, rfl, rfl⟩
            exact List.forall_mem_cons.mpr
              ⟨fun member => inside.1 (List.mem_cons_of_mem _ member), inside.2⟩

/-! ### Pieces -/

theorem piecesFrom_flatten (current text : List α) :
    (piecesFrom limit stop current text).flatten = current ++ text := by
  induction text generalizing current with
  | nil =>
    unfold piecesFrom
    split_ifs with empty
    · simp [empty]
    · simp
  | cons c rest ih =>
    unfold piecesFrom
    split_ifs
    · rw [List.flatten_cons, ih, List.nil_append, List.append_assoc, List.singleton_append]
    · rw [ih, List.append_assoc, List.singleton_append]

/-- No piece is empty or longer than the buffer. -/
theorem piecesFrom_length {current : List α} (room : current.length < limit) (text : List α) :
    ∀ piece ∈ piecesFrom limit stop current text, piece ≠ [] ∧ piece.length ≤ limit := by
  induction text generalizing current with
  | nil =>
    unfold piecesFrom
    split_ifs with empty
    · exact fun _ member => absurd member List.not_mem_nil
    · intro piece member
      rw [List.mem_singleton.mp member]
      exact ⟨empty, room.le⟩
  | cons c rest ih =>
    unfold piecesFrom
    split_ifs with ends
    · intro piece member
      rcases List.mem_cons.mp member with rfl | later
      · exact ⟨by simp, by rw [List.length_append]; exact room⟩
      · exact ih (by rw [List.length_nil]; omega) piece later
    · refine ih ?_
      rw [not_or] at ends
      rw [List.length_append, List.length_singleton]
      omega

/-- Behind a terminator reading starts afresh; by induction on the line in front of it. -/
theorem piecesFrom_split {line : List α} (inside : stop ∉ line) (current rest : List α) :
    piecesFrom limit stop current (line ++ stop :: rest) =
      piecesFrom limit stop current (line ++ [stop]) ++ pieces limit stop rest := by
  induction line generalizing current with
  | nil =>
    simp only [List.nil_append, piecesFrom, true_or, if_true, List.cons_append]
    rfl
  | cons c line ih =>
    rw [List.mem_cons, not_or] at inside
    simp only [List.cons_append, piecesFrom]
    split_ifs
    · rw [ih inside.2, List.cons_append]
    · exact ih inside.2 _

/-- **A short line is one piece.** -/
theorem piecesFrom_short {line : List α} (inside : stop ∉ line) {current : List α}
    (short : current.length + line.length + 1 ≤ limit) :
    piecesFrom limit stop current (line ++ [stop]) = [current ++ line ++ [stop]] := by
  induction line generalizing current with
  | nil => simp [piecesFrom]
  | cons c line ih =>
    rw [List.mem_cons, not_or] at inside
    rw [List.length_cons] at short
    rw [List.cons_append, piecesFrom, if_neg (by rintro (same | full); exacts [inside.1 same.symm, by omega]),
      ih inside.2 (by rw [List.length_append, List.length_singleton]; omega)]
    simp

theorem pieces_terminated_cons {line : List α} (inside : stop ∉ line) (lines : List (List α))
    (rest : List α) : pieces limit stop (terminated stop (line :: lines) ++ rest) =
      pieces limit stop (line ++ [stop]) ++ pieces limit stop (terminated stop lines ++ rest) := by
  have text : terminated stop (line :: lines) ++ rest =
      line ++ stop :: (terminated stop lines ++ rest) := by
    simp [terminated]
  rw [text, pieces, piecesFrom_split inside, ← pieces]

/-- **The lines of a text** are its pieces when they are short. -/
theorem pieces_lines {lines : List (List α)} (inside : ∀ line ∈ lines, stop ∉ line)
    (short : ∀ line ∈ lines, line.length < limit) (rest : List α) :
    pieces limit stop (terminated stop lines ++ rest) =
      lines.map (· ++ [stop]) ++ pieces limit stop rest := by
  induction lines with
  | nil => rfl
  | cons line lines ih =>
    rw [List.forall_mem_cons] at inside short
    rw [pieces_terminated_cons inside.1, ih inside.2 short.2, pieces,
      piecesFrom_short inside.1 (by rw [List.length_nil]; have := short.1; omega)]
    simp

theorem pieces_terminated {lines : List (List α)} (inside : ∀ line ∈ lines, stop ∉ line)
    (rest : List α) : pieces limit stop (terminated stop lines ++ rest) =
      pieces limit stop (terminated stop lines) ++ pieces limit stop rest := by
  induction lines with
  | nil => rfl
  | cons line lines ih =>
    rw [List.forall_mem_cons] at inside
    have alone : pieces limit stop (terminated stop (line :: lines) ++ []) = _ :=
      pieces_terminated_cons inside.1 lines []
    rw [List.append_nil, List.append_nil] at alone
    rw [pieces_terminated_cons inside.1, alone, ih inside.2, List.append_assoc]

/-- A read that has begun ends with a piece. -/
theorem piecesFrom_cons {current : List α} (begun : current ≠ []) (text : List α) :
    ∃ piece more, piecesFrom limit stop current text = piece :: more ∧ current <+: piece := by
  induction text generalizing current with
  | nil => exact ⟨current, [], if_neg begun, List.prefix_rfl⟩
  | cons c rest ih =>
    unfold piecesFrom
    split_ifs
    · exact ⟨_, _, rfl, List.prefix_append _ _⟩
    · obtain ⟨piece, more, same, begins⟩ := ih (List.append_ne_nil_of_left_ne_nil begun [c])
      exact ⟨piece, more, same, (List.prefix_append _ _).trans begins⟩

/-- **A text that begins with a mark** has it in its first piece; by induction on the mark. -/
theorem piecesFrom_mark {mark : List α} (inside : stop ∉ mark) {current : List α}
    (room : current.length + mark.length ≤ limit) (some : current ++ mark ≠ []) (rest : List α) :
    ∃ piece more, piecesFrom limit stop current (mark ++ rest) = piece :: more ∧
      current ++ mark <+: piece := by
  induction mark generalizing current with
  | nil =>
    rw [List.append_nil] at some ⊢
    exact piecesFrom_cons some rest
  | cons c mark ih =>
    rw [List.mem_cons, not_or] at inside
    rw [List.length_cons] at room
    have split : current ++ c :: mark = current ++ [c] ++ mark := by simp
    rw [List.cons_append, piecesFrom, split]
    split_ifs with ends
    · have full : current.length + 1 = limit := ends.resolve_left fun same => inside.1 same.symm
      obtain rfl : mark = [] := List.eq_nil_of_length_eq_zero (by omega)
      exact ⟨_, _, rfl, by rw [List.append_nil]⟩
    · refine ih inside.2 ?_ (by simp)
      rw [List.length_append, List.length_singleton]
      omega

/-- The first piece of a text without terminators is what fits into the buffer. -/
theorem piecesFrom_head {text : List α} (inside : stop ∉ text) {current : List α}
    (room : current.length < limit) (some : current ++ text ≠ []) :
    ∃ more, piecesFrom limit stop current text = (current ++ text).take limit :: more := by
  induction text generalizing current with
  | nil =>
    rw [List.append_nil] at some ⊢
    exact ⟨[], by rw [piecesFrom, if_neg some, List.take_of_length_le room.le]⟩
  | cons c text ih =>
    rw [List.mem_cons, not_or] at inside
    have split : current ++ c :: text = current ++ [c] ++ text := by simp
    rw [piecesFrom, split]
    split_ifs with ends
    · have full : current.length + 1 = limit := ends.resolve_left fun same => inside.1 same.symm
      refine ⟨_, congrArg (· :: _) ?_⟩
      rw [← full, List.take_left' (by rw [List.length_append, List.length_singleton])]
    · refine ih inside.2 ?_ (by simp)
      rw [List.length_append, List.length_singleton]
      omega

/-- The elements of the pieces are those of the text. -/
theorem mem_pieces {text piece : List α} (member : piece ∈ pieces limit stop text) :
    ∀ c ∈ piece, c ∈ text := by
  intro c among
  have whole : (pieces limit stop text).flatten = text := piecesFrom_flatten [] text
  rw [← whole]
  exact List.mem_flatten_of_mem member among

/-- A terminator is the last element of its piece. -/
theorem piecesFrom_inside {current : List α} (inside : stop ∉ current) (text : List α) :
    ∀ piece ∈ piecesFrom limit stop current text, stop ∉ piece.dropLast := by
  induction text generalizing current with
  | nil =>
    unfold piecesFrom
    split_ifs
    · exact fun _ member => absurd member List.not_mem_nil
    · intro piece member
      rw [List.mem_singleton.mp member]
      exact fun among => inside (List.mem_of_mem_dropLast among)
  | cons c rest ih =>
    unfold piecesFrom
    split_ifs with ends
    · intro piece member
      rcases List.mem_cons.mp member with rfl | later
      · rwa [List.dropLast_concat]
      · exact ih List.not_mem_nil piece later
    · refine ih fun member => ?_
      rw [List.mem_append, List.mem_singleton] at member
      exact member.elim inside fun same => ends (Or.inl same.symm)

/-! ### Shorn pieces -/

theorem length_shorn {pieces : List (List α)} (some : ∀ piece ∈ pieces, piece ≠ []) :
    (shorn pieces).length + pieces.length = pieces.flatten.length := by
  induction pieces with
  | nil => rfl
  | cons piece rest ih =>
    rw [List.forall_mem_cons] at some
    have := List.length_pos_of_ne_nil some.1
    have := ih some.2
    simp only [shorn, List.flatMap_cons, List.length_append, List.length_dropLast, List.length_cons,
      List.flatten_cons] at this ⊢
    omega

theorem shorn_append (first second : List (List α)) :
    shorn (first ++ second) = shorn first ++ shorn second := List.flatMap_append

/-- What is left are elements of the lines. -/
theorem mem_shorn_lines {lines : List (List α)} {c : α}
    (member : c ∈ shorn (pieces limit stop (terminated stop lines))) : ∃ line ∈ lines, c ∈ line := by
  obtain ⟨piece, listed, among⟩ := List.mem_flatMap.mp member
  obtain ⟨line, own, part⟩ :=
    List.mem_flatMap.mp (mem_pieces listed c (List.mem_of_mem_dropLast among))
  rcases List.mem_append.mp part with body | last
  · exact ⟨line, own, body⟩
  · rw [List.mem_singleton.mp last] at among
    exact absurd among (piecesFrom_inside List.not_mem_nil _ piece listed)

/-- The pieces of one line lose as many elements as there are pieces. -/
theorem length_shorn_line (limit_pos : 0 < limit) (line : List α) :
    (shorn (pieces limit stop (line ++ [stop]))).length +
      (pieces limit stop (line ++ [stop])).length = line.length + 1 := by
  have room : ([] : List α).length < limit := limit_pos
  rw [pieces, length_shorn fun piece member => (piecesFrom_length room _ piece member).1,
    piecesFrom_flatten]
  simp

/-- There is more than one piece when the line is long. -/
theorem pieces_line_length (limit_pos : 0 < limit) {line : List α} (inside : stop ∉ line) :
    0 < (pieces limit stop (line ++ [stop])).length ∧
      ((pieces limit stop (line ++ [stop])).length = 1 ↔ line.length < limit) := by
  have whole : (pieces limit stop (line ++ [stop])).flatten = line ++ [stop] :=
    piecesFrom_flatten [] _
  refine ⟨List.length_pos_of_ne_nil fun none => ?_, fun one => ?_, fun short => ?_⟩
  · rw [none] at whole
    simp at whole
  · obtain ⟨piece, same⟩ := List.length_eq_one_iff.mp one
    have room : ([] : List α).length < limit := limit_pos
    have listed : piece ∈ piecesFrom limit stop [] (line ++ [stop]) := by
      rw [← pieces, same]
      exact List.mem_singleton_self _
    have bound := piecesFrom_length room (line ++ [stop]) piece listed
    rw [same, List.flatten_singleton] at whole
    rw [whole, List.length_append, List.length_singleton] at bound
    exact bound.2
  · rw [pieces, piecesFrom_short inside (by rw [List.length_nil]; omega)]
    rfl

/-- Nothing is gained, and nothing lost exactly when the lines are short; by induction on the lines. -/
theorem length_shorn_lines (limit_pos : 0 < limit) {lines : List (List α)}
    (inside : ∀ line ∈ lines, stop ∉ line) :
    (shorn (pieces limit stop (terminated stop lines))).length ≤ lines.flatten.length ∧
      ((shorn (pieces limit stop (terminated stop lines))).length = lines.flatten.length ↔
        ∀ line ∈ lines, line.length < limit) := by
  induction lines with
  | nil => exact ⟨le_rfl, iff_of_true rfl fun _ member => absurd member List.not_mem_nil⟩
  | cons line lines ih =>
    rw [List.forall_mem_cons] at inside
    obtain ⟨least, all⟩ := ih inside.2
    obtain ⟨positive, one⟩ := pieces_line_length limit_pos inside.1
    have own : _ + (pieces limit stop (line ++ [stop])).length = line.length + 1 :=
      length_shorn_line limit_pos line
    have split : pieces limit stop (terminated stop (line :: lines) ++ []) = _ :=
      pieces_terminated_cons inside.1 lines []
    rw [List.append_nil, List.append_nil] at split
    rw [split, shorn_append, List.length_append, List.flatten_cons, List.length_append,
      List.forall_mem_cons, ← all, ← one]
    omega

/-- **The shorn pieces make up the lines exactly when the lines are shorter than the buffer.** -/
theorem shorn_lines_iff (limit_pos : 0 < limit) {lines : List (List α)}
    (inside : ∀ line ∈ lines, stop ∉ line) :
    shorn (pieces limit stop (terminated stop lines)) = lines.flatten ↔
      ∀ line ∈ lines, line.length < limit := by
  constructor
  · intro same
    exact (length_shorn_lines limit_pos inside).2.mp (congrArg List.length same)
  · intro short
    have split := pieces_lines inside short []
    rw [List.append_nil] at split
    rw [split]
    simp [shorn, pieces, piecesFrom, List.flatMap_map, List.flatMap_id']

end Genimage.Library.Lines
