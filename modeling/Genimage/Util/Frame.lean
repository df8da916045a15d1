/-
**What a function does to a range of the output file.**

`Makes span writes x` says that `x` makes these writes in `span` and no others, whatever the system
answers to its calls: a call may fail or be cut short, and then `x` fails, or it has written less
somewhere else. A function with `Makes span []` leaves the range alone.
-/

import Genimage.Library.Writes
import Genimage.Util.FileSpecs

namespace Genimage

open Library Effect

/-- **`x` makes these writes in `span`**, and no others there, if it returns; the file does not become
shorter. -/
def Makes {α : Type} (span : Span Nat) (writes : List Write) (x : Sys α) : Prop :=
  ∀ world, Ensures True x world fun _ next =>
    File.Keeps span (world.contents.writes writes) next.contents

section Frame

variable {os : Os} {α β : Type} {span : Span Nat} {writes first second : List Write}

theorem makes_pure (value : α) : Makes span [] (pure value) := by
  intro world
  rw [ensures_pure]
  exact .refl _

theorem makes_throw (error : Int) : Makes span writes (throw error : Sys α) := fun _ =>
  ensures_throw.mpr trivial

/-- **One function after another**: the writes are made one after the other. -/
theorem Makes.append {x : Sys α} {f : α → Sys β} (left : Makes span first x)
    (right : ∀ value, Makes span second (f value)) : Makes span (first ++ second) (x >>= f) := by
  intro world
  refine (left world).bind fun value middle kept => (right value middle).mono fun _ next kept' => ?_
  rw [File.writes_append]
  exact (kept.writes second).trans kept'

/-- The first function leaves the range alone. -/
theorem Makes.before {x : Sys α} {f : α → Sys β} (left : Makes span [] x)
    (right : ∀ value, Makes span writes (f value)) : Makes span writes (x >>= f) :=
  left.append right

/-- The second function does. -/
theorem Makes.after {x : Sys α} {f : α → Sys β} (left : Makes span writes x)
    (right : ∀ value, Makes span [] (f value)) : Makes span writes (x >>= f) :=
  List.append_nil writes ▸ left.append right

/-- `insert_data` apart from the range. -/
theorem insertData_makes {data : List UInt8} {offset : UInt64}
    (apart : Span.Apart ⟨offset.toNat, offset.toNat + data.length⟩ span) :
    Makes span [] (insertData os data offset) := by
  intro world
  refine (insertData_ensures rfl (Or.inl trivial)).mono fun _ next ⟨_, count, le, _, holds⟩ => ?_
  have within : Span.Within ⟨offset.toNat, offset.toNat + (data.take count).length⟩
      ⟨offset.toNat, offset.toNat + data.length⟩ :=
    ⟨le_rfl, Nat.add_le_add_left (List.length_take_le' _ _) _⟩
  rw [holds.contents]
  exact .pwrite _ (apart.mono_left within)

/-- `extend_file` leaves every range alone. -/
theorem extendFile_makes (size : UInt64) : Makes span [] (extendFile os size) := by
  intro world
  refine (extendFile_ensures rfl (Or.inl trivial)).mono fun _ next ⟨longer, holds⟩ => ?_
  rw [holds.contents]
  exact .truncate longer

end Frame

end Genimage
