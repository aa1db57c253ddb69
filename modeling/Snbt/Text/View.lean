import Snbt.Text.Buffer

namespace Snbt

/-!
# Views of a buffer

Reading can leave out some offsets of a buffer.  A view says which, and reading
a character through it steps over them first.  Whether two units form a pair is
decided by the buffer alone.
-/

/-- A buffer with the offsets that reading leaves out. -/
structure View where
  buffer : Buffer
  hidden : Nat → Bool

namespace View

/-- Nothing is left out. -/
def whole (buffer : Buffer) : View where
  buffer := buffer
  hidden := fun _ => false

/-- Step forward over hidden offsets. -/
def stepOver (view : View) (offset : Nat) : Nat :=
  if offset < view.buffer.size then
    if view.hidden offset then
      view.stepOver (offset + 1)
    else
      offset
  else
    offset
termination_by view.buffer.size - offset

/--
The first offset from here on that is not hidden, or the end of the buffer.
-/
def settle (view : View) (offset : Nat) : Nat :=
  view.stepOver (min offset view.buffer.size)

/-- Stepping over hidden offsets leads forward, and not past the end. -/
theorem stepOver_bounds
    (view : View)
    (offset : Nat)
    (inside : offset ≤ view.buffer.size) :
    offset ≤ view.stepOver offset ∧
      view.stepOver offset ≤ view.buffer.size := by
  fun_induction view.stepOver offset with
  | case1 offset before hidden inductionHypothesis =>
      have := inductionHypothesis (by omega)
      omega
  | case2 offset before shown =>
      omega
  | case3 offset after =>
      omega

/-- A settled offset lies between where it started and the end. -/
theorem settle_bounds
    (view : View)
    (offset : Nat) :
    min offset view.buffer.size ≤ view.settle offset ∧
      view.settle offset ≤ view.buffer.size :=
  view.stepOver_bounds _ (Nat.min_le_right ..)

/-- The character read from an offset on, and the offset after it. -/
def read? (view : View) (offset : Nat) : Option (Char × Nat) :=
  let place := view.settle offset
  match view.buffer.char? place with
  | some (char, width) => some (char, place + width)
  | none => none

/-- Reading leads forward, and not past the end. -/
theorem read?_bounds
    {view : View}
    {offset next : Nat}
    {char : Char}
    (found : view.read? offset = some (char, next)) :
    offset < next ∧ next ≤ view.buffer.size := by
  have settled := view.settle_bounds offset
  simp only [read?] at found
  split at found
  case h_1 read width present =>
    have bounds := Buffer.char?_bounds present
    simp only [Option.some.injEq, Prod.mk.injEq] at found
    omega
  case h_2 =>
    simp at found

/-- Where there is nothing to read, the end has been reached. -/
theorem settle_of_read?_none
    {view : View}
    {offset : Nat}
    (nothing : view.read? offset = none) :
    view.settle offset = view.buffer.size := by
  have settled := view.settle_bounds offset
  simp only [read?] at nothing
  split at nothing
  case h_1 =>
    simp at nothing
  case h_2 absent =>
    have := Buffer.char?_eq_none_iff.mp absent
    omega

end View

end Snbt
