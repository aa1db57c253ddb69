import Snbt.Automaton.Step
import Snbt.Text.View

namespace Snbt.View

/-!
# Longest match

The automaton reads on as long as some state is live, and the last kind that
was reported gives the text and its end.  A scan reads through a view, stepping
over what is hidden; a match that is asked for in a buffer as a whole reads the
characters of the buffer one after the other.  Each of the two has a loop of
its own.  No states are kept from one match to the next: reading the first
character begins with none.
-/

/-- Read on through a view while a state is live; the last report counts. -/
def grow
    (view : View)
    (mode : Mode)
    (active : KindSet)
    (live : StateSet)
    (found? : Option (Kind × Nat))
    (offset : Nat) :
    Option (Kind × Nat) :=
  if live.isEmpty then
    found?
  else
    match _read : view.read? offset with
    | none =>
        found?
    | some (char, next) =>
        let outcome := mode.step active live char
        view.grow mode active outcome.live
          ((outcome.kind?.map fun kind => (kind, next)).or found?) next
termination_by view.buffer.size - offset
decreasing_by
  have := read?_bounds _read
  omega

/--
The longest text of an active kind that a view shows from here on: its kind and
the offset after it, to which reading goes back.  Of several kinds of the same
length the best one is taken.
-/
def longest?
    (view : View)
    (mode : Mode)
    (active : KindSet)
    (offset : Nat) :
    Option (Kind × Nat) :=
  match view.read? offset with
  | none =>
      none
  | some (char, next) =>
      let outcome := mode.first active char
      view.grow mode active outcome.live
        (outcome.kind?.map fun kind => (kind, next)) next

/--
Reading on ends past the offset it starts from, or where the last report was.
-/
theorem grow_bounds
    {view : View}
    {mode : Mode}
    {active : KindSet}
    {live : StateSet}
    {found? : Option (Kind × Nat)}
    {offset stop : Nat}
    {kind : Kind}
    (grown : view.grow mode active live found? offset = some (kind, stop)) :
    found? = some (kind, stop) ∨ offset < stop ∧ stop ≤ view.buffer.size := by
  fun_induction view.grow mode active live found? offset with
  | case1 =>
      exact .inl grown
  | case2 =>
      exact .inl grown
  | case3 live found? offset more char next read outcome inductionHypothesis =>
      have bounds := read?_bounds read
      rcases inductionHypothesis grown with reported | later
      · cases report : outcome.kind? with
        | none =>
            simp only [report, Option.map_none, Option.none_or] at reported
            exact .inl reported
        | some best =>
            simp only [report, Option.map_some, Option.some_or,
              Option.some.injEq, Prod.mk.injEq] at reported
            exact .inr (by omega)
      · exact .inr (by omega)

/-- A longest text is not empty and lies inside the buffer. -/
theorem longest?_bounds
    {view : View}
    {mode : Mode}
    {active : KindSet}
    {offset stop : Nat}
    {kind : Kind}
    (found : view.longest? mode active offset = some (kind, stop)) :
    offset < stop ∧ stop ≤ view.buffer.size := by
  unfold longest? at found
  split at found
  case h_1 =>
    simp at found
  case h_2 char next read =>
    have bounds := read?_bounds read
    rcases grow_bounds found with reported | later
    · simp only [Option.map_eq_some_iff, Prod.mk.injEq] at reported
      obtain ⟨_, _, _, same⟩ := reported
      omega
    · omega

end Snbt.View

namespace Snbt.Buffer

/-- Read on in a buffer while a state is live; the last report counts. -/
def grow
    (buffer : Buffer)
    (mode : Mode)
    (active : KindSet)
    (live : StateSet)
    (found? : Option (Kind × Nat))
    (offset : Nat) :
    Option (Kind × Nat) :=
  if live.isEmpty then
    found?
  else
    match _present : buffer.char? offset with
    | none =>
        found?
    | some (char, width) =>
        let outcome := mode.step active live char
        buffer.grow mode active outcome.live
          ((outcome.kind?.map fun kind => (kind, offset + width)).or found?)
          (offset + width)
termination_by buffer.size - offset
decreasing_by
  have := char?_bounds _present
  omega

/--
The longest text of an active kind that starts at an offset of a buffer,
whatever is hidden: its kind and the offset after it.
-/
def longest?
    (buffer : Buffer)
    (mode : Mode)
    (active : KindSet)
    (offset : Nat) :
    Option (Kind × Nat) :=
  match buffer.char? offset with
  | none =>
      none
  | some (char, width) =>
      let outcome := mode.first active char
      buffer.grow mode active outcome.live
        (outcome.kind?.map fun kind => (kind, offset + width)) (offset + width)

end Snbt.Buffer
