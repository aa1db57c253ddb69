import Snbt.Automaton.Moves

namespace Snbt

/-!
# Steps of the automaton

All states that a text can be in advance together.  What is reported after
a character is the best kind that may be reported among those whose text
is complete with it.
-/

namespace KindSet

/-- The best of the kinds listed that are members. -/
def best? (active : KindSet) (kinds : List Kind) : Option Kind :=
  kinds.foldl
    (fun found? kind =>
      if active.contains kind then
        match found? with
        | some found => some (found.best kind)
        | none => some kind
      else
        found?)
    none

end KindSet

namespace StateSet

/-- The numbers of the states listed. -/
def ofStates (states : List State) : StateSet :=
  states.foldl (fun set state => set.insert state.number) empty

end StateSet

/-- What a character leads to from all live states. -/
structure Outcome where
  /-- The kind that is reported, if any text is complete. -/
  kind? : Option Kind
  /-- The states to go on from. -/
  live : StateSet
  deriving DecidableEq, Repr

namespace Move

/-- What a move comes to when only the active kinds may be reported. -/
def outcome (move : Move) (active : KindSet) : Outcome where
  kind? := active.best? move.kinds
  live := .ofStates move.states

end Move

namespace Mode

/-- The states of a mode that are members of a set. -/
def liveStates (mode : Mode) (live : StateSet) : List State :=
  mode.states.filter fun state => live.contains state.number

/-- The moves of all live states at once. -/
def moveAll (mode : Mode) (live : StateSet) (char : Char) : Move :=
  (mode.liveStates live).foldl
    (fun total state => total.both (mode.move state char)) .dead

/-- The first character of a text. -/
def first (mode : Mode) (active : KindSet) (char : Char) : Outcome :=
  (mode.move .start char).outcome active

/-- Another character of a text. -/
def step
    (mode : Mode)
    (active : KindSet)
    (live : StateSet)
    (char : Char) :
    Outcome :=
  (mode.moveAll live char).outcome active

end Mode

end Snbt
