namespace Snbt

/-!
# Sets of automaton states

A set of state numbers below 64 in one word.  Numbers from 64 on are never
members.
-/

/-- A set of numbers below 64, one bit for each. -/
structure StateSet where
  bits : BitVec 64
  deriving DecidableEq, Repr

namespace StateSet

/-- Whether a number is a member. -/
def contains (set : StateSet) (number : Nat) : Bool :=
  set.bits.getLsbD number

/-- No number. -/
def empty : StateSet :=
  ⟨0⟩

/-- Add a number below 64. -/
def insert (set : StateSet) (number : Nat) : StateSet :=
  ⟨set.bits ||| BitVec.twoPow 64 number⟩

/-- The members in ascending order. -/
def members (set : StateSet) : List Nat :=
  (List.range 64).filter set.contains

/-- Whether no number is a member. -/
def isEmpty (set : StateSet) : Bool :=
  set = empty

/-- The members in braces, for diagnostics. -/
def text (set : StateSet) : String :=
  "\x7b" ++ ", ".intercalate (set.members.map toString) ++ "\x7d"

@[simp] theorem contains_empty
    (number : Nat) :
    empty.contains number = false := by
  simp [empty, contains]

@[simp] theorem contains_insert
    (set : StateSet)
    (added number : Nat) :
    (set.insert added).contains number =
      (set.contains number || (decide (number < 64) && number = added)) := by
  by_cases same : number = added
  · simp [insert, contains, same]
  · simp [insert, contains, same, Ne.symm same]

/-- Sets with the same members are equal. -/
@[ext] theorem ext_contains
    {first second : StateSet}
    (same : ∀ number, first.contains number = second.contains number) :
    first = second := by
  obtain ⟨firstBits⟩ := first
  obtain ⟨secondBits⟩ := second
  congr 1
  exact BitVec.eq_of_getLsbD_eq fun number _ => same number

end StateSet

end Snbt
