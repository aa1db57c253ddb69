import Snbt.Forest.Basic
import Snbt.Lexer.OffsetSet

namespace Snbt

/-!
# Tokens by offset

The table has a slot for every offset of a buffer and one for its end.  A
slot is free, holds a token that starts there, or is marked.  An offset is
marked as skipped when a scan passes over its text; a token can be put there
again.  It is marked as hidden for good: reading steps over it, and nothing
is ever put there.

Beside the slots stands the set of offsets whose token is live.  Clearing
the table takes offsets out of the set and leaves the slots as they are,
so that marks survive; a token that a slot still holds counts only as
long as it is live.

The table answers which token stands at an offset, which is the next from an
offset on, and which is the last before one.
-/

/-- What was last put at an offset. -/
inductive Slot where
  | free
  | hidden
  | skipped
  | token (id : NodeId)
  deriving DecidableEq, Repr

namespace Slot

/-- The token in a slot. -/
def token? : Slot → Option NodeId
  | .token id => some id
  | _ => none

end Slot

/-- The slots of a buffer, and the offsets whose token is live. -/
structure OffsetTable where
  slots : Array Slot
  live : OffsetSet
  /-- Every slot has a bit in some word. -/
  size_le : slots.size ≤ 64 * live.words.size
  /-- Where a token is live, the slot holds one. -/
  live_token :
    ∀ offset, live.contains offset = true →
      ∃ id, slots[offset]? = some (.token id)

namespace OffsetTable

/-- A table for a buffer of this length, with every slot free. -/
def ofLength (length : Nat) : OffsetTable where
  slots := Array.replicate (length + 1) .free
  live := .ofSize (length + 1)
  size_le := by
    rw [Array.size_replicate]
    exact OffsetSet.le_size_ofSize (length + 1)
  live_token := by
    intro offset isLive
    rw [OffsetSet.contains_ofSize] at isLive
    cases isLive

/-- Whether reading steps over an offset. -/
def isHidden (table : OffsetTable) (offset : Nat) : Bool :=
  table.slots[offset]? = some .hidden

/-- The token at an offset, if it is live. -/
def tokenAt? (table : OffsetTable) (offset : Nat) : Option NodeId :=
  if table.live.contains offset then
    table.slots[offset]?.bind Slot.token?
  else
    none

/--
Whether a token can be put at an offset: there is a slot, and it is not hidden.
-/
def admits (table : OffsetTable) (offset : Nat) : Bool :=
  offset < table.slots.size && !table.isHidden offset

/-- Mark an offset.  The token there is dropped. -/
def mark (table : OffsetTable) (offset : Nat) (slot : Slot) : OffsetTable where
  slots := table.slots.setIfInBounds offset slot
  live := table.live.erase offset
  size_le := by
    rw [Array.size_setIfInBounds, OffsetSet.size_erase]
    exact table.size_le
  live_token := by
    intro other isLive
    rw [OffsetSet.contains_erase, Bool.and_eq_true] at isLive
    have apart : offset ≠ other := by
      rintro rfl
      simp at isLive
    rw [Array.getElem?_setIfInBounds_ne apart]
    exact table.live_token other isLive.1

/-- Step over an offset from now on.  The token there is dropped. -/
def hide (table : OffsetTable) (offset : Nat) : OffsetTable :=
  table.mark offset .hidden

/-- Drop the token at an offset and mark it as skipped, unless it is hidden. -/
def release (table : OffsetTable) (offset : Nat) : OffsetTable :=
  if table.admits offset then
    table.mark offset .skipped
  else
    table

/--
Put a token at an offset, if the offset admits one, and tell whether it does.
-/
def store
    (table : OffsetTable)
    (offset : Nat)
    (id : NodeId) :
    OffsetTable × Bool :=
  if admitted : table.admits offset then
    have inside : offset < table.slots.size := by
      simp only [admits, Bool.and_eq_true, decide_eq_true_eq] at admitted
      exact admitted.1
    ({ slots := table.slots.setIfInBounds offset (.token id)
       live := table.live.insert offset
       size_le := by
         rw [Array.size_setIfInBounds, OffsetSet.size_insert]
         exact table.size_le
       live_token := by
         intro other isLive
         rw [OffsetSet.contains_insert _ _
           (Nat.lt_of_lt_of_le inside table.size_le)] at isLive
         by_cases here : other = offset
         · subst here
           exact ⟨id, Array.getElem?_setIfInBounds_self_of_lt inside⟩
         · rw [decide_eq_false here, Bool.or_false] at isLive
           rw [Array.getElem?_setIfInBounds_ne (Ne.symm here)]
           exact table.live_token other isLive },
      true)
  else
    (table, false)

/-- Put a token at an offset that admits one. -/
def put (table : OffsetTable) (offset : Nat) (id : NodeId) : OffsetTable :=
  (table.store offset id).1

/-- Drop every token from an offset on. -/
def clearFrom (table : OffsetTable) (offset : Nat) : OffsetTable where
  slots := table.slots
  live := table.live.eraseFrom offset
  size_le := by
    rw [OffsetSet.size_eraseFrom]
    exact table.size_le
  live_token := by
    intro other isLive
    rw [OffsetSet.contains_eraseFrom, Bool.and_eq_true] at isLive
    exact table.live_token other isLive.1

/-- The first token from an offset on. -/
def next? (table : OffsetTable) (offset : Nat) : Option NodeId :=
  (table.live.next? offset).bind table.tokenAt?

/-- The last token before an offset. -/
def previous? (table : OffsetTable) (offset : Nat) : Option NodeId :=
  (table.live.previous? offset).bind table.tokenAt?

/-- Step over every offset of a stretch from now on. -/
def hideRange (table : OffsetTable) (start stop : Nat) : OffsetTable :=
  (List.range' start (stop - start)).foldl hide table

/-- Drop the tokens of a stretch and mark it as skipped. -/
def releaseRange (table : OffsetTable) (start stop : Nat) : OffsetTable :=
  (List.range' start (stop - start)).foldl release table

end OffsetTable

end Snbt
