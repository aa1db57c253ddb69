import Mathlib.Data.Finset.Insert
import Mathlib.Order.Bounds.Basic
import Snbt.Proofs.Lexer.TableEntries

namespace Snbt

/-!
# The table as a partial map

Whatever is stored, hidden, released and cleared, at whatever offsets, the
table answers as a partial map from the offsets of the buffer to tokens, with a
set of hidden offsets beside it.  Each change of the table is the change of the
map by the same name, so it is enough to see what one change does; the answers
then follow for every history.  What a slot still holds of a token that was
dropped never shows.
-/

/--
Tokens at offsets up to a length, and hidden offsets, at which there are none.
-/
structure OffsetMap (length : Nat) where
  entries : Nat → Option NodeId
  hidden : Finset Nat
  le_length : ∀ offset id, entries offset = some id → offset ≤ length
  hidden_le_length : ∀ offset ∈ hidden, offset ≤ length
  apart : ∀ offset ∈ hidden, entries offset = none

namespace OffsetMap

variable {length : Nat}

/-- No token, and nothing hidden. -/
def empty (length : Nat) : OffsetMap length where
  entries := fun _ => none
  hidden := ∅
  le_length := by
    intro offset id impossible
    cases impossible
  hidden_le_length := by
    intro offset impossible
    cases impossible
  apart := by
    intro offset _
    rfl

/-- The offsets that have a token. -/
def keys (map : OffsetMap length) : Set Nat :=
  { offset | ∃ id, map.entries offset = some id }

/-- An offset that is not hidden and not past the end gets a token. -/
def store
    (map : OffsetMap length)
    (offset : Nat)
    (id : NodeId) :
    OffsetMap length × Bool :=
  if admitted : offset ≤ length ∧ offset ∉ map.hidden then
    ({ entries := fun other =>
         if other = offset then some id else map.entries other
       hidden := map.hidden
       le_length := by
         intro other otherId found
         split at found
         case isTrue here =>
           rw [here]
           exact admitted.1
         case isFalse =>
           exact map.le_length other otherId found
       hidden_le_length := map.hidden_le_length
       apart := by
         intro other isHidden
         have elsewhere : other ≠ offset := by
           rintro rfl
           exact admitted.2 isHidden
         rw [if_neg elsewhere]
         exact map.apart other isHidden },
      true)
  else
    (map, false)

/-- An offset has no token any more. -/
def release (map : OffsetMap length) (offset : Nat) : OffsetMap length where
  entries := fun other => if other = offset then none else map.entries other
  hidden := map.hidden
  le_length := by
    intro other id found
    split at found
    case isTrue =>
      cases found
    case isFalse =>
      exact map.le_length other id found
  hidden_le_length := map.hidden_le_length
  apart := by
    intro other isHidden
    rw [map.apart other isHidden, ite_self]

/-- An offset that is not past the end is hidden and has no token any more. -/
def hide (map : OffsetMap length) (offset : Nat) : OffsetMap length :=
  if inside : offset ≤ length then
    { map.release offset with
      hidden := insert offset map.hidden
      hidden_le_length := by
        intro other isHidden
        rcases Finset.mem_insert.mp isHidden with rfl | wasHidden
        · exact inside
        · exact map.hidden_le_length other wasHidden
      apart := by
        intro other isHidden
        rcases Finset.mem_insert.mp isHidden with rfl | wasHidden
        · exact if_pos rfl
        · exact (map.release offset).apart other wasHidden }
  else
    map

/-- No offset from one on has a token any more. -/
def clearFrom (map : OffsetMap length) (offset : Nat) : OffsetMap length where
  entries := fun other => if other < offset then map.entries other else none
  hidden := map.hidden
  le_length := by
    intro other id found
    split at found
    case isTrue =>
      exact map.le_length other id found
    case isFalse =>
      cases found
  hidden_le_length := map.hidden_le_length
  apart := by
    intro other isHidden
    rw [map.apart other isHidden, ite_self]

/-- Storing tells whether the offset can have a token. -/
theorem stored_iff
    {map : OffsetMap length}
    {offset : Nat}
    {id : NodeId} :
    (map.store offset id).2 = true ↔ offset ≤ length ∧ offset ∉ map.hidden := by
  unfold store
  split
  case isTrue admitted =>
    exact iff_of_true rfl admitted
  case isFalse refused =>
    exact iff_of_false Bool.false_ne_true refused

/--
Past the end there is no token to drop, so hiding drops the same everywhere.
-/
theorem entries_hide
    (map : OffsetMap length)
    (offset other : Nat) :
    (map.hide offset).entries other = if other =
      offset then none else map.entries other := by
  unfold hide
  split
  case isTrue =>
    rfl
  case isFalse past =>
    split
    case isTrue here =>
      refine Option.eq_none_iff_forall_ne_some.mpr fun id found => ?_
      exact past (here ▸ map.le_length other id found)
    case isFalse =>
      rfl

theorem mem_hidden_hide
    (map : OffsetMap length)
    (offset other : Nat) :
    other ∈ (map.hide offset).hidden ↔
      other ∈ map.hidden ∨ other = offset ∧ offset ≤ length := by
  unfold hide
  split
  case isTrue inside =>
    rw [and_iff_left inside, or_comm]
    exact Finset.mem_insert
  case isFalse past =>
    exact (or_iff_left fun isHere => past isHere.2).symm

end OffsetMap

/-- One change of a table or of a map. -/
inductive TableEdit where
  | store (offset : Nat) (id : NodeId)
  | hide (offset : Nat)
  | release (offset : Nat)
  | clearFrom (offset : Nat)

namespace TableEdit

variable {length : Nat}

/-- A change of a table. -/
def onTable (table : OffsetTable) : TableEdit → OffsetTable
  | .store offset id => (table.store offset id).1
  | .hide offset => table.hide offset
  | .release offset => table.release offset
  | .clearFrom offset => table.clearFrom offset

/-- The same change of a map. -/
def onMap (map : OffsetMap length) : TableEdit → OffsetMap length
  | .store offset id => (map.store offset id).1
  | .hide offset => map.hide offset
  | .release offset => map.release offset
  | .clearFrom offset => map.clearFrom offset

/--
A change that takes away what stands at an offset, or puts another token there.
-/
def Reaches : TableEdit → Nat → Prop
  | .store place _, offset => place = offset
  | .hide place, offset => place = offset
  | .release place, offset => place = offset
  | .clearFrom place, offset => place ≤ offset

end TableEdit

/-- The table that changes make of a new one. -/
def OffsetTable.afterAll
    (length : Nat)
    (edits : List TableEdit) :
    OffsetTable :=
  edits.foldl TableEdit.onTable (.ofLength length)

/-- The map that changes make of the empty one. -/
def OffsetMap.afterAll
    (length : Nat)
    (edits : List TableEdit) :
    OffsetMap length :=
  edits.foldl TableEdit.onMap (.empty length)

/-- A table answers as a map. -/
structure Represents {length : Nat} (table : OffsetTable)
    (map : OffsetMap length) : Prop where
  size_eq : table.slots.size = length + 1
  tokenAt?_eq : ∀ offset, table.tokenAt? offset = map.entries offset
  isHidden_iff : ∀ offset, table.isHidden offset = true ↔ offset ∈ map.hidden

namespace Represents

variable {length offset : Nat} {table : OffsetTable} {map : OffsetMap length}

theorem admits_iff
    (represents : Represents table map) :
    table.admits offset = true ↔ offset ≤ length ∧ offset ∉ map.hidden := by
  simp only [OffsetTable.admits, Bool.and_eq_true, decide_eq_true_eq,
    Bool.not_eq_true', represents.size_eq, ← represents.isHidden_iff,
    Nat.lt_succ_iff, Bool.not_eq_true]

/-- Storing is done to both or to neither. -/
theorem store
    (represents : Represents table map)
    (offset : Nat)
    (id : NodeId) :
    Represents (table.store offset id).1 (map.store offset id).1 := by
  by_cases admitted : offset ≤ length ∧ offset ∉ map.hidden
  · have admits := represents.admits_iff.mpr admitted
    have sameShape := table.sameShape_put offset id
    rw [OffsetMap.store, dif_pos admitted]
    refine ⟨sameShape.size_eq.trans represents.size_eq, fun other => ?_,
      fun other => ?_⟩
    · refine (OffsetTable.tokenAt?_put admits).trans ?_
      rw [represents.tokenAt?_eq]
    · rw [← represents.isHidden_iff]
      exact Eq.congr_left (congrFun sameShape.isHidden_eq other)
  · have refused := admitted ∘ represents.admits_iff.mp
    rw [OffsetMap.store, dif_neg admitted, OffsetTable.store, dif_neg refused]
    exact represents

theorem release
    (represents : Represents table map)
    (offset : Nat) :
    Represents (table.release offset) (map.release offset) := by
  have sameShape := table.sameShape_release offset
  refine ⟨sameShape.size_eq.trans represents.size_eq, fun other => ?_,
    fun other => ?_⟩
  · rw [OffsetTable.tokenAt?_release, represents.tokenAt?_eq]
    rfl
  · rw [sameShape.isHidden_eq]
    exact represents.isHidden_iff other

theorem hide
    (represents : Represents table map)
    (offset : Nat) :
    Represents (table.hide offset) (map.hide offset) := by
  refine ⟨Array.size_setIfInBounds.trans represents.size_eq, fun other => ?_,
    fun other => ?_⟩
  · rw [OffsetTable.tokenAt?_hide, OffsetMap.entries_hide,
      represents.tokenAt?_eq]
  · rw [OffsetTable.isHidden_hide, OffsetMap.mem_hidden_hide,
      represents.isHidden_iff, represents.size_eq, Nat.lt_succ_iff]

theorem clearFrom
    (represents : Represents table map)
    (offset : Nat) :
    Represents (table.clearFrom offset) (map.clearFrom offset) := by
  refine ⟨represents.size_eq, fun other => ?_, represents.isHidden_iff⟩
  rw [OffsetTable.tokenAt?_clearFrom, represents.tokenAt?_eq]
  rfl

/-- The keys are the live offsets. -/
theorem mem_keys_iff
    (represents : Represents table map) :
    offset ∈ map.keys ↔ table.live.contains offset = true := by
  simp only [OffsetTable.live_iff, represents.tokenAt?_eq]
  rfl

/-- The next token is the one at the least key from an offset on. -/
theorem next?_eq_some_iff
    {id : NodeId}
    (represents : Represents table map) :
    table.next? offset = some id ↔
      ∃ key, IsLeast { key ∈ map.keys | offset ≤ key } key ∧
        map.entries key = some id := by
  have sought :
      { place | offset ≤ place ∧ table.live.contains place = true } =
        { key ∈ map.keys | offset ≤ key } := by
    ext place
    rw [Set.mem_ofPred_eq, ← represents.mem_keys_iff]
    exact and_comm
  rw [OffsetTable.next?, Option.bind_eq_some_iff]
  refine exists_congr fun key => ?_
  rw [(table.live.isLowest_next? offset).eq_some_iff, sought,
    represents.tokenAt?_eq]

theorem next?_eq_none_iff
    (represents : Represents table map) :
    table.next? offset = none ↔ ∀ key ∈ map.keys, key < offset := by
  rw [OffsetTable.next?_eq_none_iff]
  refine forall_congr' fun key => ?_
  rw [OffsetTable.tokenAt?_eq_none_iff, ← represents.mem_keys_iff, ← not_lt,
    not_imp_not]

/-- The previous token is the one at the greatest key before an offset. -/
theorem previous?_eq_some_iff
    {id : NodeId}
    (represents : Represents table map) :
    table.previous? offset = some id ↔
      ∃ key, IsGreatest { key ∈ map.keys | key < offset } key ∧
        map.entries key = some id := by
  have sought :
      { place | place < offset ∧ table.live.contains place = true } =
        { key ∈ map.keys | key < offset } := by
    ext place
    rw [Set.mem_ofPred_eq, ← represents.mem_keys_iff]
    exact and_comm
  rw [OffsetTable.previous?, Option.bind_eq_some_iff]
  refine exists_congr fun key => ?_
  rw [(table.live.isHighest_previous? offset).eq_some_iff, sought,
    represents.tokenAt?_eq]

theorem previous?_eq_none_iff
    (represents : Represents table map) :
    table.previous? offset = none ↔ ∀ key ∈ map.keys, offset ≤ key := by
  rw [OffsetTable.previous?_eq_none_iff]
  refine forall_congr' fun key => ?_
  rw [OffsetTable.tokenAt?_eq_none_iff, ← represents.mem_keys_iff, ← not_le,
    not_imp_not]

/-- A change of the table is the change of the map. -/
theorem edit
    (represents : Represents table map)
    (edit : TableEdit) :
    Represents (edit.onTable table) (edit.onMap map) := by
  cases edit with
  | store offset id =>
      exact represents.store offset id
  | hide offset =>
      exact represents.hide offset
  | release offset =>
      exact represents.release offset
  | clearFrom offset =>
      exact represents.clearFrom offset

theorem edits
    (represents : Represents table map)
    (edits : List TableEdit) :
    Represents (edits.foldl TableEdit.onTable table)
      (edits.foldl TableEdit.onMap map) := by
  induction edits generalizing table map with
  | nil =>
      exact represents
  | cons first rest inductionHypothesis =>
      exact inductionHypothesis (represents.edit first)

end Represents

namespace OffsetMap

variable {length offset : Nat} {id : NodeId}

/--
A token that stands at an offset was put
there by a change, or stood there before.
-/
theorem entries_edit
    {map : OffsetMap length}
    {edit : TableEdit}
    (found : (edit.onMap map).entries offset = some id) :
    (edit = .store offset id ∧ (map.store offset id).2 = true) ∨
      ¬edit.Reaches offset ∧ map.entries offset = some id := by
  cases edit with
  | store place other =>
      rw [TableEdit.onMap, store] at found
      by_cases admitted : place ≤ length ∧ place ∉ map.hidden
      · simp only [dif_pos admitted] at found
        split at found
        case isTrue here =>
          cases found
          subst here
          exact .inl ⟨rfl, by rw [store, dif_pos admitted]⟩
        case isFalse elsewhere =>
          exact .inr ⟨Ne.symm elsewhere, found⟩
      · rw [dif_neg admitted] at found
        refine .inr ⟨?_, found⟩
        -- An offset that has a token is neither past the end nor hidden.
        rintro rfl
        refine admitted ⟨map.le_length place id found, fun isHidden => ?_⟩
        cases (map.apart place isHidden).symm.trans found
  | hide place =>
      rw [TableEdit.onMap, entries_hide] at found
      split at found
      case isTrue =>
        cases found
      case isFalse elsewhere =>
        exact .inr ⟨Ne.symm elsewhere, found⟩
  | release place =>
      simp only [TableEdit.onMap, release] at found
      split at found
      case isTrue =>
        cases found
      case isFalse elsewhere =>
        exact .inr ⟨Ne.symm elsewhere, found⟩
  | clearFrom place =>
      simp only [TableEdit.onMap, clearFrom] at found
      split at found
      case isTrue before =>
        exact .inr ⟨Nat.not_le_of_lt before, found⟩
      case isFalse =>
        cases found

/--
A token stands where some change put it, and no later change has reached it.
-/
theorem entries_afterAll
    {edits : List TableEdit}
    (found : (afterAll length edits).entries offset = some id) :
    ∃ before after,
      edits = before ++ .store offset id :: after ∧
      ((afterAll length before).store offset id).2 = true ∧
      ∀ edit ∈ after, ¬edit.Reaches offset := by
  induction edits using List.reverseRecOn with
  | nil =>
      cases found
  | append_singleton edits edit inductionHypothesis =>
      rw [afterAll, List.foldl_concat] at found
      rcases entries_edit found with ⟨rfl, admitted⟩ | ⟨notReached, earlier⟩
      · refine ⟨edits, [], rfl, admitted, ?_⟩
        intro later impossible
        cases impossible
      · obtain ⟨before, after, rfl, admitted, notReachedLater⟩ :=
          inductionHypothesis earlier
        refine ⟨before, after ++ [edit], by simp, admitted, ?_⟩
        intro later member
        rcases List.mem_append.mp member with isEarlier | isLast
        · exact notReachedLater later isEarlier
        · cases List.mem_singleton.mp isLast
          exact notReached

end OffsetMap

namespace OffsetTable

/-- Storing tells whether the offset admits a token. -/
theorem stored_iff
    {table : OffsetTable}
    {offset : Nat}
    {id : NodeId} :
    (table.store offset id).2 = true ↔ table.admits offset = true := by
  unfold store
  split
  case isTrue admitted =>
    exact iff_of_true rfl admitted
  case isFalse refused =>
    exact iff_of_false Bool.false_ne_true refused

/-- The table after any changes answers as the map after them. -/
theorem represents_afterAll
    (length : Nat)
    (edits : List TableEdit) :
    Represents (afterAll length edits) (OffsetMap.afterAll length edits) := by
  refine Represents.edits
    ⟨Array.size_replicate, fun offset => ?_, fun offset => ?_⟩ edits
  · exact tokenAt?_ofLength length offset
  · rw [isHidden_ofLength]
    exact iff_of_false Bool.false_ne_true (Finset.notMem_empty offset)

/--
A table that was only changed in these ways answers as a partial map from
offsets to tokens with the hidden offsets beside it.
-/
theorem refines_map
    (length : Nat)
    (edits : List TableEdit) :
    let table := afterAll length edits
    let map := OffsetMap.afterAll length edits
    (∀ offset, table.tokenAt? offset = map.entries offset) ∧
    (∀ offset, table.isHidden offset = true ↔ offset ∈ map.hidden) ∧
    (∀ offset id,
      (table.store offset id).2 = true ↔
        offset ≤ length ∧ offset ∉ map.hidden) ∧
    (∀ offset id,
      table.next? offset = some id ↔
        ∃ key, IsLeast { key ∈ map.keys | offset ≤ key } key ∧
          map.entries key = some id) ∧
    (∀ offset, table.next? offset = none ↔ ∀ key ∈ map.keys, key < offset) ∧
    (∀ offset id,
      table.previous? offset = some id ↔
        ∃ key, IsGreatest { key ∈ map.keys | key < offset } key ∧
          map.entries key = some id) ∧
    (∀ offset, table.previous? offset = none ↔ ∀ key ∈ map.keys, offset ≤ key) ∧
    ∀ offset id, table.tokenAt? offset = some id →
      ∃ before after,
        edits = before ++ .store offset id :: after ∧
        ((afterAll length before).store offset id).2 = true ∧
        ∀ edit ∈ after, ¬edit.Reaches offset := by
  have represents := represents_afterAll length edits
  refine ⟨represents.tokenAt?_eq, represents.isHidden_iff, ?stored, ?next,
    ?noNext, ?previous, ?noPrevious, ?last⟩
  case stored =>
    intro offset id
    rw [stored_iff, represents.admits_iff]
  case next =>
    exact fun offset id => represents.next?_eq_some_iff
  case noNext =>
    exact fun offset => represents.next?_eq_none_iff
  case previous =>
    exact fun offset id => represents.previous?_eq_some_iff
  case noPrevious =>
    exact fun offset => represents.previous?_eq_none_iff
  case last =>
    intro offset id stands
    rw [represents.tokenAt?_eq] at stands
    obtain ⟨before, after, split, admitted, notReached⟩ :=
      OffsetMap.entries_afterAll stands
    refine ⟨before, after, split, ?_, notReached⟩
    rw [stored_iff, (represents_afterAll length before).admits_iff,
      ← OffsetMap.stored_iff]
    exact admitted

end OffsetTable

end Snbt
