import Mathlib.Logic.Basic
import Snbt.Lexer.OffsetTable
import Snbt.Proofs.Lexer.OffsetSearch

namespace Snbt

/-!
# Entries of the offset table

Each operation on the table is described by what it does to the token at an
offset and to which offsets are hidden.  Releasing an offset is done once: it
leaves a mark that a second time would only be written again.  Looking for the
next token finds the nearest offset that has one.
-/

namespace OffsetTable

variable {table : OffsetTable} {offset : Nat} {id : NodeId}

/--
A token stands at an offset exactly when
it is live there and the slot holds it.
-/
theorem tokenAt?_eq_some_iff :
    table.tokenAt? offset = some id ↔
      table.live.contains offset = true ∧
        table.slots[offset]? = some (.token id) := by
  have inSlot :
      table.slots[offset]?.bind Slot.token? = some id ↔
        table.slots[offset]? = some (.token id) := by
    rw [Option.bind_eq_some_iff]
    constructor
    · rintro ⟨slot, present, isToken⟩
      cases slot with
      | token =>
          cases isToken
          exact present
      | free | hidden | skipped =>
          cases isToken
    · intro present
      exact ⟨_, present, rfl⟩
  rw [tokenAt?]
  split
  case isTrue isLive =>
    rw [inSlot, and_iff_right isLive]
  case isFalse notLive =>
    refine ⟨fun impossible => ?_, fun stands => absurd stands.1 notLive⟩
    cases impossible

/-- Some token stands at an offset exactly when one is live there. -/
theorem live_iff :
    table.live.contains offset = true ↔
      ∃ id, table.tokenAt? offset = some id := by
  simp only [tokenAt?_eq_some_iff, exists_and_left]
  exact ⟨fun isLive => ⟨isLive, table.live_token offset isLive⟩, And.left⟩

/-- Tables of the same length that hide the same offsets. -/
structure SameShape (first second : OffsetTable) : Prop where
  size_eq : first.slots.size = second.slots.size
  isHidden_eq : first.isHidden = second.isHidden

namespace SameShape

theorem refl
    (table : OffsetTable) :
    table.SameShape table :=
  ⟨rfl, rfl⟩

theorem trans
    {first second third : OffsetTable}
    (same : first.SameShape second)
    (later : second.SameShape third) :
    first.SameShape third :=
  ⟨same.size_eq.trans later.size_eq, same.isHidden_eq.trans later.isHidden_eq⟩

end SameShape

/-- A table has a slot for every offset that admits a token. -/
theorem lt_size_of_admits
    (admitted : table.admits offset = true) :
    offset < table.slots.size := by
  simp only [admits, Bool.and_eq_true, decide_eq_true_eq] at admitted
  exact admitted.1

/-- Where no token can be put, nothing changes. -/
theorem put_of_not_admits
    {place : Nat}
    (refused : ¬table.admits place = true) :
    table.put place id = table := by
  rw [put, store, dif_neg refused]

/-- What putting a token at an offset that admits one does to the slots. -/
theorem slots_put
    {place : Nat}
    (admitted : table.admits place = true) :
    (table.put place id).slots =
      table.slots.setIfInBounds place (.token id) := by
  rw [put, store, dif_pos admitted]

/--
What putting a token at an offset that admits one does to the live offsets.
-/
theorem live_put
    {place : Nat}
    (admitted : table.admits place = true) :
    (table.put place id).live = table.live.insert place := by
  rw [put, store, dif_pos admitted]

/-- Putting a token at an offset that admits one changes what stands there. -/
theorem tokenAt?_put
    {place : Nat}
    (admitted : table.admits place = true) :
    (table.put place id).tokenAt? offset =
      if offset = place then some id else table.tokenAt? offset := by
  have inside := lt_size_of_admits admitted
  have hasWord := Nat.lt_of_lt_of_le inside table.size_le
  rw [tokenAt?, tokenAt?, slots_put admitted, live_put admitted,
    OffsetSet.contains_insert _ _ hasWord]
  by_cases here : offset = place
  · rw [here, decide_eq_true rfl, Bool.or_true, if_pos rfl, if_pos rfl,
      Array.getElem?_setIfInBounds_self_of_lt inside]
    rfl
  · rw [decide_eq_false here, Bool.or_false, if_neg here,
      Array.getElem?_setIfInBounds_ne (Ne.symm here)]

theorem sameShape_put
    (table : OffsetTable)
    (place : Nat)
    (id : NodeId) :
    (table.put place id).SameShape table := by
  by_cases admitted : table.admits place = true
  · have shown : table.isHidden place = false := by
      simp only [admits, Bool.and_eq_true, Bool.not_eq_true'] at admitted
      exact admitted.2
    constructor
    case size_eq =>
      rw [slots_put admitted]
      exact Array.size_setIfInBounds
    case isHidden_eq =>
      funext offset
      by_cases here : place = offset
      · subst here
        rw [shown]
        simp only [isHidden, slots_put admitted,
          Array.getElem?_setIfInBounds, if_true]
        split <;> simp
      · simp only [isHidden, slots_put admitted, Array.getElem?_setIfInBounds,
          if_neg here]
  · rw [put_of_not_admits admitted]
    exact .refl table

/-- Where a token stands another can be put. -/
theorem admits_of_tokenAt?
    (present : table.tokenAt? offset = some id) :
    table.admits offset = true := by
  have isToken := (tokenAt?_eq_some_iff.mp present).2
  have inside := (Array.getElem?_eq_some_iff.mp isToken).1
  simp only [admits, isHidden, isToken, Bool.and_eq_true, decide_eq_true_eq]
  exact ⟨inside, rfl⟩

/-- Tables of one shape admit tokens at the same offsets. -/
theorem SameShape.admits_eq
    {first second : OffsetTable}
    (same : first.SameShape second) :
    first.admits = second.admits := by
  funext offset
  rw [admits, admits, same.size_eq, same.isHidden_eq]

/-! ## Marks -/

/-- Marking an offset takes away what stands there. -/
theorem tokenAt?_mark
    (table : OffsetTable)
    (place : Nat)
    (slot : Slot)
    (offset : Nat) :
    (table.mark place slot).tokenAt? offset =
      if offset = place then none else table.tokenAt? offset := by
  simp only [tokenAt?, mark, OffsetSet.contains_erase]
  by_cases here : offset = place
  · simp [here]
  · simp [here, Array.getElem?_setIfInBounds_ne (Ne.symm here)]

/-- Hiding an offset takes away what stands there. -/
theorem tokenAt?_hide
    (table : OffsetTable)
    (place offset : Nat) :
    (table.hide place).tokenAt? offset =
      if offset = place then none else table.tokenAt? offset :=
  table.tokenAt?_mark place .hidden offset

/-- Hiding an offset that has a slot hides it. -/
theorem isHidden_hide
    (table : OffsetTable)
    (place offset : Nat) :
    (table.hide place).isHidden offset = true ↔
      table.isHidden offset = true ∨
        offset = place ∧ place < table.slots.size := by
  simp only [isHidden, hide, mark, Array.getElem?_setIfInBounds,
    decide_eq_true_eq]
  by_cases here : place = offset
  · subst here
    by_cases inside : place < table.slots.size
    · simp [inside]
    · simp [inside]
  · simp only [here, if_false, Ne.symm here, false_and, or_false]

/-- Releasing an offset takes away what stands there. -/
theorem tokenAt?_release
    (table : OffsetTable)
    (place offset : Nat) :
    (table.release place).tokenAt? offset =
      if offset = place then none else table.tokenAt? offset := by
  rw [release]
  split
  case isTrue =>
    exact table.tokenAt?_mark place .skipped offset
  case isFalse refused =>
    split
    case isTrue here =>
      refine Option.eq_none_iff_forall_ne_some.mpr fun id present => ?_
      exact refused (here ▸ admits_of_tokenAt? present)
    case isFalse =>
      rfl

/-- Releasing an offset hides none, and what is hidden stays hidden. -/
theorem isHidden_release
    (table : OffsetTable)
    (place : Nat) :
    (table.release place).isHidden = table.isHidden := by
  rw [release]
  split
  case isTrue admitted =>
    have shown : table.isHidden place = false := by
      simp only [admits, Bool.and_eq_true, Bool.not_eq_true'] at admitted
      exact admitted.2
    funext offset
    by_cases here : place = offset
    · subst here
      rw [shown]
      simp only [isHidden, mark, Array.getElem?_setIfInBounds, if_true]
      split <;> simp
    · simp only [isHidden, mark, Array.getElem?_setIfInBounds, if_neg here]
  case isFalse =>
    rfl

theorem sameShape_release
    (table : OffsetTable)
    (place : Nat) :
    (table.release place).SameShape table := by
  refine ⟨?_, table.isHidden_release place⟩
  rw [release]
  split
  · exact Array.size_setIfInBounds
  · rfl

/--
Nothing is left to release at an offset:
it is marked, or nothing can be put there.
-/
def isReleased (table : OffsetTable) (offset : Nat) : Bool :=
  !table.admits offset || table.slots[offset]? = some .skipped

/-- Releasing an offset once more changes nothing. -/
theorem release_of_isReleased
    {place : Nat}
    (released : table.isReleased place = true) :
    table.release place = table := by
  rw [release]
  split
  case isTrue admitted =>
    have marked : table.slots[place]? = some .skipped := by
      simpa [isReleased, admitted] using released
    have sameSlots :
        table.slots.setIfInBounds place .skipped = table.slots := by
      refine Array.ext_getElem? fun other => ?_
      by_cases here : place = other
      · rw [← here, marked,
          Array.getElem?_setIfInBounds_self_of_lt (lt_size_of_admits admitted)]
      · exact Array.getElem?_setIfInBounds_ne here
    have notLive : table.live.contains place = false := by
      refine Bool.eq_false_iff.mpr fun isLive => ?_
      obtain ⟨id, isToken⟩ := table.live_token place isLive
      cases marked.symm.trans isToken
    cases table
    simp only [mark, sameSlots, OffsetSet.erase_of_not_contains notLive]
  case isFalse =>
    rfl

/-- What is released by releasing an offset. -/
theorem isReleased_release
    (table : OffsetTable)
    (place offset : Nat) :
    (table.release place).isReleased offset = true ↔
      offset = place ∨ table.isReleased offset = true := by
  have sameAdmits := (table.sameShape_release place).admits_eq
  rw [isReleased, sameAdmits, isReleased]
  by_cases admitted : table.admits place = true
  · have inside := lt_size_of_admits admitted
    rw [release, if_pos admitted, mark]
    by_cases here : offset = place
    · rw [here, Array.getElem?_setIfInBounds_self_of_lt inside]
      simp
    · rw [Array.getElem?_setIfInBounds_ne (Ne.symm here)]
      simp [here]
  · rw [release, if_neg admitted]
    refine (or_iff_right_of_imp ?_).symm
    rintro rfl
    simp [admitted]

/-- A token that is put elsewhere leaves what is released. -/
theorem isReleased_put
    {place : Nat}
    (elsewhere : offset ≠ place) :
    (table.put place id).isReleased offset = table.isReleased offset := by
  rw [isReleased, (table.sameShape_put place id).admits_eq, isReleased]
  by_cases admitted : table.admits place = true
  · rw [slots_put admitted, Array.getElem?_setIfInBounds_ne (Ne.symm elsewhere)]
  · rw [put_of_not_admits admitted]

/-! ## Stretches -/

/-- The offsets of stretches, one stretch after another. -/
def placesOf (stretches : List (Nat × Nat)) : List Nat :=
  stretches.flatMap fun stretch => List.range' stretch.1 (stretch.2 - stretch.1)

theorem mem_placesOf
    {stretches : List (Nat × Nat)} :
    offset ∈ placesOf stretches ↔
      ∃ stretch ∈ stretches, stretch.1 ≤ offset ∧ offset < stretch.2 := by
  rw [placesOf, List.mem_flatMap]
  refine exists_congr fun stretch => and_congr_right fun _ => ?_
  rw [List.mem_range'_1]
  omega

/-- Stretches are released offset by offset. -/
theorem foldl_releaseRange_eq
    (stretches : List (Nat × Nat))
    (table : OffsetTable) :
    stretches.foldl
      (fun table stretch => table.releaseRange stretch.1 stretch.2)
        table =
      (placesOf stretches).foldl release table :=
  List.foldl_flatMap.symm

/-- Stretches are hidden offset by offset. -/
theorem foldl_hideRange_eq
    (stretches : List (Nat × Nat))
    (table : OffsetTable) :
    stretches.foldl (fun table stretch => table.hideRange stretch.1 stretch.2)
        table =
      (placesOf stretches).foldl hide table :=
  List.foldl_flatMap.symm

/-- Taking away what stands at offsets, one after another. -/
private theorem tokenAt?_foldl
    {take : OffsetTable → Nat → OffsetTable}
    (takes : ∀ (table : OffsetTable) (place offset : Nat),
      (take table place).tokenAt? offset =
        if offset = place then none else table.tokenAt? offset)
    (places : List Nat)
    (table : OffsetTable)
    (offset : Nat) :
    (places.foldl take table).tokenAt? offset =
      if offset ∈ places then none else table.tokenAt? offset := by
  induction places generalizing table with
  | nil =>
      rfl
  | cons place rest inductionHypothesis =>
      rw [List.foldl_cons, inductionHypothesis, takes]
      by_cases later : offset ∈ rest
      · rw [if_pos later, if_pos (List.mem_cons_of_mem _ later)]
      · by_cases here : offset = place
        · rw [if_neg later, if_pos here, if_pos (List.mem_cons.mpr (.inl here))]
        · have absent : offset ∉ place :: rest := by
            rintro (_ | later)
            · exact here rfl
            · exact later ‹_›
          rw [if_neg later, if_neg here, if_neg absent]

/-- Releasing stretches takes away what stands in any of them. -/
theorem tokenAt?_foldl_releaseRange
    (stretches : List (Nat × Nat))
    (table : OffsetTable)
    (offset : Nat) :
    (stretches.foldl
      (fun table stretch => table.releaseRange stretch.1 stretch.2)
        table).tokenAt? offset =
      if ∃ stretch ∈ stretches, stretch.1 ≤ offset ∧ offset < stretch.2 then
        none
      else
        table.tokenAt? offset := by
  rw [foldl_releaseRange_eq, tokenAt?_foldl tokenAt?_release]
  exact if_congr mem_placesOf rfl rfl

/-- Releasing stretches releases their offsets. -/
theorem isReleased_foldl_releaseRange
    (stretches : List (Nat × Nat))
    (table : OffsetTable)
    (offset : Nat) :
    (stretches.foldl
      (fun table stretch => table.releaseRange stretch.1 stretch.2)
        table).isReleased offset = true ↔
      (∃ stretch ∈ stretches, stretch.1 ≤ offset ∧ offset < stretch.2) ∨
        table.isReleased offset = true := by
  rw [foldl_releaseRange_eq, ← mem_placesOf]
  induction placesOf stretches generalizing table with
  | nil =>
      exact (or_iff_right List.not_mem_nil).symm
  | cons place rest inductionHypothesis =>
      rw [List.foldl_cons, inductionHypothesis, isReleased_release,
        List.mem_cons]
      tauto

/-- Releasing stretches that are released changes nothing. -/
theorem foldl_releaseRange_of_isReleased
    {stretches : List (Nat × Nat)}
    (released :
      ∀ stretch ∈ stretches, ∀ place, stretch.1 ≤ place → place < stretch.2 →
      table.isReleased place = true) :
    stretches.foldl
      (fun table stretch => table.releaseRange stretch.1 stretch.2)
        table =
      table := by
  have allReleased :
      ∀ place ∈ placesOf stretches, table.isReleased place = true := by
    intro place member
    obtain ⟨stretch, isStretch, low, high⟩ := mem_placesOf.mp member
    exact released stretch isStretch place low high
  rw [foldl_releaseRange_eq]
  generalize placesOf stretches = places at allReleased ⊢
  induction places with
  | nil =>
      rfl
  | cons place rest inductionHypothesis =>
      rw [List.foldl_cons,
        release_of_isReleased (allReleased place List.mem_cons_self)]
      exact inductionHypothesis fun other later =>
        allReleased other (List.mem_cons_of_mem _ later)

theorem sameShape_foldl_releaseRange
    (stretches : List (Nat × Nat))
    (table : OffsetTable) :
    (stretches.foldl
      (fun table stretch => table.releaseRange stretch.1 stretch.2)
      table).SameShape table := by
  rw [foldl_releaseRange_eq]
  induction placesOf stretches generalizing table with
  | nil =>
      exact .refl table
  | cons place rest inductionHypothesis =>
      exact (inductionHypothesis _).trans (table.sameShape_release place)

/-- Hiding stretches takes away what stands in any of them. -/
theorem tokenAt?_foldl_hideRange
    (stretches : List (Nat × Nat))
    (table : OffsetTable)
    (offset : Nat) :
    (stretches.foldl (fun table stretch => table.hideRange stretch.1 stretch.2)
        table).tokenAt? offset =
      if ∃ stretch ∈ stretches, stretch.1 ≤ offset ∧ offset < stretch.2 then
        none
      else
        table.tokenAt? offset := by
  rw [foldl_hideRange_eq, tokenAt?_foldl tokenAt?_hide]
  exact if_congr mem_placesOf rfl rfl

/-- Hiding offsets one after another hides those that have a slot. -/
private theorem isHidden_foldl_hide
    (places : List Nat)
    (table : OffsetTable) :
    (places.foldl hide table).slots.size = table.slots.size ∧
      ∀ offset, (places.foldl hide table).isHidden offset = true ↔
        table.isHidden offset = true ∨
          offset ∈ places ∧ offset < table.slots.size := by
  induction places generalizing table with
  | nil =>
      refine ⟨rfl, ?_⟩
      intro offset
      simp
  | cons place rest inductionHypothesis =>
      have sameSize : (table.hide place).slots.size = table.slots.size :=
        Array.size_setIfInBounds
      obtain ⟨size, hidden⟩ := inductionHypothesis (table.hide place)
      refine ⟨size.trans sameSize, ?_⟩
      intro offset
      rw [List.foldl_cons, hidden, isHidden_hide, sameSize, List.mem_cons]
      constructor
      · rintro ((before | ⟨rfl, inside⟩) | ⟨later, inside⟩)
        · exact .inl before
        · exact .inr ⟨.inl rfl, inside⟩
        · exact .inr ⟨.inr later, inside⟩
      · rintro (before | ⟨rfl | later, inside⟩)
        · exact .inl (.inl before)
        · exact .inl (.inr ⟨rfl, inside⟩)
        · exact .inr ⟨later, inside⟩

/-- Hiding stretches that have slots hides them. -/
theorem isHidden_foldl_hideRange
    (stretches : List (Nat × Nat))
    (table : OffsetTable)
    (inside : ∀ stretch ∈ stretches, stretch.2 ≤ table.slots.size) :
    let final :=
      stretches.foldl
        (fun table stretch => table.hideRange stretch.1 stretch.2) table
    final.slots.size = table.slots.size ∧
      ∀ offset, final.isHidden offset = true ↔
        table.isHidden offset = true ∨
          ∃ stretch ∈ stretches, stretch.1 ≤ offset ∧ offset < stretch.2 := by
  intro final
  have finalEq : final = (placesOf stretches).foldl hide table :=
    foldl_hideRange_eq stretches table
  obtain ⟨size, hidden⟩ := isHidden_foldl_hide (placesOf stretches) table
  rw [finalEq]
  refine ⟨size, fun offset => (hidden offset).trans (or_congr_right ?_)⟩
  rw [← mem_placesOf]
  refine and_iff_left_of_imp fun member => ?_
  obtain ⟨stretch, isStretch, _, before⟩ := mem_placesOf.mp member
  exact Nat.lt_of_lt_of_le before (inside stretch isStretch)

/-- Clearing takes away what stands from an offset on. -/
theorem tokenAt?_clearFrom
    (table : OffsetTable)
    (place offset : Nat) :
    (table.clearFrom place).tokenAt? offset =
      if offset < place then table.tokenAt? offset else none := by
  simp only [tokenAt?, clearFrom, OffsetSet.contains_eraseFrom]
  by_cases before : offset < place
  · simp [before]
  · simp [before]

theorem sameShape_clearFrom
    (table : OffsetTable)
    (place : Nat) :
    (table.clearFrom place).SameShape table :=
  ⟨rfl, rfl⟩

/-- No token stands where none is live. -/
theorem tokenAt?_eq_none_iff :
    table.tokenAt? offset = none ↔ ¬table.live.contains offset = true := by
  rw [live_iff, Option.eq_none_iff_forall_ne_some, not_exists]

/-- A live offset that is found has its token. -/
private theorem bind_tokenAt?_eq_none_iff
    {answer? : Option Nat}
    (isLive :
      ∀ place, answer? = some place → table.live.contains place = true) :
    answer?.bind table.tokenAt? = none ↔ answer? = none := by
  cases answer? with
  | none =>
      rfl
  | some place =>
      obtain ⟨id, stands⟩ := live_iff.mp (isLive place rfl)
      rw [Option.bind_some, stands]
      exact iff_of_false (Option.some_ne_none _) (Option.some_ne_none _)

/-- The next token is the one at the nearest offset that has one. -/
theorem next?_eq_some_iff :
    table.next? offset = some id ↔
      ∃ place, offset ≤ place ∧ table.tokenAt? place = some id ∧
        ∀ between, offset ≤ between → between < place →
          table.tokenAt? between = none := by
  rw [next?, Option.bind_eq_some_iff]
  refine exists_congr fun place => ?_
  rw [(table.live.isLowest_next? offset).eq_some_iff]
  simp only [tokenAt?_eq_none_iff]
  constructor
  · rintro ⟨⟨⟨behind, _⟩, isLeast⟩, stands⟩
    refine ⟨behind, stands, fun between isBehind isBefore isLive => ?_⟩
    exact Nat.not_lt_of_le (isLeast ⟨isBehind, isLive⟩) isBefore
  · rintro ⟨behind, stands, nothing⟩
    refine ⟨⟨⟨behind, live_iff.mpr ⟨id, stands⟩⟩, ?_⟩, stands⟩
    rintro other ⟨isBehind, isLive⟩
    exact Nat.le_of_not_lt fun isBefore =>
      nothing other isBehind isBefore isLive

/-- There is no next token exactly when no offset from there on has one. -/
theorem next?_eq_none_iff :
    table.next? offset = none ↔
      ∀ place, offset ≤ place → table.tokenAt? place = none := by
  have isLowest := table.live.isLowest_next? offset
  rw [next?,
    bind_tokenAt?_eq_none_iff fun place found =>
      (isLowest.eq_some_iff.mp found).1.2, isLowest.eq_none_iff]
  simp only [tokenAt?_eq_none_iff, Set.mem_ofPred_eq, not_and]

/-- The previous token is the one at the nearest offset before that has one. -/
theorem previous?_eq_some_iff :
    table.previous? offset = some id ↔
      ∃ place, place < offset ∧ table.tokenAt? place = some id ∧
        ∀ between, place < between → between < offset →
          table.tokenAt? between = none := by
  rw [previous?, Option.bind_eq_some_iff]
  refine exists_congr fun place => ?_
  rw [(table.live.isHighest_previous? offset).eq_some_iff]
  simp only [tokenAt?_eq_none_iff]
  constructor
  · rintro ⟨⟨⟨before, _⟩, isGreatest⟩, stands⟩
    refine ⟨before, stands, fun between isBehind isBefore isLive => ?_⟩
    exact Nat.not_lt_of_le (isGreatest ⟨isBefore, isLive⟩) isBehind
  · rintro ⟨before, stands, nothing⟩
    refine ⟨⟨⟨before, live_iff.mpr ⟨id, stands⟩⟩, ?_⟩, stands⟩
    rintro other ⟨isBefore, isLive⟩
    exact Nat.le_of_not_lt fun isBehind =>
      nothing other isBehind isBefore isLive

/-- There is no previous token exactly when no offset before has one. -/
theorem previous?_eq_none_iff :
    table.previous? offset = none ↔
      ∀ place, place < offset → table.tokenAt? place = none := by
  have isHighest := table.live.isHighest_previous? offset
  rw [previous?,
    bind_tokenAt?_eq_none_iff fun place found =>
      (isHighest.eq_some_iff.mp found).1.2, isHighest.eq_none_iff]
  simp only [tokenAt?_eq_none_iff, Set.mem_ofPred_eq, not_and]

@[simp] theorem tokenAt?_ofLength
    (length offset : Nat) :
    (ofLength length).tokenAt? offset = none := by
  rw [tokenAt?, ofLength, OffsetSet.contains_ofSize]
  rfl

@[simp] theorem isHidden_ofLength
    (length : Nat) :
    (ofLength length).isHidden = fun _ => false := by
  funext offset
  simp only [isHidden, ofLength, Array.getElem?_replicate]
  split <;> rfl

end OffsetTable

end Snbt
