import Snbt.Automaton.Longest
import Snbt.Proofs.Automaton.LiveStates

namespace Snbt

/-!
# Longest matches and the grammar

What the automaton finds at an offset, said by the grammar alone: of all texts
of active kinds that stand there it takes the longest one, and of the kinds
that have it the best.  The invariant of the search is that the live states are
those of the text read so far; where none is left, no longer text can follow.
-/

namespace View

/-- A text is what reading finds from one offset up to another. -/
inductive Spells (view : View) : Nat → List Char → Nat → Prop where
  | nil (offset : Nat) :
      Spells view offset [] offset
  | cons
      {offset next stop : Nat}
      {char : Char}
      {rest : List Char}
      (read : view.read? offset = some (char, next))
      (later : Spells view next rest stop) :
      Spells view offset (char :: rest) stop

namespace Spells

variable {view : View} {offset next stop other : Nat} {char : Char}
  {text otherText : List Char}

/-- Reading leads forward. -/
theorem le
    (spells : view.Spells offset text stop) :
    offset ≤ stop := by
  induction spells with
  | nil offset =>
      exact Nat.le_refl offset
  | cons read _ inductionHypothesis =>
      exact Nat.le_trans (Nat.le_of_lt (read?_bounds read).1)
        inductionHypothesis

/-- What is read first of a text, and the rest of it. -/
theorem of_read
    (spells : view.Spells offset text stop)
    (nonempty : text ≠ [])
    (read : view.read? offset = some (char, next)) :
    ∃ rest, text = char :: rest ∧ view.Spells next rest stop := by
  cases spells with
  | nil =>
      exact absurd rfl nonempty
  | @cons _ _ _ first rest readFirst later =>
      rw [read] at readFirst
      cases readFirst
      exact ⟨rest, rfl, later⟩

/-- From one offset up to another there is only one text. -/
theorem unique
    (spells : view.Spells offset text stop)
    (otherSpells : view.Spells offset otherText stop) :
    text = otherText := by
  induction spells generalizing otherText with
  | nil offset =>
      cases otherSpells with
      | nil =>
          rfl
      | cons read later =>
          have forward := (read?_bounds read).1
          have := later.le
          omega
  | @cons offset next stop char rest read later inductionHypothesis =>
      cases otherSpells with
      | nil =>
          have forward := (read?_bounds read).1
          have := later.le
          omega
      | cons otherRead otherLater =>
          rw [read] at otherRead
          cases otherRead
          rw [inductionHypothesis otherLater]

end Spells

/--
A text that goes on behind `before` stands at an offset, with an
active kind that has it.
-/
structure Stands
    (view : View)
    (mode : Mode)
    (active : KindSet)
    (before : List Char)
    (offset : Nat)
    (text : List Char)
    (kind : Kind)
    (stop : Nat) : Prop where
  nonempty : text ≠ []
  spells : view.Spells offset text stop
  isActive : active.contains kind = true
  member : before ++ text ∈ mode.language kind

/-- The best kind and the end of the longest text that stands at an offset. -/
structure IsLongest
    (view : View)
    (mode : Mode)
    (active : KindSet)
    (before : List Char)
    (offset : Nat)
    (kind : Kind)
    (stop : Nat) : Prop where
  best :
    ∃ text, view.Stands mode active before offset text kind stop ∧
      ∀ other, view.Stands mode active before offset text other stop →
        kind.ordinal ≤ other.ordinal
  longest :
    ∀ text other otherStop,
      view.Stands mode active before offset text other otherStop →
      otherStop ≤ stop

/--
A search finds the longest text that goes on behind `before`, or keeps what was
found before it where there is none.
-/
def Finds
    (view : View)
    (mode : Mode)
    (active : KindSet)
    (before : List Char)
    (offset : Nat)
    (found? result : Option (Kind × Nat)) : Prop :=
  (∀ text kind stop, ¬view.Stands mode active before offset text kind stop) ∧
      result = found? ∨
    ∃ kind stop, view.IsLongest mode active before offset kind stop ∧
      result = some (kind, stop)

variable {view : View} {mode : Mode} {active : KindSet} {live : StateSet}
  {before text : List Char} {offset next stop : Nat} {char : Char} {kind : Kind}
  {found? result : Option (Kind × Nat)}

/-- Where there is nothing to read, no text stands. -/
theorem not_stands_of_read?_none
    (nothing : view.read? offset = none) :
    ¬view.Stands mode active before offset text kind stop := by
  intro stands
  obtain ⟨nonempty, spells, _, _⟩ := stands
  cases spells with
  | nil =>
      exact nonempty rfl
  | cons read _ =>
      rw [nothing] at read
      cases read

/-- Where no state is live, no text goes on. -/
theorem not_stands_of_isEmpty
    (tracks : mode.Tracks before live)
    (dead : live.isEmpty = true) :
    ¬view.Stands mode active before offset text kind stop := by
  intro stands
  obtain ⟨state, reached⟩ :=
    Mode.exists_reading_of_language stands.nonempty stands.member
  exact tracks.not_mem_reading_of_isEmpty dead reached

/--
A text that stands here is one character, or goes on behind the first one.
-/
theorem Stands.of_read
    (stands : view.Stands mode active before offset text kind stop)
    (read : view.read? offset = some (char, next)) :
    text = [char] ∧ stop = next ∨
      ∃ rest, text = char :: rest ∧
        view.Stands mode active (before ++ [char]) next rest kind stop := by
  obtain ⟨rest, rfl, spells⟩ := stands.spells.of_read stands.nonempty read
  cases rest with
  | nil =>
      cases spells
      exact .inl ⟨rfl, rfl⟩
  | cons head tail =>
      have member := stands.member
      rw [List.append_cons] at member
      exact .inr ⟨_, rfl, List.cons_ne_nil _ _, spells, stands.isActive, member⟩

/--
A text that goes on behind the first character stands here with that character.
-/
theorem Stands.cons
    (read : view.read? offset = some (char, next))
    (stands : view.Stands mode active (before ++ [char]) next text kind stop) :
    view.Stands mode active before offset (char :: text) kind stop where
  nonempty := List.cons_ne_nil _ _
  spells := .cons read stands.spells
  isActive := stands.isActive
  member := by
    rw [List.append_cons]
    exact stands.member

/-- What is longest behind the first character is longest with it. -/
private theorem IsLongest.cons
    (read : view.read? offset = some (char, next))
    (longest : view.IsLongest mode active (before ++ [char]) next kind stop) :
    view.IsLongest mode active before offset kind stop := by
  obtain ⟨⟨text, stands, least⟩, upper⟩ := longest
  refine ⟨⟨char :: text, stands.cons read, ?_⟩, ?_⟩
  · intro other otherStands
    rcases otherStands.of_read read with
      ⟨isSingle, _⟩ | ⟨rest, same, restStands⟩
    · exact absurd (List.cons_injective.eq_iff.mp isSingle) stands.nonempty
    · cases same
      exact least other restStands
  · intro otherText other otherStop otherStands
    rcases otherStands.of_read read with ⟨_, rfl⟩ | ⟨rest, _, restStands⟩
    · exact stands.spells.le
    · exact upper rest other otherStop restStands

/-- One more character, what is reported with it, and the search behind it. -/
private theorem Finds.of_read
    {kind? : Option Kind}
    (read : view.read? offset = some (char, next))
    (report : mode.IsReport active (before ++ [char]) kind?)
    (finds :
      view.Finds mode active (before ++ [char]) next
        ((kind?.map fun kind => (kind, next)).or found?) result) :
    view.Finds mode active before offset found? result := by
  rcases finds with ⟨noMore, kept⟩ | ⟨kind, stop, longest, found⟩
  · -- nothing goes on, so what stands here is the one character
    have single :
        ∀ {text kind stop},
          view.Stands mode active before offset text kind stop →
          text = [char] ∧ stop = next := by
      intro text kind stop stands
      rcases stands.of_read read with single | ⟨rest, _, restStands⟩
      · exact single
      · exact absurd restStands (noMore rest kind stop)
    cases kind? with
    | none =>
        refine .inl ⟨?_, kept⟩
        intro text kind stop stands
        obtain ⟨rfl, _⟩ := single stands
        exact report kind stands.isActive stands.member
    | some kind =>
        obtain ⟨kindActive, member, least⟩ := report
        have stands : view.Stands mode active before offset [char] kind next :=
          ⟨List.cons_ne_nil _ _, .cons read (.nil next), kindActive, member⟩
        refine .inr ⟨kind, next, ⟨⟨[char], stands, ?_⟩, ?_⟩, kept⟩
        · intro other otherStands
          exact least other otherStands.isActive otherStands.member
        · intro text other stop otherStands
          exact Nat.le_of_eq (single otherStands).2
  · exact .inr ⟨kind, stop, longest.cons read, found⟩

/--
Reading on while a state is live finds the longest text behind what was read.
-/
theorem grow_finds
    (view : View)
    (mode : Mode)
    (active : KindSet)
    (live : StateSet)
    (found? : Option (Kind × Nat))
    (offset : Nat) :
    ∀ before, mode.Tracks before live →
      view.Finds mode active before offset found?
        (view.grow mode active live found? offset) := by
  fun_induction view.grow mode active live found? offset with
  | case1 live found? offset dead =>
      intro before tracks
      exact .inl ⟨fun _ _ _ => not_stands_of_isEmpty tracks dead, rfl⟩
  | case2 live found? offset alive nothing =>
      intro before tracks
      exact .inl ⟨fun _ _ _ => not_stands_of_read?_none nothing, rfl⟩
  | case3 live found? offset alive char next read outcome inductionHypothesis =>
      intro before tracks
      obtain ⟨tracksNext, report⟩ := Mode.step_spec tracks active char
      exact Finds.of_read read report (inductionHypothesis _ tracksNext)

/-- The search from an offset finds the longest text that stands there. -/
theorem longest?_finds
    (view : View)
    (mode : Mode)
    (active : KindSet)
    (offset : Nat) :
    view.Finds mode active [] offset none
      (view.longest? mode active offset) := by
  unfold longest?
  split
  case h_1 nothing =>
    exact .inl ⟨fun _ _ _ => not_stands_of_read?_none nothing, rfl⟩
  case h_2 char next read =>
    obtain ⟨tracks, report⟩ := Mode.first_spec mode active char
    refine Finds.of_read read report ?_
    rw [Option.or_none]
    exact grow_finds view mode active _ _ next _ tracks

/-- There is at most one longest text, and at most one best kind that has it. -/
theorem IsLongest.unique
    {other : Kind}
    {otherStop : Nat}
    (first : view.IsLongest mode active before offset kind stop)
    (second : view.IsLongest mode active before offset other otherStop) :
    kind = other ∧ stop = otherStop := by
  obtain ⟨⟨firstText, firstStands, firstLeast⟩, firstUpper⟩ := first
  obtain ⟨⟨secondText, secondStands, secondLeast⟩, secondUpper⟩ := second
  have sameStop : stop = otherStop :=
    Nat.le_antisymm (secondUpper _ _ _ firstStands)
      (firstUpper _ _ _ secondStands)
  subst otherStop
  obtain rfl := firstStands.spells.unique secondStands.spells
  have sameOrdinal : kind.ordinal = other.ordinal :=
    Nat.le_antisymm (firstLeast other secondStands)
      (secondLeast kind firstStands)
  exact ⟨Kind.ordinal_inj sameOrdinal, rfl⟩

/--
A kind and an end are found exactly when they are those of the longest text.
-/
theorem longest?_eq_some_iff :
    view.longest? mode active offset = some (kind, stop) ↔
      view.IsLongest mode active [] offset kind stop := by
  constructor
  · intro found
    rcases view.longest?_finds mode active offset with
        ⟨_, nothing⟩ | ⟨other, otherStop, longest, same⟩
    · rw [found] at nothing
      cases nothing
    · rw [found] at same
      cases same
      exact longest
  · intro longest
    rcases view.longest?_finds mode active offset with
        ⟨noText, _⟩ | ⟨other, otherStop, otherLongest, found⟩
    · obtain ⟨text, stands, _⟩ := longest.best
      exact absurd stands (noText text kind stop)
    · obtain ⟨rfl, rfl⟩ := longest.unique otherLongest
      exact found

/-- Nothing is found exactly when no text of an active kind stands there. -/
theorem longest?_eq_none_iff :
    view.longest? mode active offset = none ↔
      ∀ text kind stop, ¬view.Stands mode active [] offset text kind stop := by
  constructor
  · intro nothing
    rcases view.longest?_finds mode active offset with
        ⟨noText, _⟩ | ⟨kind, stop, _, found⟩
    · exact noText
    · rw [nothing] at found
      cases found
  · intro noText
    rcases view.longest?_finds mode active offset with
        ⟨_, nothing⟩ | ⟨kind, stop, longest, _⟩
    · exact nothing
    · obtain ⟨text, stands, _⟩ := longest.best
      exact absurd stands (noText text kind stop)

end View

namespace Buffer

/--
A text is what the characters of a buffer spell from one offset up to another.
-/
inductive Spells (buffer : Buffer) : Nat → List Char → Nat → Prop where
  | nil (offset : Nat) :
      Spells buffer offset [] offset
  | cons
      {offset width stop : Nat}
      {char : Char}
      {rest : List Char}
      (present : buffer.char? offset = some (char, width))
      (later : Spells buffer (offset + width) rest stop) :
      Spells buffer offset (char :: rest) stop

/--
A text of an active kind that is not empty stands at an offset of a buffer.
-/
structure Stands
    (buffer : Buffer)
    (mode : Mode)
    (active : KindSet)
    (offset : Nat)
    (text : List Char)
    (kind : Kind)
    (stop : Nat) : Prop where
  nonempty : text ≠ []
  spells : buffer.Spells offset text stop
  isActive : active.contains kind = true
  member : text ∈ mode.language kind

/--
Where nothing is left out, stepping over hidden offsets stays where it is.
-/
theorem whole_stepOver
    (buffer : Buffer)
    (offset : Nat) :
    (View.whole buffer).stepOver offset = offset := by
  unfold View.stepOver
  simp [View.whole]

/-- Where nothing is left out, reading takes the character at the offset. -/
theorem whole_read?
    (buffer : Buffer)
    (offset : Nat) :
    (View.whole buffer).read? offset =
      (buffer.char? offset).map fun found => (found.1, offset + found.2) := by
  have settled : (View.whole buffer).settle offset = min offset buffer.size :=
    buffer.whole_stepOver _
  rcases Nat.lt_or_ge buffer.size offset with past | inside
  · have nothing : (View.whole buffer).buffer.char? buffer.size = none :=
      char?_eq_none_iff.mpr (Nat.le_refl _)
    rw [Nat.min_eq_right (Nat.le_of_lt past)] at settled
    rw [char?_eq_none_iff.mpr (Nat.le_of_lt past)]
    simp only [View.read?, settled, nothing, Option.map_none]
  · rw [Nat.min_eq_left inside] at settled
    simp only [View.read?, settled]
    change _ = (((View.whole buffer).buffer.char? offset).map _)
    cases (View.whole buffer).buffer.char? offset <;> rfl

/--
Where nothing is left out, reading on is
the same in the view and in the buffer.
-/
theorem whole_grow
    (buffer : Buffer)
    (mode : Mode)
    (active : KindSet)
    (live : StateSet)
    (found? : Option (Kind × Nat))
    (offset : Nat) :
    (View.whole buffer).grow mode active live found? offset =
      buffer.grow mode active live found? offset := by
  fun_induction buffer.grow mode active live found? offset with
  | case1 live found? offset dead =>
      rw [View.grow, if_pos dead]
  | case2 live found? offset alive nothing =>
      have noRead : (View.whole buffer).read? offset = none := by
        rw [whole_read?, nothing]
        rfl
      rw [View.grow, if_neg alive]
      split
      case h_1 =>
        rfl
      case h_2 read =>
        cases noRead.symm.trans read
  | case3 live found? offset alive char width present outcome
      inductionHypothesis =>
      have read :
          (View.whole buffer).read? offset = some (char, offset + width) := by
        rw [whole_read?, present]
        rfl
      rw [View.grow, if_neg alive, ← inductionHypothesis]
      split
      case h_1 noRead =>
        cases noRead.symm.trans read
      case h_2 again =>
        cases again.symm.trans read
        rfl

/--
Where nothing is left out, the same match
is found in the view and in the buffer.
-/
theorem whole_longest?
    (buffer : Buffer)
    (mode : Mode)
    (active : KindSet)
    (offset : Nat) :
    (View.whole buffer).longest? mode active offset =
      buffer.longest? mode active offset := by
  rw [View.longest?, longest?, whole_read?]
  cases buffer.char? offset with
  | none =>
      rfl
  | some found =>
      exact buffer.whole_grow mode active _ _ _

variable {buffer : Buffer} {mode : Mode} {active : KindSet} {offset stop : Nat}
  {text : List Char} {kind : Kind}

/--
Reading where nothing is left out spells
what the characters of the buffer spell.
-/
theorem whole_spells_iff :
    (View.whole buffer).Spells offset text stop ↔
      buffer.Spells offset text stop := by
  constructor
  · intro spells
    induction spells with
    | nil offset =>
        exact .nil offset
    | cons read _ inductionHypothesis =>
        rw [whole_read?, Option.map_eq_some_iff] at read
        obtain ⟨⟨char, width⟩, present, same⟩ := read
        cases same
        exact .cons present inductionHypothesis
  · intro spells
    induction spells with
    | nil offset =>
        exact .nil offset
    | cons present _ inductionHypothesis =>
        refine .cons ?_ inductionHypothesis
        rw [whole_read?, present]
        rfl

/-- The same texts stand in a buffer and in the view that leaves nothing out. -/
theorem whole_stands_iff :
    (View.whole buffer).Stands mode active [] offset text kind stop ↔
      buffer.Stands mode active offset text kind stop := by
  constructor
  · intro stands
    exact ⟨stands.nonempty, whole_spells_iff.mp stands.spells, stands.isActive,
      stands.member⟩
  · intro stands
    exact ⟨stands.nonempty, whole_spells_iff.mpr stands.spells, stands.isActive,
      stands.member⟩

/--
A match is found exactly when a text of an active kind stands at the
offset.  It ends where the longest such text does, and its kind is the best
that has this text.
-/
theorem longest?_of_grammar
    (buffer : Buffer)
    (mode : Mode)
    (active : KindSet)
    (offset : Nat) :
    (∀ kind stop,
      buffer.longest? mode active offset = some (kind, stop) ↔
        (∃ text, buffer.Stands mode active offset text kind stop ∧
          ∀ other, buffer.Stands mode active offset text other stop →
            kind.ordinal ≤ other.ordinal) ∧
        ∀ text other otherStop,
          buffer.Stands mode active offset text other otherStop →
          otherStop ≤ stop) ∧
    (buffer.longest? mode active offset = none ↔
      ∀ text kind stop, ¬buffer.Stands mode active offset text kind stop) := by
  rw [← whole_longest?]
  constructor
  · intro kind stop
    constructor
    · intro found
      obtain ⟨⟨text, stands, least⟩, longest⟩ :=
        View.longest?_eq_some_iff.mp found
      refine ⟨⟨text, whole_stands_iff.mp stands, ?_⟩, ?_⟩
      · intro other otherStands
        exact least other (whole_stands_iff.mpr otherStands)
      · intro otherText other otherStop otherStands
        exact longest otherText other otherStop
          (whole_stands_iff.mpr otherStands)
    · rintro ⟨⟨text, stands, least⟩, longest⟩
      refine View.longest?_eq_some_iff.mpr
        ⟨⟨text, whole_stands_iff.mpr stands, ?_⟩, ?_⟩
      · intro other otherStands
        exact least other (whole_stands_iff.mp otherStands)
      · intro otherText other otherStop otherStands
        exact longest otherText other otherStop
          (whole_stands_iff.mp otherStands)
  · constructor
    · intro nothing text kind stop stands
      exact View.longest?_eq_none_iff.mp nothing text kind stop
        (whole_stands_iff.mpr stands)
    · intro noText
      refine View.longest?_eq_none_iff.mpr ?_
      intro text kind stop stands
      exact noText text kind stop (whole_stands_iff.mp stands)

end Buffer

end Snbt
