import Snbt.Automaton.Step
import Snbt.Proofs.Automaton.Reading

namespace Snbt

/-!
# Live states

The set of live states after a text holds exactly the states that the text
leads to, and what is reported is the best active kind that has the text.  Both
are kept by every step of the automaton.
-/

namespace State

/-- The number of a state is below 64. -/
theorem number_lt
    (state : State) :
    state.number < 64 := by
  cases state <;> decide

/-- States with the same number are the same. -/
theorem number_inj
    {first second : State}
    (same : first.number = second.number) :
    first = second := by
  have firstPlace := all_getElem?_number first
  rw [same, all_getElem?_number second] at firstPlace
  exact (Option.some.inj firstPlace).symm

end State

namespace StateSet

/-- Adding states keeps the members and adds the states. -/
private theorem contains_foldl_insert
    (states : List State)
    (set : StateSet)
    (state : State) :
    (states.foldl (fun set state => set.insert state.number) set).contains
        state.number = true ↔
      set.contains state.number = true ∨ state ∈ states := by
  induction states generalizing set with
  | nil =>
      simp
  | cons first rest inductionHypothesis =>
      have same : state.number = first.number ↔ state = first :=
        ⟨State.number_inj, fun equal => congrArg State.number equal⟩
      rw [List.foldl_cons, inductionHypothesis, contains_insert, List.mem_cons]
      simp [State.number_lt, same, or_assoc]

/-- The set of the states listed has no others. -/
theorem contains_ofStates
    (states : List State)
    (state : State) :
    (ofStates states).contains state.number = true ↔ state ∈ states := by
  unfold ofStates
  rw [contains_foldl_insert, contains_empty]
  simp

end StateSet

namespace Kind

/-- The better of two kinds is one of them, and no worse than either. -/
theorem best_spec
    (first second : Kind) :
    (first.best second).ordinal ≤ first.ordinal ∧
      (first.best second).ordinal ≤ second.ordinal ∧
      (first.best second = first ∨ first.best second = second) := by
  unfold best
  split
  · exact ⟨by omega, Nat.le_refl _, .inr rfl⟩
  · exact ⟨Nat.le_refl _, by omega, .inl rfl⟩

end Kind

namespace KindSet

variable {active : KindSet} {kinds : List Kind} {kind : Kind}

/--
One more kind is taken if it is active and better than the best before it.
-/
private theorem best?_append
    (last : Kind) :
    active.best? (kinds ++ [last]) =
      if active.contains last then
        match active.best? kinds with
        | some found => some (found.best last)
        | none => some last
      else
        active.best? kinds := by
  unfold best?
  rw [List.foldl_append]
  rfl

/-- There is no best kind only where no active kind is listed. -/
theorem best?_eq_none
    (missing : active.best? kinds = none) :
    ∀ other ∈ kinds, ¬active.contains other = true := by
  induction kinds using List.reverseRecOn with
  | nil =>
      simp
  | append_singleton kinds last inductionHypothesis =>
      rw [best?_append] at missing
      split at missing
      · split at missing <;> cases missing
      · intro other member
        rcases List.mem_append.mp member with earlier | isLast
        · exact inductionHypothesis missing other earlier
        · rw [List.mem_singleton.mp isLast]
          assumption

/--
The best kind is listed and active, and no worse than any other such kind.
-/
theorem best?_eq_some
    (found : active.best? kinds = some kind) :
    kind ∈ kinds ∧ active.contains kind = true ∧
      ∀ other ∈ kinds, active.contains other = true →
        kind.ordinal ≤ other.ordinal := by
  induction kinds using List.reverseRecOn generalizing kind with
  | nil =>
      cases found
  | append_singleton kinds last inductionHypothesis =>
      rw [best?_append] at found
      split at found
      case isTrue lastActive =>
        split at found
        case h_1 former formerBest =>
          obtain ⟨listed, formerActive, least⟩ := inductionHypothesis formerBest
          obtain ⟨leFormer, leLast, isEither⟩ := former.best_spec last
          cases found
          refine ⟨?_, ?_, ?_⟩
          · rcases isEither with same | same <;> simp [same, listed]
          · rcases isEither with
              same | same <;> simp [same, formerActive, lastActive]
          · intro other member otherActive
            rcases List.mem_append.mp member with earlier | isLast
            · exact Nat.le_trans leFormer (least other earlier otherActive)
            · rw [List.mem_singleton.mp isLast]
              exact leLast
        case h_2 noFormer =>
          cases found
          refine ⟨by simp, lastActive, ?_⟩
          intro other member otherActive
          rcases List.mem_append.mp member with earlier | isLast
          · exact absurd otherActive (best?_eq_none noFormer other earlier)
          · rw [List.mem_singleton.mp isLast]
      case isFalse lastInactive =>
        obtain ⟨listed, kindActive, least⟩ := inductionHypothesis found
        refine ⟨List.mem_append_left _ listed, kindActive, ?_⟩
        intro other member otherActive
        rcases List.mem_append.mp member with earlier | isLast
        · exact least other earlier otherActive
        · rw [List.mem_singleton.mp isLast] at otherActive
          exact absurd otherActive lastInactive

end KindSet

namespace Mode

variable {mode : Mode} {active : KindSet} {live : StateSet} {text : List Char}
  {char : Char} {state : State} {kind : Kind}

/-- The moves of several states at once are those of each of them. -/
private theorem mem_foldl_both
    (moves : State → Move)
    (states : List State)
    (total : Move) :
    (state ∈
      (states.foldl (fun total state => total.both (moves state))
        total).states ↔
      state ∈ total.states ∨ ∃ before ∈ states, state ∈ (moves before).states) ∧
    (kind ∈
      (states.foldl (fun total state => total.both (moves state)) total).kinds ↔
      kind ∈ total.kinds ∨ ∃ before ∈ states, kind ∈ (moves before).kinds) := by
  induction states generalizing total with
  | nil =>
      simp
  | cons first rest inductionHypothesis =>
      obtain ⟨sameStates, sameKinds⟩ :=
        inductionHypothesis (total.both (moves first))
      rw [List.foldl_cons, sameStates, sameKinds]
      simp [or_assoc]

/-- The live states are exactly those that a text leads to. -/
def Tracks (mode : Mode) (text : List Char) (live : StateSet) : Prop :=
  ∀ state, live.contains state.number = true ↔ text ∈ mode.reading state

/--
The best active kind that has a text, or none where no active kind has it.
-/
def IsReport (mode : Mode) (active : KindSet) (text : List Char) :
    Option Kind → Prop
  | some kind =>
      active.contains kind = true ∧ text ∈ mode.language kind ∧
        ∀ other, active.contains other = true → text ∈ mode.language other →
          kind.ordinal ≤ other.ordinal
  | none =>
      ∀ kind, active.contains kind = true → text ∉ mode.language kind

/-- A state is live exactly when the text leads to it. -/
theorem Tracks.mem_liveStates
    (tracks : mode.Tracks text live) :
    state ∈ mode.liveStates live ↔ text ∈ mode.reading state := by
  unfold liveStates
  rw [List.mem_filter, tracks state]
  constructor
  · rintro ⟨_, member⟩
    exact member
  · intro member
    exact ⟨mem_states_of_mem_reading member, member⟩

/-- No state is live only where no text goes on. -/
theorem Tracks.not_mem_reading_of_isEmpty
    (tracks : mode.Tracks text live)
    (dead : live.isEmpty = true) :
    text ∉ mode.reading state := by
  intro member
  have alive := (tracks state).mpr member
  simp only [StateSet.isEmpty, decide_eq_true_eq] at dead
  rw [dead, StateSet.contains_empty] at alive
  cases alive

/-- The outcome of a move that leads where a text leads. -/
private theorem outcome_spec
    {move : Move}
    (sameStates : ∀ state, state ∈ move.states ↔ text ∈ mode.reading state)
    (sameKinds : ∀ kind, kind ∈ move.kinds ↔ text ∈ mode.language kind) :
    mode.Tracks text (move.outcome active).live ∧
      mode.IsReport active text (move.outcome active).kind? := by
  constructor
  · intro state
    exact (StateSet.contains_ofStates move.states state).trans
      (sameStates state)
  · cases report : (move.outcome active).kind? with
    | some kind =>
        obtain ⟨listed, reported, least⟩ := KindSet.best?_eq_some report
        refine ⟨reported, (sameKinds kind).mp listed, ?_⟩
        intro other otherActive member
        exact least other ((sameKinds other).mpr member) otherActive
    | none =>
        intro kind kindActive member
        exact KindSet.best?_eq_none report kind
          ((sameKinds kind).mpr member) kindActive

/--
After the first character the live states and the report are those of its text.
-/
theorem first_spec
    (mode : Mode)
    (active : KindSet)
    (char : Char) :
    mode.Tracks [char] (mode.first active char).live ∧
      mode.IsReport active [char] (mode.first active char).kind? := by
  refine outcome_spec (fun state => ?_) (fun kind => ?_)
  · rw [← List.nil_append [char], append_mem_reading]
    simp [nil_mem_reading]
  · rw [← List.nil_append [char], append_mem_language]
    simp [nil_mem_reading]

/--
Another character keeps the live states and the report in step with the text.
-/
theorem step_spec
    (tracks : mode.Tracks text live)
    (active : KindSet)
    (char : Char) :
    mode.Tracks (text ++ [char]) (mode.step active live char).live ∧
      mode.IsReport active (text ++ [char])
        (mode.step active live char).kind? := by
  refine outcome_spec (fun state => ?_) (fun kind => ?_)
  · have moves :=
      (@mem_foldl_both state .eof (fun before => mode.move before char)
      (mode.liveStates live) .dead).1
    rw [append_mem_reading, moveAll, moves]
    simp [tracks.mem_liveStates]
  · have moves :=
      (@mem_foldl_both .start kind (fun before => mode.move before char)
      (mode.liveStates live) .dead).2
    rw [append_mem_language, moveAll, moves]
    simp [tracks.mem_liveStates]

end Mode

end Snbt
