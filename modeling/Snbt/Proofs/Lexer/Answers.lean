import Snbt.Proofs.Lexer.Segments
import Snbt.Proofs.Text.PairSeams

namespace Snbt

/-!
# Where answers lie

Lexemes start where reading can stand, follow each other, and are not empty.  A
scan that starts where its answer does answers the same, and what it skips on
the way holds the start of no lexeme.  All of this is shown of one piece first.
-/

namespace View

/-- Where reading can stand: at the end, or at an offset that is not hidden. -/
def IsPlace (view : View) (offset : Nat) : Prop :=
  offset ≤ view.buffer.size ∧
    (offset < view.buffer.size → view.hidden offset = false)

variable {view : View} {offset : Nat}

/-- Stepping over hidden offsets leads to a place. -/
private theorem stepOver_isPlace
    (view : View)
    (offset : Nat)
    (inside : offset ≤ view.buffer.size) :
    view.IsPlace (view.stepOver offset) := by
  fun_induction view.stepOver offset with
  | case1 offset before hidden inductionHypothesis =>
      exact inductionHypothesis before
  | case2 offset before shown =>
      exact ⟨inside, fun _ => Bool.eq_false_of_not_eq_true shown⟩
  | case3 offset after =>
      exact ⟨inside, fun before => absurd before after⟩

theorem settle_isPlace
    (view : View)
    (offset : Nat) :
    view.IsPlace (view.settle offset) :=
  view.stepOver_isPlace _ (Nat.min_le_right ..)

/-- A place is settled. -/
theorem settle_of_isPlace
    (isPlace : view.IsPlace offset) :
    view.settle offset = offset := by
  obtain ⟨inside, shown⟩ := isPlace
  rw [settle, Nat.min_eq_left inside, stepOver]
  by_cases before : offset < view.buffer.size
  · rw [if_pos before, shown before]
    rfl
  · rw [if_neg before]

/-- Settling again changes nothing. -/
theorem settle_settle
    (view : View)
    (offset : Nat) :
    view.settle (view.settle offset) = view.settle offset :=
  settle_of_isPlace (view.settle_isPlace offset)

/-- Inside the buffer settling leads forward. -/
theorem le_settle
    (inside : offset ≤ view.buffer.size) :
    offset ≤ view.settle offset := by
  have bounds := view.settle_bounds offset
  omega

theorem read?_settle
    (view : View)
    (offset : Nat) :
    view.read? (view.settle offset) = view.read? offset := by
  unfold read?
  rw [settle_settle]

theorem longest?_settle
    (view : View)
    (mode : Mode)
    (active : KindSet)
    (offset : Nat) :
    view.longest? mode active (view.settle offset) =
      view.longest? mode active offset := by
  unfold longest?
  rw [read?_settle]

/-- A text that is read ends inside no pair. -/
theorem Spells.not_splitsPair
    {text : List Char}
    {stop : Nat}
    (spells : view.Spells offset text stop)
    (nonempty : text ≠ []) :
    ¬view.buffer.SplitsPair stop := by
  induction spells with
  | nil offset =>
      exact absurd rfl nonempty
  | cons read later inductionHypothesis =>
      cases later with
      | nil =>
          exact not_splitsPair_of_read? read
      | cons =>
          exact inductionHypothesis (List.cons_ne_nil _ _)

/-- A match ends inside no pair. -/
theorem not_splitsPair_of_longest?
    {mode : Mode}
    {active : KindSet}
    {stop : Nat}
    {kind : Kind}
    (found : view.longest? mode active offset = some (kind, stop)) :
    ¬view.buffer.SplitsPair stop := by
  obtain ⟨⟨text, stands, _⟩, _⟩ := longest?_eq_some_iff.mp found
  exact stands.spells.not_splitsPair stands.nonempty

end View

namespace Scanner

/--
A lexeme that is no end: where it lies, and that its kind may be reported.
-/
structure Fits (scanner : Scanner) (lexeme : Lexeme) : Prop where
  isPlace : scanner.view.IsPlace lexeme.start
  start_lt_stop : lexeme.start < lexeme.stop
  stop_le_size : lexeme.stop ≤ scanner.view.buffer.size
  notEnding : lexeme.kind ≠ .eof
  mayReport :
    lexeme.kind = .invalid ∨ scanner.active.contains lexeme.kind = true
  wholePairs : ¬scanner.view.buffer.SplitsPair lexeme.stop

/-- A beginning of a longer lexeme that is read up to an offset. -/
def Pending (scanner : Scanner) (pending? : Option Nat) (offset : Nat) : Prop :=
  ∀ start, pending? = some start →
    scanner.view.IsPlace start ∧ start < offset ∧
      offset ≤ scanner.view.buffer.size

variable {scanner : Scanner} {pending? : Option Nat} {offset stop : Nat}

/--
The start of a segment read on behind a beginning is a place before
any offset behind it.
-/
private theorem Pending.start
    (pending : scanner.Pending pending? offset)
    (forward : scanner.view.settle offset < stop)
    (inside : stop ≤ scanner.view.buffer.size) :
    scanner.view.IsPlace (pending?.getD (scanner.view.settle offset)) ∧
      pending?.getD (scanner.view.settle offset) < stop ∧
      pending?.getD offset ≤ pending?.getD (scanner.view.settle offset) := by
  have bounds := scanner.view.settle_bounds offset
  cases pending? with
  | none =>
      refine ⟨scanner.view.settle_isPlace offset, forward, ?_⟩
      change offset ≤ scanner.view.settle offset
      omega
  | some start =>
      obtain ⟨isPlace, before, _⟩ := pending start rfl
      refine ⟨isPlace, ?_, Nat.le_refl _⟩
      change start < stop
      omega

/--
A piece found from a place on: where its lexeme lies, and that what was skipped
for it lies before the lexeme.
-/
structure Yields
    (scanner : Scanner)
    (place : Nat)
    (skipped : List (Nat × Nat))
    (piece : Piece) : Prop where
  fits : piece.lexeme.kind ≠ .eof → scanner.Fits piece.lexeme
  isPlace : scanner.view.IsPlace piece.lexeme.start
  le_start : place ≤ piece.lexeme.start
  skips : ∀ stretch ∈ piece.skipped,
    stretch ∈ skipped ∨ place ≤ stretch.1 ∧ stretch.2 ≤ piece.lexeme.start

/-- What a piece yields behind a skipped stretch, it yields before it. -/
private theorem Yields.of_skip
    {place start : Nat}
    {skipped : List (Nat × Nat)}
    {piece : Piece}
    (yields : scanner.Yields stop ((start, stop) :: skipped) piece)
    (before : place ≤ start)
    (forward : start < stop) :
    scanner.Yields place skipped piece := by
  have startBound := yields.le_start
  refine ⟨yields.fits, yields.isPlace, by omega, ?_⟩
  intro stretch member
  rcases yields.skips stretch member with known | ⟨later, bound⟩
  · rcases List.mem_cons.mp known with rfl | known
    · exact .inr ⟨before, startBound⟩
    · exact .inl known
  · exact .inr ⟨by omega, bound⟩

/-- What a piece yields from a place it yields from any place before. -/
private theorem Yields.of_le
    {place earlier : Nat}
    {skipped : List (Nat × Nat)}
    {piece : Piece}
    (yields : scanner.Yields place skipped piece)
    (before : earlier ≤ place) :
    scanner.Yields earlier skipped piece := by
  have startBound := yields.le_start
  refine ⟨yields.fits, yields.isPlace, by omega, ?_⟩
  intro stretch member
  rcases yields.skips stretch member with known | ⟨later, bound⟩
  · exact .inl known
  · exact .inr ⟨by omega, bound⟩

/-- A lexeme that is no end, with nothing more skipped for it. -/
private theorem Yields.of_fits
    {place : Nat}
    {lexeme : Lexeme}
    {skipped : List (Nat × Nat)}
    (fits : scanner.Fits lexeme)
    (before : place ≤ lexeme.start) :
    scanner.Yields place skipped ⟨lexeme, skipped⟩ :=
  ⟨fun _ => fits, fits.isPlace, before, fun _ member => .inl member⟩

/-- What the search for a piece yields. -/
theorem pieceFrom_yields
    (scanner : Scanner)
    (pending? : Option Nat)
    (skipped : List (Nat × Nat))
    (offset : Nat) :
    offset ≤ scanner.view.buffer.size → scanner.Pending pending? offset →
      scanner.Yields (pending?.getD offset) skipped
        (scanner.pieceFrom pending? skipped offset) := by
  fun_induction scanner.pieceFrom pending? skipped offset with
  | case1 pending? skipped offset place start nothing kind =>
      intro inside pending
      have atEnd : place = scanner.view.buffer.size :=
        View.settle_of_read?_none nothing
      cases pending? with
      | none =>
          refine ⟨?_, scanner.view.settle_isPlace offset, ?_,
            fun _ member => .inl member⟩
          · intro notEnding
            exact absurd rfl notEnding
          · exact View.le_settle inside
      | some before =>
          obtain ⟨isPlace, forward, inside⟩ := pending before rfl
          refine .of_fits ⟨isPlace, ?_, ?_, Kind.noConfusion, .inl rfl, ?_⟩
            (Nat.le_refl _)
          · change before < place
            omega
          · exact Nat.le_of_eq atEnd
          · exact Buffer.not_splitsPair_of_size_le (Nat.le_of_eq atEnd.symm)
  | case2 pending? skipped offset place start char after read nothing =>
      intro inside pending
      have bounds :=
        View.read?_bounds ((scanner.view.read?_settle offset).trans read)
      obtain ⟨isPlace, forward, before⟩ := pending.start bounds.1 bounds.2
      have whole := View.not_splitsPair_of_read? read
      exact .of_fits
        ⟨isPlace, forward, bounds.2, Kind.noConfusion, .inl rfl, whole⟩ before
  | case3 pending? skipped offset place start char after read kind stop found
      role inductionHypothesis =>
      intro inside pending
      have bounds := View.longest?_bounds
        ((scanner.view.longest?_settle _ _ offset).trans found)
      obtain ⟨_, forward, before⟩ := pending.start bounds.1 bounds.2
      refine Yields.of_skip (inductionHypothesis bounds.2 ?_) before forward
      intro start impossible
      cases impossible
  | case4 pending? skipped offset place start char after read kind stop found
      role inductionHypothesis =>
      intro inside pending
      have bounds := View.longest?_bounds
        ((scanner.view.longest?_settle _ _ offset).trans found)
      obtain ⟨isPlace, forward, before⟩ := pending.start bounds.1 bounds.2
      refine Yields.of_le (inductionHypothesis bounds.2 ?_) before
      intro other same
      cases same
      exact ⟨isPlace, forward, bounds.2⟩
  | case5 pending? skipped offset place start char after read kind stop found
      isSkip isMore =>
      intro inside pending
      have bounds := View.longest?_bounds
        ((scanner.view.longest?_settle _ _ offset).trans found)
      obtain ⟨notEnding, _, isActive⟩ := View.kind_of_longest? found
      obtain ⟨isPlace, forward, before⟩ := pending.start bounds.1 bounds.2
      have whole := View.not_splitsPair_of_longest? found
      exact .of_fits
        ⟨isPlace, forward, bounds.2, notEnding, .inr isActive, whole⟩ before

/-- A search from a hidden offset is one from the first place behind it. -/
theorem pieceFrom_settle
    (scanner : Scanner)
    (pending? : Option Nat)
    (skipped : List (Nat × Nat))
    (offset : Nat) :
    scanner.pieceFrom pending? skipped (scanner.view.settle offset) =
      scanner.pieceFrom pending? skipped offset := by
  have sameRead := scanner.view.read?_settle offset
  have sameMatch :=
    scanner.view.longest?_settle scanner.mode scanner.active offset
  have samePlace := scanner.view.settle_settle offset
  rw [pieceFrom, pieceFrom, sameRead, samePlace]
  cases read : scanner.view.read? offset with
  | none =>
      rfl
  | some found =>
      grind only

/--
A piece starts where the search does, or something was skipped for it, and then
a search that starts where it does finds the same lexeme.
-/
theorem pieceFrom_start
    (scanner : Scanner)
    (pending? : Option Nat)
    (skipped : List (Nat × Nat))
    (offset : Nat) :
    (scanner.pieceFrom pending? skipped offset).lexeme.start =
        pending?.getD (scanner.view.settle offset) ∨
      (∃ kind, scanner.roles.role kind = .skip) ∧
        (scanner.pieceFrom none []
          (scanner.pieceFrom pending? skipped offset).lexeme.start).lexeme =
            (scanner.pieceFrom pending? skipped offset).lexeme := by
  fun_induction scanner.pieceFrom pending? skipped offset with
  | case1 pending? skipped offset place start nothing kind =>
      exact .inl rfl
  | case2 pending? skipped offset place start char after read nothing =>
      exact .inl rfl
  | case3 pending? skipped offset place start char after read kind stop found
      role inductionHypothesis =>
      refine .inr ⟨⟨kind, role⟩, ?_⟩
      rcases inductionHypothesis with startEq | ⟨_, again⟩
      · rw [startEq]
        change (scanner.pieceFrom none [] (scanner.view.settle stop)).lexeme = _
        rw [pieceFrom_settle]
        exact scanner.pieceFrom_lexeme_congr none _ stop []
      · exact again
  | case4 pending? skipped offset place start char after read kind stop found
      role inductionHypothesis =>
      exact inductionHypothesis
  | case5 pending? skipped offset place start char after read kind stop found
      isSkip isMore =>
      exact .inl rfl

/-- A search that starts where its lexeme does finds the same one. -/
theorem pieceFrom_restart
    (scanner : Scanner)
    (offset : Nat) :
    (scanner.pieceFrom none []
      (scanner.pieceFrom none [] offset).lexeme.start).lexeme =
      (scanner.pieceFrom none [] offset).lexeme := by
  rcases scanner.pieceFrom_start none [] offset with startEq | ⟨_, again⟩
  · rw [startEq]
    exact congrArg Piece.lexeme (scanner.pieceFrom_settle none [] offset)
  · exact again

/--
What a scan has met between two places: the run of invalid input and the skipped
stretches lie there.
-/
structure Met
    (scanner : Scanner)
    (first : Nat)
    (invalid? : Option Lexeme)
    (skipped : List (Nat × Nat))
    (last : Nat) : Prop where
  first_le : first ≤ last
  last_le_size : last ≤ scanner.view.buffer.size
  run : ∀ run, invalid? = some run →
    scanner.Fits run ∧ first ≤ run.start ∧ run.stop ≤ last
  skips : ∀ stretch ∈ skipped, first ≤ stretch.1 ∧ stretch.2 ≤ last

variable {first last : Nat} {invalid? : Option Lexeme}
  {skipped : List (Nat × Nat)} {piece : Piece}

/-- What has been met up to the start of a piece. -/
private theorem Met.of_yields
    (met : scanner.Met first invalid? skipped last)
    (yields : scanner.Yields last skipped piece) :
    scanner.Met first invalid? piece.skipped piece.lexeme.start := by
  have forward := met.first_le
  have startBound := yields.le_start
  refine ⟨by omega, yields.isPlace.1, ?_, ?_⟩
  · intro run isRun
    obtain ⟨fits, later, bound⟩ := met.run run isRun
    exact ⟨fits, later, by omega⟩
  · intro stretch member
    rcases yields.skips stretch member with known | ⟨later, bound⟩
    · have bounds := met.skips stretch known
      omega
    · omega

/--
What has been met up to the end of an
invalid piece, which is a part of the run.
-/
private theorem Met.extend
    (met : scanner.Met first invalid? skipped piece.lexeme.start)
    (fits : scanner.Fits piece.lexeme) :
    scanner.Met first (some (extend invalid? piece.lexeme)) skipped
      piece.lexeme.stop := by
  have nonempty := fits.start_lt_stop
  have forward := met.first_le
  refine ⟨by omega, fits.stop_le_size, ?_, ?_⟩
  · rintro run ⟨⟩
    cases invalid? with
    | none =>
        exact ⟨fits, met.first_le, Nat.le_refl _⟩
    | some run =>
        obtain ⟨runFits, later, bound⟩ := met.run run rfl
        have runNonempty := runFits.start_lt_stop
        refine ⟨⟨runFits.isPlace, ?_, fits.stop_le_size, runFits.notEnding,
          runFits.mayReport, fits.wholePairs⟩, later, Nat.le_refl _⟩
        change run.start < piece.lexeme.stop
        omega
  · intro stretch member
    have bounds := met.skips stretch member
    omega

/-- What a scan meets on the way to its lexeme, and where the lexeme lies. -/
theorem scanFrom_met
    (scanner : Scanner)
    (invalid? : Option Lexeme)
    (skipped : List (Nat × Nat))
    (offset : Nat) :
    scanner.Met first invalid? skipped offset →
      scanner.Met first
        (scanner.scanFrom invalid? skipped offset).invalid?
        (scanner.scanFrom invalid? skipped offset).skipped
        (scanner.scanFrom invalid? skipped offset).lexeme.start ∧
      scanner.view.IsPlace
        (scanner.scanFrom invalid? skipped offset).lexeme.start ∧
      ((scanner.scanFrom invalid? skipped offset).lexeme.kind ≠ .eof →
        scanner.Fits (scanner.scanFrom invalid? skipped offset).lexeme) := by
  fun_induction scanner.scanFrom invalid? skipped offset with
  | case1 invalid? skipped offset raw isInvalid inductionHypothesis =>
      intro met
      have yields :=
        scanner.pieceFrom_yields none skipped offset met.last_le_size
        fun _ impossible => by cases impossible
      have notEnding : raw.lexeme.kind ≠ .eof := by
        rw [isInvalid]
        exact Kind.noConfusion
      exact inductionHypothesis
        ((met.of_yields yields).extend (yields.fits notEnding))
  | case2 invalid? skipped offset raw valid =>
      intro met
      have yields :=
        scanner.pieceFrom_yields none skipped offset met.last_le_size
        fun _ impossible => by cases impossible
      exact ⟨met.of_yields yields, yields.isPlace, yields.fits⟩

/-- The run of invalid input starts in nothing that is skipped. -/
private theorem scanFrom_clear
    (scanner : Scanner)
    (invalid? : Option Lexeme)
    (skipped : List (Nat × Nat))
    (offset : Nat) :
    scanner.Met first invalid? skipped offset →
      (∀ run, invalid? = some run → ∀ stretch ∈ skipped,
        stretch.2 ≤ run.start ∨ run.start < stretch.1) →
      ∀ run, (scanner.scanFrom invalid? skipped offset).invalid? = some run →
        ∀ stretch ∈ (scanner.scanFrom invalid? skipped offset).skipped,
          stretch.2 ≤ run.start ∨ run.start < stretch.1 := by
  fun_induction scanner.scanFrom invalid? skipped offset with
  | case1 invalid? skipped offset raw isInvalid inductionHypothesis =>
      intro met clear
      have yields :=
        scanner.pieceFrom_yields none skipped offset met.last_le_size
        fun _ impossible => by cases impossible
      have notEnding : raw.lexeme.kind ≠ .eof := by
        rw [isInvalid]
        exact Kind.noConfusion
      have startBound : offset ≤ raw.lexeme.start := yields.le_start
      refine inductionHypothesis
        ((met.of_yields yields).extend (yields.fits notEnding)) ?_
      rintro run ⟨⟩ stretch member
      cases invalid? with
      | none =>
          have bounds := (met.of_yields yields).skips stretch member
          exact .inl bounds.2
      | some run =>
          change stretch.2 ≤ run.start ∨ run.start < stretch.1
          obtain ⟨fits, _, bound⟩ := met.run run rfl
          have nonempty := fits.start_lt_stop
          rcases yields.skips stretch member with known | ⟨later, _⟩
          · exact clear run rfl stretch known
          · have later : offset ≤ stretch.1 := later
            omega
  | case2 invalid? skipped offset raw valid =>
      intro met clear run isRun stretch member
      have yields :=
        scanner.pieceFrom_yields none skipped offset met.last_le_size
        fun _ impossible => by cases impossible
      obtain ⟨fits, _, bound⟩ := met.run run isRun
      have nonempty := fits.start_lt_stop
      rcases yields.skips stretch member with known | ⟨later, _⟩
      · exact clear run isRun stretch known
      · have later : offset ≤ stretch.1 := later
        omega

/-- What a scan meets from an offset on. -/
theorem scan_met
    (scanner : Scanner)
    (inside : offset ≤ scanner.view.buffer.size) :
    scanner.Met offset
      (scanner.scan offset).invalid?
      (scanner.scan offset).skipped
      (scanner.scan offset).lexeme.start ∧
    scanner.view.IsPlace (scanner.scan offset).lexeme.start ∧
    ((scanner.scan offset).lexeme.kind ≠ .eof →
      scanner.Fits (scanner.scan offset).lexeme) := by
  refine scanner.scanFrom_met none [] offset ⟨Nat.le_refl _, inside, ?_, ?_⟩
  · intro run impossible
    cases impossible
  · intro stretch impossible
    cases impossible

/--
The invalid input that a scan answers with starts in nothing that it skips.
-/
theorem scan_clear
    {run : Lexeme}
    (inside : offset ≤ scanner.view.buffer.size)
    (invalid : (scanner.scan offset).invalid? = some run) :
    ∀ stretch ∈ (scanner.scan offset).skipped,
      stretch.2 ≤ run.start ∨ run.start < stretch.1 := by
  refine scanner.scanFrom_clear none [] offset ⟨Nat.le_refl _, inside, ?_, ?_⟩
    ?_ run invalid
  · intro run impossible
    cases impossible
  · intro stretch impossible
    cases impossible
  · intro run impossible
    cases impossible

/-- The answer starts where the first piece does. -/
private theorem scanFrom_start
    (scanner : Scanner)
    (invalid? : Option Lexeme)
    (skipped : List (Nat × Nat))
    (offset : Nat) :
    ((scanner.scanFrom invalid? skipped offset).invalid?.getD
        (scanner.scanFrom invalid? skipped offset).lexeme).start =
      (invalid?.getD (scanner.pieceFrom none skipped offset).lexeme).start := by
  fun_induction scanner.scanFrom invalid? skipped offset with
  | case1 invalid? skipped offset raw isInvalid inductionHypothesis =>
      rw [inductionHypothesis]
      cases invalid? <;> rfl
  | case2 invalid? skipped offset raw valid =>
      rfl

/-- The answer starts where the first piece does. -/
theorem answer_start
    (scanner : Scanner)
    (offset : Nat) :
    (scanner.answer offset).start =
      (scanner.pieceFrom none [] offset).lexeme.start :=
  scanner.scanFrom_start none [] offset

/-- A scan from a hidden offset is one from the first place behind it. -/
theorem scan_settle
    (scanner : Scanner)
    (offset : Nat) :
    scanner.scan (scanner.view.settle offset) = scanner.scan offset := by
  rw [scan, scan, scanFrom, pieceFrom_settle]
  conv_rhs => rw [scanFrom]

/-- An answer of the kind of the end is the end. -/
theorem answer_of_eof
    (isEnding : (scanner.answer offset).kind = .eof) :
    scanner.answer offset = scanner.ending := by
  have lexemesEq := scanner.lexemes_eq offset
  rw [if_pos isEnding] at lexemesEq
  have lengths := congrArg List.length lexemesEq
  rw [lexemes, List.length_append, List.length_singleton] at lengths
  have nothing : Lexeme.joinInvalid (scanner.spans none offset) = [] :=
    List.length_eq_zero_iff.mp (Nat.add_eq_right.mp lengths)
  rw [lexemes, nothing] at lexemesEq
  exact (List.cons.inj lexemesEq).1.symm

/-- An answer starts at a place, not before the offset that it is asked from. -/
theorem answer_isPlace
    (scanner : Scanner)
    (inside : offset ≤ scanner.view.buffer.size) :
    scanner.view.IsPlace (scanner.answer offset).start ∧
      offset ≤ (scanner.answer offset).start := by
  have yields := scanner.pieceFrom_yields none [] offset inside
    fun _ impossible => by cases impossible
  rw [answer_start]
  exact ⟨yields.isPlace, yields.le_start⟩

/-- An answer that is no end fits. -/
theorem answer_fits
    (scanner : Scanner)
    (inside : offset ≤ scanner.view.buffer.size)
    (notEnding : (scanner.answer offset).kind ≠ .eof) :
    scanner.Fits (scanner.answer offset) := by
  obtain ⟨met, _, fits⟩ := scanner.scan_met inside
  cases invalid : (scanner.scan offset).invalid? with
  | none =>
      rw [answer_of_valid invalid] at notEnding ⊢
      exact fits notEnding
  | some run =>
      rw [answer_of_run invalid]
      exact (met.run run invalid).1

/-- A scan from where its answer starts is left with the same lexemes. -/
theorem lexemes_restart
    (scanner : Scanner)
    (offset : Nat) :
    scanner.lexemes (scanner.answer offset).start = scanner.lexemes offset := by
  have again := scanner.pieceFrom_restart offset
  rw [← answer_start] at again
  have sameSpans :
      scanner.spans none (scanner.answer offset).start =
        scanner.spans none offset := by
    rcases scanner.pieceFrom_lexeme none [] offset with
        ⟨isEnding, spansEq⟩ | ⟨notEnding, spansEq⟩
    · rcases scanner.pieceFrom_lexeme none [] (scanner.answer offset).start with
          ⟨_, startSpans⟩ | ⟨startNotEnding, _⟩
      · rw [startSpans, spansEq]
      · rw [again, isEnding] at startNotEnding
        exact absurd rfl startNotEnding
    · rcases scanner.pieceFrom_lexeme none [] (scanner.answer offset).start with
          ⟨startIsEnding, _⟩ | ⟨_, startSpans⟩
      · rw [again] at startIsEnding
        rw [startIsEnding] at notEnding
        exact absurd rfl notEnding
      · rw [startSpans, spansEq, again]
  rw [lexemes, lexemes, sameSpans]

/-- Where nothing is skipped, an answer starts at the first place. -/
theorem answer_start_of_noSkip
    (noSkip : ∀ kind, scanner.roles.role kind ≠ .skip)
    (offset : Nat) :
    (scanner.answer offset).start = scanner.view.settle offset := by
  rw [answer_start]
  rcases scanner.pieceFrom_start none [] offset with
    startEq | ⟨⟨kind, isSkip⟩, _⟩
  · exact startEq
  · exact absurd isSkip (noSkip kind)

/--
To show something of the lexemes from an offset on, go from answer to answer.
-/
theorem lexemes_induction
    {motive : Nat → List Lexeme → Prop}
    (scanner : Scanner)
    (atEnd : ∀ offset ≤ scanner.view.buffer.size,
      scanner.answer offset = scanner.ending → motive offset [scanner.ending])
    (behind : ∀ offset ≤ scanner.view.buffer.size,
      scanner.Fits (scanner.answer offset) →
      offset ≤ (scanner.answer offset).start →
      motive (scanner.answer offset).stop
        (scanner.lexemes (scanner.answer offset).stop) →
      motive offset
        (scanner.answer offset :: scanner.lexemes (scanner.answer offset).stop))
    (offset : Nat)
    (inside : offset ≤ scanner.view.buffer.size) :
    motive offset (scanner.lexemes offset) := by
  induction left :
    scanner.view.buffer.size - offset using Nat.strong_induction_on
    generalizing offset with
  | h left inductionHypothesis =>
      rw [lexemes_eq]
      by_cases isEnding : (scanner.answer offset).kind = .eof
      · rw [if_pos isEnding, answer_of_eof isEnding]
        exact atEnd offset inside (answer_of_eof isEnding)
      · rw [if_neg isEnding]
        have fits := scanner.answer_fits inside isEnding
        have before := (scanner.answer_isPlace inside).2
        have nonempty := fits.start_lt_stop
        have bound := fits.stop_le_size
        refine behind offset inside fits before ?_
        exact inductionHypothesis _ (by omega) _ bound rfl

end Scanner

end Snbt
