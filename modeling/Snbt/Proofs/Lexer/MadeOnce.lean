import Snbt.Proofs.Lexer.Rescanning

namespace Snbt.Lexer

/-!
# Tokens made once

Pulling from a lexer that has done nothing yet makes each token once.  Walking
from token to token and scanning from the position go in step: they differ in
where they stand, and what one finds in the table the other scans again without
making anything.  At the end of the input both stay where they are.
-/

variable {lexer before : Lexer} {id : NodeId} {lexeme : Lexeme} {offset : Nat}
  {result : Lexer × NodeId}

/-- Ask for the token at the position, again and again. -/
def pullNext : Nat → Lexer → Except Misuse (Lexer × List NodeId)
  | 0, lexer =>
      return (lexer, [])
  | count + 1, lexer => do
      let (after, next) ← lexer.nextToken none
      let (final, later) ← pullNext count after
      return (final, next :: later)

/-- Where a lexer stands has no part in the token of a lexeme. -/
theorem tokenFor_withPosition
    (lexer : Lexer)
    (position : Nat)
    (lexeme : Lexeme) :
    { lexer with position }.tokenFor lexeme =
      ({ (lexer.tokenFor lexeme).1 with position },
        (lexer.tokenFor lexeme).2) := by
  cases found : (lexer.table.tokenAt? lexeme.start).filter
      (lexer.isSame lexeme (lexer.roles.role lexeme.kind = .unparsed)) with
  | some id =>
      obtain ⟨stands, isSame⟩ := Option.filter_eq_some_iff.mp found
      have knows : lexer.Knows lexeme id := ⟨stands, isSame⟩
      have stillKnows : Knows { lexer with position } lexeme id :=
        ⟨stands, isSame⟩
      rw [knows.tokenFor, stillKnows.tokenFor]
  | none =>
      have foundThere :
          (lexer.table.tokenAt? lexeme.start).filter
              (isSame { lexer with position } lexeme
                (lexer.roles.role lexeme.kind = .unparsed)) =
            none :=
        found
      rw [tokenFor_of_unknown found, tokenFor_of_unknown foundThere]
      rfl

/-- Two offsets that are settled alike are scanned from alike. -/
theorem scanNext_congr
    {first second : Nat}
    (same : lexer.view.settle first = lexer.view.settle second) :
    { lexer with position := first }.scanNext =
      { lexer with position := second }.scanNext := by
  have sameScan : lexer.scanner.scan first = lexer.scanner.scan second := by
    rw [← lexer.scanner.scan_settle first, ← lexer.scanner.scan_settle second]
    exact congrArg lexer.scanner.scan same
  have gathered :
      withScanned { lexer with position := first } =
        ({ (withScanned { lexer with position := second }).1
          with position := first },
          (withScanned { lexer with position := second }).2) := by
    have atFirst := tokenFor_withPosition
      (lexer.releaseAll (lexer.scanner.scan first).skipped) first
      (lexer.scanner.scan first).lexeme
    have atSecond := tokenFor_withPosition
      (lexer.releaseAll (lexer.scanner.scan second).skipped) second
      (lexer.scanner.scan second).lexeme
    change withScanned { lexer with position := first } = _ at atFirst
    change withScanned { lexer with position := second } = _ at atSecond
    rw [atFirst, atSecond, sameScan]
  cases invalid : (lexer.scanner.scan first).invalid? with
  | none =>
      have invalidThere : (lexer.scanner.scan second).invalid? = none := by
        rw [← sameScan]
        exact invalid
      have sameStop := congrArg (fun scan => scan.lexeme.stop) sameScan
      rw [@scanNext_of_valid { lexer with position := first } invalid,
        @scanNext_of_valid { lexer with position := second } invalidThere,
        gathered]
      exact congrArg
        (fun stop =>
          ({ (withScanned { lexer with position := second }).1
            with position := stop },
            (withScanned { lexer with position := second }).2))
        sameStop
  | some run =>
      have invalidThere : (lexer.scanner.scan second).invalid? = some run := by
        rw [← sameScan]
        exact invalid
      rw [@scanNext_of_invalid { lexer with position := first } run invalid,
        @scanNext_of_invalid { lexer with position := second } run invalidThere,
        gathered, tokenFor_withPosition]
      rfl

/-- Where a scan ends, the next one starts as from the end of its answer. -/
theorem settle_scanEnd
    (lexer : Lexer)
    (offset : Nat) :
    lexer.view.settle (lexer.scanEnd offset) =
      lexer.view.settle (lexer.scanner.answer offset).stop := by
  cases invalid : (lexer.scanner.scan offset).invalid? with
  | none =>
      rw [scanEnd, invalid, Scanner.answer_of_valid invalid]
  | some run =>
      rw [scanEnd, invalid, Scanner.answer_of_run invalid]
      exact lexer.view.settle_settle run.stop

/-!
Every node stands in the table as long as
tokens are made only where none stands.
-/

/-- Every node is the token at some offset. -/
def AllStand (lexer : Lexer) : Prop :=
  ∀ id < lexer.forest.size, ∃ place, lexer.table.tokenAt? place = some id

/-- A token that is made where none stands, stands with all others. -/
theorem AllStand.tokenFor
    (allStand : lexer.AllStand)
    (sized : lexer.Sized)
    (isPlace : lexer.scanner.view.IsPlace lexeme.start)
    (nothing : lexer.table.tokenAt? lexeme.start = none) :
    (lexer.tokenFor lexeme).1.AllStand := by
  have unknown :
      (lexer.table.tokenAt? lexeme.start).filter
          (lexer.isSame lexeme (lexer.roles.role lexeme.kind = .unparsed)) =
        none := by
    rw [nothing]
    rfl
  have stands : ∀ place,
      (lexer.table.put lexeme.start lexer.forest.size).tokenAt? place =
        if place = lexeme.start then
          some lexer.forest.size
        else
          lexer.table.tokenAt? place :=
    fun _ => OffsetTable.tokenAt?_put (sized.admits isPlace)
  rw [tokenFor_of_unknown unknown]
  intro id inside
  rcases Nat.lt_succ_iff_lt_or_eq.mp
    (Nat.lt_of_lt_of_eq inside (Array.size_push _)) with
      known | isNew
  · obtain ⟨place, found⟩ := allStand id known
    have elsewhere : place ≠ lexeme.start := by
      rintro rfl
      rw [nothing] at found
      cases found
    exact ⟨place, (stands place).trans ((if_neg elsewhere).trans found)⟩
  · rw [isNew]
    exact ⟨lexeme.start, (stands lexeme.start).trans (if_pos rfl)⟩

/-- Releasing where nothing stands takes nothing away. -/
theorem tokenAt?_releaseAll_of_nothing
    {skipped : List (Nat × Nat)}
    (nothing : ∀ stretch ∈ skipped, ∀ place, stretch.1 ≤ place →
      lexer.table.tokenAt? place = none) :
    (lexer.releaseAll skipped).table.tokenAt? = lexer.table.tokenAt? := by
  funext place
  rw [releaseAll, OffsetTable.tokenAt?_foldl_releaseRange]
  split
  case isTrue released =>
    obtain ⟨stretch, member, low, _⟩ := released
    exact (nothing stretch member place low).symm
  case isFalse =>
    rfl

theorem AllStand.moveTo
    (allStand : lexer.AllStand)
    (offset : Nat) :
    (lexer.moveTo offset).AllStand :=
  allStand

/--
A scan from where nothing is known makes
no node that does not stand in the table.
-/
theorem AllStand.scanNext
    (allStand : lexer.AllStand)
    (sized : lexer.Sized)
    (inside : lexer.position ≤ lexer.buffer.size)
    (nothing :
      ∀ place, lexer.position ≤ place → lexer.table.tokenAt? place = none) :
    lexer.scanNext.1.AllStand := by
  obtain ⟨met, isPlace, _⟩ := lexer.scanner.scan_met inside
  have released := sized.releaseAll (lexer.scanner.scan lexer.position).skipped
  have sameTokens :
      (lexer.releaseAll
        (lexer.scanner.scan lexer.position).skipped).table.tokenAt? =
        lexer.table.tokenAt? :=
    tokenAt?_releaseAll_of_nothing fun stretch member place low =>
      nothing place ((met.skips stretch member).1.trans low)
  have placed := released.isPlace isPlace
  have stillStand :
      (lexer.releaseAll
        (lexer.scanner.scan lexer.position).skipped).AllStand := by
    rw [AllStand, sameTokens]
    exact allStand
  have keeps := released.trans
    (released.sized.tokenFor (lexer.scanner.scan lexer.position).lexeme)
  have withLexeme := stillStand.tokenFor released.sized placed (by
    rw [sameTokens]
    exact nothing _ met.first_le)
  change lexer.withScanned.1.AllStand at withLexeme
  change lexer.Extends lexer.withScanned.1 at keeps
  cases invalid : (lexer.scanner.scan lexer.position).invalid? with
  | none =>
      rw [scanNext_of_valid invalid]
      exact withLexeme
  | some run =>
      obtain ⟨runFits, runBehind, runBefore⟩ := met.run run invalid
      have nonempty := runFits.start_lt_stop
      have nothingThere :
          lexer.withScanned.1.table.tokenAt? run.start = none := by
        rw [withScanned,
          tokenAt?_tokenFor_of_ne released.sized placed (by omega), sameTokens]
        exact nothing run.start runBehind
      rw [scanNext_of_invalid invalid]
      exact (withLexeme.tokenFor keeps.sized (keeps.isPlace runFits.isPlace)
        nothingThere).moveTo _

/-- A scan at the end of the buffer skips nothing. -/
theorem skipsReleased_size
    (lexer : Lexer) :
    lexer.SkipsReleased lexer.buffer.size := by
  intro stretch member place low high
  obtain ⟨met, _, _⟩ := lexer.scanner.scan_met (Nat.le_refl lexer.buffer.size)
  have bounds := met.skips stretch member
  have inside :
      (lexer.scanner.scan lexer.buffer.size).lexeme.start ≤ lexer.buffer.size :=
    met.last_le_size
  omega

/--
Behind an offset only a valid answer is known ahead of its time,
with what leads to it.
-/
def AwaitsValid (lexer : Lexer) (offset : Nat) : Prop :=
  ∀ place other, offset ≤ place → lexer.table.tokenAt? place = some other →
    (lexer.scanner.answer offset).kind ≠ .invalid ∧ lexer.SkipsReleased offset

/--
Behind an answer that starts where it
stops, the end comes again, which is valid.
-/
theorem awaitsValid_of_empty
    (empty :
      (lexer.scanner.answer offset).stop ≤
        (lexer.scanner.answer offset).start) :
    lexer.AwaitsValid (lexer.scanner.answer offset).stop := by
  intro _ _ _ _
  have isEnding :=
    (lexer.scanner.answer_lies offset).isEnding_of_stop_le_start empty
  rw [Scanner.answer_stop_of_empty empty, Scanner.answer_of_eof isEnding]
  exact ⟨Kind.noConfusion, lexer.skipsReleased_size⟩

/--
What a scan from where nothing was known makes ahead of its time is valid.
-/
theorem Scans.awaitsValid
    (scans : before.Scans offset result)
    (inside : offset ≤ before.buffer.size)
    (nothing : ∀ place, offset ≤ place → before.table.tokenAt? place = none)
    (released : result.1.SkipsReleased offset) :
    result.1.AwaitsValid (before.scanner.answer offset).stop := by
  obtain ⟨last, _, entries⟩ := scans.entries
  intro place other behind found
  cases invalid : (before.scanner.scan offset).invalid? with
  | none =>
      have forward := (before.scanner.answer_isPlace inside).2
      have reaches := (before.scanner.answer_lies offset).start_le_stop
      by_cases isAnswer : place = (before.scanner.answer offset).start
      · rw [← scans.keeps.scanner_eq] at isAnswer behind ⊢
        exact awaitsValid_of_empty (by omega) place other behind found
      · rw [entries, ← Scanner.answer_of_valid invalid, if_neg isAnswer,
          if_neg isAnswer, nothing place (by omega), ite_self] at found
        cases found
  | some run =>
      have behindRun := Scanner.scan_skipped_of_run invalid
      rw [Scanner.answer_of_run invalid, scans.keeps.scanner_eq,
        (Scanner.answer_of_invalid invalid).2]
      refine ⟨before.scanner.scan_valid offset, fun stretch member => ?_⟩
      rw [scans.keeps.scanner_eq] at member
      refine released stretch ?_
      rw [scans.keeps.scanner_eq]
      exact behindRun member

/--
A walk has come to the token of a lexeme, every node that it made stands in the
table, and if it knows the next answer ahead of its time, that one is valid.
-/
structure InStep (lexer : Lexer) (id : NodeId) (lexeme : Lexeme) : Prop
    extends WalkedTo lexer id lexeme where
  awaitsValid : lexer.AwaitsValid lexeme.stop
  allStand : lexer.AllStand

/-- An offset from which the next scan starts as from another. -/
def SettlesWith (lexer : Lexer) (position offset : Nat) : Prop :=
  lexer.view.settle position = lexer.view.settle offset

variable {position : Nat}

/-- A valid answer is of a kind that may be reported, the end included. -/
theorem isActive_answer
    (ending : lexer.active.contains .eof = true)
    (inside : offset ≤ lexer.buffer.size)
    (valid : (lexer.scanner.answer offset).kind ≠ .invalid) :
    lexer.active.contains (lexer.scanner.answer offset).kind = true := by
  by_cases isEnding : (lexer.scanner.answer offset).kind = .eof
  · rw [isEnding]
    exact ending
  · rcases (lexer.scanner.answer_fits inside isEnding).mayReport with
      invalid | isActive
    · exact absurd invalid valid
    · exact isActive

/--
A valid answer that is expected and known
has been scanned with all that leads to it.
-/
theorem Expects.hasScanned
    {place : Nat}
    (expects : lexer.Expects offset)
    (behind : offset ≤ place)
    (present : lexer.table.tokenAt? place = some id)
    (valid : (lexer.scanner.answer offset).kind ≠ .invalid)
    (released : lexer.SkipsReleased offset) :
    lexer.HasScanned offset id := by
  obtain ⟨holds, start⟩ := expects place id behind present
  have knows : lexer.Knows (lexer.scanner.answer offset) id := by
    refine ⟨?_, holds.isSame⟩
    rw [start]
    exact present
  obtain ⟨_, ⟨_, lexemeEq⟩ | ⟨invalid, _⟩⟩ := lexer.scanner.scan_lexeme offset
  · refine ⟨knows, ⟨id, ?_⟩, released⟩
    rw [lexemeEq]
    exact knows
  · exact absurd invalid valid

/--
One step of both runs from a token.  The walk comes to `next` in `after`, and
so does a scan from wherever the next one would start, standing elsewhere.
-/
structure Steps
    (lexer : Lexer)
    (id : NodeId)
    (lexeme : Lexeme)
    (after : Lexer)
    (next : NodeId) : Prop where
  walked :
    lexer.tokenAfter id (.ofStretch lexeme.kind lexeme.start lexeme.stop) =
      (after, next)
  keeps : lexer.Extends after
  inStep : after.InStep next (lexer.scanner.answer lexeme.stop)
  scanned : ∀ position, lexer.SettlesWith position lexeme.stop →
    ∃ later,
      { lexer with position }.scanNext =
        ({ after with position := later }, next) ∧
      after.SettlesWith later (lexer.scanner.answer lexeme.stop).stop

/-- Where nothing is known behind a token, both runs scan from there. -/
theorem InStep.steps_of_unknown
    (inStep : lexer.InStep id lexeme)
    (notEnding : lexeme.kind ≠ .eof)
    (unknown : lexer.table.next? lexeme.stop = none) :
    ∃ after next, lexer.Steps id lexeme after next := by
  have nothing := OffsetTable.next?_eq_none_iff.mp unknown
  have inside := inStep.lies.stop_le_size
  have settled : lexeme.stop ≤ lexer.view.settle lexeme.stop :=
    View.le_settle inside
  have noNext : lexer.next? id = none := by
    rw [inStep.holds.next?, if_neg notEnding]
    exact unknown
  have isScan :
      lexer.tokenAfter id (.ofStretch lexeme.kind lexeme.start lexeme.stop) =
        lexer.scanAt lexeme.stop :=
    tokenAfter_of_unknown noNext
  have walked := inStep.toWalkedTo.tokenAfter.walkedTo inside
  have plain := (inStep.expects.plain inStep.sized).mono settled
  have scans : lexer.Scans lexeme.stop (lexer.scanAt lexeme.stop) :=
    plain.scanAt
  obtain ⟨keeps, scanned, positionEq⟩ :=
    scanAt_hasScanned inStep.sized lexeme.stop
  have released : (lexer.scanAt lexeme.stop).1.SkipsReleased lexeme.stop := by
    have skips := scanned.released
    rw [SkipsReleased, keeps.scanner_eq] at skips ⊢
    rw [← lexer.scanner.scan_settle]
    exact skips
  have awaitsValid := scans.awaitsValid inside nothing released
  have allStand : (lexer.scanAt lexeme.stop).1.AllStand := by
    have moved := inStep.sized.withPosition (lexer.view.settle lexeme.stop)
    refine AllStand.scanNext inStep.allStand moved.sized
      (lexer.view.settle_bounds _).2 ?_
    intro place behind
    exact nothing place (settled.trans behind)
  have again : ∀ position, lexer.SettlesWith position lexeme.stop →
      { lexer with position }.scanNext = lexer.scanAt lexeme.stop :=
    fun _ settles =>
      scanNext_congr (settles.trans (lexer.view.settle_settle lexeme.stop).symm)
  rw [isScan] at walked
  generalize lexer.scanAt lexeme.stop = result at *
  refine ⟨result.1, result.2, isScan, keeps,
    ⟨walked, awaitsValid, allStand⟩, ?_⟩
  intro position settles
  refine ⟨result.1.position, again position settles, ?_⟩
  rw [SettlesWith, keeps.view_eq, positionEq, settle_scanEnd]
  exact congrArg (fun answer => lexer.view.settle answer.stop)
    (lexer.scanner.answer_settle lexeme.stop)

/--
Where the next token is known, the walk takes it and the scan makes nothing.
-/
theorem InStep.steps_of_known
    {known : NodeId}
    (inStep : lexer.InStep id lexeme)
    (notEnding : lexeme.kind ≠ .eof)
    (ending : lexer.active.contains .eof = true)
    (found : lexer.table.next? lexeme.stop = some known) :
    ∃ after next, lexer.Steps id lexeme after next := by
  obtain ⟨place, behind, present, _⟩ := OffsetTable.next?_eq_some_iff.mp found
  have inside := inStep.lies.stop_le_size
  obtain ⟨valid, released⟩ := inStep.awaitsValid place known behind present
  have scanned := inStep.expects.hasScanned behind present valid released
  have isKnown := tokenAfter_of_known inStep.holds notEnding found
    (inStep.expects place known behind present).1
      (isActive_answer ending inside valid)
  have walked := inStep.toWalkedTo.tokenAfter.walkedTo inside
  have awaitsValid :
      lexer.AwaitsValid (lexer.scanner.answer lexeme.stop).stop := by
    intro later other beyond otherFound
    have forward := (lexer.scanner.answer_isPlace inside).2
    have reaches := (lexer.scanner.answer_lies lexeme.stop).start_le_stop
    have start := (inStep.expects later other (by omega) otherFound).2
    exact awaitsValid_of_empty (by omega) later other beyond otherFound
  rw [isKnown] at walked
  refine ⟨lexer, known, isKnown, inStep.sized.keeps,
    ⟨walked, awaitsValid, inStep.allStand⟩, ?_⟩
  intro position settles
  exact ⟨lexer.scanEnd lexeme.stop,
    (scanNext_congr settles).trans (scanned.withPosition lexeme.stop).scanNext,
    lexer.settle_scanEnd lexeme.stop⟩

/--
One step: a scan from the position comes to the token that the walk comes to.
-/
theorem InStep.steps
    (inStep : lexer.InStep id lexeme)
    (notEnding : lexeme.kind ≠ .eof)
    (ending : lexer.active.contains .eof = true) :
    ∃ after next, lexer.Steps id lexeme after next := by
  cases found : lexer.table.next? lexeme.stop with
  | none =>
      exact inStep.steps_of_unknown notEnding found
  | some known =>
      exact inStep.steps_of_known notEnding ending found

/-- At the end of the input a scan comes to the end again. -/
theorem InStep.steps_of_ending
    (inStep : lexer.InStep id lexeme)
    (isEnding : lexeme.kind = .eof)
    (settles : lexer.SettlesWith position lexeme.stop) :
    ∃ later,
      { lexer with position }.scanNext =
        ({ lexer with position := later }, id) ∧
      lexer.SettlesWith later lexeme.stop := by
  obtain ⟨startEq, stopEq⟩ := inStep.lies.ending isEnding
  have answerEq : lexer.scanner.answer lexeme.stop = lexer.scanner.ending := by
    rw [stopEq]
    exact lexer.scanner.answer_size
  have present : lexer.table.tokenAt? lexeme.stop = some id := by
    rw [stopEq, ← startEq]
    exact inStep.stands
  have valid : (lexer.scanner.answer lexeme.stop).kind ≠ .invalid := by
    rw [answerEq]
    exact Kind.noConfusion
  have released : lexer.SkipsReleased lexeme.stop := by
    rw [stopEq]
    exact lexer.skipsReleased_size
  have scanned :=
    inStep.expects.hasScanned (Nat.le_refl _) present valid released
  refine ⟨lexer.scanEnd lexeme.stop,
    (scanNext_congr settles).trans (scanned.withPosition lexeme.stop).scanNext,
    ?_⟩
  refine (lexer.settle_scanEnd lexeme.stop).trans ?_
  rw [answerEq, stopEq]
  rfl

/-- What is pulled begins with what the next scan answers. -/
theorem pullNext_succ
    {after : Lexer}
    {next : NodeId}
    {count : Nat}
    {pulled : Lexer × List NodeId}
    (scanned : lexer.scanNext = (after, next))
    (later : after.pullNext count = .ok pulled) :
    lexer.pullNext (count + 1) = .ok (pulled.1, next :: pulled.2) := by
  have answered : lexer.nextToken none = .ok (after, next) := by
    rw [← scanned]
    rfl
  simp only [Lexer.pullNext, answered, bind, Except.bind, later]
  rfl

/--
Pulling delivers tokens one after the other and then the last of them
for ever.  Once it has delivered all, nothing but the position
differs from `final`.
-/
def Delivers
    (lexer : Lexer)
    (ids : List NodeId)
    (last : NodeId)
    (final : Lexer) :
    Prop :=
  ∀ count, ∃ pulled, lexer.pullNext count = .ok pulled ∧
    pulled.2 = ids.take count ++ List.replicate (count - ids.length) last ∧
    (ids.length ≤ count → ∃ position, pulled.1 = { final with position })

/-- What a scan answers is delivered before what is delivered behind it. -/
theorem Delivers.cons
    {after final : Lexer}
    {next last : NodeId}
    {ids : List NodeId}
    (delivers : after.Delivers ids last final)
    (scanned : lexer.scanNext = (after, next)) :
    lexer.Delivers (next :: ids) last final := by
  intro count
  cases count with
  | zero =>
      refine ⟨_, rfl, ?_, ?_⟩
      · rw [List.take_zero, Nat.zero_sub]
        rfl
      · intro impossible
        exact absurd impossible (Nat.not_succ_le_zero _)
  | succ count =>
      obtain ⟨pulled, answered, idsEq, same⟩ := delivers count
      refine ⟨_, pullNext_succ scanned answered, ?_, ?_⟩
      · rw [idsEq, List.take_succ_cons, List.length_cons, Nat.add_sub_add_right,
          List.cons_append]
      · intro enough
        exact same (Nat.le_of_succ_le_succ enough)

/--
The walk from a token ends in a lexer behind the tokens `later`, and pulling
from wherever the next scan would start delivers these.
-/
structure Ends
    (lexer : Lexer)
    (id : NodeId)
    (lexeme : Lexeme)
    (final : Lexer)
    (later : List NodeId) : Prop where
  allStand : final.AllStand
  delivers :
    ∃ last, (id :: later).getLast? = some last ∧
      final.kindOf? last = some .eof ∧
    ∀ position, lexer.SettlesWith position lexeme.stop →
      Delivers { lexer with position } later last final

/-- From the end of the input pulling gives the end for ever. -/
theorem InStep.ends_of_ending
    (inStep : lexer.InStep id lexeme)
    (isEnding : lexeme.kind = .eof) :
    lexer.Ends id lexeme lexer [] := by
  have isEof : lexer.kindOf? id = some .eof := by
    rw [kindOf?, inStep.holds.token?]
    exact congrArg some isEnding
  refine ⟨inStep.allStand, id, rfl, isEof, ?_⟩
  intro position settles count
  induction count generalizing position with
  | zero =>
      exact ⟨_, rfl, rfl, fun _ => ⟨position, rfl⟩⟩
  | succ count inductionHypothesis =>
      obtain ⟨place, scanned, settled⟩ :=
        inStep.steps_of_ending isEnding settles
      obtain ⟨pulled, answered, idsEq, same⟩ :=
        inductionHypothesis place settled
      refine ⟨_, pullNext_succ scanned answered, ?_,
        fun _ => same (Nat.zero_le count)⟩
      simp only [idsEq, List.take_nil, List.nil_append, List.length_nil,
        Nat.sub_zero, List.replicate_succ]

/--
What both runs come to from the next token, they come to from the one before.
-/
theorem Steps.ends
    {after final : Lexer}
    {next : NodeId}
    {later : List NodeId}
    (steps : lexer.Steps id lexeme after next)
    (ends : after.Ends next (lexer.scanner.answer lexeme.stop) final later) :
    lexer.Ends id lexeme final (next :: later) := by
  obtain ⟨allStand, last, lastEq, isEof, delivers⟩ := ends
  refine ⟨allStand, last, ?_, isEof, ?_⟩
  · rw [List.getLast?_cons_cons]
    exact lastEq
  · intro position settles
    obtain ⟨place, scanned, settled⟩ := steps.scanned position settles
    exact (delivers place settled).cons scanned

/-- The whole walk: it ends, and pulling gives what it gives. -/
theorem InStep.ends
    (bound : Nat)
    (ids : Array NodeId)
    (inStep : lexer.InStep id lexeme)
    (ending : lexer.active.contains .eof = true)
    (enough : lexer.stepsBehind lexeme < bound) :
    ∃ later,
      (tokensFrom bound lexer ids id).2.toList = ids.toList ++ id :: later ∧
      lexer.Ends id lexeme (tokensFrom bound lexer ids id).1 later := by
  induction bound generalizing lexer ids id lexeme with
  | zero =>
      exact absurd enough (Nat.not_lt_zero _)
  | succ bound inductionHypothesis =>
      by_cases isEnding : lexeme.kind = .eof
      · have finished :
            tokensFrom (bound + 1) lexer ids id = (lexer, ids.push id) := by
          rw [tokensFrom, inStep.holds.token?]
          exact if_pos isEnding
        rw [finished]
        exact ⟨[], Array.toList_push, inStep.ends_of_ending isEnding⟩
      · obtain ⟨after, next, steps⟩ := inStep.steps isEnding ending
        have inside := inStep.lies.stop_le_size
        have fewer := lexer.stepsBehind_answer inside
        have sameSteps :=
          steps.keeps.stepsBehind_eq (lexer.scanner.answer lexeme.stop)
        have stillEnding : after.active.contains .eof = true := by
          rw [steps.keeps.active_eq]
          exact ending
        rw [stepsBehind, if_neg isEnding] at enough
        rw [tokensFrom_step inStep.holds isEnding, steps.walked]
        obtain ⟨later, idsEq, ends⟩ :=
          inductionHypothesis (ids.push id) steps.inStep stillEnding (by omega)
        refine ⟨next :: later, ?_, steps.ends ends⟩
        rw [idsEq, Array.toList_push, List.append_assoc]
        rfl

/--
With a lexer that knows no token, tokenizing leaves every node in the table,
and pulling delivers what tokenizing returns.
-/
theorem tokenize_delivers
    (sized : lexer.Sized)
    (inside : lexer.position ≤ lexer.buffer.size)
    (nothing : ∀ place, lexer.table.tokenAt? place = none)
    (allStand : lexer.AllStand)
    (ending : lexer.active.contains .eof = true) :
    lexer.tokenize.1.AllStand ∧
      ∃ last, lexer.tokenize.2.getLast? = some last ∧
        lexer.tokenize.1.kindOf? last = some .eof ∧
        lexer.Delivers lexer.tokenize.2 last lexer.tokenize.1 := by
  have scans := scanNext_scans (sized.plain fun place _ => nothing place) inside
  have reached :=
    scans.reaches (expects_of_nothing fun place _ => nothing place) inside
  obtain ⟨keeps, scanned, positionEq⟩ := scanNext_hasScanned sized inside
  have inStep :
      lexer.scanNext.1.InStep lexer.scanNext.2
        (lexer.scanner.answer lexer.position) :=
    ⟨reached.walkedTo inside,
      scans.awaitsValid inside (fun place _ => nothing place) scanned.released,
      allStand.scanNext sized inside fun place _ => nothing place⟩
  have settles :
      lexer.scanNext.1.SettlesWith lexer.scanNext.1.position
        (lexer.scanner.answer lexer.position).stop := by
    rw [SettlesWith, keeps.view_eq, positionEq, settle_scanEnd]
  have stillEnding : lexer.scanNext.1.active.contains .eof = true := by
    rw [keeps.active_eq]
    exact ending
  have fewer := lexer.stepsBehind_answer inside
  have bound := lexer.size_lt_walkBound
  have sameSteps := keeps.stepsBehind_eq (lexer.scanner.answer lexer.position)
  obtain ⟨later, idsEq, final⟩ :=
    inStep.ends lexer.walkBound #[] stillEnding (by omega)
  obtain ⟨last, lastEq, isEof, delivers⟩ := final.delivers
  have started : lexer.tokenize =
      ((tokensFrom lexer.walkBound lexer.scanNext.1 #[] lexer.scanNext.2).1,
        (tokensFrom lexer.walkBound lexer.scanNext.1 #[]
          lexer.scanNext.2).2.toList) :=
    rfl
  rw [started]
  simp only [idsEq]
  exact ⟨final.allStand, last, lastEq, isEof, (delivers _ settles).cons rfl⟩

/-- A table that has the tokens of lexemes in order has no token twice. -/
theorem Lists.nodup
    {first : Nat}
    {ids : List NodeId}
    {lexemes : List Lexeme}
    (listed : lexer.Lists first ids lexemes)
    (sorted : lexemes.Pairwise fun first second => first.start < second.start) :
    ids.Nodup := by
  have distinct : (lexemes.map some).Nodup := by
    refine List.Nodup.map (Option.some_injective Lexeme)
      (sorted.imp fun before => ?_)
    rintro rfl
    exact Nat.lt_irrefl _ before
  rw [← map_lexeme?_of_holds (listed.stands.imp fun _ _ stands => stands.1)]
    at distinct
  exact distinct.of_map lexer.lexeme?

/-- Where every node stands, the tokens that the table has are all there are. -/
theorem Lists.perm
    {ids : List NodeId}
    {lexemes : List Lexeme}
    (listed : lexer.Lists 0 ids lexemes)
    (sorted : lexemes.Pairwise fun first second => first.start < second.start)
    (allStand : lexer.AllStand) :
    ids.Perm (List.range lexer.forest.size) := by
  refine (List.perm_ext_iff_of_nodup (listed.nodup sorted)
    List.nodup_range).mpr fun id => ?_
  rw [List.mem_range]
  constructor
  · intro member
    obtain ⟨_, _, holds, _⟩ := exists_mem_of_forall₂ listed.stands member
    exact Forest.lt_size_of_node? holds
  · intro isNode
    obtain ⟨place, found⟩ := allStand id isNode
    exact listed.entries place id (Nat.zero_le place) found

/--
Each token is made once, and both ways to pull tokens agree.  Where the end of
the input may be reported, tokenizing makes no other tokens than those that it
returns, and returns each once.  Asking for one token after the other makes the
same tokens in the same order, and then returns the last, which is the end of
the input, for ever.
-/
theorem tokenize_makes_each_once
    (settings : LexerSettings)
    (buffer : Buffer)
    (masks : List LineMask)
    (active : KindSet)
    (ending : active.contains .eof = true) :
    let lexer := (fresh settings buffer active).masked masks
    lexer.tokenize.2.Perm (List.range lexer.tokenize.1.forest.size) ∧
      ∃ last, lexer.tokenize.2.getLast? = some last ∧
        lexer.tokenize.1.kindOf? last = some .eof ∧
        ∀ count, ∃ pulled, lexer.pullNext count = .ok pulled ∧
          pulled.2 =
            lexer.tokenize.2.take count ++
              List.replicate (count - lexer.tokenize.2.length) last ∧
          (lexer.tokenize.2.length ≤ count →
            ∃ position, pulled.1 = { lexer.tokenize.1 with position }) := by
  intro lexer
  have isMasked : (fresh settings buffer active).Masks masks lexer :=
    (fresh_masked settings buffer active masks).1
  clear_value lexer
  have atStart : lexer.position = 0 := isMasked.position_eq
  have inside : lexer.position ≤ lexer.buffer.size := by
    rw [atStart]
    exact Nat.zero_le _
  have noNodes : lexer.forest.size = 0 :=
    congrArg Forest.size isMasked.forest_eq
  have allStand : lexer.AllStand := by
    intro id isNode
    rw [noNodes] at isNode
    exact absurd isNode (Nat.not_lt_zero id)
  have stillEnding : lexer.active.contains .eof = true := by
    rw [isMasked.settings_eq.2]
    exact ending
  have sized := isMasked.plain.sized
  obtain ⟨_, listed⟩ := tokenize_lists sized inside isMasked.nothing
  obtain ⟨sorted, _⟩ := lexer.scanner.lexemes_sorted inside
  obtain ⟨allStandThen, delivers⟩ :=
    tokenize_delivers sized inside isMasked.nothing allStand stillEnding
  exact ⟨listed.perm sorted allStandThen, delivers⟩

/--
The token behind invalid input is made before that of the input, and
returned after it.
-/
theorem tokenize_makes_each_once_wordBeforeInvalid :
    KindSet.full.contains .eof = true ∧
    ∃ lexer,
      lexer = (fresh .standard (.ofString .standard "a # #b\n:") .full).masked
        [.hide [2]] ∧
      lexer.tokenize.2 = [0, 2, 1, 3] ∧
      lexer.tokenize.2.Perm (List.range lexer.tokenize.1.forest.size) ∧
      ∃ pulled, lexer.pullNext 6 = .ok pulled ∧
      pulled.2 = [0, 2, 1, 3, 3, 3] := by
  have ending : KindSet.full.contains .eof = true := by
    decide
  obtain ⟨once, last, isLast, _, pulls⟩ :=
    tokenize_makes_each_once .standard (.ofString .standard "a # #b\n:")
      [.hide [2]] .full ending
  obtain ⟨pulled, answered, idsEq, _⟩ := pulls 6
  have tokens :
      ((fresh .standard (.ofString .standard "a # #b\n:") .full).masked
        [.hide [2]]).tokenize.2 =
        [0, 2, 1, 3] := by
    decide +kernel
  refine ⟨ending, _, rfl, tokens, once, pulled, answered, ?_⟩
  rw [tokens] at isLast idsEq
  cases isLast
  exact idsEq

end Snbt.Lexer
