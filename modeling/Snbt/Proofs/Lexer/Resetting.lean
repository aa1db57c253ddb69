import Snbt.Proofs.Lexer.Histories

namespace Snbt

/-!
# Resetting

Going back to the end of a token forgets all that stands behind it.  What
is pulled from there on depends on nothing but the buffer, the lines taken
out, the mode, the active kinds and the roles: a lexer that has done
nothing else gives the same.
-/

namespace Scanner

/--
The answers of scans from an offset on, each from the end of the one before.
-/
def answers (scanner : Scanner) : Nat → Nat → List Lexeme
  | 0, _ => []
  | count + 1, offset =>
      scanner.answer offset ::
        scanner.answers count (scanner.answer offset).stop

variable {scanner : Scanner} {offset : Nat}

theorem length_answers
    (scanner : Scanner)
    (count offset : Nat) :
    (scanner.answers count offset).length = count := by
  induction count generalizing offset with
  | zero =>
      rfl
  | succ count inductionHypothesis =>
      rw [answers, List.length_cons, inductionHypothesis]

/-- With more answers than there are offsets left the last one is the end. -/
theorem getLast?_answers
    (count : Nat)
    (inside : offset ≤ scanner.view.buffer.size)
    (enough : scanner.view.buffer.size - offset ≤ count) :
    (scanner.answers (count + 1) offset).getLast? = some scanner.ending := by
  induction count generalizing offset with
  | zero =>
      have atEnd : offset = scanner.view.buffer.size := by
        omega
      rw [answers, answers, atEnd, scanner.answer_size]
      rfl
  | succ count inductionHypothesis =>
      have lies := scanner.answer_lies offset
      have stopInside := lies.stop_le_size
      have behind := (scanner.answer_isPlace inside).2
      have fewer :
          scanner.view.buffer.size - (scanner.answer offset).stop ≤ count := by
        by_cases isEnding : (scanner.answer offset).kind = .eof
        · have := (lies.ending isEnding).2
          omega
        · have := (lies.stretch isEnding).1
          omega
      rw [answers, answers, List.getLast?_cons_cons]
      exact inductionHypothesis stopInside fewer

end Scanner

namespace Lexer

variable {settings : LexerSettings} {buffer : Buffer} {masks : List LineMask}
  {lexer before : Lexer} {id : NodeId} {lexeme : Lexeme} {token : Token}
  {offset : Nat} {result : Lexer × NodeId}

/-- Ask for the token after a token, for the one after that, and so on. -/
def pull : Nat → Lexer → NodeId → Except Misuse (Lexer × List NodeId)
  | 0, lexer, _ =>
      return (lexer, [])
  | count + 1, lexer, id => do
      let (after, next) ← lexer.nextToken (some id)
      let (final, later) ← pull count after next
      return (final, next :: later)

/-- Ask for the token at an offset, and then for those behind it. -/
def pullAt
    (lexer : Lexer)
    (count offset : Nat) :
    Except Misuse (Lexer × List NodeId) := do
  let (after, first) := lexer.scanAt offset
  let (final, later) ← pull count after first
  return (final, first :: later)

/--
Tokens are pulled that stand for lexemes; what is known before an
offset is as it was.
-/
structure Pulls
    (before : Lexer)
    (offset : Nat)
    (lexemes : List Lexeme)
    (pulled : Lexer × List NodeId) : Prop where
  keeps : before.Extends pulled.1
  holds : List.Forall₂ pulled.1.Holds pulled.2 lexemes
  earlier : ∀ place, place < offset →
    pulled.1.table.tokenAt? place = before.table.tokenAt? place

/-- What is pulled behind a token that was reached is pulled with it. -/
theorem Reaches.pulls
    {lexemes : List Lexeme}
    {pulled : Lexer × List NodeId}
    (reached : before.Reaches offset result)
    (later : Pulls result.1 (before.scanner.answer offset).stop lexemes pulled)
    (inside : offset ≤ before.buffer.size) :
    Pulls before offset (before.scanner.answer offset :: lexemes)
      (pulled.1, result.2 :: pulled.2) := by
  have behind := (before.scanner.answer_isPlace inside).2
  have forward := (before.scanner.answer_lies offset).start_le_stop
  refine ⟨reached.keeps.trans later.keeps,
    .cons (later.keeps.holds reached.holds) later.holds, ?_⟩
  intro place isEarlier
  rw [later.earlier place (by omega), reached.earlier place isEarlier]

/--
Behind a token that was walked to, pulling gives the answers from its end on.
-/
theorem WalkedTo.pull
    (count : Nat)
    (walked : lexer.WalkedTo id lexeme) :
    ∃ pulled, lexer.pull count id = .ok pulled ∧
      Pulls lexer lexeme.stop (lexer.scanner.answers count lexeme.stop)
        pulled := by
  induction count generalizing lexer id lexeme with
  | zero =>
      exact ⟨_, rfl, walked.sized.keeps, .nil, fun _ _ => rfl⟩
  | succ count inductionHypothesis =>
      have reached := walked.tokenAfter
      have inside := walked.lies.stop_le_size
      obtain ⟨pulled, answered, later⟩ :=
        inductionHypothesis (reached.walkedTo inside)
      rw [reached.keeps.scanner_eq] at later
      refine ⟨_, ?_, reached.pulls later inside⟩
      simp only [Lexer.pull, nextToken_of_holds walked.holds, bind,
        Except.bind, answered]
      rfl

/--
A lexer that knows nothing from an offset on pulls the answers from there on.
-/
theorem pullAt_pulls
    (count : Nat)
    (sized : lexer.Sized)
    (inside : offset ≤ lexer.buffer.size)
    (nothing : ∀ place, offset ≤ place → lexer.table.tokenAt? place = none) :
    ∃ pulled, lexer.pullAt count offset = .ok pulled ∧
      Pulls lexer offset (lexer.scanner.answers (count + 1) offset) pulled := by
  have settled : offset ≤ lexer.view.settle offset := View.le_settle inside
  have plain := (sized.plain nothing).mono settled
  have reached := plain.scanAt.reaches (expects_of_nothing nothing) inside
  obtain ⟨pulled, answered, later⟩ := (reached.walkedTo inside).pull count
  rw [reached.keeps.scanner_eq] at later
  refine ⟨_, ?_, reached.pulls later inside⟩
  simp only [pullAt, answered, bind, Except.bind]
  rfl

/--
Behind a token with nothing known behind it, pulling begins with a
scan from its end.
-/
theorem pull_of_unknown
    (count : Nat)
    (present : lexer.forest.token? id = some token)
    (nothing : lexer.next? id = none) :
    lexer.pull (count + 1) id = lexer.pullAt count token.stop := by
  simp only [pull, Lexer.nextToken, Forest.token_eq_ok present, bind,
    Except.bind, tokenAfter_of_unknown nothing]
  rfl

/--
What is pulled where nothing is known depends on what is read and
how, and on no more.
-/
theorem Reads.pullAt
    (count : Nat)
    (reads : Reads settings buffer masks lexer)
    (inside : offset ≤ buffer.size)
    (nothing : ∀ place, offset ≤ place → lexer.table.tokenAt? place = none) :
    ∃ pulled, lexer.pullAt count offset = .ok pulled ∧
      Pulls lexer offset
        (Scanner.answers
          { view := buffer.without masks
            mode := lexer.mode
            active := lexer.active
            roles := settings.roles } (count + 1) offset) pulled := by
  rw [← reads.scanner_eq]
  refine pullAt_pulls count reads.sized ?_ nothing
  rw [reads.buffer_eq]
  exact inside

/-- A lexer that has only been masked pulls what its settings say. -/
theorem pullAt_masked
    (settings : LexerSettings)
    (buffer : Buffer)
    (active : KindSet)
    (masks : List LineMask)
    (count : Nat)
    (inside : offset ≤ buffer.size) :
    ∃ pulled,
      ((fresh settings buffer active).masked masks).pullAt count offset =
        .ok pulled ∧
      pulled.2.map pulled.1.lexeme? =
        (Scanner.answers
          { view := buffer.without masks
            mode := settings.mode
            active := active
            roles := settings.roles } (count + 1) offset).map some := by
  have reads := (fresh_reads settings buffer active).masked masks
  have isMasked := (fresh_masked settings buffer active masks).1
  have sameMode :
      ((fresh settings buffer active).masked masks).mode = settings.mode :=
    isMasked.settings_eq.1
  have sameActive :
      ((fresh settings buffer active).masked masks).active = active :=
    isMasked.settings_eq.2
  obtain ⟨pulled, answered, pulls⟩ :=
    reads.pullAt count inside fun place _ => isMasked.nothing place
  rw [sameMode, sameActive] at pulls
  exact ⟨pulled, answered, map_lexeme?_of_holds pulls.holds⟩

/-- Back at the end of a token, nothing is known to be behind it. -/
theorem next?_rewind
    (present : lexer.forest.token? id = some token) :
    (lexer.rewind id token).forest.token? id =
      some { token with appended? := none } ∧
      (lexer.rewind id token).next? id = none := by
  have cut :
      (lexer.rewind id token).forest.token? id =
        some { token with appended? := none } := by
    refine (Forest.token?_updateToken _ _ _ _).trans ?_
    rw [if_pos rfl]
    exact congrArg (Option.map _) present
  have nothing : (lexer.rewind id token).table.next? token.stop = none := by
    refine OffsetTable.next?_eq_none_iff.mpr fun place behind => ?_
    rw [rewind_tokenAt?, if_neg (Nat.not_lt.mpr behind)]
  refine ⟨cut, ?_⟩
  simp only [next?, cut, nothing, ite_self]

/--
Whatever has happened to a lexer, after it has gone back to the end of a token
it pulls what a lexer pulls that has done nothing before, up to the end of the
input and beyond.  What it knows before the end of the token stays as it was.
-/
theorem reset_forgets
    (reached : Reached settings buffer masks lexer)
    (present : lexer.forest.token? id = some token)
    (inside : token.stop ≤ buffer.size)
    (mode? : Option Mode) :
    ∃ rewound,
      lexer.reset id mode? = .ok rewound ∧
      rewound.mode = mode?.getD lexer.mode ∧
      (∀ place, place < token.stop →
        rewound.table.tokenAt? place = lexer.table.tokenAt? place) ∧
      ∀ count, ∃ (pulled clean : Lexer × List NodeId) (lexemes : List Lexeme),
        rewound.pull (count + 1) id = .ok pulled ∧
        ((fresh { settings with mode := rewound.mode } buffer
          lexer.active).masked masks).pullAt count token.stop = .ok clean ∧
        pulled.2.map pulled.1.lexeme? = lexemes.map some ∧
        clean.2.map clean.1.lexeme? = lexemes.map some ∧
        lexemes.length = count + 1 ∧
        (buffer.size - token.stop ≤ count →
          lexemes.getLast? = some ⟨.eof, buffer.size, buffer.size⟩) ∧
        ∀ place, place < token.stop →
          pulled.1.table.tokenAt? place = lexer.table.tokenAt? place := by
  obtain ⟨cut, unknown⟩ := next?_rewind present
  have entries := lexer.rewind_tokenAt? id token
  have rewoundReads := (Steady.rewind lexer id token).reads reached.reads
  have sameActive : (lexer.rewind id token).active = lexer.active := rfl
  have answered :
      lexer.reset id mode? =
        .ok ((lexer.rewind id token).withMode (mode?.getD lexer.mode)) := by
    simp only [reset, Forest.token_eq_ok present]
    rfl
  generalize lexer.rewind id token = back at *
  have reads :
      Reads settings buffer masks (back.withMode (mode?.getD lexer.mode)) :=
    ⟨rewoundReads.buffer_eq, rewoundReads.roles_eq, rewoundReads.size_eq,
      rewoundReads.isHidden_eq⟩
  have nothing :
      ∀ place, token.stop ≤ place → back.table.tokenAt? place = none := by
    intro place behind
    rw [entries, if_neg (Nat.not_lt.mpr behind)]
  have earlier :
      ∀ place, place < token.stop →
        back.table.tokenAt? place = lexer.table.tokenAt? place := by
    intro place isEarlier
    rw [entries, if_pos isEarlier]
  refine ⟨_, answered, rfl, earlier, ?_⟩
  intro count
  have asked :=
    @pull_of_unknown (back.withMode (mode?.getD lexer.mode)) id _
      count cut unknown
  obtain ⟨pulled, pulledOk, pulls⟩ := reads.pullAt count inside nothing
  obtain ⟨clean, cleanOk, cleanLexemes⟩ :=
    pullAt_masked { settings with mode := mode?.getD lexer.mode } buffer
      lexer.active masks count inside
  refine ⟨pulled, clean, _, asked.trans pulledOk, cleanOk, ?_, cleanLexemes,
    Scanner.length_answers _ _ _, ?_, ?_⟩
  · rw [map_lexeme?_of_holds pulls.holds, ← sameActive]
    rfl
  · intro enough
    exact Scanner.getLast?_answers count inside enough
  · intro place isEarlier
    exact (pulls.earlier place isEarlier).trans (earlier place isEarlier)

/-- The last and the first of three lines are scanned, and a token is made. -/
def threeLines : Lexer :=
  ((((ofString .standard "a\nb c\nd").scanAt 6).1.scanAt 0).1.newToken
    .string "x").1

/--
The token that was made stands before the last line, and the second
line is taken out.
-/
def threeLinesSpliced : Lexer :=
  ((threeLines.insertBefore 0 2).toOption.getD threeLines).mask (.hide [2])

theorem threeLinesSpliced_reached :
    Reached .standard (.ofString .standard "a\nb c\nd") [.hide [2]]
      threeLinesSpliced := by
  have isOk : (threeLines.insertBefore 0 2).isOk = true := by
    decide +kernel
  have reached :
      Reached .standard (.ofString .standard "a\nb c\nd") [] threeLines :=
    ((Reached.new.scanAt 6).scanAt 0).newToken .string "x"
  cases answered : threeLines.insertBefore 0 2 with
  | error misuse =>
      rw [answered] at isOk
      cases isOk
  | ok after =>
      have inserted := (reached.insertBefore answered).mask (.hide [2])
      rw [threeLinesSpliced, answered]
      exact inserted

/-- A link to a token that was spliced in is forgotten with the rest. -/
theorem reset_forgets_threeLines :
    Reached .standard (.ofString .standard "a\nb c\nd") [.hide [2]]
      threeLinesSpliced ∧
    threeLinesSpliced.next? 1 = some 2 ∧
    ∃ token rewound,
      threeLinesSpliced.forest.token? 1 = some token ∧
      token.stop ≤ (Buffer.ofString .standard "a\nb c\nd").size ∧
      threeLinesSpliced.reset 1 (some .arrayHeader) = .ok rewound ∧
      rewound.mode = .arrayHeader ∧
      ∃ (pulled clean : Lexer × List NodeId),
        rewound.pull 8 1 = .ok pulled ∧
        ((fresh { LexerSettings.standard with mode := rewound.mode }
          (.ofString .standard "a\nb c\nd") threeLinesSpliced.active).masked
          [.hide [2]]).pullAt 7
            token.stop = .ok clean ∧
        pulled.2.map pulled.1.lexeme? = clean.2.map clean.1.lexeme? := by
  have present :
      threeLinesSpliced.forest.token? 1 =
        some { Token.ofStretch .string 0 1 with appended? := some 2 } := by
    decide +kernel
  have inside : 1 ≤ (Buffer.ofString .standard "a\nb c\nd").size := by
    decide +kernel
  obtain ⟨rewound, answered, mode, _, pulls⟩ :=
    reset_forgets threeLinesSpliced_reached present inside (some .arrayHeader)
  obtain ⟨pulled, clean, lexemes, pulledOk, cleanOk, pulledEq, cleanEq, _⟩ :=
    pulls 7
  refine ⟨threeLinesSpliced_reached, ?_, _, rewound, present, inside, answered,
    mode, pulled, clean, pulledOk, cleanOk, pulledEq.trans cleanEq.symm⟩
  decide +kernel

end Lexer

end Snbt
