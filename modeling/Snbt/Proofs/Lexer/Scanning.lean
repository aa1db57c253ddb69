import Snbt.Proofs.Lexer.PlainTokens

namespace Snbt.Lexer

/-!
# Scanning with plain tokens

What a scan does to a lexer whose table has only plain tokens from where the
scan starts, and which token is the one after another: the nearest that the
table knows behind it, if its kind is active, and otherwise the answer of a
scan from its end.
-/

variable {lexer before after : Lexer} {id : NodeId} {lexeme : Lexeme}
  {first offset : Nat} {result : Lexer × NodeId}

/--
A scan from an offset: the token of its answer is returned, and the table has
it and the token of the lexeme that ended the scan, and nothing in the
skipped stretches.
-/
structure Scans (before : Lexer) (offset : Nat) (result : Lexer × NodeId) :
    Prop where
  keeps : before.Extends result.1
  holds : result.1.Holds result.2 (before.scanner.answer offset)
  entries : ∃ last, result.1.Holds last (before.scanner.scan offset).lexeme ∧
    ∀ place, result.1.table.tokenAt? place =
      if place = (before.scanner.answer offset).start then
        some result.2
      else if place = (before.scanner.scan offset).lexeme.start then
        some last
      else if ∃ stretch ∈ (before.scanner.scan offset).skipped,
          stretch.1 ≤ place ∧ place < stretch.2 then
        none
      else
        before.table.tokenAt? place

/-- A scan leaves plain tokens. -/
theorem Scans.plain
    (scans : before.Scans offset result)
    (plain : before.Plain first) :
    result.1.Plain first := by
  obtain ⟨last, lastHolds, entries⟩ := scans.entries
  refine ⟨scans.keeps.sized, ?_⟩
  intro place id behind found
  rw [scans.keeps.size_eq]
  rw [entries] at found
  by_cases isAnswer : place = (before.scanner.answer offset).start
  · rw [if_pos isAnswer] at found
    cases found
    exact ⟨_, scans.holds, isAnswer.symm, before.scanner.answer_lies offset⟩
  · rw [if_neg isAnswer] at found
    by_cases isLast : place = (before.scanner.scan offset).lexeme.start
    · rw [if_pos isLast] at found
      cases found
      exact ⟨_, lastHolds, isLast.symm, before.scanner.scan_lexeme_lies offset⟩
    · rw [if_neg isLast] at found
      split at found
      case isTrue =>
        cases found
      case isFalse =>
        obtain ⟨lexeme, holds, start, lies⟩ :=
          plain.entries place id behind found
        exact ⟨lexeme, scans.keeps.holds holds, start, lies⟩

theorem Scans.grows
    (scans : before.Scans offset result)
    (plain : before.Plain 0) :
    before.Grows result.1 :=
  ⟨scans.keeps, scans.plain plain⟩

/-- Where a lexer scans next changes nothing else. -/
theorem Sized.withPosition
    (sized : lexer.Sized)
    (position : Nat) :
    lexer.Extends { lexer with position } :=
  ⟨⟨sized.size_eq, sized.shown⟩, rfl, fun _ _ present => present⟩

theorem Plain.withPosition
    (plain : lexer.Plain first)
    (position : Nat) :
    { lexer with position }.Plain first :=
  ⟨(plain.sized.withPosition position).sized, plain.entries⟩

/-- The lexeme that ends the scan from the position gets its token. -/
def withScanned (lexer : Lexer) : Lexer × NodeId :=
  (lexer.releaseAll (lexer.scanner.scan lexer.position).skipped).tokenFor
    (lexer.scanner.scan lexer.position).lexeme

theorem scanNext_of_valid
    (valid : (lexer.scanner.scan lexer.position).invalid? = none) :
    lexer.scanNext =
      ({ lexer.withScanned.1 with
          position := (lexer.scanner.scan lexer.position).lexeme.stop },
        lexer.withScanned.2) := by
  simp only [scanNext, valid]
  rfl

theorem scanNext_of_invalid
    {run : Lexeme}
    (invalid : (lexer.scanner.scan lexer.position).invalid? = some run) :
    lexer.scanNext =
      ((lexer.withScanned.1.tokenFor run).1.moveTo run.stop,
        (lexer.withScanned.1.tokenFor run).2) := by
  simp only [scanNext, invalid]
  rfl

/-- The token of the lexeme that ends a scan, and what is left of the table. -/
theorem withScanned_gains
    (plain : lexer.Plain lexer.position)
    (inside : lexer.position ≤ lexer.buffer.size) :
    lexer.Extends lexer.withScanned.1 ∧
      lexer.withScanned.1.Plain lexer.position ∧
      lexer.withScanned.1.Holds lexer.withScanned.2
        (lexer.scanner.scan lexer.position).lexeme ∧
      ∀ place, lexer.withScanned.1.table.tokenAt? place =
        if place = (lexer.scanner.scan lexer.position).lexeme.start then
          some lexer.withScanned.2
        else if ∃ stretch ∈ (lexer.scanner.scan lexer.position).skipped,
            stretch.1 ≤ place ∧ place < stretch.2 then
          none
        else
          lexer.table.tokenAt? place := by
  obtain ⟨met, isPlace, _⟩ := lexer.scanner.scan_met inside
  have keeps :=
    plain.sized.releaseAll (lexer.scanner.scan lexer.position).skipped
  have released := plain.releaseAll (lexer.scanner.scan lexer.position).skipped
  have gains :=
    tokenFor_gains (released.mono met.first_le) (keeps.isPlace isPlace)
  have lies := lexer.scanner.scan_lexeme_lies lexer.position
  refine ⟨keeps.trans gains.keeps, gains.plain released lies, gains.holds, ?_⟩
  intro place
  rw [withScanned, gains.tokenAt?_eq, releaseAll,
    OffsetTable.tokenAt?_foldl_releaseRange]

theorem scanNext_scans
    (plain : lexer.Plain lexer.position)
    (inside : lexer.position ≤ lexer.buffer.size) :
    lexer.Scans lexer.position lexer.scanNext := by
  obtain ⟨keeps, left, holds, entries⟩ := withScanned_gains plain inside
  cases invalid : (lexer.scanner.scan lexer.position).invalid? with
  | none =>
      have answerEq := Scanner.answer_of_valid invalid
      rw [scanNext_of_valid invalid]
      have holdsAnswer : lexer.withScanned.1.Holds lexer.withScanned.2
          (lexer.scanner.answer lexer.position) := by
        rw [answerEq]
        exact holds
      refine ⟨keeps.trans (keeps.sized.withPosition _), holdsAnswer, ?_⟩
      refine ⟨lexer.withScanned.2, holds, ?_⟩
      intro place
      rw [answerEq]
      refine (entries place).trans ?_
      by_cases here : place = (lexer.scanner.scan lexer.position).lexeme.start
      · rw [if_pos here, if_pos here]
      · rw [if_neg here, if_neg here]
  | some run =>
      obtain ⟨met, _, _⟩ := lexer.scanner.scan_met inside
      obtain ⟨runFits, runBehind, _⟩ := met.run run invalid
      have gains :=
        tokenFor_gains (left.mono runBehind) (keeps.isPlace runFits.isPlace)
      have moved := gains.keeps.trans
        (gains.keeps.sized.withPosition
          ((lexer.withScanned.1.tokenFor run).1.view.settle run.stop))
      rw [scanNext_of_invalid invalid]
      have holdsAnswer : (lexer.withScanned.1.tokenFor run).1.Holds
          (lexer.withScanned.1.tokenFor run).2
            (lexer.scanner.answer lexer.position) := by
        rw [Scanner.answer_of_run invalid]
        exact gains.holds
      refine ⟨keeps.trans moved, holdsAnswer, ?_⟩
      refine ⟨lexer.withScanned.2, moved.holds holds, ?_⟩
      intro place
      rw [Scanner.answer_of_run invalid]
      refine (gains.tokenAt?_eq place).trans ?_
      rw [entries]

/-- A scan at an offset answers as the lexer's own scan from there. -/
theorem Plain.scanAt
    (plain : lexer.Plain (lexer.view.settle offset)) :
    lexer.Scans offset (lexer.scanAt offset) := by
  have keeps := plain.sized.withPosition (lexer.view.settle offset)
  have inside := (lexer.view.settle_bounds offset).2
  obtain ⟨grows, holds, entries⟩ := scanNext_scans (plain.withPosition _) inside
  have sameScan := lexer.scanner.scan_settle offset
  refine ⟨keeps.trans grows, ?_, ?_⟩
  · rw [Scanner.answer, ← sameScan]
    exact holds
  · rw [Scanner.answer, ← sameScan]
    exact entries

/-- Where nothing but scanning has happened, a scan answers from any offset. -/
theorem scanAt_scans
    (plain : lexer.Plain 0)
    (offset : Nat) :
    lexer.Scans offset (lexer.scanAt offset) :=
  (plain.mono (Nat.zero_le _)).scanAt

/--
Behind a plain token stands the next one
of the table; behind the end stands none.
-/
theorem Holds.next?
    (holds : lexer.Holds id lexeme) :
    lexer.next? id =
      if lexeme.kind = .eof then none else lexer.table.next? lexeme.stop := by
  have tied := Forest.source?_of_scanned holds.token? rfl
  rw [Lexer.next?, holds.token?, tied]
  rfl

/-- Before a plain token stands the last one of the table. -/
theorem Holds.previous?
    (holds : lexer.Holds id lexeme) :
    lexer.previous? id = lexer.table.previous? lexeme.start := by
  have tied := Forest.source?_of_scanned holds.token? rfl
  rw [Lexer.previous?, holds.token?, tied]
  rfl

theorem Holds.isActive
    (holds : lexer.Holds id lexeme) :
    lexer.isActive id = lexer.active.contains lexeme.kind := by
  rw [Lexer.isActive, kindOf?, holds.token?]
  rfl

/--
Going back to the end of a token keeps what
the table has before it, and nothing else.
-/
theorem rewind_tokenAt?
    (lexer : Lexer)
    (id : NodeId)
    (token : Token)
    (place : Nat) :
    (lexer.rewind id token).table.tokenAt? place =
      if place < token.stop then lexer.table.tokenAt? place else none :=
  lexer.table.tokenAt?_clearFrom token.stop place

/-- Cutting a link that a plain token has not leaves every node as it is. -/
theorem Sized.rewind
    (sized : lexer.Sized)
    (holds : lexer.Holds id lexeme) :
    lexer.Extends
      (lexer.rewind id (.ofStretch lexeme.kind lexeme.start lexeme.stop)) := by
  have moved := sized.withPosition (lexer.view.settle lexeme.stop)
  have cleared :=
    moved.sized.withTable (lexer.table.sameShape_clearFrom lexeme.stop)
  refine ⟨⟨cleared.sized.size_eq, cleared.sized.shown⟩,
    cleared.scanner_eq.trans moved.scanner_eq, ?_⟩
  intro other node present
  refine (lexer.forest.node?_update id _ other).trans ?_
  by_cases here : id = other
  · subst here
    cases holds.symm.trans present
    rw [if_pos rfl, present]
    rfl
  · rw [if_neg here]
    exact present

/-- Going back leaves plain tokens. -/
theorem Plain.rewind
    (plain : lexer.Plain 0)
    (holds : lexer.Holds id lexeme) :
    lexer.Grows
      (lexer.rewind id (.ofStretch lexeme.kind lexeme.start lexeme.stop)) := by
  have keeps := plain.sized.rewind holds
  refine ⟨keeps, keeps.sized, ?_⟩
  intro place other behind found
  rw [rewind_tokenAt?] at found
  split at found
  case isTrue =>
    obtain ⟨known, knownHolds, start, lies⟩ :=
      plain.entries place other behind found
    exact ⟨known, keeps.holds knownHolds, start, lies⟩
  case isFalse =>
    cases found

/--
The token after a plain token, as far as the table knows what stands behind it.
-/
theorem tokenAfter_of_known
    {known : NodeId}
    {next : Lexeme}
    (holds : lexer.Holds id lexeme)
    (notEnding : lexeme.kind ≠ .eof)
    (found : lexer.table.next? lexeme.stop = some known)
    (knownHolds : lexer.Holds known next)
    (isActive : lexer.active.contains next.kind = true) :
    lexer.tokenAfter id (.ofStretch lexeme.kind lexeme.start lexeme.stop) =
      (lexer, known) := by
  have neighbour : lexer.next? id = some known := by
    rw [holds.next?, if_neg notEnding]
    exact found
  simp only [tokenAfter, neighbour, knownHolds.isActive, isActive, if_true]

/-- Where no token is known to be behind one, a scan from its end answers. -/
theorem tokenAfter_of_unknown
    {token : Token}
    (nothing : lexer.next? id = none) :
    lexer.tokenAfter id token = lexer.scanAt token.stop := by
  simp only [tokenAfter, nothing]

/-- A neighbour of an inactive kind is forgotten, and a scan answers. -/
theorem tokenAfter_of_inactive
    {known : NodeId}
    {next : Lexeme}
    (holds : lexer.Holds id lexeme)
    (notEnding : lexeme.kind ≠ .eof)
    (found : lexer.table.next? lexeme.stop = some known)
    (knownHolds : lexer.Holds known next)
    (inactive : lexer.active.contains next.kind = false) :
    lexer.tokenAfter id (.ofStretch lexeme.kind lexeme.start lexeme.stop) =
      (lexer.rewind id
        (.ofStretch lexeme.kind lexeme.start lexeme.stop)).scanAt
        lexeme.stop := by
  have neighbour : lexer.next? id = some known := by
    rw [holds.next?, if_neg notEnding]
    exact found
  simp only [tokenAfter, neighbour, knownHolds.isActive, inactive]
  rfl

/-- The token after a token that there is is looked up. -/
theorem nextToken_of_token
    {token : Token}
    (isToken : lexer.forest.token? id = some token) :
    lexer.nextToken (some id) = .ok (lexer.tokenAfter id token) := by
  rw [Lexer.nextToken, Forest.token_eq_ok isToken]
  rfl

theorem nextToken_of_holds
    (holds : lexer.Holds id lexeme) :
    lexer.nextToken (some id) =
      .ok (lexer.tokenAfter id
        (.ofStretch lexeme.kind lexeme.start lexeme.stop)) :=
  nextToken_of_token holds.token?

/-- Who asks for a token gets what a scan finds or what stands after a token. -/
theorem nextToken_cases
    {previous? : Option NodeId}
    {result : Lexer × NodeId}
    (answered : lexer.nextToken previous? = .ok result) :
    result = lexer.scanNext ∨
      ∃ previous token, result = lexer.tokenAfter previous token := by
  cases previous? with
  | none =>
      cases answered
      exact .inl rfl
  | some previous =>
      simp only [Lexer.nextToken, bind, Except.bind] at answered
      split at answered
      case h_1 =>
        cases answered
      case h_2 token _ =>
        cases answered
        exact .inr ⟨previous, token, rfl⟩

/--
A reset goes back to the end of a token, and perhaps reads on in another mode.
-/
theorem reset_cases
    {after : Lexer}
    {mode? : Option Mode}
    (answered : lexer.reset id mode? = .ok after) :
    ∃ token,
      after = (lexer.rewind id token).withMode (mode?.getD lexer.mode) := by
  simp only [reset, bind, Except.bind] at answered
  split at answered
  case h_1 =>
    cases answered
  case h_2 token _ =>
    cases answered
    exact ⟨token, rfl⟩

end Snbt.Lexer
