import Snbt.Proofs.Lexer.LexemeOrder
import Snbt.Proofs.Lexer.Tokenizing

namespace Snbt.Lexer

/-!
# Pulling tokens in any order

Tokens can be pulled at the starts of lexemes and after tokens that were
pulled before, in any order.  The token after one is the nearest that the
table knows behind it, so it depends on what was pulled; the invariant says
what the table knows.
-/

/-- The lexemes that tokenizing gives. -/
def tokenized (lexer : Lexer) : List Lexeme :=
  lexer.tokenize.2.filterMap lexer.tokenize.1.lexeme?

/-- The lexemes of a buffer. -/
def lexemes (lexer : Lexer) : List Lexeme :=
  lexer.scanner.lexemes 0

/--
A lexer from which tokens have been pulled, and these tokens, the last
first: at the start of a lexeme, or after a token that was pulled before
and is not the end.
-/
inductive Pulled (first : Lexer) : Lexer → List NodeId → Prop where
  | nothing :
      Pulled first first []
  | startOf
      {lexer : Lexer}
      {ids : List NodeId}
      {lexeme : Lexeme}
      (pulled : Pulled first lexer ids)
      (member : lexeme ∈ first.tokenized) :
      Pulled first (lexer.scanAt lexeme.start).1
        ((lexer.scanAt lexeme.start).2 :: ids)
  | after
      {lexer : Lexer}
      {ids : List NodeId}
      {id : NodeId}
      {next : Lexer × NodeId}
      (pulled : Pulled first lexer ids)
      (member : id ∈ ids)
      (notEnding : lexer.kindOf? id ≠ some .eof)
      (answered : lexer.nextToken (some id) = .ok next) :
      Pulled first next.1 (next.2 :: ids)

/--
The lexeme at an index has been met: it was pulled, or the one before it is
invalid and was pulled.
-/
def HasMet (lexemes pulled : List Lexeme) (index : Nat) : Prop :=
  ∃ lexeme ∈ pulled, lexemes[index]? = some lexeme ∨
    lexeme.kind = .invalid ∧ 0 < index ∧ lexemes[index - 1]? = some lexeme

/--
What a lexer knows after tokens were pulled from it: the table has exactly the
tokens of the lexemes that were met.
-/
structure Records
    (first lexer : Lexer)
    (ids : List NodeId)
    (pulled : List Lexeme) : Prop where
  grows : first.Grows lexer
  holds : List.Forall₂ lexer.Holds ids pulled
  member : ∀ lexeme ∈ pulled, lexeme ∈ first.lexemes
  entries : ∀ place id, lexer.table.tokenAt? place = some id →
    ∃ index lexeme, first.lexemes[index]? = some lexeme ∧
      lexer.Holds id lexeme ∧
      lexeme.start = place ∧ HasMet first.lexemes pulled index
  known : ∀ index lexeme, first.lexemes[index]? = some lexeme →
    HasMet first.lexemes pulled index →
    ∃ id, lexer.table.tokenAt? lexeme.start = some id

variable {first lexer : Lexer} {ids : List NodeId} {pulled : List Lexeme}
  {id : NodeId} {lexeme other : Lexeme} {index later offset : Nat}

/-- A lexeme further behind starts further behind. -/
theorem start_lt_start
    (found : first.lexemes[index]? = some lexeme)
    (laterFound : first.lexemes[later]? = some other)
    (before : index < later) :
    lexeme.start < other.start := by
  have sorted := (first.scanner.lexemes_sorted (Nat.zero_le _)).1
  obtain ⟨inside, rfl⟩ := List.getElem?_eq_some_iff.mp found
  obtain ⟨laterInside, rfl⟩ := List.getElem?_eq_some_iff.mp laterFound
  exact List.pairwise_iff_getElem.mp sorted index later inside
    laterInside before

/-- A lexeme that starts further behind stands further behind. -/
theorem index_lt_of_start
    (found : first.lexemes[index]? = some lexeme)
    (laterFound : first.lexemes[later]? = some other)
    (behind : lexeme.start < other.start) :
    index < later := by
  rcases Nat.lt_trichotomy index later with before | same | after
  · exact before
  · subst same
    rw [found] at laterFound
    cases laterFound
    omega
  · have := start_lt_start laterFound found after
    omega

/-- A lexeme stands at one index only. -/
theorem index_unique
    (found : first.lexemes[index]? = some lexeme)
    (otherFound : first.lexemes[later]? = some lexeme) :
    index = later := by
  rcases Nat.lt_trichotomy index later with before | same | after
  · have := start_lt_start found otherFound before
    omega
  · exact same
  · have := start_lt_start otherFound found after
    omega

/--
The answer of a scan that is left with the
lexemes from an index on is the one there.
-/
theorem getElem?_of_lexemes
    (left : first.scanner.lexemes offset = first.lexemes.drop index) :
    first.lexemes[index]? = some (first.scanner.answer offset) := by
  have head := congrArg List.head? left
  rw [first.scanner.lexemes_eq, List.head?_cons, List.head?_drop] at head
  exact head.symm

/-- The answer at the start of a lexeme is the lexeme. -/
theorem answer_start_of_getElem?
    (found : first.lexemes[index]? = some lexeme) :
    first.scanner.answer lexeme.start = lexeme := by
  have continues := first.scanner.lexemes_continues (Nat.zero_le _) found
  have head := continues.fromStart
  rw [first.scanner.lexemes_eq] at head
  exact (List.cons.inj head).1

/-- The answer at the end of a lexeme is the one behind it. -/
theorem answer_stop_of_getElem?
    (found : first.lexemes[index]? = some lexeme)
    (notEnding : lexeme.kind ≠ .eof) :
    first.lexemes[index + 1]? = some (first.scanner.answer lexeme.stop) :=
  getElem?_of_lexemes
    ((first.scanner.lexemes_continues (Nat.zero_le _) found).fromStop notEnding)

/--
A lexeme that is pulled is met, and so is the one behind it if it is invalid.
-/
theorem hasMet_cons
    {lexemes : List Lexeme} :
    HasMet lexemes (lexeme :: pulled) index ↔
      (lexemes[index]? = some lexeme ∨
        lexeme.kind = .invalid ∧ 0 < index ∧
          lexemes[index - 1]? = some lexeme) ∨
      HasMet lexemes pulled index := by
  unfold HasMet
  simp only [List.mem_cons, exists_eq_or_imp]

/--
Where the lexeme that ends a scan stands: it is the answer, or behind
an invalid answer.
-/
theorem getElem?_scan_lexeme
    (found : first.lexemes[index]? = some (first.scanner.answer offset)) :
    (first.scanner.scan offset).lexeme = first.scanner.answer offset ∧
        (first.scanner.answer offset).kind ≠ .invalid ∨
      first.lexemes[index + 1]? = some (first.scanner.scan offset).lexeme ∧
        (first.scanner.answer offset).kind = .invalid := by
  obtain ⟨_, ⟨valid, lexemeEq⟩ | ⟨invalid, lexemeEq⟩⟩ :=
    first.scanner.scan_lexeme offset
  · exact .inl ⟨lexemeEq, valid⟩
  · have notEnding : (first.scanner.answer offset).kind ≠ .eof := by
      rw [invalid]
      exact Kind.noConfusion
    rw [lexemeEq]
    exact .inr ⟨answer_stop_of_getElem? found notEnding, invalid⟩

/-- Behind an invalid lexeme stands a valid one. -/
theorem valid_of_invalid
    (found : first.lexemes[index]? = some lexeme)
    (behind : first.lexemes[index + 1]? = some other)
    (invalid : lexeme.kind = .invalid) :
    other.kind ≠ .invalid := by
  have answerEq := answer_start_of_getElem? found
  rw [← answerEq] at found invalid
  rcases getElem?_scan_lexeme found with ⟨_, valid⟩ | ⟨isNext, _⟩
  · exact absurd invalid valid
  · rw [behind] at isNext
    cases isNext
    exact first.scanner.scan_valid lexeme.start

/-- A lexeme that a scan does not meet lies in nothing that the scan skips. -/
theorem not_skipped
    (inside : offset ≤ first.buffer.size)
    (found : first.lexemes[index]? = some (first.scanner.answer offset))
    (before :
      ∀ earlier other, first.lexemes[earlier]? = some other → earlier < index →
      other.start < offset)
    (isOther : first.lexemes[later]? = some other)
    (notAnswer : other.start ≠ (first.scanner.answer offset).start)
    (notLast : other.start ≠ (first.scanner.scan offset).lexeme.start) :
    ¬∃ stretch ∈ (first.scanner.scan offset).skipped,
      stretch.1 ≤ other.start ∧ other.start < stretch.2 := by
  rintro ⟨stretch, member, low, high⟩
  obtain ⟨met, _, _⟩ := first.scanner.scan_met inside
  obtain ⟨lowBound, highBound⟩ := met.skips stretch member
  rcases Nat.lt_trichotomy later index with earlier | rfl | behind
  · have := before later other isOther earlier
    omega
  · rw [found] at isOther
    cases isOther
    exact notAnswer rfl
  · -- behind the answer a lexeme starts behind the one that ended the scan
    rcases getElem?_scan_lexeme found with ⟨lexemeEq, _⟩ | ⟨isNext, _⟩
    · have further := start_lt_start found isOther behind
      rw [lexemeEq] at highBound
      omega
    · rcases Nat.eq_or_lt_of_le (Nat.succ_le_of_lt behind) with rfl | past
      · rw [isNext] at isOther
        cases isOther
        exact notLast rfl
      · have further := start_lt_start isNext isOther past
        omega

/--
A lexeme that a scan does not meet had been met before if it has been met.
-/
theorem hasMet_of_answer
    (found : first.lexemes[index]? = some (first.scanner.answer offset))
    (isOther : first.lexemes[later]? = some other)
    (notAnswer : other.start ≠ (first.scanner.answer offset).start)
    (notLast : other.start ≠ (first.scanner.scan offset).lexeme.start)
    (hasMet :
      HasMet first.lexemes (first.scanner.answer offset :: pulled) later) :
    HasMet first.lexemes pulled later := by
  rcases hasMet_cons.mp hasMet with (here | ⟨invalid, positive, here⟩) | hadMet
  · rw [isOther] at here
    cases here
    exact absurd rfl notAnswer
  · rcases getElem?_scan_lexeme found with ⟨_, valid⟩ | ⟨isNext, _⟩
    · exact absurd invalid valid
    · rw [← index_unique here found, Nat.sub_add_cancel positive,
        isOther] at isNext
      cases isNext
      exact absurd rfl notLast
  · exact hadMet

/-- A scan that answers with a lexeme records it, and what it meets with it. -/
theorem Records.scanAt
    (records : Records first lexer ids pulled)
    (inside : offset ≤ first.buffer.size)
    (left : first.scanner.lexemes offset = first.lexemes.drop index)
    (before :
      ∀ earlier other, first.lexemes[earlier]? = some other → earlier < index →
      other.start < offset) :
    Records first (lexer.scanAt offset).1 ((lexer.scanAt offset).2 :: ids)
      (first.scanner.answer offset :: pulled) := by
  have found := getElem?_of_lexemes left
  have scans := scanAt_scans records.grows.plain offset
  have grows := scans.grows records.grows.plain
  obtain ⟨keeps, holds, last, lastHolds, entries⟩ := scans
  rw [records.grows.scanner_eq] at holds lastHolds entries
  refine ⟨records.grows.trans grows, ?_, ?_, ?_, ?_⟩
  · refine .cons holds (records.holds.imp ?_)
    intro id lexeme held
    exact keeps.holds held
  · intro lexeme member
    rcases List.mem_cons.mp member with rfl | earlier
    · exact List.mem_of_getElem? found
    · exact records.member lexeme earlier
  · intro place other present
    rw [entries] at present
    by_cases isAnswer : place = (first.scanner.answer offset).start
    · rw [if_pos isAnswer] at present
      cases present
      exact ⟨index, _, found, holds, isAnswer.symm,
        hasMet_cons.mpr (.inl (.inl found))⟩
    · rw [if_neg isAnswer] at present
      by_cases isLast : place = (first.scanner.scan offset).lexeme.start
      · rw [if_pos isLast] at present
        cases present
        rcases getElem?_scan_lexeme found with ⟨lexemeEq, _⟩ | ⟨isNext, invalid⟩
        · rw [lexemeEq] at isLast
          exact absurd isLast isAnswer
        · exact ⟨index + 1, _, isNext, lastHolds, isLast.symm,
            hasMet_cons.mpr (.inl (.inr ⟨invalid, Nat.succ_pos index, found⟩))⟩
      · rw [if_neg isLast] at present
        by_cases isSkipped : ∃ stretch ∈ (first.scanner.scan offset).skipped,
            stretch.1 ≤ place ∧ place < stretch.2
        · rw [if_pos isSkipped] at present
          cases present
        · rw [if_neg isSkipped] at present
          obtain ⟨earlier, known, isKnown, held, start, hasMet⟩ :=
            records.entries place other present
          exact ⟨earlier, known, isKnown, keeps.holds held, start,
            hasMet_cons.mpr (.inr hasMet)⟩
  · intro place lexeme isLexeme hasMet
    rw [entries]
    by_cases isAnswer : lexeme.start = (first.scanner.answer offset).start
    · exact ⟨_, if_pos isAnswer⟩
    · rw [if_neg isAnswer]
      by_cases isLast : lexeme.start = (first.scanner.scan offset).lexeme.start
      · exact ⟨_, if_pos isLast⟩
      · rw [if_neg isLast]
        rw [if_neg (not_skipped inside found before isLexeme isAnswer isLast)]
        exact records.known place lexeme isLexeme
          (hasMet_of_answer found isLexeme isAnswer isLast hasMet)

/-- What is met is one of the lexemes. -/
theorem HasMet.getElem?
    (hasMet : HasMet first.lexemes pulled index) :
    ∃ lexeme, first.lexemes[index]? = some lexeme := by
  obtain ⟨lexeme, _, here | ⟨invalid, positive, before⟩⟩ := hasMet
  · exact ⟨lexeme, here⟩
  · have notEnding : lexeme.kind ≠ .eof := by
      rw [invalid]
      exact Kind.noConfusion
    have behind := answer_stop_of_getElem? before notEnding
    rw [Nat.sub_add_cancel positive] at behind
    exact ⟨_, behind⟩

/-- A token that the table has is recorded when it is pulled again. -/
theorem Records.again
    (records : Records first lexer ids pulled)
    (holds : lexer.Holds id lexeme)
    (found : first.lexemes[index]? = some lexeme)
    (hasMet : HasMet first.lexemes pulled index) :
    Records first lexer (id :: ids) (lexeme :: pulled) := by
  refine ⟨records.grows, .cons holds records.holds, ?_, ?_, ?_⟩
  · intro other member
    rcases List.mem_cons.mp member with rfl | earlier
    · exact List.mem_of_getElem? found
    · exact records.member other earlier
  · intro place other present
    obtain ⟨earlier, known, isKnown, held, start, knownMet⟩ :=
      records.entries place other present
    exact ⟨earlier, known, isKnown, held, start,
      hasMet_cons.mpr (.inr knownMet)⟩
  · intro place other isOther otherMet
    refine records.known place other isOther ?_
    rcases hasMet_cons.mp otherMet with
      (here | ⟨invalid, positive, before⟩) | hadMet
    · rw [index_unique here found]
      exact hasMet
    · -- an invalid lexeme was met by pulling it, so the one behind it was met
      -- too
      obtain ⟨known, member,
        here | ⟨knownInvalid, knownPositive, knownBefore⟩⟩ := hasMet
      · rw [found] at here
        cases here
        exact ⟨lexeme, member, .inr ⟨invalid, positive, before⟩⟩
      · have behind : first.lexemes[index - 1 + 1]? = some lexeme := by
          rw [Nat.sub_add_cancel knownPositive]
          exact found
        exact absurd invalid (valid_of_invalid knownBefore behind knownInvalid)
    · exact hadMet

/-- What stands behind a lexeme starts at its end or later. -/
theorem stop_le_start
    (found : first.lexemes[index]? = some lexeme)
    (notEnding : lexeme.kind ≠ .eof)
    (laterFound : first.lexemes[later]? = some other)
    (before : index < later) :
    lexeme.stop ≤ other.start := by
  have continues := first.scanner.lexemes_continues (Nat.zero_le _) found
  have behind :=
    (first.scanner.lexemes_sorted (continues.fits notEnding).stop_le_size).2
  refine behind other ?_
  rw [continues.fromStop notEnding]
  refine List.mem_of_getElem? (i := later - (index + 1)) ?_
  rw [List.getElem?_drop]
  have sameIndex : index + 1 + (later - (index + 1)) = later := by
    omega
  rw [sameIndex]
  exact laterFound

/--
Which lexeme the token after one stands for: the nearest behind it that was
met, or the one directly behind it if none was.
-/
structure IsNext (lexemes pulled : List Lexeme) (index later : Nat) : Prop where
  before : index < later
  nearest :
    ∀ between, index < between → between < later →
      ¬HasMet lexemes pulled between
  met : HasMet lexemes pulled later ∨
    later = index + 1 ∧ ∀ behind, index < behind → ¬HasMet lexemes pulled behind

/--
A lexeme of a buffer is of an active kind if the end and invalid input are.
-/
theorem isActive_of_getElem?
    (endActive : first.active.contains .eof = true)
    (invalidActive : first.active.contains .invalid = true)
    (found : first.lexemes[index]? = some lexeme) :
    first.active.contains lexeme.kind = true := by
  have continues := first.scanner.lexemes_continues (Nat.zero_le _) found
  by_cases isEnding : lexeme.kind = .eof
  · rw [isEnding]
    exact endActive
  · rcases (continues.fits isEnding).mayReport with isInvalid | isActive
    · rw [isInvalid]
      exact invalidActive
    · exact isActive

/--
A token after one that was pulled: the
lexeme that it stands for, and its record.
-/
structure Answers
    (first lexer : Lexer)
    (ids : List NodeId)
    (pulled : List Lexeme)
    (id : NodeId)
    (index later : Nat)
    (other : Lexeme)
    (next : Lexer × NodeId) : Prop where
  found : first.lexemes[later]? = some other
  isNext : IsNext first.lexemes pulled index later
  answered : lexer.nextToken (some id) = .ok next
  holds : next.1.Holds next.2 other
  records : Records first next.1 (next.2 :: ids) (other :: pulled)

/--
Where nothing is known behind a token, the one directly behind it is scanned.
-/
theorem Records.nextToken_of_unknown
    (records : Records first lexer ids pulled)
    (holds : lexer.Holds id lexeme)
    (found : first.lexemes[index]? = some lexeme)
    (notEnding : lexeme.kind ≠ .eof)
    (neighbour : lexer.table.next? lexeme.stop = none) :
    Answers first lexer ids pulled id index (index + 1)
      (first.scanner.answer lexeme.stop) (lexer.scanAt lexeme.stop) := by
  have continues := first.scanner.lexemes_continues (Nat.zero_le _) found
  have fits := continues.fits notEnding
  have nothing := OffsetTable.next?_eq_none_iff.mp neighbour
  have before :
      ∀ earlier other, first.lexemes[earlier]? = some other →
        earlier < index + 1 →
        other.start < lexeme.stop := by
    intro earlier other isOther before
    have nonempty := fits.start_lt_stop
    rcases Nat.lt_or_eq_of_le (Nat.le_of_lt_succ before) with less | rfl
    · have := start_lt_start isOther found less
      omega
    · rw [found] at isOther
      cases isOther
      exact nonempty
  have noneMet :
      ∀ behind, index < behind → ¬HasMet first.lexemes pulled behind := by
    intro behind after hasMet
    obtain ⟨other, isOther⟩ := hasMet.getElem?
    obtain ⟨known, present⟩ := records.known behind other isOther hasMet
    rw [nothing _ (stop_le_start found notEnding isOther after)] at present
    cases present
  refine ⟨answer_stop_of_getElem? found notEnding, ?_, ?_, ?_, ?_⟩
  · exact ⟨Nat.lt_succ_self index, fun between after _ => noneMet between after,
      .inr ⟨rfl, noneMet⟩⟩
  · have notKnown : lexer.next? id = none := by
      rw [holds.next?, if_neg notEnding]
      exact neighbour
    rw [nextToken_of_holds holds, tokenAfter_of_unknown notKnown]
    rfl
  · have answers := (scanAt_scans records.grows.plain lexeme.stop).holds
    rw [records.grows.scanner_eq] at answers
    exact answers
  · exact records.scanAt fits.stop_le_size (continues.fromStop notEnding) before

/-- Where something is known behind a token, the nearest of it is the next. -/
theorem Records.nextToken_of_known
    {known : NodeId}
    (records : Records first lexer ids pulled)
    (endActive : first.active.contains .eof = true)
    (invalidActive : first.active.contains .invalid = true)
    (holds : lexer.Holds id lexeme)
    (found : first.lexemes[index]? = some lexeme)
    (notEnding : lexeme.kind ≠ .eof)
    (neighbour : lexer.table.next? lexeme.stop = some known) :
    ∃ later other,
      Answers first lexer ids pulled id index later other (lexer, known) := by
  have continues := first.scanner.lexemes_continues (Nat.zero_le _) found
  have nonempty := (continues.fits notEnding).start_lt_stop
  obtain ⟨place, behind, present, nothing⟩ :=
    OffsetTable.next?_eq_some_iff.mp neighbour
  obtain ⟨later, other, isOther, knownHolds, rfl, hasMet⟩ :=
    records.entries place known present
  have isActive : lexer.active.contains other.kind = true := by
    have sameActive := congrArg Scanner.active records.grows.scanner_eq
    rw [show lexer.active = first.active from sameActive]
    exact isActive_of_getElem? endActive invalidActive isOther
  refine ⟨later, other, isOther, ⟨?_, ?_, .inl hasMet⟩, ?_, knownHolds,
    records.again knownHolds isOther hasMet⟩
  · exact index_lt_of_start found isOther (by omega)
  · intro between after earlier betweenMet
    obtain ⟨passed, isPassed⟩ := betweenMet.getElem?
    obtain ⟨passedId, passedPresent⟩ :=
      records.known between passed isPassed betweenMet
    rw [nothing passed.start (stop_le_start found notEnding isPassed after)
      (start_lt_start isPassed isOther earlier)] at passedPresent
    cases passedPresent
  · rw [nextToken_of_holds holds,
      tokenAfter_of_known holds notEnding neighbour knownHolds isActive]

/-- The token after one that was pulled, and what the lexer then knows. -/
theorem Records.nextToken
    (records : Records first lexer ids pulled)
    (endActive : first.active.contains .eof = true)
    (invalidActive : first.active.contains .invalid = true)
    (holds : lexer.Holds id lexeme)
    (found : first.lexemes[index]? = some lexeme)
    (notEnding : lexeme.kind ≠ .eof) :
    ∃ later other next,
      Answers first lexer ids pulled id index later other next := by
  cases neighbour : lexer.table.next? lexeme.stop with
  | none =>
      exact ⟨_, _, _,
        records.nextToken_of_unknown holds found notEnding neighbour⟩
  | some known =>
      obtain ⟨later, other, answers⟩ :=
        records.nextToken_of_known endActive invalidActive holds found
          notEnding neighbour
      exact ⟨later, other, _, answers⟩

/-- Tokenizing gives the lexemes of the buffer. -/
theorem fresh_tokenized
    (settings : LexerSettings)
    (buffer : Buffer)
    (active : KindSet) :
    (fresh settings buffer active).tokenized =
      (fresh settings buffer active).lexemes := by
  obtain ⟨_, holds⟩ :=
    tokenize_holds (fresh_plain settings buffer active) (Nat.zero_le _)
      (fresh_knows_nothing settings buffer active)
  exact filterMap_lexeme?_of_holds holds

/-- A token that was pulled stands for one of the lexemes. -/
theorem Records.of_mem
    (records : Records first lexer ids pulled)
    (member : id ∈ ids) :
    ∃ (index : Nat) (lexeme : Lexeme),
      first.lexemes[index]? = some lexeme ∧ lexer.Holds id lexeme := by
  obtain ⟨lexeme, isPulled, holds⟩ := exists_mem_of_forall₂ records.holds member
  obtain ⟨index, found⟩ :=
    List.mem_iff_getElem?.mp (records.member lexeme isPulled)
  exact ⟨index, lexeme, found, holds⟩

/-- Whatever was pulled, the lexer has a record of it. -/
theorem Pulled.records
    {settings : LexerSettings}
    {buffer : Buffer}
    {active : KindSet}
    (pulledAny : Pulled (fresh settings buffer active) lexer ids)
    (endActive : active.contains .eof = true)
    (invalidActive : active.contains .invalid = true) :
    ∃ pulled, Records (fresh settings buffer active) lexer ids pulled := by
  induction pulledAny with
  | nothing =>
      refine ⟨[], (fresh_plain settings buffer active).grows, .nil, ?_, ?_, ?_⟩
      · intro lexeme impossible
        cases impossible
      · intro place id present
        rw [fresh_knows_nothing] at present
        cases present
      · rintro index lexeme _ ⟨_, impossible, _⟩
        cases impossible
  | @startOf lexer ids lexeme _ member inductionHypothesis =>
      obtain ⟨pulled, records⟩ := inductionHypothesis
      rw [fresh_tokenized] at member
      obtain ⟨index, found⟩ := List.mem_iff_getElem?.mp member
      have continues := (fresh settings buffer active).scanner.lexemes_continues
        (Nat.zero_le _) found
      have left :=
        continues.fromStart.trans (Scanner.drop_of_getElem? found).symm
      refine ⟨_, records.scanAt continues.start_le_size left ?_⟩
      intro earlier other isOther before
      exact start_lt_start isOther found before
  | @after lexer ids id next _ member notEnding answered inductionHypothesis =>
      obtain ⟨pulled, records⟩ := inductionHypothesis
      obtain ⟨index, lexeme, found, holds⟩ := records.of_mem member
      have lexemeNotEnding : lexeme.kind ≠ .eof := by
        intro isEnding
        rw [kindOf?, holds.token?] at notEnding
        exact notEnding (congrArg some isEnding)
      obtain ⟨_, other, _, answers⟩ :=
        records.nextToken endActive invalidActive holds found lexemeNotEnding
      cases answered.symm.trans answers.answered
      exact ⟨_, answers.records⟩

/--
The token after one that was pulled stands for the nearest lexeme behind it
that was met, and for the one directly behind it where none was met.  A scan
from its end always finds the one directly behind it.
-/
theorem nextToken_isNext
    {settings : LexerSettings}
    {buffer : Buffer}
    {active : KindSet}
    (endActive : active.contains .eof = true)
    (invalidActive : active.contains .invalid = true)
    (pulledAny : Pulled (fresh settings buffer active) lexer ids)
    (member : id ∈ ids) :
    ∃ (index : Nat) (lexeme : Lexeme),
      (fresh settings buffer active).tokenized[index]? = some lexeme ∧
      lexer.lexeme? id = some lexeme ∧
      (lexeme.kind ≠ .eof →
        (∃ (later : Nat) (other : Lexeme) (next : Lexer × NodeId),
          (fresh settings buffer active).tokenized[later]? = some other ∧
          IsNext (fresh settings buffer active).tokenized
            (ids.filterMap lexer.lexeme?) index later ∧
          lexer.nextToken (some id) = .ok next ∧
          next.1.lexeme? next.2 = some other) ∧
        ∃ following,
          (fresh settings buffer active).tokenized[index + 1]? =
            some following ∧
          (lexer.scanAt lexeme.stop).1.lexeme? (lexer.scanAt lexeme.stop).2 =
            some following) := by
  obtain ⟨pulled, records⟩ := pulledAny.records endActive invalidActive
  obtain ⟨index, lexeme, found, holds⟩ := records.of_mem member
  rw [fresh_tokenized, filterMap_lexeme?_of_holds records.holds]
  refine ⟨index, lexeme, found, holds.lexeme?, ?_⟩
  intro notEnding
  constructor
  · obtain ⟨later, other, next, answers⟩ :=
      records.nextToken endActive invalidActive holds found notEnding
    exact ⟨later, other, next, answers.found, answers.isNext, answers.answered,
      answers.holds.lexeme?⟩
  · have answers := (scanAt_scans records.grows.plain lexeme.stop).holds
    rw [records.grows.scanner_eq] at answers
    exact ⟨_, answer_stop_of_getElem? found notEnding, answers.lexeme?⟩

/-- A lexer for three words. -/
def threeWords : Lexer :=
  fresh .standard (.ofString .standard "a b c") .full

/-- The third word of three is pulled, and then the first. -/
theorem threeWords_pulled :
    Pulled threeWords ((threeWords.scanAt 4).1.scanAt 0).1
      [((threeWords.scanAt 4).1.scanAt 0).2, (threeWords.scanAt 4).2] := by
  have third : Lexeme.mk .string 4 5 ∈ threeWords.tokenized := by
    decide +kernel
  have firstWord : Lexeme.mk .string 0 1 ∈ threeWords.tokenized := by
    decide +kernel
  exact (Pulled.nothing.startOf third).startOf firstWord

/-- Pulled after the third word, the first word has its own lexeme. -/
theorem threeWords_first :
    ((threeWords.scanAt 4).1.scanAt 0).1.lexeme?
      ((threeWords.scanAt 4).1.scanAt 0).2 =
      some (Lexeme.mk .string 0 1) := by
  decide +kernel

/--
The token after the first word stands for the nearest lexeme that was met.
-/
theorem nextToken_threeWords :
    KindSet.full.contains .eof = true ∧
    KindSet.full.contains .invalid = true ∧
    Pulled threeWords ((threeWords.scanAt 4).1.scanAt 0).1
      [((threeWords.scanAt 4).1.scanAt 0).2, (threeWords.scanAt 4).2] ∧
    ∃ (index later : Nat) (next : Lexer × NodeId),
      IsNext threeWords.tokenized
        ([((threeWords.scanAt 4).1.scanAt 0).2,
          (threeWords.scanAt 4).2].filterMap
          ((threeWords.scanAt 4).1.scanAt 0).1.lexeme?) index later ∧
      ((threeWords.scanAt 4).1.scanAt 0).1.nextToken
        (some ((threeWords.scanAt 4).1.scanAt 0).2) = .ok next ∧
      next.1.lexeme? next.2 = threeWords.tokenized[later]? := by
  obtain ⟨index, lexeme, _, isLexeme, answers⟩ :=
    nextToken_isNext rfl rfl threeWords_pulled List.mem_cons_self
  have notEnding : lexeme.kind ≠ .eof := by
    rw [threeWords_first] at isLexeme
    cases isLexeme
    exact Kind.noConfusion
  obtain ⟨⟨later, other, next, isOther, isNext, answered, nextLexeme⟩, _⟩ :=
    answers notEnding
  exact ⟨rfl, rfl, threeWords_pulled, index, later, next, isNext, answered,
    nextLexeme.trans isOther.symm⟩

/--
Behind the first word of three the third is next, if only these were pulled.
-/
theorem nextToken_passes_over_unmet :
    ¬∀ (settings : LexerSettings) (buffer : Buffer) (active : KindSet)
      (lexer : Lexer)
        (ids : List NodeId),
      active.contains .eof = true → active.contains .invalid = true →
      Pulled (fresh settings buffer active) lexer ids →
      ∀ id ∈ ids, ∀ (index : Nat) (lexeme : Lexeme),
        (fresh settings buffer active).tokenized[index]? = some lexeme →
        lexer.lexeme? id = some lexeme → lexeme.kind ≠ .eof →
        ∃ next, lexer.nextToken (some id) = .ok next ∧
          next.1.lexeme? next.2 =
            (fresh settings buffer active).tokenized[index + 1]? := by
  intro always
  have isFirst : threeWords.tokenized[0]? = some (Lexeme.mk .string 0 1) := by
    decide +kernel
  have isSecond :
      threeWords.tokenized[0 + 1]? = some (Lexeme.mk .string 2 3) := by
    decide +kernel
  have isThird :
      (((threeWords.scanAt 4).1.scanAt 0).1.nextToken
          (some ((threeWords.scanAt 4).1.scanAt 0).2)).toOption.map
            (fun next => next.1.lexeme? next.2) =
        some (some (Lexeme.mk .string 4 5)) := by
    decide +kernel
  obtain ⟨next, answered, following⟩ :=
    always _ _ _ _ _ rfl rfl threeWords_pulled _ List.mem_cons_self 0 _ isFirst
      threeWords_first Kind.noConfusion
  rw [answered] at isThird
  have same := (Option.some.inj isThird).symm.trans (following.trans isSecond)
  cases same

end Snbt.Lexer
