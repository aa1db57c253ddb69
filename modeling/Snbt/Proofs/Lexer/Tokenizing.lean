import Snbt.Proofs.Lexer.Scanning

namespace Snbt.Lexer

/-!
# Tokenizing

Pulling one token after another gives the lexemes from the position on,
each once and in order.  The invariant is that behind the last token the
table knows at most the answer of a scan from its end: the lexeme that
ended a run of invalid input.  In the end the table has the tokens that
were pulled, and no others.
-/

variable {lexer before : Lexer} {id : NodeId} {lexeme : Lexeme} {offset : Nat}
  {result : Lexer × NodeId}

/--
All that the table knows from an offset on is what a scan from there answers.
-/
def Expects (lexer : Lexer) (offset : Nat) : Prop :=
  ∀ place other, offset ≤ place → lexer.table.tokenAt? place = some other →
    lexer.Holds other (lexer.scanner.answer offset) ∧
      (lexer.scanner.answer offset).start = place

/-- The next answer is a plain token. -/
theorem Expects.plain
    (expects : lexer.Expects offset)
    (sized : lexer.Sized) :
    lexer.Plain offset := by
  refine ⟨sized, ?_⟩
  intro place id behind found
  obtain ⟨holds, start⟩ := expects place id behind found
  exact ⟨_, holds, start, lexer.scanner.answer_lies offset⟩

theorem expects_of_nothing
    (nothing : ∀ place, offset ≤ place → lexer.table.tokenAt? place = none) :
    lexer.Expects offset := by
  intro place other behind found
  rw [nothing place behind] at found
  cases found

/--
From an offset on the token of the next answer has been reached.  The
table has it and knows at most the one behind it; what it knew before the
offset is as it was.
-/
structure Reaches (before : Lexer) (offset : Nat) (result : Lexer × NodeId) :
    Prop where
  keeps : before.Extends result.1
  holds : result.1.Holds result.2 (before.scanner.answer offset)
  stands :
    result.1.table.tokenAt? (before.scanner.answer offset).start = some result.2
  earlier : ∀ place, place < offset →
    result.1.table.tokenAt? place = before.table.tokenAt? place
  between :
    ∀ place other, offset ≤ place →
      place < (before.scanner.answer offset).stop →
    result.1.table.tokenAt? place = some other →
    place = (before.scanner.answer offset).start
  expects : result.1.Expects (before.scanner.answer offset).stop

/--
A scan from an offset behind which at most its answer is known
reaches the answer.
-/
theorem Scans.reaches
    (scans : before.Scans offset result)
    (expects : before.Expects offset)
    (inside : offset ≤ before.buffer.size) :
    before.Reaches offset result := by
  obtain ⟨last, lastHolds, entries⟩ := scans.entries
  obtain ⟨met, _, _⟩ := before.scanner.scan_met inside
  have forward := (before.scanner.answer_isPlace inside).2
  have lastForward := met.first_le
  refine ⟨scans.keeps, scans.holds, ?_, ?_, ?_, ?_⟩
  · rw [entries, if_pos rfl]
  · intro place isEarlier
    rw [entries, if_neg (by omega), if_neg (by omega), if_neg]
    rintro ⟨stretch, member, low, _⟩
    have bound := (met.skips stretch member).1
    omega
  · intro place other behind isBefore found
    by_contra notAnswer
    rw [entries, if_neg notAnswer] at found
    by_cases isLast : place = (before.scanner.scan offset).lexeme.start
    · obtain ⟨_, ⟨_, lexemeEq⟩ | ⟨_, lexemeEq⟩⟩ :=
        before.scanner.scan_lexeme offset
      · rw [lexemeEq] at isLast
        exact notAnswer isLast
      · have lies := before.scanner.answer_lies offset
        have beyond := (before.scanner.answer_isPlace lies.stop_le_size).2
        rw [lexemeEq] at isLast
        omega
    · rw [if_neg isLast] at found
      split at found
      case isTrue =>
        cases found
      case isFalse =>
        exact notAnswer (expects place other behind found).2.symm
  · intro place other beyond found
    have start_le_stop := (before.scanner.answer_lies offset).start_le_stop
    rw [entries] at found
    rw [scans.keeps.scanner_eq]
    by_cases isAnswer : place = (before.scanner.answer offset).start
    · rw [if_pos isAnswer] at found
      cases found
      rw [Scanner.answer_stop_of_empty (by omega)]
      exact ⟨scans.holds, isAnswer.symm⟩
    · rw [if_neg isAnswer] at found
      by_cases isLast : place = (before.scanner.scan offset).lexeme.start
      · rw [if_pos isLast] at found
        cases found
        obtain ⟨_, ⟨_, lexemeEq⟩ | ⟨_, lexemeEq⟩⟩ :=
          before.scanner.scan_lexeme offset
        · rw [lexemeEq] at isLast
          exact absurd isLast isAnswer
        · rw [← lexemeEq]
          exact ⟨lastHolds, isLast.symm⟩
      · rw [if_neg isLast] at found
        split at found
        case isTrue =>
          cases found
        case isFalse =>
          exact absurd (expects place other (by omega) found).2.symm isAnswer

/-- The next answer, if it is known, is reached without a scan. -/
theorem Expects.reaches
    {place : Nat}
    (expects : lexer.Expects offset)
    (sized : lexer.Sized)
    (inside : offset ≤ lexer.buffer.size)
    (behind : offset ≤ place)
    (present : lexer.table.tokenAt? place = some id) :
    lexer.Reaches offset (lexer, id) := by
  obtain ⟨holds, start⟩ := expects place id behind present
  refine ⟨sized.keeps, holds, ?_, fun _ _ => rfl, ?_, ?_⟩
  · rw [start]
    exact present
  · intro other otherId otherBehind _ found
    exact (expects other otherId otherBehind found).2.symm
  · intro other otherId beyond found
    have start_le_stop := (lexer.scanner.answer_lies offset).start_le_stop
    have forward := (lexer.scanner.answer_isPlace inside).2
    obtain ⟨otherHolds, otherStart⟩ := expects other otherId (by omega) found
    change lexer.Holds otherId
      (lexer.scanner.answer (lexer.scanner.answer offset).stop) ∧ _
    rw [Scanner.answer_stop_of_empty (by omega)]
    exact ⟨otherHolds, otherStart⟩

/--
What a lexer reaches when it has forgotten
all from an offset on, it reaches before.
-/
theorem Extends.reaches
    {forgetful : Lexer}
    (keeps : before.Extends forgetful)
    (reached : forgetful.Reaches offset result)
    (earlier : ∀ place, place < offset →
      forgetful.table.tokenAt? place = before.table.tokenAt? place) :
    before.Reaches offset result := by
  obtain ⟨later, holds, stands, kept, between, expects⟩ := reached
  rw [keeps.scanner_eq] at holds stands between expects
  exact ⟨keeps.trans later, holds, stands,
    fun place isEarlier =>
      (kept place isEarlier).trans (earlier place isEarlier),
    between, expects⟩

/--
A walk has come to the token of a lexeme,
and knows at most the next one behind it.
-/
structure WalkedTo (lexer : Lexer) (id : NodeId) (lexeme : Lexeme) : Prop where
  sized : lexer.Sized
  holds : lexer.Holds id lexeme
  lies : lexeme.Lies lexer.buffer.size
  stands : lexer.table.tokenAt? lexeme.start = some id
  within : ∀ place other, lexeme.start ≤ place → place < lexeme.stop →
    lexer.table.tokenAt? place = some other → place = lexeme.start
  expects : lexer.Expects lexeme.stop

/-- What has been reached has been walked to. -/
theorem Reaches.walkedTo
    (reached : before.Reaches offset result)
    (inside : offset ≤ before.buffer.size) :
    result.1.WalkedTo result.2 (before.scanner.answer offset) := by
  have forward := (before.scanner.answer_isPlace inside).2
  refine ⟨reached.keeps.sized, reached.holds, ?_, reached.stands, ?_,
    reached.expects⟩
  · rw [reached.keeps.size_eq]
    exact before.scanner.answer_lies offset
  · intro place other behind
    exact reached.between place other (forward.trans behind)

/--
One step of the walk: from the token of a lexeme the next answer is reached.
-/
theorem WalkedTo.tokenAfter
    (walked : lexer.WalkedTo id lexeme) :
    lexer.Reaches lexeme.stop
      (lexer.tokenAfter id
        (.ofStretch lexeme.kind lexeme.start lexeme.stop)) := by
  have holds := walked.holds
  have inside := walked.lies.stop_le_size
  have settled : lexeme.stop ≤ lexer.view.settle lexeme.stop :=
    View.le_settle inside
  have plain := (walked.expects.plain walked.sized).mono settled
  cases found : lexer.next? id with
  | none =>
      rw [tokenAfter_of_unknown found]
      exact plain.scanAt.reaches walked.expects inside
  | some known =>
      have notEnding : lexeme.kind ≠ .eof := by
        intro isEnding
        rw [holds.next?, if_pos isEnding] at found
        cases found
      rw [holds.next?, if_neg notEnding] at found
      obtain ⟨place, behind, present, _⟩ :=
        OffsetTable.next?_eq_some_iff.mp found
      have knownHolds := (walked.expects place known behind present).1
      cases isActive :
        lexer.active.contains (lexer.scanner.answer lexeme.stop).kind with
      | true =>
          rw [tokenAfter_of_known holds notEnding found knownHolds isActive]
          exact walked.expects.reaches walked.sized inside behind present
      | false =>
          rw [tokenAfter_of_inactive holds notEnding found knownHolds isActive]
          have rewound := walked.sized.rewind holds
          have entries :
              ∀ place,
                (lexer.rewind id
                  (.ofStretch lexeme.kind lexeme.start
                    lexeme.stop)).table.tokenAt? place =
                  if place < lexeme.stop then
                    lexer.table.tokenAt? place
                  else
                    none :=
            lexer.rewind_tokenAt? id _
          generalize lexer.rewind id
            (.ofStretch lexeme.kind lexeme.start lexeme.stop) = forgetful at *
          have nothing :
              ∀ place, lexeme.stop ≤ place →
                forgetful.table.tokenAt? place = none := by
            intro place later
            rw [entries, if_neg (Nat.not_lt.mpr later)]
          have forgetfulInside : lexeme.stop ≤ forgetful.buffer.size :=
            inside.trans_eq rewound.size_eq.symm
          have forgetfulPlain := (rewound.sized.plain nothing).mono
            (@View.le_settle forgetful.view lexeme.stop forgetfulInside)
          have reached :=
            forgetfulPlain.scanAt.reaches (expects_of_nothing nothing)
            forgetfulInside
          exact rewound.reaches reached fun place isEarlier => by
            rw [entries]
            exact if_pos isEarlier

/-- How many tokens a walk can still meet behind a lexeme. -/
def stepsBehind (lexer : Lexer) (lexeme : Lexeme) : Nat :=
  if lexeme.kind = .eof then 0 else lexer.buffer.size - lexeme.stop + 1

/-- The lexemes behind a lexeme; behind the end there is none. -/
def lexemesBehind (lexer : Lexer) (lexeme : Lexeme) : List Lexeme :=
  if lexeme.kind = .eof then [] else lexer.scanner.lexemes lexeme.stop

/-- Scanning does not change how many tokens a walk can meet. -/
theorem Extends.stepsBehind_eq
    {after : Lexer}
    (keeps : before.Extends after)
    (lexeme : Lexeme) :
    after.stepsBehind lexeme = before.stepsBehind lexeme := by
  rw [stepsBehind, stepsBehind, keeps.size_eq]

/--
Behind the answer to a scan from inside the buffer fewer tokens can be met.
-/
theorem stepsBehind_answer
    (lexer : Lexer)
    (inside : offset ≤ lexer.buffer.size) :
    lexer.stepsBehind (lexer.scanner.answer offset) ≤
      lexer.buffer.size - offset := by
  unfold stepsBehind
  split
  case isTrue =>
    exact Nat.zero_le _
  case isFalse notEnding =>
    have fits := lexer.scanner.answer_fits inside notEnding
    have nonempty := fits.start_lt_stop
    have bound : (lexer.scanner.answer offset).stop ≤ lexer.buffer.size :=
      fits.stop_le_size
    have forward := (lexer.scanner.answer_isPlace inside).2
    omega

/-- Behind the last token of a walk the walk goes on. -/
theorem tokensFrom_step
    {bound : Nat}
    {ids : Array NodeId}
    (holds : lexer.Holds id lexeme)
    (notEnding : lexeme.kind ≠ .eof) :
    tokensFrom (bound + 1) lexer ids id =
      tokensFrom bound
        (lexer.tokenAfter id
          (.ofStretch lexeme.kind lexeme.start lexeme.stop)).1
        (ids.push id)
        (lexer.tokenAfter id
          (.ofStretch lexeme.kind lexeme.start lexeme.stop)).2 := by
  rw [tokensFrom, holds.token?]
  exact if_neg notEnding

/--
A node is the token of a lexeme, and the table has it where the lexeme starts.
-/
def Stands (lexer : Lexer) (id : NodeId) (lexeme : Lexeme) : Prop :=
  lexer.Holds id lexeme ∧ lexer.table.tokenAt? lexeme.start = some id

/-- From an offset on the table has the tokens of lexemes, and no others. -/
structure Lists (lexer : Lexer) (first : Nat) (ids : List NodeId)
    (lexemes : List Lexeme) :
    Prop where
  stands : List.Forall₂ lexer.Stands ids lexemes
  entries :
    ∀ place id, first ≤ place → lexer.table.tokenAt? place = some id → id ∈ ids

/-- At the end of the input the table has nothing behind the last token. -/
theorem WalkedTo.lists
    (walked : lexer.WalkedTo id lexeme)
    (isEnding : lexeme.kind = .eof) :
    lexer.Lists lexeme.start [id] [lexeme] := by
  obtain ⟨startEq, stopEq⟩ := walked.lies.ending isEnding
  refine ⟨.cons ⟨walked.holds, walked.stands⟩ .nil, ?_⟩
  intro place other behind found
  have beyond : lexeme.stop ≤ place := by
    omega
  obtain ⟨_, start⟩ := walked.expects place other beyond found
  have atEnd : place = lexeme.start := by
    rw [← start, stopEq, startEq]
    exact congrArg Lexeme.start lexer.scanner.answer_size
  rw [atEnd, walked.stands] at found
  cases found
  exact List.mem_singleton_self id

/--
The tokens behind a token are listed with
it, if nothing before them has changed.
-/
theorem WalkedTo.lists_cons
    {final : Lexer}
    {ids : List NodeId}
    {lexemes : List Lexeme}
    {first : Nat}
    (walked : lexer.WalkedTo id lexeme)
    (keeps : lexer.Extends final)
    (listed : final.Lists first ids lexemes)
    (between : ∀ place, lexeme.stop ≤ place → place < first →
      final.table.tokenAt? place = none)
    (earlier : ∀ place, place < lexeme.stop →
      final.table.tokenAt? place = lexer.table.tokenAt? place)
    (notEnding : lexeme.kind ≠ .eof) :
    final.Lists lexeme.start (id :: ids) (lexeme :: lexemes) := by
  have stands := walked.stands
  rw [← earlier _ (walked.lies.stretch notEnding).1] at stands
  refine ⟨.cons ⟨keeps.holds walked.holds, stands⟩ listed.stands, ?_⟩
  intro place other after found
  rcases Nat.lt_or_ge place first with before | beyond
  · rcases Nat.lt_or_ge place lexeme.stop with inside | outside
    · have isStart : place = lexeme.start := by
        rw [earlier place inside] at found
        exact walked.within place other after inside found
      rw [isStart, stands] at found
      cases found
      exact List.mem_cons_self
    · rw [between place outside before] at found
      cases found
  · exact List.mem_cons_of_mem id (listed.entries place other beyond found)

/--
The whole walk: from a token on it meets the tokens of the lexemes
behind it.  The table then has them and the token, and nothing else from
where the token starts.
-/
theorem WalkedTo.tokensFrom
    (bound : Nat)
    (ids : Array NodeId)
    (walked : lexer.WalkedTo id lexeme)
    (enough : lexer.stepsBehind lexeme < bound) :
    ∃ later,
      (tokensFrom bound lexer ids id).2.toList = ids.toList ++ id :: later ∧
      lexer.Extends (tokensFrom bound lexer ids id).1 ∧
      (tokensFrom bound lexer ids id).1.Lists lexeme.start (id :: later)
        (lexeme :: lexer.lexemesBehind lexeme) ∧
      ∀ place, place < lexeme.start →
        (tokensFrom bound lexer ids id).1.table.tokenAt? place =
          lexer.table.tokenAt? place := by
  induction bound generalizing lexer ids id lexeme with
  | zero =>
      exact absurd enough (Nat.not_lt_zero _)
  | succ bound inductionHypothesis =>
      by_cases isEnding : lexeme.kind = .eof
      · have finished :
            Lexer.tokensFrom (bound + 1) lexer ids id =
              (lexer, ids.push id) := by
          rw [Lexer.tokensFrom, walked.holds.token?]
          exact if_pos isEnding
        rw [finished, lexemesBehind, if_pos isEnding]
        exact ⟨[], Array.toList_push, walked.sized.keeps, walked.lists isEnding,
          fun _ _ => rfl⟩
      · have reached := walked.tokenAfter
        have inside := walked.lies.stop_le_size
        have forward := (lexer.scanner.answer_isPlace inside).2
        have reaches := (lexer.scanner.answer_lies lexeme.stop).start_le_stop
        have nonempty := (walked.lies.stretch isEnding).1
        have nextWalked := reached.walkedTo inside
        have fewer := lexer.stepsBehind_answer inside
        rw [tokensFrom_step walked.holds isEnding]
        rw [stepsBehind, if_neg isEnding] at enough
        generalize lexer.tokenAfter id
          (.ofStretch lexeme.kind lexeme.start lexeme.stop) = next at *
        have sameSteps :=
          reached.keeps.stepsBehind_eq (lexer.scanner.answer lexeme.stop)
        obtain ⟨later, idsEq, keeps, listed, earlier⟩ :=
          inductionHypothesis (ids.push id) nextWalked (by omega)
        refine ⟨next.2 :: later, ?_, reached.keeps.trans keeps, ?_, ?_⟩
        · rw [idsEq, Array.toList_push, List.append_assoc]
          rfl
        · have sameBehind :
              lexer.lexemesBehind lexeme =
                lexer.scanner.answer lexeme.stop ::
                  next.1.lexemesBehind (lexer.scanner.answer lexeme.stop) := by
            rw [lexemesBehind, if_neg isEnding, lexer.scanner.lexemes_eq,
              lexemesBehind, reached.keeps.scanner_eq]
          rw [sameBehind]
          refine walked.lists_cons (reached.keeps.trans keeps) listed
            ?_ ?_ isEnding
          · intro place behind before
            rw [earlier place before]
            refine Option.eq_none_iff_forall_ne_some.mpr fun other found => ?_
            have := reached.between place other behind (by omega) found
            omega
          · intro place before
            rw [earlier place (by omega), reached.earlier place before]
        · intro place before
          rw [earlier place (by omega), reached.earlier place (by omega)]

/-- A walk may take more steps than there are offsets. -/
theorem size_lt_walkBound
    (lexer : Lexer) :
    lexer.buffer.size + 1 < lexer.walkBound := by
  have places := Nat.le_mul_self (lexer.forest.size + lexer.buffer.size + 2)
  simp only [walkBound]
  omega

/--
Tokenizing with a lexer that knows no token gives the tokens of the lexemes
from the position on, and the table has no others.
-/
theorem tokenize_lists
    (sized : lexer.Sized)
    (inside : lexer.position ≤ lexer.buffer.size)
    (nothing : ∀ place, lexer.table.tokenAt? place = none) :
    lexer.Extends lexer.tokenize.1 ∧
      lexer.tokenize.1.Lists 0 lexer.tokenize.2
        (lexer.scanner.lexemes lexer.position) := by
  have scans := scanNext_scans (sized.plain fun place _ => nothing place) inside
  have reached :=
    scans.reaches (expects_of_nothing fun place _ => nothing place) inside
  have walked := reached.walkedTo inside
  have fewer := lexer.stepsBehind_answer inside
  have bound := lexer.size_lt_walkBound
  have started : lexer.tokenize =
      ((tokensFrom lexer.walkBound lexer.scanNext.1 #[] lexer.scanNext.2).1,
        (tokensFrom lexer.walkBound lexer.scanNext.1 #[]
          lexer.scanNext.2).2.toList) :=
    rfl
  rw [started]
  generalize lexer.scanNext = next at *
  have sameSteps :=
    reached.keeps.stepsBehind_eq (lexer.scanner.answer lexer.position)
  obtain ⟨later, idsEq, keeps, listed, earlier⟩ :=
    walked.tokensFrom lexer.walkBound #[] (by omega)
  have sameBehind :
      lexer.scanner.lexemes lexer.position =
        lexer.scanner.answer lexer.position ::
          next.1.lexemesBehind (lexer.scanner.answer lexer.position) := by
    rw [lexer.scanner.lexemes_eq, lexemesBehind, reached.keeps.scanner_eq]
  rw [idsEq, sameBehind]
  refine ⟨reached.keeps.trans keeps, listed.stands, ?_⟩
  intro place id _ found
  rcases Nat.lt_or_ge place (lexer.scanner.answer lexer.position).start with
    before | behind
  · exfalso
    have reaches := (lexer.scanner.answer_lies lexer.position).start_le_stop
    rw [earlier place before] at found
    rcases Nat.lt_or_ge place lexer.position with isEarlier | behind
    · rw [reached.earlier place isEarlier, nothing] at found
      cases found
    · have := reached.between place id behind (by omega) found
      omega
  · exact listed.entries place id behind found

/--
Tokenizing with a lexer that knows no token
gives the lexemes from the position on.
-/
theorem tokenize_holds
    (plain : lexer.Plain 0)
    (inside : lexer.position ≤ lexer.buffer.size)
    (nothing : ∀ place, lexer.table.tokenAt? place = none) :
    lexer.Extends lexer.tokenize.1 ∧
      List.Forall₂ lexer.tokenize.1.Holds lexer.tokenize.2
        (lexer.scanner.lexemes lexer.position) := by
  obtain ⟨keeps, listed⟩ := tokenize_lists plain.sized inside nothing
  exact ⟨keeps, listed.stands.imp fun _ _ => And.left⟩

/-- A lexer at the start of a buffer that reports the kinds of a set. -/
def fresh
    (settings : LexerSettings)
    (buffer : Buffer)
    (active : KindSet) :
    Lexer :=
  { ofBuffer settings buffer with active }

theorem fresh_knows_nothing
    (settings : LexerSettings)
    (buffer : Buffer)
    (active : KindSet)
    (place : Nat) :
    (fresh settings buffer active).table.tokenAt? place = none :=
  OffsetTable.tokenAt?_ofLength buffer.size place

/-- A lexer that has done nothing yet has a slot for every offset. -/
theorem fresh_sized
    (settings : LexerSettings)
    (buffer : Buffer)
    (active : KindSet) :
    (fresh settings buffer active).Sized :=
  ⟨Array.size_replicate,
    congrFun (OffsetTable.isHidden_ofLength buffer.size) buffer.size⟩

/-- A lexer that has done nothing yet is plain. -/
theorem fresh_plain
    (settings : LexerSettings)
    (buffer : Buffer)
    (active : KindSet) :
    (fresh settings buffer active).Plain 0 :=
  (fresh_sized settings buffer active).plain fun place _ =>
    fresh_knows_nothing settings buffer active place

/-- Nothing is hidden from a lexer that has done nothing yet. -/
theorem fresh_scanner
    (settings : LexerSettings)
    (buffer : Buffer)
    (active : KindSet) :
    (fresh settings buffer active).scanner =
      { view := .whole buffer, mode := settings.mode, active,
        roles := settings.roles } := by
  have shown := OffsetTable.isHidden_ofLength buffer.size
  simp only [scanner, view, View.whole, fresh, ofBuffer, shown]

/-- Each of the tokens of lexemes is related to one of them. -/
theorem exists_mem_of_forall₂
    {ids : List NodeId}
    {lexemes : List Lexeme}
    {relation : NodeId → Lexeme → Prop}
    (related : List.Forall₂ relation ids lexemes)
    (member : id ∈ ids) :
    ∃ lexeme ∈ lexemes, relation id lexeme := by
  induction related with
  | nil =>
      cases member
  | @cons first lexeme _ _ isRelated _ inductionHypothesis =>
      rcases List.mem_cons.mp member with rfl | later
      · exact ⟨lexeme, List.mem_cons_self, isRelated⟩
      · obtain ⟨other, isLater, isOther⟩ := inductionHypothesis later
        exact ⟨other, List.mem_cons_of_mem _ isLater, isOther⟩

/-- Held lexemes are what the tokens stand for. -/
theorem map_lexeme?_of_holds
    {ids : List NodeId}
    {lexemes : List Lexeme}
    (holds : List.Forall₂ lexer.Holds ids lexemes) :
    ids.map lexer.lexeme? = lexemes.map some := by
  induction holds with
  | nil =>
      rfl
  | cons first _ inductionHypothesis =>
      rw [List.map_cons, List.map_cons, inductionHypothesis, first.lexeme?]

theorem filterMap_lexeme?_of_holds
    {ids : List NodeId}
    {lexemes : List Lexeme}
    (holds : List.Forall₂ lexer.Holds ids lexemes) :
    ids.filterMap lexer.lexeme? = lexemes := by
  have sameLexemes :=
    congrArg (List.filterMap fun lexeme? => lexeme?)
      (map_lexeme?_of_holds holds)
  rw [List.filterMap_map, List.filterMap_map] at sameLexemes
  exact sameLexemes.trans List.filterMap_some

/--
Tokenizing cuts a buffer as the longest matches and the roles say: the
segments are joined to spans, invalid spans that follow each other are one,
and the end comes last.
-/
theorem tokenize_of_segments
    (settings : LexerSettings)
    (buffer : Buffer)
    (active : KindSet) :
    (fresh settings buffer active).tokenize.2.map
        (fresh settings buffer active).tokenize.1.lexeme? =
      (Lexeme.joinInvalid
          (settings.roles.spans buffer.size none
            ((View.whole buffer).segments settings.mode active 0)) ++
        [Lexeme.mk .eof buffer.size buffer.size]).map some := by
  obtain ⟨_, holds⟩ :=
    tokenize_holds (fresh_plain settings buffer active) (Nat.zero_le _)
      (fresh_knows_nothing settings buffer active)
  rw [fresh_scanner] at holds
  exact map_lexeme?_of_holds holds

end Snbt.Lexer
