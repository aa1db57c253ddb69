import Snbt.Proofs.Lexer.Answers
import Snbt.Proofs.Lexer.Edits
import Snbt.Proofs.Lexer.Neighbours

namespace Snbt

/-!
# Kinds that are reported

Whatever a lexer knows and however its tokens are linked, the token that it
returns is of a kind that is active then, or the end of the input, or invalid.
There are only two ways to it: a neighbour that is known is looked at before it
is returned, and what a scan finds was matched among the active kinds.  The
token that the table has for the latter has the kind that was found, however
long it has been there.
-/

/-- Only active kinds are matched. -/
theorem Scanner.kind_answer
    (scanner : Scanner)
    (offset : Nat) :
    scanner.active.contains (scanner.answer offset).kind = true ∨
      (scanner.answer offset).kind = .eof ∨
      (scanner.answer offset).kind = .invalid := by
  have inside := (scanner.view.settle_bounds offset).2
  have settled :
      scanner.answer (scanner.view.settle offset) = scanner.answer offset := by
    rw [answer, answer, scan_settle]
  by_cases isEnding : (scanner.answer offset).kind = .eof
  · exact .inr (.inl isEnding)
  · have fits := scanner.answer_fits inside (settled.symm ▸ isEnding)
    rw [settled] at fits
    rcases fits.mayReport with isInvalid | isActive
    · exact .inr (.inr isInvalid)
    · exact .inl isActive

namespace Lexer

/-- A token of an active kind, the end of the input, or an invalid token. -/
def Reports (lexer : Lexer) (active : KindSet) (id : NodeId) : Prop :=
  ∃ kind, lexer.kindOf? id = some kind ∧
    (active.contains kind = true ∨ kind = .eof ∨ kind = .invalid)

variable {lexer : Lexer} {active : KindSet} {id : NodeId}

/-- A token keeps its kind, whatever is done to the lexer. -/
theorem kept_reports
    (active : KindSet)
    (id : NodeId) :
    Kept fun lexer => lexer.Reports active id where
  moved _ reports := reports
  tuned _ _ reports := reports
  fewer _ reports := reports
  made := by
    rintro lexer lexeme table - - ⟨kind, isKind, mayReport⟩
    refine ⟨kind, ?_, mayReport⟩
    obtain ⟨token, isToken, rfl⟩ := Option.map_eq_some_iff.mp isKind
    have notNew := Nat.ne_of_lt (Forest.lt_size_of_token? isToken)
    refine kindOf?_eq_some ((lexer.forest.token?_push _ _ id).trans ?_)
    rw [if_neg notNew, isToken]
  cut := by
    rintro lexer other ⟨kind, isKind, mayReport⟩
    refine ⟨kind, ?_, mayReport⟩
    obtain ⟨token, isToken, rfl⟩ := Option.map_eq_some_iff.mp isKind
    rw [kindOf?, updateToken, Forest.token?_updateToken, isToken]
    split
    · rfl
    · rfl

/-- The token of a lexeme is of its kind, also if the table had it already. -/
theorem kindOf?_tokenFor
    (lexer : Lexer)
    (lexeme : Lexeme) :
    (lexer.tokenFor lexeme).1.kindOf? (lexer.tokenFor lexeme).2 =
      some lexeme.kind := by
  rcases lexer.tokenFor_cases lexeme with ⟨id, _, same, known⟩ | made
  · rw [known]
    unfold isSame at same
    split at same
    case h_1 token isToken =>
      simp only [Bool.and_eq_true, decide_eq_true_eq] at same
      rw [kindOf?_eq_some isToken, same.1.1]
    case h_2 =>
      cases same
  · rw [made]
    exact kindOf?_eq_some (lexer.withToken_holds lexeme).token?

theorem scanNext_reports
    (lexer : Lexer) :
    lexer.scanNext.1.Reports lexer.active lexer.scanNext.2 := by
  obtain ⟨holder, position, _, _, _, _, same⟩ :=
    @Kept.scanNext_answer _ lexer .trivial ⟨⟩
  rw [same]
  exact ⟨_, holder.kindOf?_tokenFor _, lexer.scanner.kind_answer lexer.position⟩

theorem scanAt_reports
    (lexer : Lexer)
    (offset : Nat) :
    (lexer.scanAt offset).1.Reports lexer.active (lexer.scanAt offset).2 :=
  (lexer.moveTo offset).scanNext_reports

theorem reports_of_isActive
    (isActive : lexer.isActive id = true) :
    lexer.Reports lexer.active id := by
  unfold Lexer.isActive at isActive
  split at isActive
  case h_1 kind isKind =>
    exact ⟨kind, isKind, .inl isActive⟩
  case h_2 =>
    cases isActive

theorem tokenAfter_reports
    (lexer : Lexer)
    (id : NodeId)
    (token : Token) :
    (lexer.tokenAfter id token).1.Reports lexer.active
      (lexer.tokenAfter id token).2 := by
  unfold tokenAfter
  split
  case h_1 known _ =>
    split
    case isTrue isActive =>
      exact reports_of_isActive isActive
    case isFalse =>
      exact (lexer.rewind id token).scanAt_reports token.stop
  case h_2 =>
    exact lexer.scanAt_reports token.stop

/--
A walk adds only tokens that may be reported, and those before them stay so.
-/
theorem tokensFrom_reports
    {ids : Array NodeId}
    (bound : Nat)
    (sameActive : lexer.active = active)
    (known : ∀ other ∈ ids, lexer.Reports active other)
    (reports : lexer.Reports active id) :
    ∀ other ∈ (tokensFrom bound lexer ids id).2,
      (tokensFrom bound lexer ids id).1.Reports active other := by
  induction bound generalizing lexer ids id with
  | zero =>
      exact known
  | succ bound inductionHypothesis =>
      have withLast : ∀ other ∈ ids.push id, lexer.Reports active other := by
        intro other member
        rcases Array.mem_push.mp member with isKnown | rfl
        · exact known other isKnown
        · exact reports
      rw [tokensFrom]
      split
      case h_1 =>
        exact withLast
      case h_2 token _ =>
        split
        case isTrue =>
          exact withLast
        case isFalse =>
          have steady := Steady.tokenAfter lexer id token
          refine inductionHypothesis (steady.active_eq.trans sameActive) ?_ ?_
          · intro other member
            exact (kept_reports active other).tokenAfter id token
              (withLast other member)
          · rw [← sameActive]
            exact lexer.tokenAfter_reports id token

theorem tokenize_reports
    (lexer : Lexer) :
    ∀ id ∈ lexer.tokenize.2, lexer.tokenize.1.Reports lexer.active id := by
  intro id member
  refine tokensFrom_reports lexer.walkBound (Steady.scanNext lexer).active_eq ?_
    lexer.scanNext_reports id (Array.mem_toList_iff.mp member)
  intro other impossible
  exact absurd impossible (Array.not_mem_empty other)

theorem nextToken_of_misuse
    {misuse : Misuse}
    (asked : lexer.forest.token id = .error misuse) :
    lexer.nextToken (some id) = .error misuse := by
  rw [nextToken, asked]
  rfl

/--
A neighbour that is known and of an active
kind is returned, and nothing changes.
-/
theorem nextToken_of_isActive
    {known : NodeId}
    (isNext : lexer.next? id = some known)
    (isActive : lexer.isActive known = true) :
    lexer.nextToken (some id) = .ok (lexer, known) := by
  obtain ⟨token, isToken, _⟩ := next?_cases isNext
  rw [nextToken_of_token isToken, tokenAfter, isNext]
  simp only [if_pos isActive]

/--
Whatever a lexer is asked for, it returns no token of a kind that is not
active, apart from the end of the input and invalid tokens.
-/
theorem returns_active_kinds
    (lexer : Lexer) :
    (∀ previous?,
      match lexer.nextToken previous? with
      | .ok (after, next) =>
          after.active = lexer.active ∧ after.Reports lexer.active next
      | .error misuse =>
          ∃ previous, previous? = some previous ∧
            lexer.forest.token previous = .error misuse) ∧
    (∀ offset,
      (lexer.scanAt offset).1.active = lexer.active ∧
      (lexer.scanAt offset).1.Reports lexer.active (lexer.scanAt offset).2) ∧
    (lexer.tokenize.1.active = lexer.active ∧
      ∀ id ∈ lexer.tokenize.2, lexer.tokenize.1.Reports lexer.active id) ∧
    ∀ previous known, lexer.next? previous = some known →
      lexer.isActive known = true →
      lexer.nextToken (some previous) = .ok (lexer, known) := by
  refine ⟨?afterToken, ?atOffset, ⟨?_, lexer.tokenize_reports⟩, ?known⟩
  case afterToken =>
    intro previous?
    cases previous? with
    | none =>
        exact ⟨(Steady.scanNext lexer).active_eq, lexer.scanNext_reports⟩
    | some previous =>
        cases asked : lexer.forest.token previous with
        | ok token =>
            rw [nextToken_of_token (Forest.token_eq_ok_iff.mp asked)]
            exact ⟨(Steady.tokenAfter lexer _ _).active_eq,
              lexer.tokenAfter_reports _ _⟩
        | error misuse =>
            rw [nextToken_of_misuse asked]
            exact ⟨previous, rfl, asked⟩
  case atOffset =>
    exact fun offset =>
      ⟨(Steady.scanAt lexer offset).active_eq, lexer.scanAt_reports offset⟩
  case known =>
    exact fun previous known => nextToken_of_isActive
  · exact (Steady.tokenize lexer).active_eq

end Lexer

end Snbt
