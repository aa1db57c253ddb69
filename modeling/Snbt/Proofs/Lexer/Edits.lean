import Snbt.Proofs.Lexer.Histories

namespace Snbt.Lexer

/-!
# Edits

Pulling tokens, going back and taking lines out are made of five edits:
reading elsewhere, reading otherwise, dropping entries of the table, making
the token of a lexeme, and cutting the link behind a token.  What these
edits keep, those operations keep too, whatever tokens the lexer knows and
however they are linked.
-/

variable {P : Lexer → Prop} {lexer : Lexer}

/-- A property that the edits keep. -/
structure Kept (P : Lexer → Prop) : Prop where
  moved : ∀ {lexer : Lexer} {position : Nat},
    position ≤ lexer.buffer.size → P lexer → P { lexer with position }
  tuned : ∀ {lexer : Lexer} active mode, P lexer → P { lexer with active, mode }
  fewer : ∀ {lexer : Lexer} {table : OffsetTable},
    (∀ place id, table.tokenAt? place = some id →
      lexer.table.tokenAt? place = some id) →
      P lexer → P { lexer with table }
  made : ∀ {lexer : Lexer} {lexeme : Lexeme} {table : OffsetTable},
    lexeme.Lies lexer.buffer.size →
      (∀ place id, table.tokenAt? place = some id →
        place = lexeme.start ∧ id = lexer.forest.size ∨
          lexer.table.tokenAt? place = some id) →
      P lexer → P { lexer.withToken lexeme with table }
  cut : ∀ {lexer : Lexer} id,
    P lexer →
      P (lexer.updateToken id fun token => { token with appended? := none })

/-- A token is put where it is asked to be put, or nowhere. -/
theorem tokenAt?_put_cases
    {table : OffsetTable}
    {place offset : Nat}
    {id other : NodeId}
    (found : (table.put place id).tokenAt? offset = some other) :
    offset = place ∧ other = id ∨ table.tokenAt? offset = some other := by
  by_cases admitted : table.admits place = true
  · rw [OffsetTable.tokenAt?_put admitted] at found
    by_cases here : offset = place
    · rw [if_pos here] at found
      exact .inl ⟨here, (Option.some.inj found).symm⟩
    · rw [if_neg here] at found
      exact .inr found
  · rw [OffsetTable.put_of_not_admits admitted] at found
    exact .inr found

/-- A token that was not spliced in is put where it starts. -/
theorem remember_of_token
    {id : NodeId}
    {token : Token}
    (isToken : lexer.forest.token? id = some token)
    (notInserted : token.inserted = false) :
    lexer.remember id =
      { lexer with table := lexer.table.put token.start id } := by
  rw [remember, anchorWithin?, isToken]
  simp only [notInserted, Bool.false_eq_true, if_false]

/--
The token of a lexeme is the one that the
table has where it starts, or a new one.
-/
theorem tokenFor_cases
    (lexer : Lexer)
    (lexeme : Lexeme) :
    (∃ id, lexer.table.tokenAt? lexeme.start = some id ∧
      lexer.isSame lexeme (lexer.roles.role lexeme.kind = .unparsed) id = true ∧
      lexer.tokenFor lexeme = (lexer, id)) ∨
    lexer.tokenFor lexeme =
      ({ lexer.withToken lexeme with
          table := lexer.table.put lexeme.start lexer.forest.size },
        lexer.forest.size) := by
  unfold tokenFor
  cases found : (lexer.table.tokenAt? lexeme.start).filter
      (lexer.isSame lexeme (lexer.roles.role lexeme.kind = .unparsed)) with
  | some id =>
      obtain ⟨present, same⟩ := Option.filter_eq_some_iff.mp found
      simp only [found]
      exact .inl ⟨id, present, same, rfl⟩
  | none =>
      simp only [found]
      exact .inr (congrArg (·, lexer.forest.size)
        (remember_of_holds (lexer.withToken_holds lexeme)))

/-- At most one token is made for a lexeme. -/
theorem size_tokenFor_le
    (lexer : Lexer)
    (lexeme : Lexeme) :
    (lexer.tokenFor lexeme).1.forest.size ≤ lexer.forest.size + 1 := by
  rcases lexer.tokenFor_cases lexeme with ⟨_, _, _, same⟩ | same
  · rw [same]
    exact Nat.le_succ _
  · rw [same]
    exact (Array.size_push _).le

namespace Kept

/-- Nothing has to be kept. -/
theorem trivial :
    Kept fun _ => True where
  moved _ _ := ⟨⟩
  tuned _ _ _ := ⟨⟩
  fewer _ _ := ⟨⟩
  made _ _ _ := ⟨⟩
  cut _ _ := ⟨⟩

/-- The position stays inside the buffer. -/
theorem inside :
    Kept fun lexer => lexer.position ≤ lexer.buffer.size where
  moved inside _ := inside
  tuned _ _ inside := inside
  fewer _ inside := inside
  made _ _ inside := inside
  cut _ inside := inside

variable {id : NodeId} {token : Token} {offset : Nat}

theorem releaseAll
    (kept : Kept P)
    (skipped : List (Nat × Nat))
    (holds : P lexer) :
    P (lexer.releaseAll skipped) := by
  refine kept.fewer (fun place id found => ?_) holds
  rw [OffsetTable.tokenAt?_foldl_releaseRange] at found
  split at found
  case isTrue =>
    cases found
  case isFalse =>
    exact found

theorem tokenFor
    {lexeme : Lexeme}
    (kept : Kept P)
    (lies : lexeme.Lies lexer.buffer.size)
    (holds : P lexer) :
    P (lexer.tokenFor lexeme).1 := by
  rcases lexer.tokenFor_cases lexeme with ⟨_, _, _, same⟩ | same
  · rw [same]
    exact holds
  · rw [same]
    exact kept.made lies (fun _ _ found => tokenAt?_put_cases found) holds

/--
A scan gives the token of its answer, which it asks for after all other edits:
what they keep can be used for this last one.
-/
theorem scanNext_answer
    (kept : Kept P)
    (holds : P lexer) :
    ∃ holder position, P holder ∧ lexer.Steady holder ∧
      holder.forest.size ≤ lexer.forest.size + 1 ∧
      position ≤ lexer.buffer.size ∧
      lexer.scanNext =
        ({ (holder.tokenFor (lexer.scanner.answer lexer.position)).1
          with position },
          (holder.tokenFor (lexer.scanner.answer lexer.position)).2) := by
  have released :=
    kept.releaseAll (lexer.scanner.scan lexer.position).skipped holds
  cases invalid : (lexer.scanner.scan lexer.position).invalid? with
  | none =>
      rw [scanNext_of_valid invalid, Scanner.answer_of_valid invalid]
      have lies := lexer.scanner.scan_lexeme_lies lexer.position
      exact ⟨_, _, released, .releaseAll lexer _, Nat.le_succ _,
        lies.stop_le_size, rfl⟩
  | some run =>
      rw [scanNext_of_invalid invalid, Scanner.answer_of_run invalid]
      have steady : lexer.Steady lexer.withScanned.1 :=
        (Steady.releaseAll lexer _).trans (Steady.tokenFor _ _)
      have withRun := steady.trans (Steady.tokenFor _ run)
      refine ⟨_, _, kept.tokenFor ?_ released, steady,
        Lexer.size_tokenFor_le _ _, ?_, rfl⟩
      · exact lexer.scanner.scan_lexeme_lies lexer.position
      · rw [← withRun.buffer_eq]
        exact (View.settle_bounds _ _).2

theorem scanNext
    (kept : Kept P)
    (holds : P lexer) :
    P lexer.scanNext.1 := by
  obtain ⟨holder, position, holderHolds, steady, _, inside, same⟩ :=
    kept.scanNext_answer holds
  rw [same]
  refine kept.moved ?_ (kept.tokenFor ?_ holderHolds)
  · rw [(Steady.tokenFor holder _).buffer_eq, steady.buffer_eq]
    exact inside
  · rw [steady.buffer_eq]
    exact lexer.scanner.answer_lies lexer.position

theorem scanAt
    (kept : Kept P)
    (offset : Nat)
    (holds : P lexer) :
    P (lexer.scanAt offset).1 :=
  kept.scanNext (kept.moved (lexer.view.settle_bounds offset).2 holds)

theorem rewind
    (kept : Kept P)
    (id : NodeId)
    (token : Token)
    (holds : P lexer) :
    P (lexer.rewind id token) := by
  have cleared :
      P { lexer.moveTo token.stop
        with table := lexer.table.clearFrom token.stop } := by
    have moved := kept.moved (lexer.view.settle_bounds token.stop).2 holds
    refine kept.fewer (fun place id found => ?_) moved
    rw [OffsetTable.tokenAt?_clearFrom] at found
    split at found
    case isTrue =>
      exact found
    case isFalse =>
      cases found
  exact kept.cut id cleared

theorem tokenAfter
    (kept : Kept P)
    (id : NodeId)
    (token : Token)
    (holds : P lexer) :
    P (lexer.tokenAfter id token).1 := by
  unfold Lexer.tokenAfter
  split
  case h_1 =>
    split
    case isTrue =>
      exact holds
    case isFalse =>
      exact kept.scanAt token.stop (kept.rewind id token holds)
  case h_2 =>
    exact kept.scanAt token.stop holds

theorem nextToken
    {previous? : Option NodeId}
    {result : Lexer × NodeId}
    (kept : Kept P)
    (answered : lexer.nextToken previous? = .ok result)
    (holds : P lexer) :
    P result.1 := by
  rcases nextToken_cases answered with rfl | ⟨previous, token, rfl⟩
  · exact kept.scanNext holds
  · exact kept.tokenAfter previous token holds

theorem tokensFrom
    (kept : Kept P)
    (bound : Nat)
    (ids : Array NodeId)
    (id : NodeId)
    (holds : P lexer) :
    P (Lexer.tokensFrom bound lexer ids id).1 := by
  induction bound generalizing lexer ids id with
  | zero =>
      exact holds
  | succ bound inductionHypothesis =>
      rw [Lexer.tokensFrom]
      split
      case h_1 =>
        exact holds
      case h_2 token _ =>
        split
        case isTrue =>
          exact holds
        case isFalse =>
          exact inductionHypothesis _ _ (kept.tokenAfter id token holds)

theorem tokenize
    (kept : Kept P)
    (holds : P lexer) :
    P lexer.tokenize.1 :=
  kept.tokensFrom lexer.walkBound #[] _ (kept.scanNext holds)

theorem reset
    {after : Lexer}
    {mode? : Option Mode}
    (kept : Kept P)
    (answered : lexer.reset id mode? = .ok after)
    (holds : P lexer) :
    P after := by
  obtain ⟨token, rfl⟩ := reset_cases answered
  exact kept.tuned _ _ (kept.rewind id token holds)

theorem mask
    (kept : Kept P)
    (sized : lexer.Sized)
    (lines : LineMask)
    (holds : P lexer) :
    P (lexer.mask lines) := by
  have hides := mask_hides sized lines
  obtain ⟨table, same⟩ := hides.same
  rw [same]
  refine kept.fewer (fun place id found => ?_) holds
  have masked := hides.tokenAt?_eq place
  rw [same] at masked
  rw [masked] at found
  split at found
  case isTrue =>
    cases found
  case isFalse =>
    exact found

end Kept

/-- A scan gives a token that the table has where its answer starts. -/
theorem scanNext_found
    (sized : lexer.Sized)
    (inside : lexer.position ≤ lexer.buffer.size) :
    lexer.scanNext.1.table.tokenAt?
      (lexer.scanner.answer lexer.position).start =
      some lexer.scanNext.2 := by
  obtain ⟨holder, position, _, steady, _, _, same⟩ :=
    @Kept.scanNext_answer _ lexer .trivial ⟨⟩
  have admits := sized.admits (lexer.scanner.answer_isPlace inside).1
  have admits :
      holder.table.admits
        (lexer.scanner.answer lexer.position).start = true := by
    simp only [OffsetTable.admits] at admits ⊢
    rw [steady.sameShape.size_eq, steady.sameShape.isHidden_eq]
    exact admits
  rw [same]
  generalize lexer.scanner.answer lexer.position = answer at *
  rcases holder.tokenFor_cases answer with ⟨id, found, _, known⟩ | made
  · rw [known]
    exact found
  · rw [made]
    exact (OffsetTable.tokenAt?_put admits).trans (if_pos rfl)

/-- A scan at an offset gives a token that the table has there or behind it. -/
theorem scanAt_found
    (sized : lexer.Sized)
    (offset : Nat) :
    ∃ place, min offset lexer.buffer.size ≤ place ∧
      (lexer.scanAt offset).1.table.tokenAt? place =
        some (lexer.scanAt offset).2 := by
  obtain ⟨forward, inside⟩ := lexer.view.settle_bounds offset
  have moved : (lexer.moveTo offset).Sized := ⟨sized.size_eq, sized.shown⟩
  refine ⟨_, ?_, scanNext_found moved inside⟩
  exact forward.trans ((lexer.moveTo offset).scanner.answer_isPlace inside).2

/-- A scan makes at most two tokens. -/
theorem size_scanNext_le
    (lexer : Lexer) :
    lexer.scanNext.1.forest.size ≤ lexer.forest.size + 2 := by
  obtain ⟨holder, _, _, _, fewer, _, same⟩ :=
    @Kept.scanNext_answer _ lexer .trivial ⟨⟩
  have made := holder.size_tokenFor_le (lexer.scanner.answer lexer.position)
  rw [same]
  exact made.trans (Nat.succ_le_succ fewer)

/-- However a lexer was used, it reads on inside its buffer. -/
theorem Reached.inside
    {settings : LexerSettings}
    {buffer : Buffer}
    {masks : List LineMask}
    (reached : Reached settings buffer masks lexer) :
    lexer.position ≤ lexer.buffer.size := by
  induction reached with
  | new =>
      exact Nat.zero_le _
  | nextToken _ answered inside =>
      exact Kept.inside.nextToken answered inside
  | scanAt _ offset inside =>
      exact Kept.inside.scanAt offset inside
  | tokenize _ inside =>
      exact Kept.inside.tokenize inside
  | reset _ answered inside =>
      exact Kept.inside.reset answered inside
  | withMode _ mode inside =>
      exact inside
  | activate _ kinds inside =>
      exact inside
  | deactivate _ kinds inside =>
      exact inside
  | mask reached lines inside =>
      exact Kept.inside.mask reached.reads.sized lines inside
  | newToken _ kind image inside =>
      exact inside
  | freeToken _ kind image inside =>
      exact inside
  | insertBefore _ answered inside =>
      obtain ⟨_, rfl⟩ := insertBefore_same answered
      exact inside
  | replaceKind _ answered inside =>
      obtain ⟨_, same | same⟩ := replaceKind_same answered
      · rw [same]
        exact inside
      · rw [same, remember]
        split
        · exact inside
        · exact inside

end Snbt.Lexer
