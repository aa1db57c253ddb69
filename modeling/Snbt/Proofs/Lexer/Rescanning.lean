import Snbt.Proofs.Lexer.Edits

namespace Snbt.Lexer

/-!
# Scanning again

A scan leaves behind all that a scan from the same offset asks for: the tokens
of the lexemes that it met stand in the table, and what it skipped is marked.
Where a lexer knows all of this, a scan changes nothing but the position.  So
scanning again changes nothing at all, whatever tokens the lexer had before and
however they are linked.
-/

variable {lexer : Lexer} {id : NodeId} {lexeme other : Lexeme} {offset : Nat}

/--
The table has a token where a lexeme starts,
and the lexeme would become the same.
-/
structure Knows (lexer : Lexer) (lexeme : Lexeme) (id : NodeId) : Prop where
  stands : lexer.table.tokenAt? lexeme.start = some id
  isSame :
    lexer.isSame lexeme (lexer.roles.role lexeme.kind = .unparsed) id = true

/-- For a lexeme that is known no token is made. -/
theorem Knows.tokenFor
    (knows : lexer.Knows lexeme id) :
    lexer.tokenFor lexeme = (lexer, id) := by
  have found :
      (lexer.table.tokenAt? lexeme.start).filter
          (lexer.isSame lexeme (lexer.roles.role lexeme.kind = .unparsed)) =
        some id :=
    Option.filter_eq_some_iff.mpr ⟨knows.stands, knows.isSame⟩
  simp only [Lexer.tokenFor, found]

/--
For a lexeme that is not known a token is made and put where the lexeme starts.
-/
theorem tokenFor_of_unknown
    (unknown :
      (lexer.table.tokenAt? lexeme.start).filter
          (lexer.isSame lexeme (lexer.roles.role lexeme.kind = .unparsed)) =
        none) :
    lexer.tokenFor lexeme =
      ({ lexer.withToken lexeme with
          table := lexer.table.put lexeme.start lexer.forest.size },
        lexer.forest.size) := by
  simp only [Lexer.tokenFor, unknown]
  exact congrArg (·, lexer.forest.size)
    (remember_of_holds (lexer.withToken_holds lexeme))

/--
The token of a node is what lexemes are
compared with, so more nodes change nothing.
-/
theorem isSame_of_nodes
    {before after : Lexer}
    {unparsed : Bool}
    (nodes :
      ∀ id node, before.forest.node? id = some node →
        after.forest.node? id = some node)
    (isSame : before.isSame lexeme unparsed id = true) :
    after.isSame lexeme unparsed id = true := by
  unfold Lexer.isSame at isSame ⊢
  cases present : before.forest.token? id with
  | none =>
      rw [present] at isSame
      cases isSame
  | some token =>
      obtain ⟨node, isNode, isToken⟩ := Forest.token?_eq_some_iff.mp present
      have stillNode := nodes id node isNode
      have stillToken : after.forest.token? id = some token :=
        Forest.token?_eq_some_iff.mpr ⟨node, stillNode, isToken⟩
      have sameRole :
          after.forest.isUnparsed id = before.forest.isUnparsed id := by
        rw [Forest.isUnparsed, Forest.isUnparsed, stillNode, isNode]
      rw [present] at isSame
      rw [stillToken, sameRole]
      exact isSame

/-- A token made for a lexeme is the same as the lexeme would become. -/
theorem Holds.isSame
    (holds : lexer.Holds id lexeme) :
    lexer.isSame lexeme (lexer.roles.role lexeme.kind = .unparsed)
      id = true := by
  rw [Lexer.isSame, holds.token?, holds.isUnparsed]
  simp only [Token.ofStretch, decide_true, Bool.and_self, beq_self_eq_true]

/--
Making the token of a lexeme changes no node and nothing that decides
how a buffer is cut.
-/
theorem Sized.tokenFor
    (sized : lexer.Sized)
    (lexeme : Lexeme) :
    lexer.Extends (lexer.tokenFor lexeme).1 := by
  rcases lexer.tokenFor_cases lexeme with ⟨_, _, _, same⟩ | same
  · rw [same]
    exact sized.keeps
  · have made := sized.withToken lexeme
    rw [same]
    exact made.trans (made.sized.withTable (lexer.table.sameShape_put _ _))

/-- The token of a lexeme is known from then on. -/
theorem tokenFor_knows
    (sized : lexer.Sized)
    (isPlace : lexer.scanner.view.IsPlace lexeme.start) :
    (lexer.tokenFor lexeme).1.Knows lexeme (lexer.tokenFor lexeme).2 := by
  rcases lexer.tokenFor_cases lexeme with ⟨id, stands, isSame, same⟩ | same
  · rw [same]
    exact ⟨stands, isSame⟩
  · rw [same]
    refine ⟨?_, ?_⟩
    · exact (OffsetTable.tokenAt?_put (sized.admits isPlace)).trans (if_pos rfl)
    · exact (lexer.withToken_holds lexeme).isSame

/-- The token of a lexeme leaves what stands elsewhere. -/
theorem tokenAt?_tokenFor_of_ne
    {place : Nat}
    (sized : lexer.Sized)
    (isPlace : lexer.scanner.view.IsPlace lexeme.start)
    (elsewhere : place ≠ lexeme.start) :
    (lexer.tokenFor lexeme).1.table.tokenAt? place =
      lexer.table.tokenAt? place := by
  rcases lexer.tokenFor_cases lexeme with ⟨_, _, _, same⟩ | same
  · rw [same]
  · rw [same]
    exact (OffsetTable.tokenAt?_put (sized.admits isPlace)).trans
      (if_neg elsewhere)

/-- The token of a lexeme leaves what is released elsewhere. -/
theorem isReleased_tokenFor_of_ne
    {place : Nat}
    (elsewhere : place ≠ lexeme.start) :
    (lexer.tokenFor lexeme).1.table.isReleased place =
      lexer.table.isReleased place := by
  rcases lexer.tokenFor_cases lexeme with ⟨_, _, _, same⟩ | same
  · rw [same]
  · rw [same]
    exact OffsetTable.isReleased_put elsewhere

/--
A lexeme that is known stays known when another, which starts
elsewhere, gets its token.
-/
theorem Knows.tokenFor_other
    (knows : lexer.Knows lexeme id)
    (sized : lexer.Sized)
    (isPlace : lexer.scanner.view.IsPlace other.start)
    (elsewhere : lexeme.start ≠ other.start) :
    (lexer.tokenFor other).1.Knows lexeme id := by
  have keeps := sized.tokenFor other
  refine ⟨?_, ?_⟩
  · rw [tokenAt?_tokenFor_of_ne sized isPlace elsewhere]
    exact knows.stands
  · rw [keeps.roles_eq]
    exact isSame_of_nodes keeps.nodes knows.isSame

/-- Where a scan from an offset leaves the position. -/
def scanEnd (lexer : Lexer) (offset : Nat) : Nat :=
  match (lexer.scanner.scan offset).invalid? with
  | none => (lexer.scanner.scan offset).lexeme.stop
  | some run => lexer.scanner.view.settle run.stop

/-- All that a scan from an offset skips is released. -/
def SkipsReleased (lexer : Lexer) (offset : Nat) : Prop :=
  ∀ stretch ∈ (lexer.scanner.scan offset).skipped,
    ∀ place, stretch.1 ≤ place → place < stretch.2 →
      lexer.table.isReleased place = true

/--
A lexer knows all that a scan from an offset
meets, and answers with the token `id`.
-/
structure HasScanned (lexer : Lexer) (offset : Nat) (id : NodeId) : Prop where
  answer : lexer.Knows (lexer.scanner.answer offset) id
  lexeme : ∃ last, lexer.Knows (lexer.scanner.scan offset).lexeme last
  released : lexer.SkipsReleased offset

/-- Where all is known, a scan only moves the position. -/
theorem HasScanned.scanNext
    (scanned : lexer.HasScanned lexer.position id) :
    lexer.scanNext =
      ({ lexer with position := lexer.scanEnd lexer.position }, id) := by
  obtain ⟨last, knowsLast⟩ := scanned.lexeme
  have released :
      lexer.releaseAll (lexer.scanner.scan lexer.position).skipped = lexer := by
    rw [releaseAll,
      OffsetTable.foldl_releaseRange_of_isReleased scanned.released]
  have withLast : lexer.withScanned = (lexer, last) := by
    rw [withScanned, released]
    exact knowsLast.tokenFor
  cases invalid : (lexer.scanner.scan lexer.position).invalid? with
  | none =>
      have isAnswer := scanned.answer
      rw [Scanner.answer_of_valid invalid] at isAnswer
      have sameToken : last = id :=
        Option.some.inj (knowsLast.stands.symm.trans isAnswer.stands)
      rw [scanNext_of_valid invalid, withLast, scanEnd, invalid, sameToken]
  | some run =>
      have knowsRun := scanned.answer
      rw [Scanner.answer_of_run invalid] at knowsRun
      rw [scanNext_of_invalid invalid, withLast, knowsRun.tokenFor,
        scanEnd, invalid]
      rfl

/-- What a lexer knows of a scan, it knows when it stands elsewhere. -/
theorem HasScanned.withPosition
    (scanned : lexer.HasScanned offset id)
    (position : Nat) :
    { lexer with position }.HasScanned offset id := by
  obtain ⟨last, knowsLast⟩ := scanned.lexeme
  exact ⟨⟨scanned.answer.stands, scanned.answer.isSame⟩,
    ⟨last, ⟨knowsLast.stands, knowsLast.isSame⟩⟩, scanned.released⟩

/--
A lexer that is extended knows a scan if it knows what the scan met before.
-/
theorem Extends.hasScanned
    {before after : Lexer}
    {last : NodeId}
    (keeps : before.Extends after)
    (answer : after.Knows (before.scanner.answer offset) id)
    (lexeme : after.Knows (before.scanner.scan offset).lexeme last)
    (released : ∀ stretch ∈ (before.scanner.scan offset).skipped,
      ∀ place, stretch.1 ≤ place → place < stretch.2 →
        after.table.isReleased place = true) :
    after.HasScanned offset id := by
  rw [← keeps.scanner_eq] at answer lexeme released
  exact ⟨answer, ⟨last, lexeme⟩, released⟩

/-- A scan leaves all of it known from where it started. -/
theorem scanNext_hasScanned
    (sized : lexer.Sized)
    (inside : lexer.position ≤ lexer.buffer.size) :
    lexer.Extends lexer.scanNext.1 ∧
      lexer.scanNext.1.HasScanned lexer.position lexer.scanNext.2 ∧
      lexer.scanNext.1.position = lexer.scanEnd lexer.position := by
  obtain ⟨met, isPlace, _⟩ := lexer.scanner.scan_met inside
  have released := sized.releaseAll (lexer.scanner.scan lexer.position).skipped
  have placed := released.isPlace isPlace
  have keeps :=
    released.trans
      (released.sized.tokenFor (lexer.scanner.scan lexer.position).lexeme)
  have knows := tokenFor_knows released.sized placed
  have skips : ∀ stretch ∈ (lexer.scanner.scan lexer.position).skipped,
      ∀ place, stretch.1 ≤ place → place < stretch.2 →
        lexer.withScanned.1.table.isReleased place = true := by
    intro stretch member place low high
    have bound := (met.skips stretch member).2
    rw [withScanned, isReleased_tokenFor_of_ne (by omega), releaseAll,
      OffsetTable.isReleased_foldl_releaseRange]
    exact .inl ⟨stretch, member, low, high⟩
  change lexer.Extends lexer.withScanned.1 at keeps
  change lexer.withScanned.1.Knows _ lexer.withScanned.2 at knows
  cases invalid : (lexer.scanner.scan lexer.position).invalid? with
  | none =>
      have moved :=
        keeps.sized.withPosition (lexer.scanner.scan lexer.position).lexeme.stop
      have isAnswer := knows
      rw [← Scanner.answer_of_valid invalid] at isAnswer
      rw [scanNext_of_valid invalid, scanEnd, invalid]
      exact ⟨keeps.trans moved,
        (keeps.hasScanned isAnswer knows skips).withPosition _, rfl⟩
  | some run =>
      obtain ⟨runFits, _, runBefore⟩ := met.run run invalid
      have nonempty := runFits.start_lt_stop
      have runPlaced := keeps.isPlace runFits.isPlace
      have made := keeps.trans (keeps.sized.tokenFor run)
      have knowsRun := tokenFor_knows keeps.sized runPlaced
      have knowsLast := knows.tokenFor_other keeps.sized runPlaced (by omega)
      have isAnswer :
          (lexer.withScanned.1.tokenFor run).1.Knows
            (lexer.scanner.answer lexer.position)
            (lexer.withScanned.1.tokenFor run).2 := by
        rw [Scanner.answer_of_run invalid]
        exact knowsRun
      have stillSkips : ∀ stretch ∈ (lexer.scanner.scan lexer.position).skipped,
          ∀ place, stretch.1 ≤ place → place < stretch.2 →
            (lexer.withScanned.1.tokenFor run).1.table.isReleased
              place = true := by
        intro stretch member place low high
        have clear := Scanner.scan_clear inside invalid stretch member
        rw [isReleased_tokenFor_of_ne (by omega)]
        exact skips stretch member place low high
      rw [scanNext_of_invalid invalid, scanEnd, invalid]
      refine ⟨made.trans (made.sized.withPosition _),
        (made.hasScanned isAnswer knowsLast stillSkips).withPosition _, ?_⟩
      exact congrArg (fun view => view.settle run.stop) made.view_eq

/-- Where a scan ends is told by what decides how the buffer is cut. -/
theorem Extends.scanEnd_eq
    {before after : Lexer}
    (keeps : before.Extends after)
    (offset : Nat) :
    after.scanEnd offset = before.scanEnd offset := by
  rw [scanEnd, scanEnd, keeps.scanner_eq]

/-- A scan at an offset from which all is known only moves the position. -/
theorem HasScanned.scanAt
    (scanned : lexer.HasScanned (lexer.view.settle offset) id) :
    lexer.scanAt offset =
      ({ lexer with position := lexer.scanEnd (lexer.view.settle offset) },
        id) :=
  (scanned.withPosition (lexer.view.settle offset)).scanNext

/-- A scan at an offset leaves all of it known from there. -/
theorem scanAt_hasScanned
    (sized : lexer.Sized)
    (offset : Nat) :
    lexer.Extends (lexer.scanAt offset).1 ∧
      (lexer.scanAt offset).1.HasScanned (lexer.view.settle offset)
        (lexer.scanAt offset).2 ∧
      (lexer.scanAt offset).1.position =
        lexer.scanEnd (lexer.view.settle offset) := by
  have moved : lexer.Extends (lexer.moveTo offset) := sized.withPosition _
  obtain ⟨keeps, scanned, position⟩ :=
    scanNext_hasScanned moved.sized (lexer.view.settle_bounds offset).2
  exact ⟨moved.trans keeps, scanned, position⟩

/--
Scanning again at an offset changes nothing and answers with the same token.
-/
theorem Sized.scanAt_scanAt
    (sized : lexer.Sized)
    (offset : Nat) :
    (lexer.scanAt offset).1.scanAt offset = lexer.scanAt offset := by
  obtain ⟨keeps, scanned, position⟩ := scanAt_hasScanned sized offset
  generalize lexer.scanAt offset = result at *
  obtain ⟨after, id⟩ := result
  have sameView : after.view = lexer.view := keeps.view_eq
  rw [← sameView] at scanned position
  change after.HasScanned _ id at scanned
  have sameEnd : after.scanEnd (after.view.settle offset) = after.position := by
    rw [keeps.scanEnd_eq]
    exact position.symm
  change after.scanAt offset = (after, id)
  rw [scanned.scanAt, sameEnd]

/--
Scanning twice at an offset is scanning once, whatever has been done to the
lexer, whatever tokens its table has been given since, whatever has become of
its nodes and however it has been set: the same token is returned, and no node,
no entry of the table and no position changes.
-/
theorem scanAt_idempotent
    {settings : LexerSettings}
    {buffer : Buffer}
    {masks : List LineMask}
    {table : OffsetTable}
    (reached : Reached settings buffer masks lexer)
    (sameShape : table.SameShape lexer.table)
    (forest : Forest)
    (inputName : String)
    (tabSize : Nat)
    (offset : Nat) :
    let changed :=
      (rename { lexer with table, forest } inputName).withTabSize tabSize
    (changed.scanAt offset).1.scanAt offset = changed.scanAt offset := by
  intro changed
  have steady :=
    (Steady.withTable lexer sameShape).trans (Steady.withForest _ forest)
  have sized := steady.sized reached.reads.sized
  have stillSized : changed.Sized := ⟨sized.size_eq, sized.shown⟩
  exact stillSized.scanAt_scanAt offset

/--
Invalid input behind a word was scanned, and then the second line taken out.
-/
def wordBeforeInvalid : Lexer :=
  (ofString .standard "a # #b\n:").tokenize.1.mask (.hide [2])

/--
A table with the token of the word in the place of the invalid one
is put right once.
-/
theorem scanAt_idempotent_wordBeforeInvalid :
    Reached .standard (.ofString .standard "a # #b\n:") [.hide [2]]
      wordBeforeInvalid ∧
    (wordBeforeInvalid.table.put 2 0).SameShape wordBeforeInvalid.table ∧
    ∃ changed : Lexer,
      changed =
        (rename
          { wordBeforeInvalid with
            table := wordBeforeInvalid.table.put 2 0
            forest := wordBeforeInvalid.forest }
          "renamed").withTabSize 4 ∧
      (changed.scanAt 1).1.scanAt 1 = changed.scanAt 1 ∧
      (changed.scanAt 1).2 = changed.forest.size ∧
      (changed.scanAt 1).1.forest.size = changed.forest.size + 1 := by
  have reached :
      Reached .standard (.ofString .standard "a # #b\n:") [.hide [2]]
        wordBeforeInvalid :=
    Reached.new.tokenize.mask (.hide [2])
  have sameShape := wordBeforeInvalid.table.sameShape_put 2 0
  refine ⟨reached, sameShape, _, rfl,
    scanAt_idempotent reached sameShape wordBeforeInvalid.forest "renamed" 4 1,
    ?_, ?_⟩
  · decide +kernel
  · decide +kernel

end Snbt.Lexer
