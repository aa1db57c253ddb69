import Snbt.Proofs.Lexer.Masking
import Snbt.Proofs.Lexer.Splices

namespace Snbt.Lexer

/-!
# Histories

Whatever has been done to a lexer, its buffer and its roles are those that it
was made with, and the offsets that it steps over are those of the lines that
were taken out.  Scanning, splicing and replacing tokens change none of this.
-/

/-- What only masking changes, and telling which kinds are reported. -/
structure Steady (before after : Lexer) : Prop where
  buffer_eq : after.buffer = before.buffer
  roles_eq : after.roles = before.roles
  active_eq : after.active = before.active
  sameShape : after.table.SameShape before.table

namespace Steady

variable {before after : Lexer}

theorem refl
    (lexer : Lexer) :
    lexer.Steady lexer :=
  ⟨rfl, rfl, rfl, .refl lexer.table⟩

theorem trans
    {last : Lexer}
    (steady : before.Steady after)
    (later : after.Steady last) :
    before.Steady last :=
  ⟨later.buffer_eq.trans steady.buffer_eq, later.roles_eq.trans steady.roles_eq,
    later.active_eq.trans steady.active_eq,
    later.sameShape.trans steady.sameShape⟩

theorem withTable
    {table : OffsetTable}
    (lexer : Lexer)
    (same : table.SameShape lexer.table) :
    lexer.Steady { lexer with table } :=
  ⟨rfl, rfl, rfl, same⟩

theorem withForest
    (lexer : Lexer)
    (forest : Forest) :
    lexer.Steady { lexer with forest } :=
  ⟨rfl, rfl, rfl, .refl lexer.table⟩

theorem remember
    (lexer : Lexer)
    (id : NodeId) :
    lexer.Steady (lexer.remember id) := by
  unfold Lexer.remember
  split
  case h_1 offset anchor _ =>
    exact withTable lexer (lexer.table.sameShape_put offset anchor)
  case h_2 =>
    exact .refl lexer

theorem releaseAll
    (lexer : Lexer)
    (skipped : List (Nat × Nat)) :
    lexer.Steady (lexer.releaseAll skipped) :=
  withTable lexer (OffsetTable.sameShape_foldl_releaseRange skipped lexer.table)

theorem tokenFor
    (lexer : Lexer)
    (lexeme : Lexeme) :
    lexer.Steady (lexer.tokenFor lexeme).1 := by
  unfold Lexer.tokenFor
  dsimp only
  split
  case h_1 =>
    exact .refl lexer
  case h_2 =>
    exact (withForest lexer _).trans (remember _ _)

theorem scanNext
    (lexer : Lexer) :
    lexer.Steady lexer.scanNext.1 := by
  have scanned : lexer.Steady lexer.withScanned.1 :=
    (releaseAll lexer _).trans (tokenFor _ _)
  cases invalid : (lexer.scanner.scan lexer.position).invalid? with
  | none =>
      rw [scanNext_of_valid invalid]
      exact ⟨scanned.buffer_eq, scanned.roles_eq, scanned.active_eq,
        scanned.sameShape⟩
  | some run =>
      have withRun := scanned.trans (tokenFor _ run)
      rw [scanNext_of_invalid invalid]
      exact ⟨withRun.buffer_eq, withRun.roles_eq, withRun.active_eq,
        withRun.sameShape⟩

theorem scanAt
    (lexer : Lexer)
    (offset : Nat) :
    lexer.Steady (lexer.scanAt offset).1 := by
  have scanned := scanNext (lexer.moveTo offset)
  exact ⟨scanned.buffer_eq, scanned.roles_eq, scanned.active_eq,
    scanned.sameShape⟩

theorem rewind
    (lexer : Lexer)
    (id : NodeId)
    (token : Token) :
    lexer.Steady (lexer.rewind id token) :=
  ⟨rfl, rfl, rfl, lexer.table.sameShape_clearFrom token.stop⟩

theorem tokenAfter
    (lexer : Lexer)
    (id : NodeId)
    (token : Token) :
    lexer.Steady (lexer.tokenAfter id token).1 := by
  unfold Lexer.tokenAfter
  split
  case h_1 =>
    split
    case isTrue =>
      exact .refl lexer
    case isFalse =>
      exact (rewind lexer id token).trans (scanAt _ token.stop)
  case h_2 =>
    exact scanAt lexer token.stop

theorem nextToken
    {lexer : Lexer}
    {previous? : Option NodeId}
    {result : Lexer × NodeId}
    (answered : lexer.nextToken previous? = .ok result) :
    lexer.Steady result.1 := by
  rcases nextToken_cases answered with rfl | ⟨previous, token, rfl⟩
  · exact scanNext lexer
  · exact tokenAfter lexer previous token

theorem tokensFrom
    (bound : Nat)
    (lexer : Lexer)
    (ids : Array NodeId)
    (id : NodeId) :
    lexer.Steady (tokensFrom bound lexer ids id).1 := by
  induction bound generalizing lexer ids id with
  | zero =>
      exact .refl lexer
  | succ bound inductionHypothesis =>
      rw [Lexer.tokensFrom]
      split
      case h_1 =>
        exact .refl lexer
      case h_2 token _ =>
        split
        case isTrue =>
          exact .refl lexer
        case isFalse =>
          exact (tokenAfter lexer id token).trans (inductionHypothesis _ _ _)

theorem tokenize
    (lexer : Lexer) :
    lexer.Steady lexer.tokenize.1 :=
  (scanNext lexer).trans (tokensFrom lexer.walkBound _ #[] _)

theorem reset
    {lexer : Lexer}
    {id : NodeId}
    {mode? : Option Mode}
    (answered : lexer.reset id mode? = .ok after) :
    lexer.Steady after := by
  obtain ⟨token, rfl⟩ := reset_cases answered
  have rewound := rewind lexer id token
  exact ⟨rewound.buffer_eq, rewound.roles_eq, rewound.active_eq,
    rewound.sameShape⟩

theorem insertBefore
    {lexer : Lexer}
    {id inserted : NodeId}
    (answered : lexer.insertBefore id inserted = .ok after) :
    lexer.Steady after := by
  obtain ⟨forest, rfl⟩ := insertBefore_same answered
  exact withForest lexer forest

theorem replaceKind
    {lexer : Lexer}
    {id : NodeId}
    {kind : Kind}
    {result : Lexer × NodeId}
    (answered : lexer.replaceKind id kind = .ok result) :
    lexer.Steady result.1 := by
  obtain ⟨forest, same | same⟩ := replaceKind_same answered
  · rw [same]
    exact withForest lexer forest
  · rw [same]
    exact (withForest lexer forest).trans (remember _ _)

/-- The table still has a slot for every offset and one for the end. -/
theorem sized
    (steady : before.Steady after)
    (sized : before.Sized) :
    after.Sized := by
  constructor
  case size_eq =>
    rw [steady.sameShape.size_eq, steady.buffer_eq]
    exact sized.size_eq
  case shown =>
    rw [steady.sameShape.isHidden_eq, steady.buffer_eq]
    exact sized.shown

end Steady

/-- A lexer reads a buffer without the lines that masks take out. -/
structure Reads
    (settings : LexerSettings)
    (buffer : Buffer)
    (masks : List LineMask)
    (lexer : Lexer) : Prop where
  buffer_eq : lexer.buffer = buffer
  roles_eq : lexer.roles = settings.roles
  size_eq : lexer.table.slots.size = buffer.size + 1
  isHidden_eq : lexer.table.isHidden = (buffer.without masks).hidden

variable {settings : LexerSettings} {buffer : Buffer} {masks : List LineMask}
  {lexer before after : Lexer}

theorem Steady.reads
    (steady : before.Steady after)
    (reads : Reads settings buffer masks before) :
    Reads settings buffer masks after :=
  ⟨steady.buffer_eq.trans reads.buffer_eq, steady.roles_eq.trans reads.roles_eq,
    steady.sameShape.size_eq.trans reads.size_eq,
    steady.sameShape.isHidden_eq.trans reads.isHidden_eq⟩

theorem Reads.sized
    (reads : Reads settings buffer masks lexer) :
    lexer.Sized := by
  constructor
  case size_eq =>
    rw [reads.size_eq, reads.buffer_eq]
  case shown =>
    rw [reads.isHidden_eq, reads.buffer_eq]
    refine Bool.eq_false_iff.mpr fun isHidden => ?_
    exact Nat.lt_irrefl _ ((buffer.without_hidesLines masks).inside _ isHidden)

/-- What is read, the mode and the active kinds decide how the buffer is cut. -/
theorem Reads.scanner_eq
    (reads : Reads settings buffer masks lexer) :
    lexer.scanner =
      { view := buffer.without masks
        mode := lexer.mode
        active := lexer.active
        roles := settings.roles } := by
  simp only [scanner, view, reads.isHidden_eq, reads.buffer_eq, reads.roles_eq]
  rfl

/-- Lines that are taken out later are taken out too. -/
theorem Reads.masked
    (reads : Reads settings buffer masks lexer)
    (later : List LineMask) :
    Reads settings buffer (masks ++ later) (lexer.masked later) := by
  have hides := masked_hides later reads.sized
  refine ⟨hides.buffer_eq.trans reads.buffer_eq,
    hides.roles_eq.trans reads.roles_eq, hides.size_eq.trans reads.size_eq, ?_⟩
  funext offset
  refine Bool.eq_iff_iff.mpr ((hides.hidden offset).trans ?_)
  rw [reads.isHidden_eq, reads.buffer_eq]
  simp only [Buffer.hidden_without_iff, List.mem_append,
    or_and_right, exists_or]

/-- A lexer that has done nothing yet reads the whole buffer. -/
theorem fresh_reads
    (settings : LexerSettings)
    (buffer : Buffer)
    (active : KindSet) :
    Reads settings buffer [] (fresh settings buffer active) := by
  refine ⟨rfl, rfl, Array.size_replicate, ?_⟩
  exact OffsetTable.isHidden_ofLength buffer.size

/--
A lexer that comes of a new one by any mix of scanning, going back, changing
what is reported and how, taking lines out, making tokens, splicing them in
and replacing them.  Tokens can be asked about, spliced and replaced
whatever they are.
-/
inductive Reached (settings : LexerSettings) (buffer : Buffer) :
    List LineMask → Lexer → Prop where
  | new :
      Reached settings buffer [] (ofBuffer settings buffer)
  | nextToken
      {masks : List LineMask}
      {lexer : Lexer}
      {previous? : Option NodeId}
      {result : Lexer × NodeId}
      (reached : Reached settings buffer masks lexer)
      (answered : lexer.nextToken previous? = .ok result) :
      Reached settings buffer masks result.1
  | scanAt
      {masks : List LineMask}
      {lexer : Lexer}
      (reached : Reached settings buffer masks lexer)
      (offset : Nat) :
      Reached settings buffer masks (lexer.scanAt offset).1
  | tokenize
      {masks : List LineMask}
      {lexer : Lexer}
      (reached : Reached settings buffer masks lexer) :
      Reached settings buffer masks lexer.tokenize.1
  | reset
      {masks : List LineMask}
      {lexer after : Lexer}
      {id : NodeId}
      {mode? : Option Mode}
      (reached : Reached settings buffer masks lexer)
      (answered : lexer.reset id mode? = .ok after) :
      Reached settings buffer masks after
  | withMode
      {masks : List LineMask}
      {lexer : Lexer}
      (reached : Reached settings buffer masks lexer)
      (mode : Mode) :
      Reached settings buffer masks (lexer.withMode mode)
  | activate
      {masks : List LineMask}
      {lexer : Lexer}
      (reached : Reached settings buffer masks lexer)
      (kinds : List Kind) :
      Reached settings buffer masks (lexer.activate kinds)
  | deactivate
      {masks : List LineMask}
      {lexer : Lexer}
      (reached : Reached settings buffer masks lexer)
      (kinds : List Kind) :
      Reached settings buffer masks (lexer.deactivate kinds)
  | mask
      {masks : List LineMask}
      {lexer : Lexer}
      (reached : Reached settings buffer masks lexer)
      (lines : LineMask) :
      Reached settings buffer (masks ++ [lines]) (lexer.mask lines)
  | newToken
      {masks : List LineMask}
      {lexer : Lexer}
      (reached : Reached settings buffer masks lexer)
      (kind : Kind)
      (image : String) :
      Reached settings buffer masks (lexer.newToken kind image).1
  | freeToken
      {masks : List LineMask}
      {lexer : Lexer}
      (reached : Reached settings buffer masks lexer)
      (kind : Kind)
      (image : String) :
      Reached settings buffer masks
        { lexer with forest := (lexer.forest.newToken kind image).1 }
  | insertBefore
      {masks : List LineMask}
      {lexer after : Lexer}
      {id inserted : NodeId}
      (reached : Reached settings buffer masks lexer)
      (answered : lexer.insertBefore id inserted = .ok after) :
      Reached settings buffer masks after
  | replaceKind
      {masks : List LineMask}
      {lexer : Lexer}
      {id : NodeId}
      {kind : Kind}
      {result : Lexer × NodeId}
      (reached : Reached settings buffer masks lexer)
      (answered : lexer.replaceKind id kind = .ok result) :
      Reached settings buffer masks result.1

/--
Whatever has been done to a lexer, it reads
its buffer without the lines taken out.
-/
theorem Reached.reads
    (reached : Reached settings buffer masks lexer) :
    Reads settings buffer masks lexer := by
  induction reached with
  | new =>
      exact fresh_reads settings buffer .full
  | nextToken _ answered reads =>
      exact (Steady.nextToken answered).reads reads
  | scanAt _ offset reads =>
      exact (Steady.scanAt _ offset).reads reads
  | tokenize _ reads =>
      exact (Steady.tokenize _).reads reads
  | reset _ answered reads =>
      exact (Steady.reset answered).reads reads
  | withMode _ mode reads =>
      exact ⟨reads.buffer_eq, reads.roles_eq, reads.size_eq, reads.isHidden_eq⟩
  | activate _ kinds reads =>
      exact ⟨reads.buffer_eq, reads.roles_eq, reads.size_eq, reads.isHidden_eq⟩
  | deactivate _ kinds reads =>
      exact ⟨reads.buffer_eq, reads.roles_eq, reads.size_eq, reads.isHidden_eq⟩
  | mask _ lines reads =>
      exact reads.masked [lines]
  | newToken _ kind image reads =>
      exact (Steady.withForest _ _).reads reads
  | freeToken _ kind image reads =>
      exact (Steady.withForest _ _).reads reads
  | insertBefore _ answered reads =>
      exact (Steady.insertBefore answered).reads reads
  | replaceKind _ answered reads =>
      exact (Steady.replaceKind answered).reads reads

end Snbt.Lexer
