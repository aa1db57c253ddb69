import Snbt.Command.Listing
import Snbt.Proofs.Lexer.MaskedDeletion

namespace Snbt

/-!
# Listed tokens

Scanning changes nothing of a lexer but its table, its nodes and its position,
so the lines of a listing can be read off the lexer that was given: there is
one for each lexeme from its position on.
-/

namespace Lexer

/-- Nothing but the table, the nodes and the position is changed. -/
def SameInput (before after : Lexer) : Prop :=
  ∃ table forest position, after = { before with table, forest, position }

namespace SameInput

variable {before after : Lexer}

theorem trans
    {last : Lexer}
    (same : before.SameInput after)
    (later : after.SameInput last) :
    before.SameInput last := by
  obtain ⟨_, _, _, rfl⟩ := same
  obtain ⟨table, forest, position, rfl⟩ := later
  exact ⟨table, forest, position, rfl⟩

theorem remember
    (lexer : Lexer)
    (id : NodeId) :
    lexer.SameInput (lexer.remember id) := by
  unfold Lexer.remember
  split
  case h_1 offset anchor _ =>
    exact ⟨_, _, _, rfl⟩
  case h_2 =>
    exact ⟨_, _, _, rfl⟩

theorem tokenFor
    (lexer : Lexer)
    (lexeme : Lexeme) :
    lexer.SameInput (lexer.tokenFor lexeme).1 := by
  unfold Lexer.tokenFor
  dsimp only
  split
  case h_1 =>
    exact ⟨_, _, _, rfl⟩
  case h_2 =>
    have made : lexer.SameInput (lexer.withToken lexeme) :=
      ⟨_, _, _, rfl⟩
    exact made.trans (remember _ _)

theorem scanNext
    (lexer : Lexer) :
    lexer.SameInput lexer.scanNext.1 := by
  have released :
      lexer.SameInput
        (lexer.releaseAll (lexer.scanner.scan lexer.position).skipped) :=
    ⟨_, _, _, rfl⟩
  have scanned : lexer.SameInput lexer.withScanned.1 :=
    released.trans (tokenFor _ _)
  cases invalid : (lexer.scanner.scan lexer.position).invalid? with
  | none =>
      rw [scanNext_of_valid invalid]
      exact scanned.trans ⟨_, _, _, rfl⟩
  | some run =>
      rw [scanNext_of_invalid invalid]
      exact (scanned.trans (tokenFor _ run)).trans ⟨_, _, _, rfl⟩

theorem scanAt
    (lexer : Lexer)
    (offset : Nat) :
    lexer.SameInput (lexer.scanAt offset).1 := by
  have moved : lexer.SameInput (lexer.moveTo offset) :=
    ⟨_, _, _, rfl⟩
  exact moved.trans (scanNext _)

theorem tokenAfter
    (lexer : Lexer)
    (id : NodeId)
    (token : Token) :
    lexer.SameInput (lexer.tokenAfter id token).1 := by
  unfold Lexer.tokenAfter
  split
  case h_1 =>
    split
    case isTrue =>
      exact ⟨_, _, _, rfl⟩
    case isFalse =>
      have rewound : lexer.SameInput (lexer.rewind id token) :=
        ⟨_, _, _, rfl⟩
      exact rewound.trans (scanAt _ token.stop)
  case h_2 =>
    exact scanAt lexer token.stop

theorem tokensFrom
    (bound : Nat)
    (lexer : Lexer)
    (ids : Array NodeId)
    (id : NodeId) :
    lexer.SameInput (tokensFrom bound lexer ids id).1 := by
  induction bound generalizing lexer ids id with
  | zero =>
      exact ⟨_, _, _, rfl⟩
  | succ bound inductionHypothesis =>
      rw [Lexer.tokensFrom]
      split
      case h_1 =>
        exact ⟨_, _, _, rfl⟩
      case h_2 token _ =>
        split
        case isTrue =>
          exact ⟨_, _, _, rfl⟩
        case isFalse =>
          exact (tokenAfter lexer id token).trans (inductionHypothesis _ _ _)

theorem tokenize
    (lexer : Lexer) :
    lexer.SameInput lexer.tokenize.1 :=
  (scanNext lexer).trans (tokensFrom lexer.walkBound _ #[] _)

/-- A line is the same in a lexer that has the same input and reads it alike. -/
theorem listingLine_eq
    (same : before.SameInput after)
    (sameView : after.view = before.view)
    (token : Token) :
    after.listingLine token = before.listingLine token := by
  have sameHidden : after.table.isHidden = before.table.isHidden :=
    congrArg View.hidden sameView
  have sameText : after.text = before.text := by
    obtain ⟨table, forest, position, rfl⟩ := same
    funext start stop
    simp only [text, sameHidden]
  have sameImage : after.imageOf token = before.imageOf token := by
    simp only [imageOf, sameText]
  have sameLocation : after.locationOf = before.locationOf := by
    obtain ⟨table, forest, position, rfl⟩ := same
    rfl
  simp only [listingLine, sameImage, sameLocation]

end SameInput

variable {lexer : Lexer} {ids : List NodeId} {lexemes : List Lexeme}

/-- Held lexemes are what the tokens of a list are made of. -/
theorem filterMap_token?_of_holds
    (holds : List.Forall₂ lexer.Holds ids lexemes) :
    ids.filterMap lexer.forest.token? = lexemes.map Lexeme.token := by
  induction holds with
  | nil =>
      rfl
  | cons first _ inductionHypothesis =>
      rw [List.filterMap_cons_some first.token?, List.map_cons,
        inductionHypothesis]
      rfl

/-- A lexer that knows no token lists the lexemes from its position on. -/
theorem listing_of_lexemes
    (plain : lexer.Plain 0)
    (inside : lexer.position ≤ lexer.buffer.size)
    (nothing : ∀ place, lexer.table.tokenAt? place = none) :
    lexer.listing =
      (lexer.scanner.lexemes lexer.position).map fun lexeme =>
        lexer.listingLine lexeme.token := by
  obtain ⟨keeps, holds⟩ := tokenize_holds plain inside nothing
  have sameView : lexer.tokenize.1.view = lexer.view :=
    congrArg Scanner.view keeps.scanner_eq
  have isListed : lexer.listing =
      (lexer.tokenize.2.filterMap lexer.tokenize.1.forest.token?).map
        lexer.tokenize.1.listingLine :=
    rfl
  rw [isListed, filterMap_token?_of_holds holds, List.map_map]
  exact List.map_congr_left fun lexeme _ =>
    (SameInput.tokenize lexer).listingLine_eq sameView lexeme.token

end Lexer

namespace Options

/-- The lines that the options leave out. -/
def masks (options : Options) : List LineMask :=
  if options.unparsedLines.isEmpty then [] else [.hide options.unparsedLines]

/-- The options ask for a fresh lexer under masks. -/
theorem lexer_eq_masked
    (options : Options)
    (inputName : String)
    (bytes : List UInt8) :
    options.lexer inputName bytes =
      (Lexer.fresh (options.settings inputName)
        (.ofBytes (options.settings inputName).buffer options.charset? bytes)
        .full).masked options.masks := by
  unfold lexer masks
  by_cases noLines : options.unparsedLines.isEmpty = true
  · simp only [noLines, if_true]
    rfl
  · simp only [noLines]
    rfl

end Options

end Snbt
