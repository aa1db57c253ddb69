import Snbt.Lexer.Texts
import Snbt.Proofs.Forest.KeptTokens
import Snbt.Proofs.Lexer.Masking
import Snbt.Proofs.Lexer.Tiles

namespace Snbt.Lexer

/-!
# Nothing is lost

When no kind is skipped, the tokens of the whole input are tiles of what the
masks left.  The images of tokens that follow each other are then the text
that they cover, and those under a branch over them are the same, however
the branch was built.
-/

variable {lexer : Lexer} {id : NodeId} {ids : List NodeId} {lexeme : Lexeme}
  {lexemes : List Lexeme} {start stop offset : Nat}

/-- The text of a stretch of the buffer is that of its visible units. -/
theorem text_eq
    (inside : stop ≤ lexer.buffer.size) :
    lexer.text start stop = Utf16.toString (lexer.view.visible start stop) := by
  rw [text, Nat.min_eq_left inside, View.visible_eq]
  rfl

/-- The image of a stretch is its text, unless it is the end of the input. -/
theorem imageOf_ofStretch
    (lexer : Lexer)
    (kind : Kind)
    (start stop : Nat) :
    lexer.imageOf (.ofStretch kind start stop) =
      if kind = .eof then "" else lexer.text start stop := by
  by_cases isEnding : kind = .eof <;> simp [imageOf, Token.ofStretch, isEnding]

/-- The image of a tile is its text. -/
theorem imageOf_of_tile
    (tile : lexer.view.Tile offset lexeme)
    (inside : lexeme.stop ≤ lexer.buffer.size) :
    lexer.imageOf (.ofStretch lexeme.kind lexeme.start lexeme.stop) =
      lexer.view.textOf lexeme := by
  rw [imageOf_ofStretch, View.textOf]
  by_cases isEnding : lexeme.kind = .eof
  · have atEnd : lexeme.start = lexer.buffer.size := tile.ending.mp isEnding
    have nothing : lexer.view.visible lexeme.start lexeme.stop = [] := by
      refine View.visible_of_hidden ?_
      intro place behind before
      omega
    rw [if_pos isEnding, nothing]
    rfl
  · rw [if_neg isEnding, text_eq inside]

/--
The images of tokens, in any forest that
keeps them, are the texts of their lexemes.
-/
theorem imageOfAll_eq
    {forest : Forest}
    (keeps : lexer.forest.KeepsTokens forest)
    (holds : List.Forall₂ lexer.Holds ids lexemes)
    (tiles : ∀ lexeme ∈ lexemes, ∃ place,
      lexer.view.Tile place lexeme ∧ lexeme.stop ≤ lexer.buffer.size) :
    { lexer with forest }.imageOfAll ids =
      String.join (lexemes.map lexer.view.textOf) := by
  unfold imageOfAll
  refine congrArg String.join ?_
  induction holds with
  | nil =>
      rfl
  | cons first later inductionHypothesis =>
      obtain ⟨place, tile, inside⟩ := tiles _ List.mem_cons_self
      have rest := inductionHypothesis fun lexeme member =>
        tiles lexeme (List.mem_cons_of_mem _ member)
      rw [List.filterMap_cons_some (keeps _ _ first.token?), List.map_cons,
        List.map_cons, rest]
      exact congrArg (· :: _) (imageOf_of_tile tile inside)

/-- The lexemes of tokens that follow each other follow each other. -/
theorem lexemes_of_infix
    {run : List NodeId}
    (holds : List.Forall₂ lexer.Holds ids lexemes)
    (isRun : run <:+: ids) :
    ∃ earlier covered later, lexemes = earlier ++ covered ++ later ∧
      List.Forall₂ lexer.Holds run covered := by
  obtain ⟨before, after, rfl⟩ := isRun
  have behind := List.forall₂_drop before.length holds
  rw [List.append_assoc, List.drop_left] at behind
  have inRun := List.forall₂_take run.length behind
  rw [List.take_left] at inRun
  refine ⟨lexemes.take before.length, _,
    (lexemes.drop before.length).drop run.length, ?_, inRun⟩
  rw [List.append_assoc, List.take_append_drop, List.take_append_drop]

theorem head?_of_holds
    (holds : List.Forall₂ lexer.Holds ids lexemes) :
    ids.head?.bind lexer.lexeme? = lexemes.head? := by
  cases holds with
  | nil =>
      rfl
  | cons first _ =>
      exact first.lexeme?

theorem getLast?_of_holds
    (holds : List.Forall₂ lexer.Holds ids lexemes) :
    ids.getLast?.bind lexer.lexeme? = lexemes.getLast? := by
  rw [← List.head?_reverse, ← List.head?_reverse]
  exact head?_of_holds (List.forall₂_reverse_iff.mpr holds)

/--
The tokens of the whole input and their lexemes, with what the images of tokens
say of the text that a view shows.
-/
structure Lossless
    (view : View)
    (lexer : Lexer)
    (ids : List NodeId)
    (lexemes : List Lexeme) : Prop where
  tokens : ids.map lexer.lexeme? = lexemes.map some
  /--
  Nothing but hidden offsets lies between lexemes, and no pair is split by one.
  -/
  tiles : view.Tiles 0 lexemes
  /-- Tokens that follow each other. -/
  runs : ∀ run first last, run <:+: ids →
    run.head?.bind lexer.lexeme? = some first →
    run.getLast?.bind lexer.lexeme? = some last →
    lexer.imageOfAll run = lexer.text first.start last.stop
  /-- Branches over tokens that follow each other. -/
  branches : ∀ forest branch run first last, lexer.forest.Builds forest →
    forest.leavesUnder branch = .ok run → run <:+: ids →
    run.head?.bind lexer.lexeme? = some first →
    run.getLast?.bind lexer.lexeme? = some last →
    { lexer with forest }.textUnder branch =
      .ok (lexer.text first.start last.stop)
  all : lexer.imageOfAll ids =
    Utf16.toString (((List.range view.buffer.size).filter fun offset =>
      !view.hidden offset).filterMap view.buffer.unit?)

/--
In a forest that keeps them, tokens that follow each other have the
text that they cover.
-/
theorem imageOfAll_of_run
    {forest : Forest}
    {run : List NodeId}
    {first last : Lexeme}
    (hides : lexer.view.HidesLines)
    (keeps : lexer.forest.KeepsTokens forest)
    (holds : List.Forall₂ lexer.Holds ids lexemes)
    (tiles : lexer.view.Tiles offset lexemes)
    (isRun : run <:+: ids)
    (isFirst : run.head?.bind lexer.lexeme? = some first)
    (isLast : run.getLast?.bind lexer.lexeme? = some last) :
    { lexer with forest }.imageOfAll run =
      lexer.text first.start last.stop := by
  obtain ⟨earlier, covered, later, rfl, runHolds⟩ :=
    lexemes_of_infix holds isRun
  rw [head?_of_holds runHolds, List.head?_eq_some_iff] at isFirst
  obtain ⟨rest, rfl⟩ := isFirst
  rw [getLast?_of_holds runHolds,
    List.getLast?_eq_some_getLast (List.cons_ne_nil first rest)] at isLast
  have allTiles := fun lexeme (member : lexeme ∈ first :: rest) =>
    tiles.tile_of_mem
      (List.mem_append_left later (List.mem_append_right earlier member))
  rw [imageOfAll_eq keeps runHolds allTiles]
  rw [List.append_assoc] at tiles
  obtain ⟨place, runTiles⟩ := tiles.drop
  obtain ⟨ends, _, joined⟩ := View.Tiles.join_textOf hides rest runTiles
  rw [Option.some.inj isLast] at ends joined
  rw [joined, text_eq ends.le_size]

/-- Tokens whose lexemes are tiles of all that the masks left lose nothing. -/
theorem lossless_of_tiles
    (hides : lexer.view.HidesLines)
    (holds : List.Forall₂ lexer.Holds ids lexemes)
    (tiles : lexer.view.Tiles 0 lexemes) :
    Lossless lexer.view lexer ids lexemes := by
  refine ⟨map_lexeme?_of_holds holds, tiles, ?_, ?_, ?_⟩
  · intro run first last isRun isFirst isLast
    exact imageOfAll_of_run hides (.refl _) holds tiles isRun isFirst isLast
  · intro forest branch run first last builds under isRun isFirst isLast
    have image :=
      imageOfAll_of_run hides builds.keepsTokens holds tiles isRun
        isFirst isLast
    rw [textUnder, under, ← image]
    rfl
  · have images :
        lexer.imageOfAll ids = String.join (lexemes.map lexer.view.textOf) :=
      imageOfAll_eq (.refl _) holds fun lexeme member =>
        tiles.tile_of_mem member
    rw [images, tiles.join_all hides, View.visible_eq, List.range_eq_range']
    rfl

/--
A lexer that knows no token loses nothing from the start of its buffer on, if
only lines are hidden from it and it skips no kind.
-/
theorem tokenize_lossless_of_nothing
    (hides : lexer.view.HidesLines)
    (noSkip : lexer.roles.skip = .empty)
    (started : lexer.position = 0)
    (plain : lexer.Plain 0)
    (nothing : ∀ place, lexer.table.tokenAt? place = none) :
    ∃ lexemes,
      Lossless lexer.view lexer.tokenize.1 lexer.tokenize.2 lexemes := by
  have inside : lexer.position ≤ lexer.buffer.size := by
    rw [started]
    exact Nat.zero_le _
  obtain ⟨grows, holds⟩ := tokenize_holds plain inside nothing
  have tiles :=
    lexer.scanner.lexemes_tile hides (lexer.roles.role_ne_skip noSkip)
    0 (Nat.zero_le _) Buffer.not_splitsPair_zero
  have sameView : lexer.view = lexer.tokenize.1.view := grows.view_eq.symm
  rw [started] at holds
  rw [sameView] at hides ⊢
  rw [show lexer.scanner.view = _ from sameView] at tiles
  exact ⟨_, lossless_of_tiles hides holds tiles⟩

/--
Tokenizing loses nothing: with no kind skipped, whatever lines are masked, the
tokens are tiles of the unmasked text, and their images make it up.
-/
theorem tokenize_lossless
    (settings : LexerSettings)
    (buffer : Buffer)
    (active : KindSet)
    (masks : List LineMask)
    (noSkip : settings.roles.skip = .empty) :
    ∃ lexemes, Lossless (buffer.without masks)
      ((fresh settings buffer active).masked masks).tokenize.1
      ((fresh settings buffer active).masked masks).tokenize.2
      lexemes := by
  obtain ⟨isMasked, viewEq⟩ := fresh_masked settings buffer active masks
  rw [← viewEq]
  refine tokenize_lossless_of_nothing ?_ ?_ isMasked.position_eq isMasked.plain
    isMasked.nothing
  · rw [viewEq]
    exact buffer.without_hidesLines masks
  · rw [isMasked.roles_eq]
    exact noSkip

/-- Three lines of which the second is masked, with whitespace kept. -/
def secondMasked : Lexer :=
  (fresh { LexerSettings.standard with roles := .keepingWhitespace }
    (.ofString .standard "a b\nc d\ne") .full).masked [.hide [2]]

/--
With the second of three lines masked, the
images make up the first and the third.
-/
theorem tokenize_lossless_secondMasked :
    Roles.keepingWhitespace.skip = .empty ∧
      (∃ lexemes,
        Lossless ((Buffer.ofString .standard "a b\nc d\ne").without [.hide [2]])
        secondMasked.tokenize.1 secondMasked.tokenize.2 lexemes) ∧
      secondMasked.tokenize.1.imageOfAll secondMasked.tokenize.2 =
        "a b\ne" := by
  obtain ⟨lexemes, lossless⟩ :=
    tokenize_lossless
      { LexerSettings.standard with roles := .keepingWhitespace }
      (.ofString .standard "a b\nc d\ne") .full [.hide [2]] rfl
  refine ⟨rfl, ⟨lexemes, lossless⟩, lossless.all.trans ?_⟩
  decide +kernel

end Snbt.Lexer
