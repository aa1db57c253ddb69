import Snbt.Proofs.Lexer.Answers
import Snbt.Proofs.Text.VisibleText

namespace Snbt

/-!
# Tiles

Where nothing is skipped, the lexemes of a scan cover all that is not hidden:
each begins at the first place behind the one before, and no pair is split
where one begins or ends.  So the texts of lexemes that follow each other make
up the text of the stretch that they cover.
-/

namespace View

/--
A lexeme that begins at the first place from an offset on, between whole pairs.
-/
structure Tile (view : View) (offset : Nat) (lexeme : Lexeme) : Prop where
  forward : offset ≤ lexeme.start
  gap :
    ∀ place, offset ≤ place → place < lexeme.start → view.hidden place = true
  isPlace : view.IsPlace lexeme.start
  ordered : lexeme.start ≤ lexeme.stop
  wholeStart : ¬view.buffer.SplitsPair lexeme.start
  wholeStop : ¬view.buffer.SplitsPair lexeme.stop
  ending : lexeme.kind = .eof ↔ lexeme.start = view.buffer.size

/-- Tiles one behind the other, from an offset up to the end of the buffer. -/
inductive Tiles (view : View) : Nat → List Lexeme → Prop where
  | atEnd
      {offset : Nat}
      (isEnd : offset = view.buffer.size) :
      Tiles view offset []
  | behind
      {offset : Nat}
      {lexeme : Lexeme}
      {rest : List Lexeme}
      (tile : view.Tile offset lexeme)
      (later : Tiles view lexeme.stop rest) :
      Tiles view offset (lexeme :: rest)

variable {view : View} {offset place : Nat} {first : Lexeme}
  {run after : List Lexeme}

/--
Hidden lines lead from an offset that
splits no pair to a place that splits none.
-/
theorem HidesLines.not_splitsPair_settle
    (hides : view.HidesLines)
    (whole : ¬view.buffer.SplitsPair offset)
    (inside : offset ≤ view.buffer.size) :
    ¬view.buffer.SplitsPair (view.settle offset) := by
  rcases Nat.eq_or_lt_of_le (le_settle inside) with same | moved
  · rw [← same]
    exact whole
  · rcases Nat.eq_or_lt_of_le (view.settle_bounds offset).2 with atEnd | before
    · exact Buffer.not_splitsPair_of_size_le (Nat.le_of_eq atEnd.symm)
    · have hidden : view.hidden (view.settle offset - 1) = true :=
        hidden_of_lt_settle (Nat.le_pred_of_lt moved)
          (Nat.sub_one_lt_of_lt moved)
      have shown := (view.settle_isPlace offset).2 before
      have next : view.settle offset - 1 + 1 = view.settle offset := by
        omega
      refine Buffer.not_splitsPair_of_unit
        (hides.edges _ (by omega) ?_) (by decide)
      rw [hidden, next, shown]
      exact Bool.noConfusion

/-- Tiles lie inside the buffer. -/
theorem Tiles.le_size
    {lexemes : List Lexeme}
    (tiles : view.Tiles offset lexemes) :
    offset ≤ view.buffer.size := by
  induction tiles with
  | atEnd isEnd =>
      exact Nat.le_of_eq isEnd
  | behind tile later inductionHypothesis =>
      exact tile.forward.trans (tile.ordered.trans inductionHypothesis)

/-- Every one of a list of tiles is a tile that ends inside the buffer. -/
theorem Tiles.tile_of_mem
    {lexeme : Lexeme}
    {lexemes : List Lexeme}
    (tiles : view.Tiles offset lexemes)
    (member : lexeme ∈ lexemes) :
    ∃ place, view.Tile place lexeme ∧ lexeme.stop ≤ view.buffer.size := by
  induction tiles with
  | atEnd _ =>
      cases member
  | behind tile later inductionHypothesis =>
      rcases List.mem_cons.mp member with rfl | isLater
      · exact ⟨_, tile, later.le_size⟩
      · exact inductionHypothesis isLater

/-- Behind the first tiles the others go on. -/
theorem Tiles.drop
    {lexemes : List Lexeme}
    (tiles : view.Tiles offset (lexemes ++ after)) :
    ∃ later, view.Tiles later after := by
  induction lexemes generalizing offset with
  | nil =>
      exact ⟨offset, tiles⟩
  | cons lexeme rest inductionHypothesis =>
      cases tiles with
      | behind _ later =>
          exact inductionHypothesis later

/-- The text of a lexeme. -/
def textOf (view : View) (lexeme : Lexeme) : String :=
  Utf16.toString (view.visible lexeme.start lexeme.stop)

/--
The texts of tiles that follow each other are the text from the
first to the last.
-/
theorem Tiles.join_textOf
    (hides : view.HidesLines)
    (run : List Lexeme)
    (tiles : view.Tiles offset (first :: run ++ after)) :
    let last := (first :: run).getLast (List.cons_ne_nil first run)
    view.Tiles last.stop after ∧ first.stop ≤ last.stop ∧
      String.join ((first :: run).map view.textOf) =
        Utf16.toString (view.visible first.start last.stop) := by
  induction run generalizing offset first with
  | nil =>
      cases tiles with
      | behind tile later =>
          refine ⟨later, Nat.le_refl _, ?_⟩
          simp [textOf]
  | cons second rest inductionHypothesis =>
      cases tiles with
      | behind tile later =>
          obtain ⟨ends, ordered, joined⟩ := inductionHypothesis later
          cases later with
          | behind next _ =>
              have reaches := next.ordered.trans ordered
              have sameText := view.visible_append next.forward reaches
              rw [visible_of_hidden next.gap, List.nil_append] at sameText
              refine ⟨ends, next.forward.trans reaches, ?_⟩
              rw [List.map_cons, String.join_cons, joined, textOf, sameText]
              exact hides.toString_visible tile.wholeStop tile.ordered
                (next.forward.trans reaches)

/-- The texts of all tiles are what is visible from the first on. -/
theorem Tiles.join_all
    {lexemes : List Lexeme}
    (hides : view.HidesLines)
    (tiles : view.Tiles offset lexemes) :
    String.join (lexemes.map view.textOf) =
      Utf16.toString (view.visible offset view.buffer.size) := by
  induction tiles with
  | atEnd isEnd =>
      rw [isEnd, visible, Nat.sub_self]
      rfl
  | @behind offset lexeme _ tile later inductionHypothesis =>
      have reaches := later.le_size
      have sameText :=
        view.visible_append tile.forward (tile.ordered.trans reaches)
      rw [visible_of_hidden tile.gap, List.nil_append] at sameText
      rw [List.map_cons, String.join_cons, inductionHypothesis,
        ← sameText, textOf]
      exact hides.toString_visible tile.wholeStop tile.ordered reaches

end View

/-- Roles that skip no kind. -/
theorem Roles.role_ne_skip
    (roles : Roles)
    (noSkip : roles.skip = .empty)
    (kind : Kind) :
    roles.role kind ≠ .skip := by
  unfold role
  rw [noSkip, KindSet.contains_empty]
  split
  · exact Role.noConfusion
  · split
    · contradiction
    · split
      · exact Role.noConfusion
      · split <;> exact Role.noConfusion

namespace Scanner

/-- Where nothing is skipped and whole lines are hidden, lexemes are tiles. -/
theorem lexemes_tile
    (scanner : Scanner)
    (hides : scanner.view.HidesLines)
    (noSkip : ∀ kind, scanner.roles.role kind ≠ .skip)
    (offset : Nat)
    (inside : offset ≤ scanner.view.buffer.size)
    (whole : ¬scanner.view.buffer.SplitsPair offset) :
    scanner.view.Tiles offset (scanner.lexemes offset) := by
  refine scanner.lexemes_induction
    (motive := fun offset lexemes =>
      ¬scanner.view.buffer.SplitsPair offset →
        scanner.view.Tiles offset lexemes)
    ?_ ?_ offset inside whole
  · intro offset inside isEnding whole
    have startEq := scanner.answer_start_of_noSkip noSkip offset
    rw [isEnding] at startEq
    have startEq : scanner.view.buffer.size = scanner.view.settle offset :=
      startEq
    have atEnd :=
      Buffer.not_splitsPair_of_size_le (Nat.le_refl scanner.view.buffer.size)
    refine .behind ⟨inside, ?_, ?_, Nat.le_refl _, atEnd, atEnd, ?_⟩
      (.atEnd rfl)
    · intro place behind before
      exact View.hidden_of_lt_settle behind (before.trans_eq startEq)
    · exact ⟨Nat.le_refl _, fun before => absurd before (Nat.lt_irrefl _)⟩
    · exact ⟨fun _ => rfl, fun _ => rfl⟩
  · intro offset inside fits forward inductionHypothesis whole
    have startEq := scanner.answer_start_of_noSkip noSkip offset
    refine .behind
      ⟨forward, ?_, fits.isPlace, Nat.le_of_lt fits.start_lt_stop, ?_,
      fits.wholePairs, ?_⟩ (inductionHypothesis fits.wholePairs)
    · intro place behind before
      rw [startEq] at before
      exact View.hidden_of_lt_settle behind before
    · rw [startEq]
      exact hides.not_splitsPair_settle whole inside
    · have before := Nat.lt_of_lt_of_le fits.start_lt_stop fits.stop_le_size
      exact ⟨fun isEnding => absurd isEnding fits.notEnding,
        fun atEnd => absurd atEnd (Nat.ne_of_lt before)⟩

end Scanner

end Snbt
