import Snbt.Proofs.Lexer.Lossless
import Snbt.Proofs.Lexer.Renumbering
import Snbt.Proofs.Text.LineDeletion

namespace Snbt

/-!
# Masking is deletion

A lexer under masks makes the tokens that a fresh one makes of the buffer
without the masked lines.  They begin and end where as many unmasked offsets
come before, also those that reach over masked lines.
-/

/-- A token as it is listed, with where it lies. -/
structure Outline where
  kind : Kind
  unparsed : Bool
  image : String
  start : Nat
  stop : Nat
  deriving DecidableEq, Repr

/-- An outline with its offsets renumbered. -/
def Outline.renumber (renumber : Nat → Nat) (outline : Outline) : Outline :=
  { outline with
    start := renumber outline.start
    stop := renumber outline.stop }

/-- The outline of the token that a lexeme becomes. -/
def Scanner.outline (scanner : Scanner) (lexeme : Lexeme) : Outline where
  kind := lexeme.kind
  unparsed := scanner.roles.role lexeme.kind = .unparsed
  image := if lexeme.kind = .eof then "" else scanner.view.textOf lexeme
  start := lexeme.start
  stop := lexeme.stop

namespace Buffer

variable {buffer : Buffer} {masks : List LineMask} {offset : Nat}

/-- Reading under masks is reading what is left when the lines are deleted. -/
theorem without_renumbers
    (buffer : Buffer)
    (masks : List LineMask) :
    (buffer.without masks).Renumbers (.whole (buffer.deleteLines masks))
      (buffer.unmaskedBefore masks) := by
  have settle : ∀ offset, offset ≤ buffer.size →
      (View.whole (buffer.deleteLines masks)).settle
        (buffer.unmaskedBefore masks offset) =
        buffer.unmaskedBefore masks ((buffer.without masks).settle offset) := by
    intro offset inside
    have bounds := (buffer.without masks).settle_bounds offset
    have passed :
        buffer.unmaskedBefore masks ((buffer.without masks).settle offset) =
          buffer.unmaskedBefore masks offset :=
      unmaskedBefore_of_hidden masks (View.le_settle inside) bounds.2
        fun _ => View.hidden_of_lt_settle
    rw [passed]
    exact View.settle_of_isPlace
      ⟨unmaskedBefore_le_size masks inside, fun _ => rfl⟩
  constructor
  case size =>
    exact buffer.deleteLines_size masks
  case settle =>
    exact settle
  case read =>
    intro offset inside
    have place := (buffer.without masks).settle_isPlace offset
    have sameChar : (View.whole (buffer.deleteLines masks)).buffer.char?
          (buffer.unmaskedBefore masks ((buffer.without masks).settle offset)) =
        (buffer.without masks).buffer.char?
          ((buffer.without masks).settle offset) :=
      deleteLines_char? masks place.1 place.2
    simp only [View.read?, settle offset inside, sameChar]
    cases read :
      (buffer.without masks).buffer.char?
        ((buffer.without masks).settle offset) with
    | none =>
        rfl
    | some found =>
        have bounds := char?_bounds read
        have inside :=
          Nat.lt_of_lt_of_le (Nat.lt_add_of_pos_right bounds.1) bounds.2
        have shown := place.2 inside
        rw [Option.map_some, Prod.map, unmaskedBefore_of_char? shown read]
        rfl

end Buffer

namespace Scanner

/--
What is left when lines are deleted has the outlines of what masks
leave, renumbered.
-/
theorem outline_renumber
    {buffer : Buffer}
    {masks : List LineMask}
    {lexeme : Lexeme}
    (scanner : Scanner)
    (viewEq : scanner.view = buffer.without masks)
    (lies : lexeme.Lies buffer.size) :
    { scanner with view := .whole (buffer.deleteLines masks) }.outline
        (lexeme.renumber (buffer.unmaskedBefore masks)) =
      (scanner.outline lexeme).renumber (buffer.unmaskedBefore masks) := by
  have visible :=
    Buffer.deleteLines_visible masks lies.start_le_stop lies.stop_le_size
  simp only [outline, Outline.renumber, Lexeme.renumber, View.textOf,
    viewEq, visible]
  rfl

end Scanner

namespace Lexer

/-- The outline of a token. -/
def outline? (lexer : Lexer) (id : NodeId) : Option Outline :=
  (lexer.forest.token? id).map fun token =>
    { kind := token.kind
      unparsed := lexer.forest.isUnparsed id
      image := lexer.imageOf token
      start := token.start
      stop := token.stop }

variable {lexer : Lexer} {id : NodeId} {ids : List NodeId} {lexeme : Lexeme}
  {lexemes : List Lexeme}

theorem Holds.outline?
    (holds : lexer.Holds id lexeme)
    (inside : lexeme.stop ≤ lexer.buffer.size) :
    lexer.outline? id = some (lexer.scanner.outline lexeme) := by
  rw [Lexer.outline?, holds.token?, Option.map_some, holds.isUnparsed,
    imageOf_ofStretch, text_eq inside]
  rfl

theorem map_outline?_of_holds
    (holds : List.Forall₂ lexer.Holds ids lexemes)
    (inside : ∀ lexeme ∈ lexemes, lexeme.stop ≤ lexer.buffer.size) :
    ids.map lexer.outline? = lexemes.map fun lexeme =>
      some (lexer.scanner.outline lexeme) := by
  induction holds with
  | nil =>
      rfl
  | cons first _ inductionHypothesis =>
      have rest := inductionHypothesis fun lexeme member =>
        inside lexeme (List.mem_cons_of_mem _ member)
      rw [List.map_cons, List.map_cons, rest,
        first.outline? (inside _ List.mem_cons_self)]

/--
A lexer that knows no token makes those of the lexemes from its position on.
-/
theorem tokenize_outlines
    (plain : lexer.Plain 0)
    (inside : lexer.position ≤ lexer.buffer.size)
    (nothing : ∀ place, lexer.table.tokenAt? place = none) :
    lexer.tokenize.2.map lexer.tokenize.1.outline? =
      (lexer.scanner.lexemes lexer.position).map fun lexeme =>
        some (lexer.scanner.outline lexeme) := by
  obtain ⟨keeps, holds⟩ := tokenize_holds plain inside nothing
  rw [← keeps.scanner_eq]
  refine map_outline?_of_holds (by rw [keeps.scanner_eq]; exact holds) ?_
  intro lexeme member
  rw [keeps.size_eq]
  rw [keeps.scanner_eq] at member
  exact (lexer.scanner.lies_of_mem_lexemes inside member).stop_le_size

/--
Masking lines is deleting them: under masks a fresh lexer lists the tokens
that it lists of the buffer without the masked lines, at offsets that count
what is not masked.
-/
theorem tokenize_deleteLines
    (settings : LexerSettings)
    (buffer : Buffer)
    (active : KindSet)
    (masks : List LineMask) :
    let masked := ((fresh settings buffer active).masked masks).tokenize
    let deleted := (fresh settings (buffer.deleteLines masks) active).tokenize
    ∃ outlines : List Outline,
      masked.2.map masked.1.outline? = outlines.map some ∧
        deleted.2.map deleted.1.outline? =
          outlines.map fun outline =>
            some (outline.renumber (buffer.unmaskedBefore masks)) := by
  obtain ⟨isMasked, viewEq⟩ := fresh_masked settings buffer active masks
  have sameScanner :
      (fresh settings (buffer.deleteLines masks) active).scanner =
        { ((fresh settings buffer active).masked masks).scanner with
          view := .whole (buffer.deleteLines masks) } := by
    obtain ⟨table, same⟩ := isMasked.same
    rw [fresh_scanner, same]
    rfl
  have started : ((fresh settings buffer active).masked masks).position = 0 :=
    isMasked.position_eq
  have sameBuffer :
      ((fresh settings buffer active).masked masks).buffer = buffer :=
    isMasked.buffer_eq
  have plain := isMasked.plain
  have nothing := isMasked.nothing
  clear isMasked
  generalize (fresh settings buffer active).masked masks = lexer at *
  have inside : lexer.position ≤ lexer.buffer.size := by
    rw [started]
    exact Nat.zero_le _
  have renumbers :
      lexer.scanner.view.Renumbers (.whole (buffer.deleteLines masks))
        (buffer.unmaskedBefore masks) := by
    rw [show lexer.scanner.view = _ from viewEq]
    exact buffer.without_renumbers masks
  refine ⟨(lexer.scanner.lexemes 0).map lexer.scanner.outline, ?_, ?_⟩
  · rw [tokenize_outlines plain inside nothing, started, List.map_map]
    rfl
  · have lexemes := lexer.scanner.lexemes_renumber renumbers (Nat.zero_le _)
    rw [
      tokenize_outlines
        (fresh_plain settings (buffer.deleteLines masks) active)
        (Nat.zero_le _)
        (fresh_knows_nothing settings (buffer.deleteLines masks) active),
      sameScanner]
    refine (congrArg _ lexemes).trans ?_
    rw [List.map_map, List.map_map]
    refine List.map_congr_left fun lexeme member => congrArg some ?_
    have lies := lexer.scanner.lies_of_mem_lexemes (Nat.zero_le _) member
    rw [show lexer.scanner.view.buffer = buffer from sameBuffer] at lies
    exact lexer.scanner.outline_renumber viewEq lies

/-- A quoted text goes on behind a masked line. -/
example :
    let lexer :=
      (fresh .standard (.ofString .standard "a \"b\nc\nd\" e") .full).masked
        [.hide [2]]
    lexer.tokenize.2.filterMap lexer.tokenize.1.outline? =
      [⟨.string, false, "a", 0, 1⟩,
        ⟨.string, false, "\"b\nd\"", 2, 9⟩,
        ⟨.string, false, "e", 10, 11⟩,
        ⟨.eof, false, "", 11, 11⟩] := by
  decide +kernel

end Lexer

end Snbt
