import Snbt.Proofs.Lexer.Segments

namespace Snbt

/-!
# Renumbered views

Two views that read the same characters one after another are cut alike: only
the offsets of what they are cut into differ.
-/

/--
Another view reads the same from a renumbered offset on as a view
from the offset on.
-/
structure View.Renumbers (view other : View) (renumber : Nat → Nat) : Prop where
  size : other.buffer.size = renumber view.buffer.size
  settle : ∀ offset, offset ≤ view.buffer.size →
    other.settle (renumber offset) = renumber (view.settle offset)
  read : ∀ offset, offset ≤ view.buffer.size →
    other.read? (renumber offset) =
      (view.read? offset).map (Prod.map id renumber)

/-- A lexeme with its offsets renumbered. -/
def Lexeme.renumber (renumber : Nat → Nat) (lexeme : Lexeme) : Lexeme :=
  ⟨lexeme.kind, renumber lexeme.start, renumber lexeme.stop⟩

namespace View.Renumbers

variable {view other : View} {renumber : Nat → Nat} {offset : Nat}

/-- Reading on reports the same kinds, at renumbered offsets. -/
theorem grow
    (renumbers : view.Renumbers other renumber)
    (mode : Mode)
    (active : KindSet)
    (live : StateSet)
    (found? : Option (Kind × Nat))
    (inside : offset ≤ view.buffer.size) :
    other.grow mode active live (found?.map (Prod.map id renumber))
      (renumber offset) =
      (view.grow mode active live found? offset).map
        (Prod.map id renumber) := by
  have read := renumbers.read
  fun_induction view.grow mode active live found? offset with
  | case1 live found? offset empty =>
      rw [View.grow, if_pos empty]
  | case2 live found? offset more nothing =>
      have nothingToo := read offset inside
      rw [nothing] at nothingToo
      rw [View.grow, if_neg more]
      split
      case h_1 =>
        rfl
      case h_2 present =>
        cases nothingToo.symm.trans present
  | case3 live found? offset more char next present outcome
      inductionHypothesis =>
      have presentToo := read offset inside
      rw [present] at presentToo
      have later := inductionHypothesis (View.read?_bounds present).2
      rw [Option.map_or, Option.map_map] at later
      rw [View.grow, if_neg more]
      split
      case h_1 nothing =>
        cases presentToo.symm.trans nothing
      case h_2 found =>
        cases presentToo.symm.trans found
        exact later

theorem longest?
    (renumbers : view.Renumbers other renumber)
    (mode : Mode)
    (active : KindSet)
    (inside : offset ≤ view.buffer.size) :
    other.longest? mode active (renumber offset) =
      (view.longest? mode active offset).map (Prod.map id renumber) := by
  rw [View.longest?, View.longest?, renumbers.read offset inside]
  cases present : view.read? offset with
  | none =>
      rfl
  | some found =>
      have grown := renumbers.grow mode active (mode.first active found.1).live
        ((mode.first active found.1).kind?.map fun kind => (kind, found.2))
        (View.read?_bounds present).2
      rw [Option.map_map] at grown
      exact grown

/-- The other view is cut into the same segments, with renumbered offsets. -/
theorem segments
    (renumbers : view.Renumbers other renumber)
    (mode : Mode)
    (active : KindSet)
    (inside : offset ≤ view.buffer.size) :
    other.segments mode active (renumber offset) =
      (view.segments mode active offset).map (Lexeme.renumber renumber) := by
  fun_induction view.segments mode active offset with
  | case1 offset nothing =>
      have nothingToo := renumbers.read offset inside
      rw [nothing] at nothingToo
      rw [View.segments_of_read?_none nothingToo]
      rfl
  | case2 offset char after read nothing inductionHypothesis =>
      have readToo := renumbers.read offset inside
      have nothingToo := renumbers.longest? mode active inside
      rw [read] at readToo
      rw [nothing] at nothingToo
      rw [View.segments_of_longest?_none readToo nothingToo,
        renumbers.settle offset inside,
        inductionHypothesis (View.read?_bounds read).2]
      rfl
  | case3 offset char after read kind stop found inductionHypothesis =>
      have readToo := renumbers.read offset inside
      have foundToo := renumbers.longest? mode active inside
      rw [read] at readToo
      rw [found] at foundToo
      rw [View.segments_of_longest? readToo foundToo,
        renumbers.settle offset inside,
        inductionHypothesis (View.longest?_bounds found).2]
      rfl

end View.Renumbers

/-- Roles do not look at offsets. -/
theorem Roles.spans_renumber
    (roles : Roles)
    (renumber : Nat → Nat)
    (size : Nat)
    (pending? : Option Nat)
    (segments : List Lexeme) :
    roles.spans (renumber size) (pending?.map renumber)
      (segments.map (Lexeme.renumber renumber)) =
      (roles.spans size pending? segments).map (Lexeme.renumber renumber) := by
  induction segments generalizing pending? with
  | nil =>
      cases pending? <;> rfl
  | cons segment rest inductionHypothesis =>
      have start :
          (pending?.map renumber).getD (renumber segment.start) =
            renumber (pending?.getD segment.start) := by
        cases pending? <;> rfl
      have more := inductionHypothesis (some (pending?.getD segment.start))
      have none := inductionHypothesis none
      rw [Option.map_some] at more
      rw [Option.map_none] at none
      rw [List.map_cons]
      cases role : roles.role segment.kind with
      | more => simp only [spans, Lexeme.renumber, role, start, more]
      | skip => simp only [spans, Lexeme.renumber, role, none]
      | regular =>
          simp only [spans, Lexeme.renumber, role, start, none, List.map_cons]
      | unparsed =>
          simp only [spans, Lexeme.renumber, role, start, none, List.map_cons]

namespace Lexeme

/-- Neither does joining. -/
theorem joinOnto_renumber
    (renumber : Nat → Nat)
    (lexeme : Lexeme)
    (lexemes : List Lexeme) :
    (lexeme.renumber renumber).joinOnto
      (lexemes.map (Lexeme.renumber renumber)) =
      (lexeme.joinOnto lexemes).map (Lexeme.renumber renumber) := by
  cases lexemes with
  | nil =>
      rfl
  | cons next rest =>
      by_cases invalid : lexeme.kind = .invalid ∧ next.kind = .invalid
      · rw [joinOnto, if_pos invalid]
        exact if_pos invalid
      · rw [joinOnto, if_neg invalid]
        exact if_neg invalid

theorem joinInvalid_renumber
    (renumber : Nat → Nat)
    (lexemes : List Lexeme) :
    joinInvalid (lexemes.map (Lexeme.renumber renumber)) =
      (joinInvalid lexemes).map (Lexeme.renumber renumber) := by
  induction lexemes with
  | nil =>
      rfl
  | cons lexeme rest inductionHypothesis =>
      exact (congrArg _ inductionHypothesis).trans
        (joinOnto_renumber renumber lexeme _)

end Lexeme

namespace Scanner

/--
The lexemes of a view that reads the same are the same, with
renumbered offsets.
-/
theorem lexemes_renumber
    {other : View}
    {renumber : Nat → Nat}
    {offset : Nat}
    (scanner : Scanner)
    (renumbers : scanner.view.Renumbers other renumber)
    (inside : offset ≤ scanner.view.buffer.size) :
    { scanner with view := other }.lexemes (renumber offset) =
      (scanner.lexemes offset).map (Lexeme.renumber renumber) := by
  have segments := renumbers.segments scanner.mode scanner.active inside
  have spans :=
    scanner.roles.spans_renumber renumber scanner.view.buffer.size none
    (scanner.view.segments scanner.mode scanner.active offset)
  rw [← segments, ← renumbers.size] at spans
  have joined :=
    Lexeme.joinInvalid_renumber renumber (scanner.spans none offset)
  rw [Scanner.spans, ← spans, Option.map_none] at joined
  have ending :
      { scanner with view := other }.ending =
        scanner.ending.renumber renumber := by
    simp only [Scanner.ending, Lexeme.renumber, renumbers.size]
  rw [lexemes, lexemes, List.map_append, Scanner.spans, joined, ending]
  rfl

end Scanner

end Snbt
