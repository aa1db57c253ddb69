import Mathlib.Data.List.Chain
import Snbt.Lexer.Chain

namespace Snbt.Lexer

/-!
# Neighbours and walks

A neighbour of a token is one that it is linked to, or the nearest in the
table.  What each step to a neighbour does a whole walk does, and a walk that
ends before its bound is the same under any larger one.
-/

variable {lexer : Lexer} {id other : NodeId}

/-- A token is linked to another on either side. -/
def IsLinked (token : Token) (other : NodeId) : Prop :=
  token.appended? = some other ∨ token.prepended? = some other

/--
The token after one is linked behind it or else the next in the
table; the end has none.
-/
theorem next?_cases
    (isNext : lexer.next? id = some other) :
    ∃ token, lexer.forest.token? id = some token ∧ token.kind ≠ .eof ∧
      (token.appended? = some other ∨
        lexer.table.next? token.stop = some other) := by
  unfold next? at isNext
  split at isNext
  case h_1 =>
    cases isNext
  case h_2 token isToken =>
    split at isNext
    case isTrue =>
      cases isNext
    case isFalse notEnding =>
      refine ⟨token, isToken, notEnding, ?_⟩
      split at isNext
      case h_1 linked isLinked =>
        exact .inl (isLinked.trans isNext)
      case h_2 =>
        split at isNext
        case isTrue =>
          exact .inr isNext
        case isFalse =>
          cases isNext

/--
The token before one is linked before it
or else the last before it in the table.
-/
theorem previous?_cases
    (isPrevious : lexer.previous? id = some other) :
    ∃ token, lexer.forest.token? id = some token ∧
      (token.prepended? = some other ∨
        lexer.table.previous? token.start = some other) := by
  unfold previous? at isPrevious
  split at isPrevious
  case h_1 =>
    cases isPrevious
  case h_2 token isToken =>
    refine ⟨token, isToken, ?_⟩
    split at isPrevious
    case h_1 linked isLinked =>
      exact .inl (isLinked.trans isPrevious)
    case h_2 =>
      split at isPrevious
      case isTrue =>
        exact .inr isPrevious
      case isFalse =>
        cases isPrevious

/-- What each step of a walk does each two neighbours of it do. -/
theorem isChain_walk
    {step : NodeId → Option NodeId}
    {related : NodeId → NodeId → Prop}
    (steps : ∀ id other, step id = some other → related id other)
    (limit : Nat)
    (id : NodeId) :
    (id :: walk step limit id).IsChain related := by
  induction limit generalizing id with
  | zero =>
      exact .singleton id
  | succ limit inductionHypothesis =>
      rw [walk]
      cases isNext : step id with
      | none =>
          exact .singleton id
      | some next =>
          exact .cons_cons (steps id next isNext) (inductionHypothesis next)

/-- A node that takes part in parsing. -/
def isParsed (lexer : Lexer) (id : NodeId) : Bool :=
  !lexer.forest.isUnparsed id

/-- What is found on a walk is the first parsed node of it. -/
theorem firstParsed?_eq_find?
    (lexer : Lexer)
    (step : NodeId → Option NodeId)
    (limit : Nat)
    (id : NodeId) :
    lexer.firstParsed? step limit id =
      (walk step limit id).find? lexer.isParsed := by
  induction limit generalizing id with
  | zero =>
      rfl
  | succ limit inductionHypothesis =>
      rw [firstParsed?, walk]
      cases step id with
      | none =>
          rfl
      | some next =>
          cases isUnparsed : lexer.forest.isUnparsed next with
          | true =>
              simp only [isUnparsed, if_true, List.find?_cons, isParsed,
                Bool.not_true]
              exact inductionHypothesis next
          | false =>
              simp only [isUnparsed, Bool.false_eq_true, if_false,
                List.find?_cons, isParsed, Bool.not_false]

/-! ## Bounds -/

section Bounds

variable {step : NodeId → Option NodeId} {limit : Nat}

/-- A walk that ends does not depend on a bound behind its end. -/
theorem walk_of_larger
    (more : Nat)
    (ends : (walk step limit id).length < limit) :
    walk step (limit + more) id = walk step limit id := by
  induction limit generalizing id with
  | zero =>
      cases ends
  | succ limit inductionHypothesis =>
      rw [Nat.add_right_comm, walk, walk]
      rw [walk] at ends
      cases isNext : step id with
      | none =>
          rfl
      | some next =>
          rw [isNext, List.length_cons] at ends
          simp only [inductionHypothesis (Nat.lt_of_succ_lt_succ ends)]

/-- Nor does the first node of it that takes part in parsing. -/
theorem firstParsed?_of_larger
    (more : Nat)
    (ends : (walk step limit id).length < limit) :
    lexer.firstParsed? step (limit + more) id =
      lexer.firstParsed? step limit id := by
  rw [firstParsed?_eq_find?, firstParsed?_eq_find?, walk_of_larger more ends]

/-- Nor does the first token of a walk that has a stretch of its own. -/
theorem anchorWithin?_of_larger
    (more : Nat)
    (ends : (walk lexer.next? limit id).length < limit) :
    lexer.anchorWithin? (limit + more) id = lexer.anchorWithin? limit id := by
  induction limit generalizing id with
  | zero =>
      cases ends
  | succ limit inductionHypothesis =>
      rw [Nat.add_right_comm, anchorWithin?, anchorWithin?]
      rw [walk] at ends
      cases isNext : lexer.next? id with
      | none =>
          rfl
      | some next =>
          rw [isNext, List.length_cons] at ends
          simp only [inductionHypothesis (Nat.lt_of_succ_lt_succ ends)]

end Bounds

end Snbt.Lexer
