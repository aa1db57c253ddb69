import Mathlib.Logic.Basic
import Snbt.Lexer.Tokens
import Snbt.Proofs.Forest.Nodes

namespace Snbt.Lexer

/-!
# Splices

What splicing a token in and replacing one do to the tokens: which links are
set, which token is moved, and which one is made.
-/

variable {lexer after : Lexer} {before inserted id : NodeId} {token : Token}
  {kind : Kind} {result : Lexer × NodeId}

/-- Change the token that is named, if one is. -/
def changeToken
    (lexer : Lexer)
    (target? : Option NodeId)
    (change : Token → Token) :
    Lexer :=
  match target? with
  | some target => lexer.updateToken target change
  | none => lexer

theorem token?_changeToken
    (lexer : Lexer)
    (target? : Option NodeId)
    (change : Token → Token)
    (id : NodeId) :
    (lexer.changeToken target? change).forest.token? id =
      if target? = some id then
        (lexer.forest.token? id).map change
      else
        lexer.forest.token? id := by
  cases target? with
  | none =>
      rfl
  | some target =>
      refine (lexer.forest.token?_updateToken target change id).trans ?_
      exact if_congr Option.some_inj.symm rfl rfl

/-- Changing a token changes nothing but nodes. -/
theorem changeToken_same
    (lexer : Lexer)
    (target? : Option NodeId)
    (change : Token → Token) :
    ∃ forest, lexer.changeToken target? change = { lexer with forest } := by
  cases target? with
  | none =>
      exact ⟨lexer.forest, rfl⟩
  | some target =>
      exact ⟨_, rfl⟩

/--
A token that is spliced in before another, behind the one that stands there.
-/
def placedBefore
    (before : NodeId)
    (start : Nat)
    (existing? : Option NodeId)
    (new : Token) :
    Token :=
  { new with
    appended? := some before
    inserted := true
    start := start
    stop := start
    prepended? := existing?.or new.prepended? }

/--
A token is spliced in before another, and the links of both sides are set.
-/
def withInserted
    (lexer : Lexer)
    (before inserted : NodeId)
    (start : Nat)
    (existing? : Option NodeId) :
    Lexer :=
  ((lexer.updateToken inserted
    (placedBefore before start existing?)).changeToken existing?
    fun old => { old with appended? := some inserted }).updateToken before
      fun old => { old with prepended? := some inserted }

/-- Setting the links changes nothing but nodes. -/
theorem withInserted_same
    (lexer : Lexer)
    (before inserted : NodeId)
    (start : Nat)
    (existing? : Option NodeId) :
    ∃ forest,
      lexer.withInserted before inserted start existing? =
        { lexer with forest } := by
  obtain ⟨_, linked⟩ :=
    (lexer.updateToken inserted
      (placedBefore before start existing?)).changeToken_same
      existing? fun old => { old with appended? := some inserted }
  rw [withInserted, linked]
  exact ⟨_, rfl⟩

/-- A token that is linked there already is not spliced in again. -/
theorem insertBefore_of_linked
    (present : lexer.forest.token? before = some token)
    (linked : token.prepended? = some inserted) :
    lexer.insertBefore before inserted = .ok lexer := by
  simp only [insertBefore, Forest.token_eq_ok present, bind, Except.bind]
  exact if_pos linked

/-- Any other token is spliced in, if both tokens exist. -/
theorem insertBefore_of_not_linked
    {new : Token}
    (present : lexer.forest.token? before = some token)
    (isNew : lexer.forest.token? inserted = some new)
    (notLinked : token.prepended? ≠ some inserted) :
    lexer.insertBefore before inserted =
      .ok (lexer.withInserted before inserted token.start
        (lexer.previous? before)) := by
  simp only [insertBefore, Forest.token_eq_ok present, Forest.token_eq_ok isNew,
    bind, Except.bind]
  rw [if_neg notLinked]
  cases lexer.previous? before <;> rfl

/--
A splice that succeeds was there already, or is made between two
tokens that exist.
-/
theorem insertBefore_cases
    (answered : lexer.insertBefore before inserted = .ok after) :
    after = lexer ∨
      ∃ token new, lexer.forest.token? before = some token ∧
        lexer.forest.token? inserted = some new ∧
        after = lexer.withInserted before inserted token.start
          (lexer.previous? before) := by
  cases isToken : lexer.forest.token before with
  | error misuse =>
      simp only [insertBefore, isToken, bind, Except.bind] at answered
      cases answered
  | ok token =>
      have present := Forest.token_eq_ok_iff.mp isToken
      by_cases linked : token.prepended? = some inserted
      · rw [insertBefore_of_linked present linked] at answered
        cases answered
        exact .inl rfl
      · cases isNew : lexer.forest.token inserted with
        | error misuse =>
            simp only [insertBefore, isToken, isNew, if_neg linked, bind,
              Except.bind] at answered
            cases answered
        | ok new =>
            have newPresent := Forest.token_eq_ok_iff.mp isNew
            rw [insertBefore_of_not_linked present newPresent linked]
              at answered
            cases answered
            exact .inr ⟨token, new, present, newPresent, rfl⟩

/-- Splicing changes nothing but nodes. -/
theorem insertBefore_same
    (answered : lexer.insertBefore before inserted = .ok after) :
    ∃ forest, after = { lexer with forest } := by
  rcases insertBefore_cases answered with rfl | ⟨_, _, _, _, rfl⟩
  · exact ⟨after.forest, rfl⟩
  · exact lexer.withInserted_same _ _ _ _

/-- The tokens after one has been spliced in. -/
theorem token?_withInserted
    {start : Nat}
    {existing? : Option NodeId}
    (notBefore : inserted ≠ before)
    (notExisting : existing? ≠ some inserted)
    (apart : existing? ≠ some before)
    (id : NodeId) :
    (lexer.withInserted before inserted start existing?).forest.token? id =
      if id = inserted then
        (lexer.forest.token? id).map (placedBefore before start existing?)
      else if id = before then
        (lexer.forest.token? id).map fun old =>
          { old with prepended? := some inserted }
      else if existing? = some id then
        (lexer.forest.token? id).map fun old =>
          { old with appended? := some inserted }
      else
        lexer.forest.token? id := by
  refine (Forest.token?_updateToken _ _ _ _).trans ?_
  rw [token?_changeToken]
  rw [updateToken, Forest.token?_updateToken]
  grind only

/-- The copy of a token with another kind, linked in its place. -/
def withReplacement (lexer : Lexer) (old : Token) (kind : Kind) : Lexer :=
  (((lexer.addToken { old with kind }
    (lexer.roles.role kind = .unparsed)).1.changeToken
    old.appended? fun next =>
      { next with prepended? := some lexer.forest.size }).changeToken
      old.prepended? fun previous =>
        { previous with appended? := some lexer.forest.size })

/-- Linking a copy in changes nothing but nodes. -/
theorem withReplacement_same
    (lexer : Lexer)
    (old : Token)
    (kind : Kind) :
    ∃ forest, lexer.withReplacement old kind = { lexer with forest } := by
  obtain ⟨_, linkedAfter⟩ :=
    (lexer.addToken { old with kind }
      (lexer.roles.role kind = .unparsed)).1.changeToken_same
      old.appended? fun next =>
        { next with prepended? := some lexer.forest.size }
  rw [withReplacement, linkedAfter]
  obtain ⟨forest, linked⟩ := changeToken_same _ old.prepended? _
  exact ⟨forest, linked⟩

/-- Putting a token into the table changes no node. -/
theorem remember_forest
    (lexer : Lexer)
    (id : NodeId) :
    (lexer.remember id).forest = lexer.forest := by
  unfold remember
  split
  · rfl
  · rfl

/--
A token that exists is replaced; its copy is put into the table if
it was not inserted.
-/
theorem replaceKind_of_token
    (present : lexer.forest.token? id = some token)
    (kind : Kind) :
    lexer.replaceKind id kind =
      .ok (if token.inserted then
          lexer.withReplacement token kind
        else
          (lexer.withReplacement token kind).remember lexer.forest.size,
        lexer.forest.size) := by
  simp only [replaceKind, Forest.token_eq_ok present, bind, Except.bind]
  rw [withReplacement]
  cases token.appended? <;> cases token.prepended? <;> rfl

/--
Whatever the links are, the copy has the kind
that was asked for and the same stretch.
-/
theorem withReplacement_copy
    (lexer : Lexer)
    (old : Token)
    (kind : Kind) :
    ∃ new,
      (lexer.withReplacement old kind).forest.token?
        lexer.forest.size = some new ∧
      new.kind = kind ∧ new.start = old.start ∧ new.stop = old.stop := by
  have made :
      (lexer.addToken { old with kind }
        (lexer.roles.role kind = .unparsed)).1.forest.token? lexer.forest.size =
          some { old with kind } :=
    (lexer.forest.token?_push _ _ _).trans (if_pos rfl)
  rw [withReplacement, token?_changeToken, token?_changeToken, made]
  split <;> split <;> exact ⟨_, rfl, rfl, rfl, rfl⟩

/--
A token is replaced by a new one of the kind
that was asked for with the same stretch.
-/
theorem replaceKind_copies
    (present : lexer.forest.token? id = some token)
    (kind : Kind) :
    ∃ next new, lexer.replaceKind id kind = .ok (next, lexer.forest.size) ∧
      next.forest.token? lexer.forest.size = some new ∧
      new.kind = kind ∧ new.start = token.start ∧ new.stop = token.stop := by
  obtain ⟨new, isNew, isCopy⟩ := lexer.withReplacement_copy token kind
  refine ⟨_, new, replaceKind_of_token present kind, ?_, isCopy⟩
  cases token.inserted with
  | true =>
      exact isNew
  | false =>
      rw [if_neg Bool.false_ne_true, remember_forest]
      exact isNew

/-- A replacement that succeeds is one of a token that exists. -/
theorem exists_of_replaceKind
    (answered : lexer.replaceKind id kind = .ok result) :
    ∃ token, lexer.forest.token? id = some token := by
  cases present : lexer.forest.token id with
  | error misuse =>
      simp only [replaceKind, present, bind, Except.bind] at answered
      cases answered
  | ok token =>
      exact ⟨token, Forest.token_eq_ok_iff.mp present⟩

/-- Replacing changes nothing but nodes and what the table has. -/
theorem replaceKind_same
    (answered : lexer.replaceKind id kind = .ok result) :
    ∃ forest, result.1 = { lexer with forest } ∨
      result.1 = { lexer with forest }.remember result.2 := by
  obtain ⟨token, present⟩ := exists_of_replaceKind answered
  rw [replaceKind_of_token present] at answered
  obtain ⟨forest, same⟩ := lexer.withReplacement_same token kind
  cases answered
  rw [same]
  refine ⟨forest, ?_⟩
  cases token.inserted with
  | true =>
      exact .inl rfl
  | false =>
      exact .inr rfl

/-- The tokens after one has been replaced. -/
theorem token?_withReplacement
    {old : Token}
    (notNext : old.appended? ≠ some lexer.forest.size)
    (notPrevious : old.prepended? ≠ some lexer.forest.size)
    (kind : Kind)
    (id : NodeId) :
    (lexer.withReplacement old kind).forest.token? id =
      if id = lexer.forest.size then
        some { old with kind }
      else
        (lexer.forest.token? id).map fun token =>
          { token with
            prepended? :=
              if old.appended? = some id then
                some lexer.forest.size
              else
                token.prepended?
            appended? :=
              if old.prepended? = some id then
                some lexer.forest.size
              else
                token.appended? } := by
  have made :
      (lexer.addToken { old with kind }
        (lexer.roles.role kind = .unparsed)).1.forest.token? id =
        if id = lexer.forest.size then
          some { old with kind }
        else
          lexer.forest.token? id := by
    refine (congrArg (Option.bind · Node.token?)
      (lexer.forest.node?_push _ _ id)).trans ?_
    split <;> rfl
  rw [withReplacement, token?_changeToken, token?_changeToken, made]
  by_cases isNew : id = lexer.forest.size
  · rw [if_pos isNew, isNew, if_neg notPrevious, if_neg notNext, if_pos rfl]
  · rw [if_neg isNew, if_neg isNew]
    cases lexer.forest.token? id with
    | none =>
        simp only [Option.map_none, ite_self]
    | some token =>
        by_cases isNext : old.appended? = some id <;>
          by_cases isPrevious : old.prepended? = some id <;>
            simp only [isNext, isPrevious, if_true, if_false, Option.map_some]

end Snbt.Lexer
