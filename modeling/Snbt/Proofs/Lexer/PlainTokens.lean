import Snbt.Lexer.Tokens
import Snbt.Proofs.Forest.Nodes
import Snbt.Proofs.Lexer.LexemeOrder
import Snbt.Proofs.Lexer.TableEntries

namespace Snbt

/-!
# Plain tokens

A plain token is an unlinked one for a lexeme.  Scanning changes no node that
is there, and puts plain tokens where their lexemes start.  A lexer that has
done nothing but scan has no others in its table; any lexer has none from an
offset on behind which it has just forgotten everything.
-/

/-- What a token stands for, without what it is linked to. -/
def Token.lexeme (token : Token) : Lexeme :=
  ⟨token.kind, token.start, token.stop⟩

/-- The token that a lexeme becomes. -/
def Lexeme.token (lexeme : Lexeme) : Token :=
  .ofStretch lexeme.kind lexeme.start lexeme.stop

/-- The node that a lexeme becomes. -/
def Scanner.node (scanner : Scanner) (lexeme : Lexeme) : Node where
  content := .token (.ofStretch lexeme.kind lexeme.start lexeme.stop)
  parent? := none
  unparsed := scanner.roles.role lexeme.kind = .unparsed

/-- Only the roles decide what node a lexeme becomes. -/
theorem Scanner.node_congr
    {first second : Scanner}
    (same : first.roles = second.roles) :
    first.node = second.node := by
  cases first
  cases second
  cases same
  rfl

namespace Lexer

/-- The lexeme of a token. -/
def lexeme? (lexer : Lexer) (id : NodeId) : Option Lexeme :=
  (lexer.forest.token? id).map Token.lexeme

/-- A node is the token of a lexeme. -/
def Holds (lexer : Lexer) (id : NodeId) (lexeme : Lexeme) : Prop :=
  lexer.forest.node? id = some (lexer.scanner.node lexeme)

/--
The table has a slot for every offset and one for the end, which is not hidden.
-/
structure Sized (lexer : Lexer) : Prop where
  size_eq : lexer.table.slots.size = lexer.buffer.size + 1
  shown : lexer.table.isHidden lexer.buffer.size = false

/--
From an offset on the table has only plain
tokens, each where its lexeme starts.
-/
structure Plain (lexer : Lexer) (first : Nat) : Prop where
  sized : lexer.Sized
  entries : ∀ place id, first ≤ place → lexer.table.tokenAt? place = some id →
    ∃ lexeme, lexer.Holds id lexeme ∧ lexeme.start = place ∧
      lexeme.Lies lexer.buffer.size

/--
What scanning keeps: what decides how the buffer is cut, and the
nodes that are there.
-/
structure Extends (before after : Lexer) : Prop where
  sized : after.Sized
  scanner_eq : after.scanner = before.scanner
  nodes :
    ∀ id node, before.forest.node? id = some node →
      after.forest.node? id = some node

/-- What scanning keeps where it is all that has happened. -/
structure Grows (before after : Lexer) : Prop extends Extends before after where
  plain : after.Plain 0

variable {lexer before after : Lexer} {id : NodeId} {lexeme : Lexeme}
  {first offset : Nat} {table : OffsetTable} {result : Lexer × NodeId}

theorem Sized.keeps
    (sized : lexer.Sized) :
    lexer.Extends lexer :=
  ⟨sized, rfl, fun _ _ present => present⟩

theorem Extends.trans
    {last : Lexer}
    (keeps : before.Extends after)
    (later : after.Extends last) :
    before.Extends last :=
  ⟨later.sized, later.scanner_eq.trans keeps.scanner_eq,
    fun id node present => later.nodes id node (keeps.nodes id node present)⟩

theorem Extends.holds
    (keeps : before.Extends after)
    (holds : before.Holds id lexeme) :
    after.Holds id lexeme := by
  rw [Holds, keeps.scanner_eq]
  exact keeps.nodes id _ holds

theorem Extends.size_eq
    (keeps : before.Extends after) :
    after.buffer.size = before.buffer.size :=
  congrArg (fun scanner => scanner.view.buffer.size) keeps.scanner_eq

theorem Extends.view_eq
    (keeps : before.Extends after) :
    after.view = before.view :=
  congrArg Scanner.view keeps.scanner_eq

theorem Extends.active_eq
    (keeps : before.Extends after) :
    after.active = before.active :=
  congrArg Scanner.active keeps.scanner_eq

theorem Extends.roles_eq
    (keeps : before.Extends after) :
    after.roles = before.roles :=
  congrArg Scanner.roles keeps.scanner_eq

/-- Reading can stand where it could before. -/
theorem Extends.isPlace
    (keeps : before.Extends after)
    (isPlace : before.scanner.view.IsPlace offset) :
    after.scanner.view.IsPlace offset := by
  rw [keeps.scanner_eq]
  exact isPlace

theorem Plain.grows
    (plain : lexer.Plain 0) :
    lexer.Grows lexer :=
  ⟨plain.sized.keeps, plain⟩

theorem Grows.trans
    {last : Lexer}
    (grows : before.Grows after)
    (later : after.Grows last) :
    before.Grows last :=
  ⟨grows.toExtends.trans later.toExtends, later.plain⟩

/-- Further behind the table has only plain tokens too. -/
theorem Plain.mono
    (plain : lexer.Plain first)
    (behind : first ≤ offset) :
    lexer.Plain offset :=
  ⟨plain.sized,
    fun place id later => plain.entries place id (behind.trans later)⟩

/-- A table that knows no token has only plain ones. -/
theorem Sized.plain
    (sized : lexer.Sized)
    (nothing : ∀ place, first ≤ place → lexer.table.tokenAt? place = none) :
    lexer.Plain first := by
  refine ⟨sized, ?_⟩
  intro place id behind found
  rw [nothing place behind] at found
  cases found

theorem kindOf?_eq_some
    {token : Token}
    (isToken : lexer.forest.token? id = some token) :
    lexer.kindOf? id = some token.kind := by
  rw [kindOf?, isToken, Option.map_some]

theorem Holds.token?
    (holds : lexer.Holds id lexeme) :
    lexer.forest.token? id =
      some (.ofStretch lexeme.kind lexeme.start lexeme.stop) :=
  Forest.token?_eq_some_iff.mpr ⟨_, holds, rfl⟩

theorem Holds.lexeme?
    (holds : lexer.Holds id lexeme) :
    lexer.lexeme? id = some lexeme := by
  rw [Lexer.lexeme?, holds.token?]
  rfl

/-- The role of its kind decides whether a token takes part in parsing. -/
theorem Holds.isUnparsed
    (holds : lexer.Holds id lexeme) :
    lexer.forest.isUnparsed id =
      decide (lexer.roles.role lexeme.kind = .unparsed) := by
  rw [Forest.isUnparsed, show lexer.forest.node? id = _ from holds]
  rfl

/-- A table admits a token wherever reading can stand. -/
theorem Sized.admits
    (sized : lexer.Sized)
    (isPlace : lexer.scanner.view.IsPlace offset) :
    lexer.table.admits offset = true := by
  obtain ⟨inside, shown⟩ := isPlace
  have inside : offset ≤ lexer.buffer.size := inside
  have shown :
      offset < lexer.buffer.size → lexer.table.isHidden offset = false := shown
  have notHidden : lexer.table.isHidden offset = false := by
    rcases Nat.lt_or_eq_of_le inside with before | rfl
    · exact shown before
    · exact sized.shown
  have hasSlot : offset < lexer.table.slots.size := by
    rw [sized.size_eq]
    omega
  rw [OffsetTable.admits, notHidden, decide_eq_true hasSlot]
  rfl

/-- A table of the same shape cuts the buffer alike. -/
theorem scanner_withTable
    (same : table.SameShape lexer.table) :
    { lexer with table }.scanner = lexer.scanner := by
  simp only [scanner, view, same.isHidden_eq]

theorem Sized.withTable
    (sized : lexer.Sized)
    (same : table.SameShape lexer.table) :
    lexer.Extends { lexer with table } := by
  refine ⟨⟨same.size_eq.trans sized.size_eq, ?_⟩, scanner_withTable same,
    fun _ _ present => present⟩
  rw [same.isHidden_eq]
  exact sized.shown

/-- Dropping skipped stretches changes no node. -/
theorem Sized.releaseAll
    (sized : lexer.Sized)
    (skipped : List (Nat × Nat)) :
    lexer.Extends (lexer.releaseAll skipped) :=
  sized.withTable (OffsetTable.sameShape_foldl_releaseRange skipped lexer.table)

/-- Dropping skipped stretches leaves plain tokens. -/
theorem Plain.releaseAll
    (plain : lexer.Plain first)
    (skipped : List (Nat × Nat)) :
    (lexer.releaseAll skipped).Plain first := by
  have keeps := plain.sized.releaseAll skipped
  refine ⟨keeps.sized, ?_⟩
  intro place id behind found
  rw [Lexer.releaseAll, OffsetTable.tokenAt?_foldl_releaseRange] at found
  by_cases inside : ∃ stretch ∈ skipped, stretch.1 ≤ place ∧ place < stretch.2
  · rw [if_pos inside] at found
    cases found
  · rw [if_neg inside] at found
    obtain ⟨lexeme, holds, start, lies⟩ := plain.entries place id behind found
    exact ⟨lexeme, keeps.holds holds, start, lies⟩

/--
A lexer comes to hold a lexeme, whose token stands where the lexeme starts.
-/
structure Gains (before : Lexer) (lexeme : Lexeme) (result : Lexer × NodeId) :
    Prop where
  keeps : before.Extends result.1
  holds : result.1.Holds result.2 lexeme
  tokenAt?_eq : ∀ place, result.1.table.tokenAt? place =
    if place = lexeme.start then some result.2 else before.table.tokenAt? place

/-- A token for one more lexeme leaves plain tokens. -/
theorem Gains.plain
    (gains : before.Gains lexeme result)
    (plain : before.Plain first)
    (lies : lexeme.Lies before.buffer.size) :
    result.1.Plain first := by
  refine ⟨gains.keeps.sized, ?_⟩
  intro place id behind found
  rw [gains.keeps.size_eq]
  rw [gains.tokenAt?_eq] at found
  by_cases here : place = lexeme.start
  · rw [if_pos here] at found
    cases found
    exact ⟨lexeme, gains.holds, here.symm, lies⟩
  · rw [if_neg here] at found
    obtain ⟨other, holds, start, otherLies⟩ :=
      plain.entries place id behind found
    exact ⟨other, gains.keeps.holds holds, start, otherLies⟩

/-- A lexer with a new token for a lexeme. -/
def withToken (lexer : Lexer) (lexeme : Lexeme) : Lexer :=
  (lexer.addToken (.ofStretch lexeme.kind lexeme.start lexeme.stop)
    (lexer.roles.role lexeme.kind = .unparsed)).1

theorem withToken_holds
    (lexer : Lexer)
    (lexeme : Lexeme) :
    (lexer.withToken lexeme).Holds lexer.forest.size lexeme := by
  refine (lexer.forest.node?_push _ _ _).trans ?_
  rw [if_pos rfl]
  rfl

theorem Sized.withToken
    (sized : lexer.Sized)
    (lexeme : Lexeme) :
    lexer.Extends (lexer.withToken lexeme) := by
  refine ⟨⟨sized.size_eq, sized.shown⟩, rfl, ?_⟩
  intro id node present
  have inside := Forest.lt_size_of_node? present
  refine (lexer.forest.node?_push _ _ _).trans ?_
  rw [if_neg (Nat.ne_of_lt inside)]
  exact present

/-- A plain token is its own anchor. -/
theorem remember_of_holds
    (holds : lexer.Holds id lexeme) :
    lexer.remember id =
      { lexer with table := lexer.table.put lexeme.start id } := by
  rw [remember, anchorWithin?, holds.token?]
  rfl

/-- A plain token is put where its lexeme starts. -/
theorem remember_gains
    (sized : lexer.Sized)
    (holds : lexer.Holds id lexeme)
    (isPlace : lexer.scanner.view.IsPlace lexeme.start) :
    lexer.Gains lexeme (lexer.remember id, id) := by
  have keeps := sized.withTable (lexer.table.sameShape_put lexeme.start id)
  rw [remember_of_holds holds]
  exact ⟨keeps, keeps.holds holds,
    fun _ => OffsetTable.tokenAt?_put (sized.admits isPlace)⟩

/-- The token of a lexeme: the lexer holds it already, or comes to hold it. -/
theorem tokenFor_gains
    (plain : lexer.Plain lexeme.start)
    (isPlace : lexer.scanner.view.IsPlace lexeme.start) :
    lexer.Gains lexeme (lexer.tokenFor lexeme) := by
  unfold tokenFor
  cases found : (lexer.table.tokenAt? lexeme.start).filter
      (lexer.isSame lexeme (lexer.roles.role lexeme.kind = .unparsed)) with
  | some id =>
      simp only [found]
      obtain ⟨present, same⟩ := Option.filter_eq_some_iff.mp found
      obtain ⟨known, holds, start, _⟩ :=
        plain.entries _ _ (Nat.le_refl _) present
      rw [isSame, holds.token?] at same
      simp only [Bool.and_eq_true, decide_eq_true_eq] at same
      obtain ⟨⟨sameKind, sameStop⟩, _⟩ := same
      have isLexeme : known = lexeme := by
        cases known
        cases lexeme
        exact Lexeme.mk.injEq .. ▸ ⟨sameKind, start, sameStop⟩
      subst isLexeme
      refine ⟨plain.sized.keeps, holds, ?_⟩
      intro place
      by_cases here : place = known.start
      · rw [if_pos here, here]
        exact present
      · rw [if_neg here]
  | none =>
      simp only [found]
      have keeps := plain.sized.withToken lexeme
      have holds := lexer.withToken_holds lexeme
      have gains := remember_gains keeps.sized holds (keeps.isPlace isPlace)
      exact ⟨keeps.trans gains.keeps, gains.holds, gains.tokenAt?_eq⟩

end Lexer

end Snbt
