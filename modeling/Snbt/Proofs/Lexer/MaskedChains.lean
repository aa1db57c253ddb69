import Snbt.Proofs.Lexer.Histories
import Snbt.Proofs.Lexer.SplicedLists

namespace Snbt

/-!
# Masking what was scanned

Lines that are taken out of a buffer that was tokenized hide their offsets, and
the tokens that start there are no neighbours of others any more.  All other
tokens are the same nodes in the same order, so the chain is what is left of
the list of tokens.  A token that was taken out still knows its neighbours
among those that are left.
-/

namespace OffsetTable

variable {table : OffsetTable} {start : NodeId → Nat} {front back : List NodeId}
  {offset : Nat}

/--
A table that has tokens in order finds the first of those from an offset on.
-/
theorem next?_of_split
    (known : ∀ place id,
      table.tokenAt? place = some id ↔ id ∈ front ++ back ∧ start id = place)
    (ordered : (front ++ back).Pairwise fun first second =>
      start first < start second)
    (isBefore : ∀ id ∈ front, start id < offset)
    (isBehind : ∀ id ∈ back, offset ≤ start id) :
    table.next? offset = back.head? := by
  cases back with
  | nil =>
      refine next?_eq_none_iff.mpr fun place behind => ?_
      refine Option.eq_none_iff_forall_ne_some.mpr fun id found => ?_
      obtain ⟨member, rfl⟩ := (known place id).mp found
      rw [List.append_nil] at member
      exact Nat.not_lt_of_le behind (isBefore id member)
  | cons first rest =>
      have isFirst :=
        (List.pairwise_cons.mp (List.pairwise_append.mp ordered).2.1).1
      refine next?_eq_some_iff.mpr
        ⟨start first, isBehind first List.mem_cons_self, ?_, ?_⟩
      · exact (known _ first).mpr
          ⟨List.mem_append_right _ List.mem_cons_self, rfl⟩
      · intro place behind before
        refine Option.eq_none_iff_forall_ne_some.mpr fun id found => ?_
        obtain ⟨member, rfl⟩ := (known place id).mp found
        rcases List.mem_append.mp member with isFront | isBack
        · exact Nat.not_lt_of_le behind (isBefore id isFront)
        · rcases List.mem_cons.mp isBack with rfl | isRest
          · exact Nat.lt_irrefl _ before
          · exact Nat.lt_asymm before (isFirst id isRest)

/--
A table that has tokens in order finds the last of those before an offset.
-/
theorem previous?_of_split
    (known : ∀ place id,
      table.tokenAt? place = some id ↔ id ∈ front ++ back ∧ start id = place)
    (ordered : (front ++ back).Pairwise fun first second =>
      start first < start second)
    (isBefore : ∀ id ∈ front, start id < offset)
    (isBehind : ∀ id ∈ back, offset ≤ start id) :
    table.previous? offset = front.getLast? := by
  rcases front.eq_nil_or_concat with rfl | ⟨init, last, rfl⟩
  · refine previous?_eq_none_iff.mpr fun place before => ?_
    refine Option.eq_none_iff_forall_ne_some.mpr fun id found => ?_
    obtain ⟨member, rfl⟩ := (known place id).mp found
    exact Nat.not_lt_of_le (isBehind id member) before
  · rw [List.concat_eq_append] at *
    have isLast :=
      (List.pairwise_append.mp (List.pairwise_append.mp ordered).1).2.2
    rw [List.getLast?_concat]
    refine previous?_eq_some_iff.mpr
      ⟨start last, isBefore last (by simp), ?_, ?_⟩
    · exact (known _ last).mpr ⟨by simp, rfl⟩
    · intro place behind before
      refine Option.eq_none_iff_forall_ne_some.mpr fun id found => ?_
      obtain ⟨member, rfl⟩ := (known place id).mp found
      rcases List.mem_append.mp member with isFront | isBack
      · rcases List.mem_append.mp isFront with isInit | isLastOne
        · exact Nat.lt_asymm behind
            (isLast id isInit last (List.mem_singleton_self last))
        · cases List.mem_singleton.mp isLastOne
          exact Nat.lt_irrefl _ behind
      · exact Nat.not_lt_of_le (isBehind id isBack) before

end OffsetTable

namespace Lexer

/-- A token that starts where nothing is hidden. -/
def isShown (lexer : Lexer) (id : NodeId) : Bool :=
  (lexer.forest.token? id).any fun token => !lexer.table.isHidden token.start

/-- A row of unlinked tokens, of which the table has those that are shown. -/
structure Sieves (lexer : Lexer) (ids : List NodeId) : Prop where
  row : Row lexer.tokenOf ids
  holds : ∀ id ∈ ids, ∃ lexeme, lexer.Holds id lexeme
  known : ∀ place id, lexer.table.tokenAt? place = some id ↔
    id ∈ ids.filter lexer.isShown ∧ (lexer.tokenOf id).start = place

variable {lexer : Lexer} {before after ids : List NodeId} {id : NodeId}

namespace Sieves

/-- Each token starts behind the start of those before it. -/
theorem ordered
    (sieves : lexer.Sieves ids) :
    ids.Pairwise fun first second =>
      (lexer.tokenOf first).start < (lexer.tokenOf second).start := by
  refine sieves.row.ordered.imp_of_mem fun {first second} member _ precedes =>
    ?_
  obtain ⟨lexeme, holds⟩ := sieves.holds first member
  have notInserted : (lexer.tokenOf first).inserted = false := by
    rw [tokenOf_of_holds holds]
    rfl
  have nonempty :=
    (sieves.row.placed first member).nonempty notInserted precedes.notEnding
  exact Nat.lt_of_lt_of_le nonempty precedes.stop_le_start

/--
Where the starts of tokens are on both sides of an offset, the table has those
that are shown on each side next to it.
-/
theorem cut
    {front back : List NodeId}
    {offset : Nat}
    (sieves : lexer.Sieves (front ++ back))
    (isBefore : ∀ id ∈ front, (lexer.tokenOf id).start < offset)
    (isBehind : ∀ id ∈ back, offset ≤ (lexer.tokenOf id).start) :
    lexer.table.next? offset = (back.filter lexer.isShown).head? ∧
      lexer.table.previous? offset = (front.filter lexer.isShown).getLast? := by
  have ordered := sieves.ordered.filter lexer.isShown
  have known := sieves.known
  rw [List.filter_append] at ordered known
  have shownBefore :
      ∀ id ∈ front.filter lexer.isShown, (lexer.tokenOf id).start < offset :=
    fun id member => isBefore id (List.mem_of_mem_filter member)
  have shownBehind :
      ∀ id ∈ back.filter lexer.isShown, offset ≤ (lexer.tokenOf id).start :=
    fun id member => isBehind id (List.mem_of_mem_filter member)
  exact ⟨OffsetTable.next?_of_split known ordered shownBefore shownBehind,
    OffsetTable.previous?_of_split known ordered shownBefore shownBehind⟩

/-- The token after one is the first that is shown of those behind it. -/
theorem next?
    (sieves : lexer.Sieves (before ++ id :: after)) :
    lexer.next? id = (after.filter lexer.isShown).head? := by
  have member : id ∈ before ++ id :: after := by
    simp
  obtain ⟨lexeme, holds⟩ := sieves.holds id member
  have isToken := tokenOf_of_holds holds
  rw [holds.next?]
  by_cases isEnding : lexeme.kind = .eof
  · have isLast : after = [] := by
      rw [← sieves.row.isEnding_iff, isToken]
      exact isEnding
    rw [if_pos isEnding, isLast]
    rfl
  · have placed := sieves.row.placed id member
    rw [isToken] at placed
    have nonempty : lexeme.start < lexeme.stop := placed.nonempty rfl isEnding
    have earlier := (List.pairwise_append.mp sieves.ordered).2.2
    have later := sieves.row.around.2
    rw [isToken] at later
    rw [List.append_cons] at sieves
    rw [if_neg isEnding]
    refine (sieves.cut ?before fun other isLater =>
      (later other isLater).stop_le_start).1
    case before =>
      intro other isEarlier
      rcases List.mem_append.mp isEarlier with isEarlier | isSame
      · have isBefore := earlier other isEarlier id List.mem_cons_self
        rw [isToken] at isBefore
        exact Nat.lt_trans isBefore nonempty
      · rw [List.mem_singleton.mp isSame, isToken]
        exact nonempty

/-- The token before one is the last that is shown of those before it. -/
theorem previous?
    (sieves : lexer.Sieves (before ++ id :: after)) :
    lexer.previous? id = (before.filter lexer.isShown).getLast? := by
  obtain ⟨lexeme, holds⟩ := sieves.holds id (by simp)
  have isToken := tokenOf_of_holds holds
  obtain ⟨_, ordered, earlier⟩ := List.pairwise_append.mp sieves.ordered
  rw [holds.previous?]
  refine (sieves.cut ?before ?behind).2
  case before =>
    intro other isEarlier
    have isBefore := earlier other isEarlier id List.mem_cons_self
    rw [isToken] at isBefore
    exact isBefore
  case behind =>
    intro other isLater
    rcases List.mem_cons.mp isLater with rfl | isLater
    · rw [isToken]
      exact Nat.le_refl _
    · have isBehind := (List.pairwise_cons.mp ordered).1 other isLater
      rw [isToken] at isBehind
      exact Nat.le_of_lt isBehind

/-- Steps forward from a token give those that are shown behind it. -/
theorem walk_next?
    (limit : Nat)
    (sieves : lexer.Sieves (before ++ id :: after)) :
    walk lexer.next? limit id = (after.filter lexer.isShown).take limit := by
  induction limit generalizing before id after with
  | zero =>
      exact List.take_zero.symm
  | succ limit inductionHypothesis =>
      rw [walk, sieves.next?]
      cases left : after.filter lexer.isShown with
      | nil =>
          rfl
      | cons next rest =>
          -- What is passed over on the way to the next token is hidden.
          obtain ⟨passed, behind, rfl, _, _, rfl⟩ :=
            List.filter_eq_cons_iff.mp left
          rw [List.append_cons, ← List.append_assoc] at sieves
          rw [List.take_succ_cons, ← inductionHypothesis sieves]
          rfl

/--
Steps back from a token give those that are shown before it, the nearest first.
-/
theorem walk_previous?
    (limit : Nat)
    (sieves : lexer.Sieves (before ++ id :: after)) :
    walk lexer.previous? limit id =
      (before.filter lexer.isShown).reverse.take limit := by
  induction limit generalizing before id after with
  | zero =>
      exact List.take_zero.symm
  | succ limit inductionHypothesis =>
      rw [walk, sieves.previous?, ← List.head?_reverse]
      cases left : (before.filter lexer.isShown).reverse with
      | nil =>
          rfl
      | cons last rest =>
          rw [← List.filter_reverse] at left
          obtain ⟨passed, ahead, split, _, _, rfl⟩ :=
            List.filter_eq_cons_iff.mp left
          rw [List.reverse_eq_iff, List.reverse_append,
            List.reverse_cons] at split
          rw [split, List.append_assoc, List.append_assoc,
            List.singleton_append] at sieves
          have again := inductionHypothesis sieves
          rw [← List.filter_reverse, List.reverse_reverse] at again
          rw [List.take_succ_cons, ← again]
          rfl

end Sieves

/--
Masks sieve a chain of unlinked tokens in a buffer of which nothing was hidden.
-/
theorem Hides.sieves
    {scanned masked : Lexer}
    {masks : List LineMask}
    (hides : scanned.Hides masks masked)
    (chain : scanned.Chain scanned.tokenOf ids)
    (holds : ∀ id ∈ ids, ∃ lexeme, scanned.Holds id lexeme)
    (shown : ∀ offset, scanned.table.isHidden offset = false) :
    masked.Sieves ids := by
  have sameTokens : masked.tokenOf = scanned.tokenOf := by
    funext id
    rw [tokenOf, tokenOf, hides.forest_eq]
  have isHidden_iff : ∀ offset, masked.table.isHidden offset = true ↔
      (scanned.buffer.without masks).hidden offset = true := by
    intro offset
    rw [hides.hidden, shown, or_iff_right Bool.false_ne_true]
  have isShown_eq : ∀ id ∈ ids,
      masked.isShown id =
        !masked.table.isHidden (scanned.tokenOf id).start := by
    intro id member
    obtain ⟨lexeme, holds⟩ := holds id member
    rw [isShown, hides.forest_eq, tokenOf_of_holds holds, holds.token?]
    rfl
  constructor
  case row =>
    rw [sameTokens]
    exact chain.toRow
  case holds =>
    intro id member
    obtain ⟨lexeme, holds⟩ := holds id member
    have sameNode : masked.scanner.node = scanned.scanner.node :=
      Scanner.node_congr hides.roles_eq
    refine ⟨lexeme, ?_⟩
    rw [Holds, hides.forest_eq, sameNode]
    exact holds
  case known =>
    intro place id
    rw [hides.tokenAt?_eq, sameTokens, List.mem_filter]
    constructor
    · intro found
      split at found
      case isTrue =>
        cases found
      case isFalse notHidden =>
        obtain ⟨member, _, rfl⟩ := chain.known place id found
        refine ⟨⟨member, ?_⟩, rfl⟩
        rw [isShown_eq id member, Bool.not_eq_true', Bool.eq_false_iff, Ne,
          isHidden_iff]
        exact notHidden
    · rintro ⟨⟨member, isShown⟩, rfl⟩
      rw [isShown_eq id member, Bool.not_eq_true', Bool.eq_false_iff, Ne,
        isHidden_iff] at isShown
      obtain ⟨lexeme, holds⟩ := holds id member
      have notInserted : (scanned.tokenOf id).inserted = false := by
        rw [tokenOf_of_holds holds]
        rfl
      rw [if_neg isShown]
      exact chain.stands id member notInserted

/--
Masking filters what was scanned.  After any masks just the offsets in the
lines that some mask takes out are hidden, whatever the order of the masks
and the number of the first line; and from any token of the buffer steps
in both directions lead to just those tokens that are shown, the same
nodes in the same order.
-/
theorem masking_filters_chain
    (settings : LexerSettings)
    (buffer : Buffer)
    (active : KindSet)
    (masks : List LineMask) :
    let scanned := (fresh settings buffer active).tokenize
    let lexer := scanned.1.masked masks
    (∀ offset < buffer.size,
      lexer.table.isHidden offset = true ↔
        ∃ mask ∈ masks, mask.takesOut
          ((buffer.units.toList.take offset).count CodeUnit.lineFeed + 1) =
            true) ∧
    (∀ others, (∀ mask, mask ∈ others ↔ mask ∈ masks) →
      (scanned.1.masked others).table.isHidden = lexer.table.isHidden ∧
      (scanned.1.masked others).table.tokenAt? = lexer.table.tokenAt?) ∧
    ∀ before id after, scanned.2 = before ++ id :: after → ∀ limit,
      lexer.successors id limit =
        .ok ((after.filter lexer.isShown).take limit) ∧
      lexer.predecessors id limit =
        .ok ((before.filter lexer.isShown).reverse.take limit) := by
  intro scanned lexer
  have reads : Reads settings buffer [] scanned.1 :=
    (Steady.tokenize _).reads (fresh_reads settings buffer active)
  have masked : ∀ others, (scanned.1.masked others).table.isHidden =
      (buffer.without others).hidden :=
    fun others => (reads.masked others).isHidden_eq
  refine ⟨?hidden, ?order, ?walks⟩
  case hidden =>
    intro offset inside
    rw [masked masks, Buffer.hidden_without_eq masks inside, Buffer.isMasked,
      LineMask.anyTakesOut, List.any_eq_true]
    rfl
  case order =>
    intro others sameMasks
    have sameHidden :
        (buffer.without others).hidden = (buffer.without masks).hidden := by
      funext offset
      refine Bool.eq_iff_iff.mpr ?_
      simp only [Buffer.hidden_without_iff, sameMasks]
    refine ⟨?_, ?_⟩
    · rw [masked others, masked masks, sameHidden]
    · funext place
      rw [(masked_hides others reads.sized).tokenAt?_eq,
        (masked_hides masks reads.sized).tokenAt?_eq, reads.buffer_eq,
        sameHidden]
  case walks =>
    intro before id after split limit
    have chain := tokenize_chain settings buffer active
    obtain ⟨_, listed⟩ :=
      tokenize_lists (fresh_sized settings buffer active) (Nat.zero_le _)
      (fresh_knows_nothing settings buffer active)
    have shown : ∀ offset, scanned.1.table.isHidden offset = false :=
      congrFun reads.isHidden_eq
    have sieves : lexer.Sieves scanned.2 := by
      refine (masked_hides masks reads.sized).sieves chain
        (fun other member => ?_) shown
      obtain ⟨lexeme, _, holds, _⟩ := exists_mem_of_forall₂ listed.stands member
      exact ⟨lexeme, holds⟩
    rw [split] at sieves
    obtain ⟨lexeme, holds⟩ := sieves.holds id (by simp)
    have asked := Forest.token_eq_ok holds.token?
    rw [successors, predecessors, asked]
    exact ⟨congrArg Except.ok (sieves.walk_next? limit),
      congrArg Except.ok (sieves.walk_previous? limit)⟩

end Lexer

end Snbt
