import Mathlib.Data.List.Chain
import Snbt.Lexer.Chain
import Snbt.Proofs.Forest.Nodes
import Snbt.Proofs.Lexer.TableEntries

namespace Snbt

/-!
# Links of a chain

Tokens stand in a row if they lie one behind the other and two that follow each
other are linked to each other, or neither of them is linked there and neither
was inserted.  A row is the chain of a lexer if the table knows just those of
its tokens that were not inserted.  Then each token knows its neighbours.
-/

namespace Token

/-- Tokens that differ at most in their text and in what they are linked to. -/
structure SameStretch (first second : Token) : Prop where
  kind_eq : first.kind = second.kind
  start_eq : first.start = second.start
  stop_eq : first.stop = second.stop
  inserted_eq : first.inserted = second.inserted
  scanned_eq : first.scanned = second.scanned

/--
A token that was not inserted was scanned, and is not empty unless
it ends the input.
-/
structure Placed (token : Token) : Prop where
  start_le_stop : token.start ≤ token.stop
  scanned : token.inserted = false → token.scanned = true
  nonempty :
    token.inserted = false → token.kind ≠ .eof → token.start < token.stop

/-- The first token does not end the input, and the second starts behind it. -/
structure Precedes (first second : Token) : Prop where
  notEnding : first.kind ≠ .eof
  stop_le_start : first.stop ≤ second.start

variable {first second first' second' : Token}

theorem Placed.congr
    (placed : first.Placed)
    (same : first'.SameStretch first) :
    first'.Placed := by
  constructor
  · rw [same.start_eq, same.stop_eq]
    exact placed.start_le_stop
  · rw [same.inserted_eq, same.scanned_eq]
    exact placed.scanned
  · rw [same.inserted_eq, same.kind_eq, same.start_eq, same.stop_eq]
    exact placed.nonempty

theorem Precedes.congr
    (precedes : first.Precedes second)
    (sameFirst : first'.SameStretch first)
    (sameSecond : second'.SameStretch second) :
    first'.Precedes second' := by
  constructor
  · rw [sameFirst.kind_eq]
    exact precedes.notEnding
  · rw [sameFirst.stop_eq, sameSecond.start_eq]
    exact precedes.stop_le_start

end Token

/--
Neighbours of a chain: linked to each other, or linked to none there and both
with a place in the table.
-/
def Joined (tokens : NodeId → Token) (first second : NodeId) : Prop :=
  (tokens first).appended? = some second ∧
    (tokens second).prepended? = some first ∨
    (tokens first).appended? = none ∧ (tokens second).prepended? = none ∧
      (tokens first).inserted = false ∧ (tokens second).inserted = false

/--
Only the links between two tokens, and whether they were inserted, join them.
-/
theorem Joined.congr
    {tokens others : NodeId → Token}
    {first second : NodeId}
    (joined : Joined tokens first second)
    (appended : (others first).appended? = (tokens first).appended?)
    (prepended : (others second).prepended? = (tokens second).prepended?)
    (firstInserted : (others first).inserted = (tokens first).inserted)
    (secondInserted : (others second).inserted = (tokens second).inserted) :
    Joined others first second := by
  rw [Joined, appended, prepended, firstInserted, secondInserted]
  exact joined

/-- Tokens that stand in a row, up to the end of the input. -/
structure Row (tokens : NodeId → Token) (ids : List NodeId) : Prop where
  distinct : ids.Nodup
  placed : ∀ id ∈ ids, (tokens id).Placed
  ordered : ids.Pairwise fun first second =>
    (tokens first).Precedes (tokens second)
  joined : ids.IsChain (Joined tokens)
  opens : ∀ id ∈ ids.head?, (tokens id).prepended? = none
  ends : ∃ last ∈ ids.getLast?, (tokens last).kind = .eof

namespace Row

variable {tokens : NodeId → Token} {before after : List NodeId}
  {id first second : NodeId}

/-- What stands before and behind a member of a row. -/
theorem around
    (row : Row tokens (before ++ id :: after)) :
    (∀ other ∈ before, (tokens other).Precedes (tokens id)) ∧
      ∀ other ∈ after, (tokens id).Precedes (tokens other) := by
  obtain ⟨_, behind, across⟩ := List.pairwise_append.mp row.ordered
  exact ⟨fun other member => across other member id List.mem_cons_self,
    (List.pairwise_cons.mp behind).1⟩

/-- What stands before a member of a row is neither the member nor behind it. -/
theorem apart
    {other : NodeId}
    (row : Row tokens (before ++ id :: after))
    (isBefore : other ∈ before) :
    other ∉ id :: after :=
  fun isBehind =>
    (List.nodup_append.mp row.distinct).2.2 other isBefore other isBehind rfl

/-- Exactly the last token of a row ends the input. -/
theorem isEnding_iff
    (row : Row tokens (before ++ id :: after)) :
    (tokens id).kind = .eof ↔ after = [] := by
  constructor
  · intro isEnding
    cases after with
    | nil =>
        rfl
    | cons next rest =>
        exact absurd isEnding (row.around.2 next List.mem_cons_self).notEnding
  · rintro rfl
    obtain ⟨last, isLast, isEnding⟩ := row.ends
    rw [List.getLast?_concat] at isLast
    cases isLast
    exact isEnding

/-- Tokens of a row that follow each other are joined. -/
theorem joined_next
    (row : Row tokens (before ++ first :: second :: after)) :
    Joined tokens first second :=
  (List.isChain_append_cons_cons.mp row.joined).2.1

/-- A member of a row is linked to none before it but the last one. -/
theorem prepended?_linked
    {other : NodeId}
    (row : Row tokens (before ++ id :: after))
    (linked : (tokens id).prepended? = some other) :
    before.getLast? = some other := by
  rcases before.eq_nil_or_concat with rfl | ⟨init, first, rfl⟩
  · cases (row.opens id rfl).symm.trans linked
  · rw [List.concat_eq_append, List.append_assoc] at row
    rw [List.concat_eq_append, List.getLast?_concat]
    rcases row.joined_next with ⟨_, prepended⟩ | ⟨_, prepended, _⟩
    · exact prepended.symm.trans linked
    · cases prepended.symm.trans linked

/--
A member that ends no input is linked to none behind it but the first one.
-/
theorem appended?_linked
    {other : NodeId}
    (row : Row tokens (before ++ id :: after))
    (notEnding : (tokens id).kind ≠ .eof)
    (linked : (tokens id).appended? = some other) :
    after.head? = some other := by
  cases after with
  | nil =>
      exact absurd (row.isEnding_iff.mpr rfl) notEnding
  | cons second after =>
      rcases row.joined_next with ⟨appended, _⟩ | ⟨appended, _⟩
      · exact appended.symm.trans linked
      · cases appended.symm.trans linked

/-- A member of a row is linked to members only. -/
theorem not_linked_of_notMem
    {other : NodeId}
    (row : Row tokens (before ++ id :: after))
    (notEnding : (tokens id).kind ≠ .eof)
    (notMember : other ∉ before ++ id :: after) :
    (tokens id).appended? ≠ some other ∧
      (tokens id).prepended? ≠ some other := by
  constructor
  · intro linked
    have isAfter := List.mem_of_head? (row.appended?_linked notEnding linked)
    exact notMember (List.mem_append_right _ (List.mem_cons_of_mem _ isAfter))
  · intro linked
    exact notMember
      (List.mem_append_left _
        (List.mem_of_getLast? (row.prepended?_linked linked)))

end Row

namespace Lexer

/-- A row of tokens makes up the chain of a lexer. -/
structure Chain (lexer : Lexer) (tokens : NodeId → Token) (ids : List NodeId) :
    Prop
    extends Row tokens ids where
  present : ∀ id ∈ ids, lexer.forest.token? id = some (tokens id)
  stands : ∀ id ∈ ids, (tokens id).inserted = false →
    lexer.table.tokenAt? (tokens id).start = some id
  known : ∀ place id, lexer.table.tokenAt? place = some id →
    id ∈ ids ∧ (tokens id).inserted = false ∧ (tokens id).start = place

variable {lexer : Lexer} {tokens : NodeId → Token} {before after : List NodeId}
  {id first second : NodeId}

/-- A node that is still to be made is no member of a chain. -/
theorem Chain.size_notMem
    {ids : List NodeId}
    (chain : lexer.Chain tokens ids) :
    lexer.forest.size ∉ ids :=
  fun member =>
    Nat.lt_irrefl _ (Forest.lt_size_of_token? (chain.present _ member))

/-- Between the starts of tokens that follow each other the table knows none. -/
theorem Chain.between
    {place : Nat}
    (chain : lexer.Chain tokens (before ++ first :: second :: after))
    (behind : (tokens first).start < place)
    (isBefore : place < (tokens second).start) :
    lexer.table.tokenAt? place = none := by
  refine Option.eq_none_iff_forall_ne_some.mpr fun other found => ?_
  obtain ⟨member, _, start⟩ := chain.known place other found
  have earlier := chain.around.1
  have secondOrdered := (chain.placed second (by simp)).start_le_stop
  rcases List.mem_append.mp member with isEarlier | isLater
  · have precedes := (earlier other isEarlier).stop_le_start
    have ordered := (chain.placed other (by simp [isEarlier])).start_le_stop
    omega
  · rw [List.append_cons] at chain
    have later := chain.around.2
    rcases List.mem_cons.mp isLater with rfl | isLater
    · omega
    · rcases List.mem_cons.mp isLater with rfl | isLater
      · omega
      · have precedes := (later other isLater).stop_le_start
        omega

/--
Where tokens that follow each other are not linked, the table has them both.
-/
theorem Chain.unlinked
    (chain : lexer.Chain tokens (before ++ first :: second :: after))
    (firstStays : (tokens first).inserted = false)
    (secondStays : (tokens second).inserted = false) :
    lexer.forest.source? first = some first ∧
      lexer.forest.source? second = some second ∧
      lexer.table.next? (tokens first).stop = some second ∧
      lexer.table.previous? (tokens second).start = some first := by
  have firstMember : first ∈ before ++ first :: second :: after := by
    simp
  have secondMember : second ∈ before ++ first :: second :: after := by
    simp
  have precedes := chain.around.2 second List.mem_cons_self
  have firstPlaced := chain.placed first firstMember
  have nonempty := firstPlaced.nonempty firstStays precedes.notEnding
  have apart := precedes.stop_le_start
  refine ⟨?_, ?_, ?_, ?_⟩
  · exact Forest.source?_of_scanned (chain.present first firstMember)
      (firstPlaced.scanned firstStays)
  · exact Forest.source?_of_scanned (chain.present second secondMember)
      ((chain.placed second secondMember).scanned secondStays)
  · refine OffsetTable.next?_eq_some_iff.mpr
      ⟨_, apart, chain.stands second secondMember secondStays, ?_⟩
    intro place behind isBefore
    exact chain.between (by omega) isBefore
  · refine OffsetTable.previous?_eq_some_iff.mpr
      ⟨_, by omega, chain.stands first firstMember firstStays, ?_⟩
    intro place behind isBefore
    exact chain.between behind isBefore

/-- The token after a member of a chain is the next member. -/
theorem Chain.next?
    (chain : lexer.Chain tokens (before ++ id :: after)) :
    lexer.next? id = after.head? := by
  have present := chain.present id (by simp)
  cases after with
  | nil =>
      have isEnding := chain.isEnding_iff.mpr rfl
      simp only [Lexer.next?, present, isEnding, if_true, List.head?_nil]
  | cons second after =>
      have notEnding := (chain.around.2 second List.mem_cons_self).notEnding
      rcases chain.joined_next with
        ⟨appended, _⟩ | ⟨appended, _, firstStays, secondStays⟩
      · simp only [Lexer.next?, present, if_neg notEnding, appended,
          List.head?_cons]
      · obtain ⟨tied, _, isNext, _⟩ := chain.unlinked firstStays secondStays
        simp only [Lexer.next?, present, if_neg notEnding, appended, tied,
          isNext, Option.isSome_some, if_true, List.head?_cons]

/-- Nothing is known before the first token of a chain. -/
theorem Chain.previous?_first
    (chain : lexer.Chain tokens (id :: after)) :
    lexer.previous? id = none := by
  have present := chain.present id List.mem_cons_self
  have prepended := chain.opens id rfl
  have ordered := (chain.placed id List.mem_cons_self).start_le_stop
  have nothing : lexer.table.previous? (tokens id).start = none := by
    refine OffsetTable.previous?_eq_none_iff.mpr fun place isBefore => ?_
    refine Option.eq_none_iff_forall_ne_some.mpr fun other found => ?_
    obtain ⟨member, _, start⟩ := chain.known place other found
    rcases List.mem_cons.mp member with rfl | isLater
    · omega
    · have precedes := (List.pairwise_cons.mp chain.ordered).1 other isLater
      have := precedes.stop_le_start
      omega
  simp only [previous?, present, prepended, nothing, ite_self]

/-- The token before a member of a chain is the previous member. -/
theorem Chain.previous?
    (chain : lexer.Chain tokens (before ++ id :: after)) :
    lexer.previous? id = before.getLast? := by
  have present := chain.present id (by simp)
  rcases before.eq_nil_or_concat with rfl | ⟨init, first, rfl⟩
  · exact chain.previous?_first
  · rw [List.concat_eq_append, List.append_assoc] at chain
    rw [List.concat_eq_append, List.getLast?_concat]
    rcases chain.joined_next with
      ⟨_, prepended⟩ | ⟨_, prepended, firstStays, secondStays⟩
    · simp only [Lexer.previous?, present, prepended]
    · obtain ⟨_, tied, _, isPrevious⟩ := chain.unlinked firstStays secondStays
      simp only [Lexer.previous?, present, prepended, tied, isPrevious,
        Option.isSome_some, if_true]

/--
A member stands directly behind another exactly if that one stands
directly before it.
-/
theorem Chain.next?_iff
    {ids : List NodeId}
    (chain : lexer.Chain tokens ids)
    (firstMember : first ∈ ids)
    (secondMember : second ∈ ids) :
    lexer.next? first = some second ↔ lexer.previous? second = some first := by
  constructor
  · intro isNext
    obtain ⟨before, after, rfl⟩ := List.append_of_mem firstMember
    rw [chain.next?] at isNext
    obtain ⟨rest, rfl⟩ := List.head?_eq_some_iff.mp isNext
    rw [List.append_cons] at chain
    rw [chain.previous?, List.getLast?_concat]
  · intro isPrevious
    obtain ⟨before, after, rfl⟩ := List.append_of_mem secondMember
    rw [chain.previous?] at isPrevious
    obtain ⟨init, rfl⟩ := List.getLast?_eq_some_iff.mp isPrevious
    rw [List.append_assoc] at chain
    exact chain.next?

/-- Steps forward along a chain give what stands behind, in order. -/
theorem Chain.walk_next?
    (limit : Nat)
    (chain : lexer.Chain tokens (before ++ id :: after)) :
    walk lexer.next? limit id = after.take limit := by
  induction limit generalizing before id after with
  | zero =>
      exact List.take_zero.symm
  | succ limit inductionHypothesis =>
      rw [walk, chain.next?]
      cases after with
      | nil =>
          rfl
      | cons second after =>
          rw [List.append_cons] at chain
          rw [List.take_succ_cons, ← inductionHypothesis chain]
          rfl

/-- Steps back along a chain give what stands before, the nearest first. -/
theorem Chain.walk_previous?
    (limit : Nat)
    (chain : lexer.Chain tokens (before ++ id :: after)) :
    walk lexer.previous? limit id = before.reverse.take limit := by
  induction limit generalizing before id after with
  | zero =>
      exact List.take_zero.symm
  | succ limit inductionHypothesis =>
      rw [walk, chain.previous?]
      rcases before.eq_nil_or_concat with rfl | ⟨init, first, rfl⟩
      · rfl
      · rw [List.concat_eq_append, List.append_assoc] at chain
        rw [List.concat_eq_append, List.getLast?_concat, List.reverse_append,
          List.reverse_singleton, List.singleton_append, List.take_succ_cons,
          ← inductionHypothesis chain]

end Lexer

end Snbt
