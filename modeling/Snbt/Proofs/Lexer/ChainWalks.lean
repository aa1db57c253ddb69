import Mathlib.Data.Finset.Card
import Mathlib.Data.List.Perm.Subperm
import Mathlib.Data.List.Range
import Mathlib.Order.Interval.Finset.Nat
import Snbt.Proofs.Lexer.OrderedEdits

namespace Snbt.Lexer

/-!
# Walks along an ordered chain

A walk along a chain that follows an order meets no token twice, so it ends by
itself.  Tokenizing may scan on its way, and a scan makes up to two tokens;
but it also comes to a stretch behind all before, and of these there are no
more than offsets.
-/

variable {rank newRank : NodeId → ℚ} {lexer after : Lexer}
  {spares : List NodeId} {id other : NodeId} {token next : Token} {limit : Nat}

/-! ## Walking without scanning -/

/-- A token is no end, and another that exists is behind it or the end. -/
def Leads (rank : NodeId → ℚ) (lexer : Lexer) (id other : NodeId) : Prop :=
  lexer.kindOf? id ≠ some .eof ∧ other < lexer.forest.size ∧
    (Before rank lexer.startOf? id other ∨ lexer.kindOf? other = some .eof)

theorem Leads.trans
    {third : NodeId}
    (leads : Leads rank lexer id other)
    (further : Leads rank lexer other third) :
    Leads rank lexer id third := by
  obtain ⟨notEnding, _, isBefore | isEnding⟩ := leads
  · exact ⟨notEnding, further.2.1, further.2.2.imp_left isBefore.trans⟩
  · exact absurd isEnding further.1

theorem Leads.ne
    (leads : Leads rank lexer id other) :
    id ≠ other := by
  rintro rfl
  obtain ⟨notEnding, _, isBefore | isEnding⟩ := leads
  · exact isBefore.irrefl
  · exact notEnding isEnding

theorem OrderedBy.leads
    (ordered : OrderedBy rank lexer spares)
    (isNext : lexer.next? id = some other) :
    Leads rank lexer id other := by
  obtain ⟨token, isToken, notEnding, _⟩ := next?_cases isNext
  obtain ⟨_, next, isNextToken, forward⟩ := ordered.next? isNext
  refine ⟨?_, Forest.lt_size_of_token? isNextToken,
    forward.imp_right fun isEnding => ?_⟩
  · rw [kindOf?_eq_some isToken]
    exact fun isEnding => notEnding (Option.some.inj isEnding)
  · rw [kindOf?_eq_some isNextToken, isEnding]

/-- A walk leads from each of its tokens to all that come later. -/
theorem OrderedBy.pairwise_walk
    (ordered : OrderedBy rank lexer spares)
    (limit : Nat)
    (id : NodeId) :
    (id :: walk lexer.next? limit id).Pairwise (Leads rank lexer) := by
  have chain : (id :: walk lexer.next? limit id).IsChain (Leads rank lexer) :=
    isChain_walk (fun _ _ => ordered.leads) limit id
  have : IsTrans NodeId (Leads rank lexer) := ⟨fun _ _ _ => Leads.trans⟩
  exact List.isChain_iff_pairwise.mp chain

/-- A walk meets no token twice. -/
theorem OrderedBy.nodup_walk
    (ordered : OrderedBy rank lexer spares)
    (limit : Nat)
    (id : NodeId) :
    (id :: walk lexer.next? limit id).Nodup :=
  (ordered.pairwise_walk limit id).imp Leads.ne

/-- A walk is no longer than there are nodes, and so it ends. -/
theorem OrderedBy.length_walk_le
    (ordered : OrderedBy rank lexer spares)
    (limit : Nat)
    (id : NodeId) :
    (walk lexer.next? limit id).length ≤ lexer.forest.size := by
  obtain ⟨leads, _⟩ := List.pairwise_cons.mp (ordered.pairwise_walk limit id)
  have covered : walk lexer.next? limit id ⊆ List.range lexer.forest.size :=
    fun other member => List.mem_range.mpr (leads other member).2.1
  have nodup := (List.nodup_cons.mp (ordered.nodup_walk limit id)).2
  simpa using (nodup.subperm covered).length_le

/-! ## Steps that are left -/

/--
The offsets behind the start of a token; the first of a stretch counts as read.
-/
def offsetsLeft (size : Nat) (token : Token) : Nat :=
  size - token.start - if token.start < token.stop then 1 else 0

/-- The tokens behind a token. -/
def ahead (rank : NodeId → ℚ) (lexer : Lexer) (id : NodeId) : Finset NodeId :=
  (Finset.range lexer.forest.size).filter (Before rank lexer.startOf? id)

/--
A bound on the steps from a token to the
end, if each scan makes at most two tokens.
-/
def stepsLeft
    (rank : NodeId → ℚ)
    (lexer : Lexer)
    (id : NodeId)
    (token : Token) :
    Nat :=
  (ahead rank lexer id).card + 2 * offsetsLeft lexer.buffer.size token

theorem mem_ahead_iff :
    other ∈ ahead rank lexer id ↔ Before rank lexer.startOf? id other := by
  rw [ahead, Finset.mem_filter, Finset.mem_range]
  exact and_iff_right_of_imp fun isBefore => isBefore.lt_size.2

/-- Behind a later token there are fewer. -/
theorem card_ahead_lt
    (isBefore : Before rank lexer.startOf? id other) :
    (ahead rank lexer other).card < (ahead rank lexer id).card := by
  refine Finset.card_lt_card
    (Finset.ssubset_iff_of_subset ?_ |>.mpr ⟨other, ?_, ?_⟩)
  · intro third member
    exact mem_ahead_iff.mpr (isBefore.trans (mem_ahead_iff.mp member))
  · exact mem_ahead_iff.mpr isBefore
  · exact fun member => (mem_ahead_iff.mp member).irrefl

/-- There are at most as many tokens more behind one as have been made. -/
theorem card_ahead_le
    (isToken : lexer.forest.token? id = some token)
    (agrees : ∀ id, id < lexer.forest.size →
      after.startOf? id = lexer.startOf? id ∧ newRank id = rank id) :
    (ahead newRank after id).card ≤
      (ahead rank lexer id).card + (after.forest.size - lexer.forest.size) := by
  have covered : ahead newRank after id ⊆
      ahead rank lexer id ∪ Finset.Ico lexer.forest.size after.forest.size := by
    intro other member
    have isBefore := mem_ahead_iff.mp member
    rw [Finset.mem_union, mem_ahead_iff, Finset.mem_Ico]
    by_cases old : other < lexer.forest.size
    · left
      obtain ⟨sameStart, sameRank⟩ :=
        agrees id (Forest.lt_size_of_token? isToken)
      obtain ⟨sameOther, sameOtherRank⟩ := agrees other old
      exact isBefore.congr ⟨sameStart.symm, sameRank.symm⟩
        ⟨sameOther.symm, sameOtherRank.symm⟩
    · exact .inr ⟨Nat.le_of_not_lt old, isBefore.lt_size.2⟩
  calc (ahead newRank after id).card
      ≤ (ahead rank lexer id ∪ Finset.Ico lexer.forest.size
        after.forest.size).card :=
        Finset.card_le_card covered
    _ ≤ (ahead rank lexer id).card +
        (Finset.Ico lexer.forest.size after.forest.size).card :=
        Finset.card_union_le _ _
    _ = (ahead rank lexer id).card +
        (after.forest.size - lexer.forest.size) := by
        rw [Nat.card_Ico]

theorem stepsLeft_le
    (rank : NodeId → ℚ)
    (lexer : Lexer)
    (id : NodeId)
    (token : Token) :
    stepsLeft rank lexer id token ≤
      lexer.forest.size + 2 * lexer.buffer.size := by
  have fewer : (ahead rank lexer id).card ≤ lexer.forest.size :=
    (Finset.card_filter_le _ _).trans_eq (Finset.card_range _)
  have inside : offsetsLeft lexer.buffer.size token ≤ lexer.buffer.size := by
    rw [offsetsLeft]
    omega
  rw [stepsLeft]
  omega

/-- A step to a later token leaves fewer. -/
theorem OrderedBy.stepsLeft_lt
    (ordered : OrderedBy rank lexer spares)
    (isToken : lexer.forest.token? id = some token)
    (isNext : lexer.forest.token? other = some next)
    (isBefore : Before rank lexer.startOf? id other) :
    stepsLeft rank lexer other next < stepsLeft rank lexer id token := by
  have fewer := card_ahead_lt isBefore
  have further :
      offsetsLeft lexer.buffer.size next ≤
        offsetsLeft lexer.buffer.size token := by
    obtain ⟨_, _, isStart, isLater, forward⟩ := isBefore
    cases isStart.symm.trans (startOf?_eq_some isToken)
    cases isLater.symm.trans (startOf?_eq_some isNext)
    have inside := (ordered.ranked isToken).inside
    rcases forward with forward | ⟨sameStart, forward⟩
    · simp only [offsetsLeft]
      split <;> split <;> omega
    · -- Of two tokens that start together the earlier one is empty.
      have negative := forward.trans_le (ordered.ranked isNext).nonpos
      have isEmpty := (ordered.ranked isToken).empty_of_neg negative
      simp only [offsetsLeft, if_neg (Nat.not_lt.mpr isEmpty.ge)]
      omega
  simp only [stepsLeft]
  omega

/--
A stretch that is scanned behind a token makes up for the tokens
that the scan makes.
-/
theorem OrderedBy.stepsLeft_lt_of_scan
    (ordered : OrderedBy rank lexer spares)
    (orderedAfter : OrderedBy newRank after spares)
    (isToken : lexer.forest.token? id = some token)
    (isNext : after.forest.token? other = some next)
    (agrees : ∀ id, id < lexer.forest.size →
      after.startOf? id = lexer.startOf? id ∧ newRank id = rank id)
    (grown : after.forest.size ≤ lexer.forest.size + 2)
    (sameBuffer : after.buffer = lexer.buffer)
    (behind : token.stop ≤ next.start)
    (nonempty : next.start < next.stop) :
    stepsLeft newRank after other next < stepsLeft rank lexer id token := by
  obtain ⟨sameStart, sameRank⟩ := agrees id (Forest.lt_size_of_token? isToken)
  have tokenRanked := ordered.ranked isToken
  have nextRanked := orderedAfter.ranked isNext
  rw [sameBuffer] at nextRanked
  have isBefore : Before newRank after.startOf? id other := by
    refine ⟨token.start, next.start, sameStart.trans (startOf?_eq_some isToken),
      startOf?_eq_some isNext, ?_⟩
    rw [sameRank]
    exact tokenRanked.before_stretch nextRanked behind nonempty
  have fewer := card_ahead_lt isBefore
  have more := card_ahead_le isToken agrees
  have further :
      offsetsLeft lexer.buffer.size next <
        offsetsLeft lexer.buffer.size token := by
    have inside := nextRanked.inside
    have notBack := tokenRanked.start_le_stop
    simp only [offsetsLeft, if_pos nonempty]
    split <;> omega
  simp only [stepsLeft, sameBuffer]
  omega

/-! ## Tokenizing -/

/--
Where the next token leads: to the end, or to a token with fewer steps left.
-/
structure Nears (lexer : Lexer) (steps : Nat) (spares : List NodeId)
    (result : Lexer × NodeId) :
    Prop where
  sized : result.1.Sized
  next : ∃ rank next, OrderedBy rank result.1 spares ∧
    result.1.forest.token? result.2 = some next ∧
    (next.kind = .eof ∨ stepsLeft rank result.1 result.2 next < steps)

/-- A scan from the end of a token nears the end. -/
theorem OrderedBy.scanAt_nears
    {start : Lexer}
    (ordered : OrderedBy rank lexer spares)
    (isToken : lexer.forest.token? id = some token)
    (continues : Continues lexer rank spares start)
    (steady : lexer.Steady start)
    (sized : lexer.Sized)
    (sameSize : start.forest.size = lexer.forest.size) :
    lexer.Nears (stepsLeft rank lexer id token) spares
      (start.scanAt token.stop) := by
  have scanned := steady.trans (Steady.scanAt start token.stop)
  refine ⟨scanned.sized sized, ?_⟩
  obtain ⟨place, behind, found⟩ := scanAt_found (steady.sized sized) token.stop
  obtain ⟨newRank, orderedAfter, _, agrees⟩ :=
    (Continues.kept lexer rank spares).scanAt token.stop continues
  obtain ⟨_, next, isNext, isStart, nonempty | isEnding⟩ :=
    orderedAfter.entries found
  · refine ⟨newRank, next, orderedAfter, isNext, .inr ?_⟩
    have grown :
        (start.scanAt token.stop).1.forest.size ≤ lexer.forest.size + 2 :=
      sameSize ▸ (start.moveTo token.stop).size_scanNext_le
    have inside := (ordered.ranked isToken).inside
    rw [steady.buffer_eq, Nat.min_eq_left inside] at behind
    exact ordered.stepsLeft_lt_of_scan orderedAfter isToken isNext agrees grown
      scanned.buffer_eq (behind.trans_eq isStart.symm) nonempty
  · exact ⟨newRank, next, orderedAfter, isNext, .inl isEnding⟩

/-- The token after one nears the end. -/
theorem OrderedBy.tokenAfter_nears
    (ordered : OrderedBy rank lexer spares)
    (sized : lexer.Sized)
    (isToken : lexer.forest.token? id = some token) :
    lexer.Nears (stepsLeft rank lexer id token) spares
      (lexer.tokenAfter id token) := by
  have continues : Continues lexer rank spares lexer := ordered.continues
  unfold tokenAfter
  split
  case h_1 known isNext =>
    split
    case isTrue =>
      obtain ⟨_, next, isNextToken, forward⟩ := ordered.next? isNext
      refine ⟨sized, rank, next, ordered, isNextToken,
        forward.symm.imp_right fun isBefore => ?_⟩
      exact ordered.stepsLeft_lt isToken isNextToken isBefore
    case isFalse =>
      have rewound :=
        (Continues.kept lexer rank spares).rewind id token continues
      exact ordered.scanAt_nears isToken rewound
        (Steady.rewind lexer id token) sized Array.size_modify
  case h_2 =>
    exact ordered.scanAt_nears isToken continues (.refl lexer) sized rfl

/--
A walk of tokens comes to the end by itself
if its bound leaves room for all steps.
-/
theorem OrderedBy.tokensFrom_ends
    {bound : Nat}
    (ids : Array NodeId)
    (ordered : OrderedBy rank lexer spares)
    (sized : lexer.Sized)
    (isToken : lexer.forest.token? id = some token)
    (enough :
      token.kind = .eof ∧ 0 < bound ∨
        stepsLeft rank lexer id token + 1 < bound) :
    (∀ more,
      tokensFrom (bound + more) lexer ids id = tokensFrom bound lexer ids id) ∧
      ∃ last, (tokensFrom bound lexer ids id).2.back? = some last ∧
        (tokensFrom bound lexer ids id).1.kindOf? last = some .eof := by
  induction bound generalizing lexer ids id token rank with
  | zero =>
      omega
  | succ bound inductionHypothesis =>
      have unfolded : ∀ bound, tokensFrom (bound + 1) lexer ids id =
          if token.kind = .eof then
            (lexer, ids.push id)
          else
            tokensFrom bound (lexer.tokenAfter id token).1 (ids.push id)
              (lexer.tokenAfter id token).2 := by
        intro bound
        rw [tokensFrom, isToken]
      by_cases isEnding : token.kind = .eof
      · have finished :
            ∀ bound,
              tokensFrom (bound + 1) lexer ids id = (lexer, ids.push id) :=
          fun bound => (unfolded bound).trans (if_pos isEnding)
        refine ⟨fun more => ?_, id, ?_, ?_⟩
        · rw [Nat.add_right_comm, finished, finished]
        · rw [finished]
          exact Array.back?_push
        · rw [finished, kindOf?_eq_some isToken, isEnding]
      · have step : ∀ bound, tokensFrom (bound + 1) lexer ids id =
            tokensFrom bound (lexer.tokenAfter id token).1 (ids.push id)
              (lexer.tokenAfter id token).2 :=
          fun bound => (unfolded bound).trans (if_neg isEnding)
        obtain ⟨sizedAfter, newRank, next, orderedAfter, isNext, nears⟩ :=
          ordered.tokenAfter_nears sized isToken
        have room : next.kind = .eof ∧ 0 < bound ∨
            stepsLeft newRank (lexer.tokenAfter id token).1
              (lexer.tokenAfter id token).2 next + 1 < bound := by
          rcases enough with ⟨impossible, _⟩ | enough
          · exact absurd impossible isEnding
          · rcases nears with isEnding | fewer
            · exact .inl ⟨isEnding, by omega⟩
            · exact .inr (by omega)
        obtain ⟨same, ends⟩ :=
          inductionHypothesis (ids.push id) orderedAfter sizedAfter isNext room
        refine ⟨fun more => ?_, ?_⟩
        · rw [Nat.add_right_comm, step, step]
          exact same more
        · rw [step]
          exact ends

end Snbt.Lexer
