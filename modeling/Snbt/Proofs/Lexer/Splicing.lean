import Mathlib.Data.List.Nodup
import Snbt.Proofs.Lexer.Links
import Snbt.Proofs.Lexer.Splices

namespace Snbt

/-!
# Splicing keeps the chain

Splicing a token in before a member gives the chain with the token there, and
replacing a member gives the chain with its copy in its place: first for the
row of tokens, then for the lexer that links them.
-/

/-- Links that change only at the ends of a list leave its members joined. -/
theorem Joined.isChain_congr
    {tokens others : NodeId → Token}
    {ids : List NodeId}
    (distinct : ids.Nodup)
    (joined : ids.IsChain (Joined tokens))
    (appended : ∀ id ∈ ids, ids.getLast? ≠ some id →
      (others id).appended? = (tokens id).appended?)
    (prepended : ∀ id ∈ ids, ids.head? ≠ some id →
      (others id).prepended? = (tokens id).prepended?)
    (inserted : ∀ id ∈ ids, (others id).inserted = (tokens id).inserted) :
    ids.IsChain (Joined others) := by
  rw [List.isChain_iff_forall_rel_of_append_cons_cons] at joined ⊢
  intro first second before after shape
  have firstMember : first ∈ ids := by
    simp [shape]
  have secondMember : second ∈ ids := by
    simp [shape]
  refine (joined shape).congr (appended first firstMember ?_)
    (prepended second secondMember ?_)
    (inserted first firstMember) (inserted second secondMember)
  · intro isLast
    rw [shape, List.append_cons,
      List.getLast?_append_of_ne_nil _ (List.cons_ne_nil _ _)] at isLast
    rw [shape] at distinct
    have behind := (List.nodup_cons.mp (List.nodup_append.mp distinct).2.1).1
    exact behind (List.mem_of_getLast? isLast)
  · intro isFirst
    rw [shape, List.append_cons,
      List.head?_append_of_ne_nil _ (by simp)] at isFirst
    rw [shape, List.append_cons] at distinct
    have apart := (List.nodup_append.mp distinct).2.2
    exact apart second (List.mem_of_head? isFirst) second List.mem_cons_self rfl

section Inserting

variable {tokens : NodeId → Token} {before after : List NodeId}
  {id inserted other : NodeId} {new : Token} {existing? : Option NodeId}

/-- The tokens after one has been spliced in. -/
def insertedTokens
    (tokens : NodeId → Token)
    (id inserted : NodeId)
    (existing? : Option NodeId)
    (new : Token)
    (other : NodeId) :
    Token :=
  if other = inserted then
    Lexer.placedBefore id (tokens id).start existing? new
  else if other = id then
    { tokens other with prepended? := some inserted }
  else if existing? = some other then
    { tokens other with appended? := some inserted }
  else
    tokens other

theorem insertedTokens_self :
    insertedTokens tokens id inserted existing? new inserted =
      Lexer.placedBefore id (tokens id).start existing? new :=
  if_pos rfl

/-- The others change at most their links. -/
theorem insertedTokens_sameStretch
    (isOther : other ≠ inserted) :
    (insertedTokens tokens id inserted existing? new other).SameStretch
      (tokens other) := by
  rw [insertedTokens, if_neg isOther]
  split
  case isTrue =>
    exact ⟨rfl, rfl, rfl, rfl, rfl⟩
  case isFalse =>
    split
    case isTrue =>
      exact ⟨rfl, rfl, rfl, rfl, rfl⟩
    case isFalse =>
      exact ⟨rfl, rfl, rfl, rfl, rfl⟩

theorem insertedTokens_appended?
    (isOther : other ≠ inserted)
    (notExisting : existing? ≠ some other) :
    (insertedTokens tokens id inserted existing? new other).appended? =
      (tokens other).appended? := by
  rw [insertedTokens, if_neg isOther, if_neg notExisting]
  split <;> rfl

theorem insertedTokens_prepended?
    (isOther : other ≠ inserted)
    (notBefore : other ≠ id) :
    (insertedTokens tokens id inserted existing? new other).prepended? =
      (tokens other).prepended? := by
  rw [insertedTokens, if_neg isOther, if_neg notBefore]
  split <;> rfl

/-- The token before which another is spliced in is linked to it. -/
theorem insertedTokens_before
    (isOther : id ≠ inserted) :
    (insertedTokens tokens id inserted existing? new id).prepended? =
      some inserted := by
  rw [insertedTokens, if_neg isOther, if_pos rfl]

/--
The token that stood there before is linked to the one that is spliced in.
-/
theorem insertedTokens_existing
    (isOther : other ≠ inserted)
    (notBefore : other ≠ id) :
    (insertedTokens tokens id inserted (some other) new other).appended? =
      some inserted := by
  rw [insertedTokens, if_neg isOther, if_neg notBefore, if_pos rfl]

/-- A token that is spliced in is joined to the tokens on both sides. -/
theorem Row.isChain_insert
    (row : Row tokens (before ++ id :: after))
    (notMember : inserted ∉ before ++ id :: after) :
    (before ++ inserted :: id :: after).IsChain
      (Joined (insertedTokens tokens id inserted before.getLast? new)) := by
  obtain ⟨beforeDistinct, behindDistinct, _⟩ :=
    List.nodup_append.mp row.distinct
  obtain ⟨beforeJoined, behindJoined, _⟩ := List.isChain_append.mp row.joined
  obtain ⟨notBefore, notBehind⟩ :=
    not_or.mp fun member => notMember (List.mem_append.mpr member)
  have idNot := ne_of_mem_of_not_mem List.mem_cons_self notBehind
  refine List.isChain_append.mpr ⟨?_, List.isChain_cons.mpr ⟨?_, ?_⟩, ?_⟩
  · refine Joined.isChain_congr beforeDistinct beforeJoined ?_ ?_ ?_
    · intro other member notLast
      exact insertedTokens_appended?
        (ne_of_mem_of_not_mem member notBefore) notLast
    · intro other member _
      refine insertedTokens_prepended?
        (ne_of_mem_of_not_mem member notBefore) ?_
      rintro rfl
      exact row.apart member List.mem_cons_self
    · intro other member
      exact (insertedTokens_sameStretch
        (ne_of_mem_of_not_mem member notBefore)).inserted_eq
  · rintro second ⟨⟩
    exact .inl ⟨congrArg Token.appended? insertedTokens_self,
      insertedTokens_before idNot⟩
  · refine Joined.isChain_congr behindDistinct behindJoined ?_ ?_ ?_
    · intro other member _
      refine insertedTokens_appended?
        (ne_of_mem_of_not_mem member notBehind) fun isLast => ?_
      exact row.apart (List.mem_of_getLast? isLast) member
    · intro other member notFirst
      refine insertedTokens_prepended?
        (ne_of_mem_of_not_mem member notBehind) ?_
      rintro rfl
      exact notFirst rfl
    · intro other member
      exact (insertedTokens_sameStretch
        (ne_of_mem_of_not_mem member notBehind)).inserted_eq
  · rintro first isLast second ⟨⟩
    have isLast : before.getLast? = some first := isLast
    have member := List.mem_of_getLast? isLast
    rw [isLast]
    refine .inl ⟨?_, congrArg Token.prepended? insertedTokens_self⟩
    refine insertedTokens_existing (ne_of_mem_of_not_mem member notBefore) ?_
    rintro rfl
    exact row.apart member List.mem_cons_self

/--
A token that is spliced in starts and stops where the one behind it starts.
-/
theorem Row.ordered_insert
    (row : Row tokens (before ++ id :: after))
    (same : ∀ other ∈ before ++ id :: after,
      (insertedTokens tokens id inserted existing? new other).SameStretch
        (tokens other))
    (notEnding : new.kind ≠ .eof) :
    (before ++ inserted :: id :: after).Pairwise fun first second =>
      (insertedTokens tokens id inserted existing? new first).Precedes
        (insertedTokens tokens id inserted existing? new second) := by
  have unchanged := row.ordered.imp_of_mem fun first second precedes =>
    precedes.congr (same _ first) (same _ second)
  have idMember : id ∈ before ++ id :: after := by
    simp
  have sameStart := (same id idMember).start_eq
  have forward := (row.placed id idMember).start_le_stop
  obtain ⟨beforeOrdered, behindOrdered, across⟩ :=
    List.pairwise_append.mp unchanged
  refine List.pairwise_append.mpr
    ⟨beforeOrdered, List.pairwise_cons.mpr ⟨?_, behindOrdered⟩, ?_⟩
  · intro second member
    rw [insertedTokens_self]
    refine ⟨notEnding, ?_⟩
    rcases List.mem_cons.mp member with rfl | isBehind
    · exact Nat.le_of_eq sameStart.symm
    · have behind := (row.around.2 second isBehind).stop_le_start
      rw [(same second (by simp [isBehind])).start_eq]
      exact forward.trans behind
  · intro first isBefore second member
    rcases List.mem_cons.mp member with rfl | isBehind
    · have precedes := across first isBefore id List.mem_cons_self
      rw [insertedTokens_self]
      exact ⟨precedes.notEnding, precedes.stop_le_start.trans_eq sameStart⟩
    · exact across first isBefore second isBehind

/-- A token that is spliced in before a member stands in the row too. -/
theorem Row.insert
    (row : Row tokens (before ++ id :: after))
    (notMember : inserted ∉ before ++ id :: after)
    (unlinked : new.prepended? = none)
    (notEnding : new.kind ≠ .eof) :
    Row (insertedTokens tokens id inserted before.getLast? new)
      (before ++ inserted :: id :: after) := by
  have same : ∀ other ∈ before ++ id :: after,
      (insertedTokens tokens id inserted before.getLast? new other).SameStretch
        (tokens other) :=
    fun other member =>
      insertedTokens_sameStretch (ne_of_mem_of_not_mem member notMember)
  constructor
  case distinct =>
    exact List.nodup_middle.mpr (List.nodup_cons.mpr ⟨notMember, row.distinct⟩)
  case placed =>
    intro other member
    rcases List.mem_cons.mp (List.perm_middle.mem_iff.mp member)
      with rfl | isOld
    · rw [insertedTokens_self]
      exact ⟨Nat.le_refl _, Bool.noConfusion, Bool.noConfusion⟩
    · exact (row.placed other isOld).congr (same other isOld)
  case ordered =>
    exact row.ordered_insert same notEnding
  case joined =>
    exact row.isChain_insert notMember
  case opens =>
    cases before with
    | nil =>
        rintro other ⟨⟩
        rw [insertedTokens_self]
        exact unlinked
    | cons first rest =>
        rintro other ⟨⟩
        have isOther : first ≠ inserted :=
          ne_of_mem_of_not_mem List.mem_cons_self notMember
        have notBefore : first ≠ id := by
          rintro rfl
          exact row.apart List.mem_cons_self List.mem_cons_self
        rw [insertedTokens_prepended? isOther notBefore]
        exact row.opens first rfl
  case ends =>
    obtain ⟨last, isLast, isEnding⟩ := row.ends
    refine ⟨last, ?_,
      (same last (List.mem_of_getLast? isLast)).kind_eq.trans isEnding⟩
    rw [List.getLast?_append_of_ne_nil _ (List.cons_ne_nil _ _)] at isLast ⊢
    rw [List.getLast?_cons_cons]
    exact isLast

end Inserting

section Replacing

variable {tokens : NodeId → Token} {before after : List NodeId}
  {id replacement other : NodeId} {kind : Kind}

/-- The tokens after one has been replaced. -/
def replacedTokens
    (tokens : NodeId → Token)
    (id replacement : NodeId)
    (kind : Kind)
    (other : NodeId) :
    Token :=
  if other = replacement then
    { tokens id with kind }
  else
    { tokens other with
      prepended? :=
        if (tokens id).appended? = some other then
          some replacement
        else
          (tokens other).prepended?
      appended? :=
        if (tokens id).prepended? = some other then
          some replacement
        else
          (tokens other).appended? }

theorem replacedTokens_self :
    replacedTokens tokens id replacement kind replacement =
      { tokens id with kind } :=
  if_pos rfl

/-- The others change at most their links. -/
theorem replacedTokens_sameStretch
    (isOther : other ≠ replacement) :
    (replacedTokens tokens id replacement kind other).SameStretch
      (tokens other) := by
  rw [replacedTokens, if_neg isOther]
  exact ⟨rfl, rfl, rfl, rfl, rfl⟩

/--
Only the token before the one that is replaced is linked to the copy behind it.
-/
theorem replacedTokens_appended?
    (isOther : other ≠ replacement) :
    (replacedTokens tokens id replacement kind other).appended? =
      if (tokens id).prepended? = some other then
        some replacement
      else
        (tokens other).appended? := by
  rw [replacedTokens, if_neg isOther]

/--
Only the token behind the one that is replaced is linked to the copy before it.
-/
theorem replacedTokens_prepended?
    (isOther : other ≠ replacement) :
    (replacedTokens tokens id replacement kind other).prepended? =
      if (tokens id).appended? = some other then
        some replacement
      else
        (tokens other).prepended? := by
  rw [replacedTokens, if_neg isOther]

/-- What a token was joined to behind it, its copy is joined to. -/
theorem Joined.replaced_first
    (joined : Joined tokens id other)
    (isOther : other ≠ replacement) :
    Joined (replacedTokens tokens id replacement kind) replacement other := by
  rcases joined with
    ⟨appended, prepended⟩ | ⟨appended, prepended, stays, otherStays⟩
  · refine .inl ⟨?_, ?_⟩
    · rw [replacedTokens_self]
      exact appended
    · rw [replacedTokens_prepended? isOther, if_pos appended]
  · refine .inr ⟨?_, ?_, ?_,
      (replacedTokens_sameStretch isOther).inserted_eq.trans otherStays⟩
    · rw [replacedTokens_self]
      exact appended
    · rw [replacedTokens_prepended? isOther, appended]
      exact prepended
    · rw [replacedTokens_self]
      exact stays

/-- What a token was joined to before it, its copy is joined to. -/
theorem Joined.replaced_second
    (joined : Joined tokens other id)
    (isOther : other ≠ replacement) :
    Joined (replacedTokens tokens id replacement kind) other replacement := by
  rcases joined with
    ⟨appended, prepended⟩ | ⟨appended, prepended, otherStays, stays⟩
  · refine .inl ⟨?_, ?_⟩
    · rw [replacedTokens_appended? isOther, if_pos prepended]
    · rw [replacedTokens_self]
      exact prepended
  · refine .inr ⟨?_, ?_,
      (replacedTokens_sameStretch isOther).inserted_eq.trans otherStays, ?_⟩
    · rw [replacedTokens_appended? isOther, prepended]
      exact appended
    · rw [replacedTokens_self]
      exact prepended
    · rw [replacedTokens_self]
      exact stays

/-- The copy of a token is joined to what the token was joined to. -/
theorem Row.isChain_replace
    (row : Row tokens (before ++ id :: after))
    (notMember : replacement ∉ before ++ id :: after)
    (wasStretch : (tokens id).kind ≠ .eof) :
    (before ++ replacement :: after).IsChain
      (Joined (replacedTokens tokens id replacement kind)) := by
  obtain ⟨beforeDistinct, behindDistinct, _⟩ :=
    List.nodup_append.mp row.distinct
  obtain ⟨beforeJoined, behindJoined, meet⟩ := List.isChain_append.mp row.joined
  obtain ⟨first, afterJoined⟩ := List.isChain_cons.mp behindJoined
  have notBefore : replacement ∉ before :=
    fun member => notMember (List.mem_append_left _ member)
  have notAfter : replacement ∉ after :=
    fun member =>
      notMember (List.mem_append_right _ (List.mem_cons_of_mem _ member))
  refine List.isChain_append.mpr ⟨?_, List.isChain_cons.mpr ⟨?_, ?_⟩, ?_⟩
  · refine Joined.isChain_congr beforeDistinct beforeJoined ?_ ?_ ?_
    · intro other member notLast
      rw [replacedTokens_appended? (ne_of_mem_of_not_mem member notBefore),
        if_neg]
      exact fun linked => notLast (row.prepended?_linked linked)
    · intro other member _
      rw [replacedTokens_prepended? (ne_of_mem_of_not_mem member notBefore),
        if_neg]
      intro linked
      have isAfter := List.mem_of_head? (row.appended?_linked wasStretch linked)
      exact row.apart member (List.mem_cons_of_mem _ isAfter)
    · intro other member
      exact (replacedTokens_sameStretch
        (ne_of_mem_of_not_mem member notBefore)).inserted_eq
  · intro second isSecond
    have isOther := ne_of_mem_of_not_mem (List.mem_of_head? isSecond) notAfter
    exact (first second isSecond).replaced_first isOther
  · refine Joined.isChain_congr (List.nodup_cons.mp behindDistinct).2
      afterJoined ?_ ?_ ?_
    · intro other member _
      rw [replacedTokens_appended? (ne_of_mem_of_not_mem member notAfter),
        if_neg]
      intro linked
      have isBefore := List.mem_of_getLast? (row.prepended?_linked linked)
      exact row.apart isBefore (List.mem_cons_of_mem _ member)
    · intro other member notFirst
      rw [replacedTokens_prepended? (ne_of_mem_of_not_mem member notAfter),
        if_neg]
      exact fun linked => notFirst (row.appended?_linked wasStretch linked)
    · intro other member
      exact (replacedTokens_sameStretch
        (ne_of_mem_of_not_mem member notAfter)).inserted_eq
  · rintro other isLast _ ⟨⟩
    have isOther := ne_of_mem_of_not_mem (List.mem_of_getLast? isLast) notBefore
    exact (meet other isLast id rfl).replaced_second isOther

/-- The copy of a token lies where the token lay. -/
theorem Row.ordered_replace
    (row : Row tokens (before ++ id :: after))
    (same : ∀ other ∈ before ++ id :: after,
      (replacedTokens tokens id replacement kind other).SameStretch
        (tokens other))
    (notEnding : kind ≠ .eof) :
    (before ++ replacement :: after).Pairwise fun first second =>
      (replacedTokens tokens id replacement kind first).Precedes
        (replacedTokens tokens id replacement kind second) := by
  have unchanged := row.ordered.imp_of_mem fun first second precedes =>
    precedes.congr (same _ first) (same _ second)
  obtain ⟨earlier, later⟩ := row.around
  obtain ⟨beforeOrdered, behindOrdered, unchangedAcross⟩ :=
    List.pairwise_append.mp unchanged
  refine List.pairwise_append.mpr ⟨beforeOrdered, List.pairwise_cons.mpr
    ⟨?_, (List.pairwise_cons.mp behindOrdered).2⟩, ?_⟩
  · intro second member
    rw [replacedTokens_self]
    refine ⟨notEnding, ?_⟩
    rw [(same second (by simp [member])).start_eq]
    exact (later second member).stop_le_start
  · intro first isBefore second member
    rcases List.mem_cons.mp member with rfl | isBehind
    · have precedes := earlier first isBefore
      have sameFirst := same first (List.mem_append_left _ isBefore)
      rw [replacedTokens_self]
      refine ⟨?_, ?_⟩
      · rw [sameFirst.kind_eq]
        exact precedes.notEnding
      · rw [sameFirst.stop_eq]
        exact precedes.stop_le_start
    · exact unchangedAcross first isBefore second
        (List.mem_cons_of_mem _ isBehind)

/-- The members of a row in which one has been replaced. -/
theorem Row.mem_replace_iff
    (row : Row tokens (before ++ id :: after)) :
    other ∈ before ++ replacement :: after ↔
      other = replacement ∨ other ∈ before ++ id :: after ∧ other ≠ id := by
  obtain ⟨idNotOther, _⟩ :=
    List.nodup_cons.mp (List.nodup_middle.mp row.distinct)
  simp only [List.mem_append, List.mem_cons] at idNotOther ⊢
  grind only

/-- The copy of a member stands in its place in the row. -/
theorem Row.replace
    (row : Row tokens (before ++ id :: after))
    (notMember : replacement ∉ before ++ id :: after)
    (wasStretch : (tokens id).kind ≠ .eof)
    (notEnding : kind ≠ .eof) :
    Row (replacedTokens tokens id replacement kind)
      (before ++ replacement :: after) := by
  have same : ∀ other ∈ before ++ id :: after,
      (replacedTokens tokens id replacement kind other).SameStretch
        (tokens other) :=
    fun other member =>
      replacedTokens_sameStretch (ne_of_mem_of_not_mem member notMember)
  obtain ⟨_, othersDistinct⟩ :=
    List.nodup_cons.mp (List.nodup_middle.mp row.distinct)
  constructor
  case distinct =>
    refine List.nodup_middle.mpr
      (List.nodup_cons.mpr ⟨fun member => ?_, othersDistinct⟩)
    exact notMember
      (List.perm_middle.mem_iff.mpr (List.mem_cons_of_mem _ member))
  case placed =>
    intro other member
    rcases row.mem_replace_iff.mp member with rfl | ⟨isOld, _⟩
    · have placed := row.placed id (by simp)
      rw [replacedTokens_self]
      exact ⟨placed.start_le_stop, placed.scanned,
        fun stays _ => placed.nonempty stays wasStretch⟩
    · exact (row.placed other isOld).congr (same other isOld)
  case ordered =>
    exact row.ordered_replace same notEnding
  case joined =>
    exact row.isChain_replace notMember wasStretch
  case opens =>
    cases before with
    | nil =>
        rintro other ⟨⟩
        rw [replacedTokens_self]
        exact row.opens id rfl
    | cons first rest =>
        rintro other ⟨⟩
        have isOther : first ≠ replacement :=
          ne_of_mem_of_not_mem List.mem_cons_self notMember
        rw [replacedTokens_prepended? isOther, if_neg]
        · exact row.opens first rfl
        · intro linked
          have isAfter :=
            List.mem_of_head? (row.appended?_linked wasStretch linked)
          exact row.apart List.mem_cons_self (List.mem_cons_of_mem _ isAfter)
  case ends =>
    obtain ⟨last, isLast, isEnding⟩ := row.ends
    refine ⟨last, ?_,
      (same last (List.mem_of_getLast? isLast)).kind_eq.trans isEnding⟩
    cases after with
    | nil =>
        exact absurd (row.isEnding_iff.mpr rfl) wasStretch
    | cons second rest =>
        rw [List.getLast?_append_of_ne_nil _ (List.cons_ne_nil _ _),
          List.getLast?_cons_cons] at isLast ⊢
        exact isLast

end Replacing

namespace Lexer

variable {lexer : Lexer} {tokens : NodeId → Token} {before after : List NodeId}
  {id inserted : NodeId} {new : Token} {kind : Kind}

/-- The token that is spliced in before a member is a member too. -/
theorem Chain.insertBefore
    (chain : lexer.Chain tokens (before ++ id :: after))
    (isNew : lexer.forest.token? inserted = some new)
    (notMember : inserted ∉ before ++ id :: after)
    (unlinked : new.prepended? = none)
    (notEnding : new.kind ≠ .eof) :
    (lexer.withInserted id inserted (tokens id).start before.getLast?).Chain
      (insertedTokens tokens id inserted before.getLast? new)
      (before ++ inserted :: id :: after) := by
  have notOther : ∀ other ∈ before ++ id :: after, other ≠ inserted :=
    fun _ member => ne_of_mem_of_not_mem member notMember
  have same : ∀ other ∈ before ++ id :: after,
      (insertedTokens tokens id inserted before.getLast? new other).SameStretch
        (tokens other) :=
    fun other member => insertedTokens_sameStretch (notOther other member)
  -- the three tokens whose links are written are different ones
  have notExisting : before.getLast? ≠ some inserted :=
    fun isLast =>
      notMember (List.mem_append_left _ (List.mem_of_getLast? isLast))
  have notLast : before.getLast? ≠ some id :=
    fun isLast => chain.apart (List.mem_of_getLast? isLast) List.mem_cons_self
  have table :
      (lexer.withInserted id inserted (tokens id).start before.getLast?).table =
      lexer.table := by
    obtain ⟨_, unchanged⟩ :=
      lexer.withInserted_same id inserted (tokens id).start before.getLast?
    rw [unchanged]
  refine { chain.toRow.insert notMember unlinked notEnding with
    present := ?present, stands := ?stands, known := ?known }
  case present =>
    intro other member
    rw [token?_withInserted (notOther id (by simp)).symm notExisting notLast]
    rcases List.mem_cons.mp (List.perm_middle.mem_iff.mp member)
      with rfl | isOld
    · rw [if_pos rfl, isNew, insertedTokens_self]
      rfl
    · rw [if_neg (notOther other isOld), chain.present other isOld,
        insertedTokens, if_neg (notOther other isOld), apply_ite some,
        apply_ite some]
      rfl
  case stands =>
    intro other member stays
    rcases List.mem_cons.mp (List.perm_middle.mem_iff.mp member)
      with rfl | isOld
    · rw [insertedTokens_self] at stays
      cases stays
    · rw [(same other isOld).start_eq, table]
      rw [(same other isOld).inserted_eq] at stays
      exact chain.stands other isOld stays
  case known =>
    intro place other found
    rw [table] at found
    obtain ⟨isOld, stays, start⟩ := chain.known place other found
    exact ⟨List.perm_middle.mem_iff.mpr (List.mem_cons_of_mem _ isOld),
      (same other isOld).inserted_eq.trans stays,
      (same other isOld).start_eq.trans start⟩

/--
A copy is put where the token that it replaces stands; one of an
inserted token is not.
-/
theorem replaceKind_entries
    {token : Token}
    (present : lexer.forest.token? id = some token)
    (stands :
      token.inserted = false → lexer.table.tokenAt? token.start = some id)
    (isCopy :
      (lexer.withReplacement token kind).forest.token? lexer.forest.size =
      some { token with kind }) :
    ∃ next, lexer.replaceKind id kind = .ok (next, lexer.forest.size) ∧
      next.forest = (lexer.withReplacement token kind).forest ∧
      ∀ place, next.table.tokenAt? place =
        if token.inserted = false ∧ place = token.start then
          some lexer.forest.size
        else
          lexer.table.tokenAt? place := by
  obtain ⟨forest, same⟩ := lexer.withReplacement_same token kind
  rw [replaceKind_of_token present]
  cases inserted : token.inserted with
  | true =>
      refine ⟨_, rfl, rfl, ?_⟩
      intro place
      rw [same]
      simp
  | false =>
      have remembered :
          (lexer.withReplacement token kind).remember lexer.forest.size =
            { lexer with
              forest := (lexer.withReplacement token kind).forest
              table := lexer.table.put token.start lexer.forest.size } := by
        rw [remember, anchorWithin?, isCopy]
        simp only [inserted]
        rw [same]
        rfl
      have admits := OffsetTable.admits_of_tokenAt? (stands inserted)
      rw [if_neg Bool.false_ne_true, remembered]
      refine ⟨_, rfl, rfl, ?_⟩
      intro place
      simp only [true_and]
      exact OffsetTable.tokenAt?_put admits

/-- The copy of a member takes its place in the chain. -/
theorem Chain.replaceKind
    (chain : lexer.Chain tokens (before ++ id :: after))
    (wasStretch : (tokens id).kind ≠ .eof)
    (notEnding : kind ≠ .eof) :
    ∃ next, lexer.replaceKind id kind = .ok (next, lexer.forest.size) ∧
      next.forest = (lexer.withReplacement (tokens id) kind).forest ∧
      next.Chain (replacedTokens tokens id lexer.forest.size kind)
        (before ++ lexer.forest.size :: after) := by
  have idMember : id ∈ before ++ id :: after := by
    simp
  have notMember := chain.size_notMem
  have notOther : ∀ other ∈ before ++ id :: after, other ≠ lexer.forest.size :=
    fun _ member => ne_of_mem_of_not_mem member notMember
  have same : ∀ other ∈ before ++ id :: after,
      (replacedTokens tokens id lexer.forest.size kind other).SameStretch
        (tokens other) :=
    fun other member => replacedTokens_sameStretch (notOther other member)
  obtain ⟨notNext, notPrevious⟩ :=
    chain.not_linked_of_notMem wasStretch notMember
  have present := token?_withReplacement notNext notPrevious kind
  have isCopy := (present lexer.forest.size).trans (if_pos rfl)
  obtain ⟨final, answered, forestEq, entries⟩ :=
    replaceKind_entries (chain.present id idMember)
      (chain.stands id idMember) isCopy
  refine ⟨final, answered, forestEq, ?_⟩
  refine { chain.toRow.replace notMember wasStretch notEnding with
    present := ?present, stands := ?stands, known := ?known }
  case present =>
    intro other member
    rw [forestEq, present]
    rcases chain.mem_replace_iff.mp member with rfl | ⟨isOld, _⟩
    · rw [if_pos rfl, replacedTokens_self]
    · rw [if_neg (notOther other isOld), chain.present other isOld,
        replacedTokens, if_neg (notOther other isOld)]
      rfl
  case stands =>
    intro other member stays
    rcases chain.mem_replace_iff.mp member with rfl | ⟨isOld, notId⟩
    · rw [replacedTokens_self] at stays ⊢
      rw [entries, if_pos ⟨stays, rfl⟩]
    · rw [(same other isOld).inserted_eq] at stays
      have stands := chain.stands other isOld stays
      rw [(same other isOld).start_eq, entries, if_neg]
      · exact stands
      · rintro ⟨idStays, sameStart⟩
        rw [sameStart, chain.stands id idMember idStays] at stands
        exact notId (Option.some.inj stands).symm
  case known =>
    intro place other found
    rw [entries] at found
    split at found
    case isTrue here =>
      cases found
      rw [replacedTokens_self]
      exact ⟨chain.mem_replace_iff.mpr (.inl rfl), here.1, here.2.symm⟩
    case isFalse elsewhere =>
      obtain ⟨isOld, stays, start⟩ := chain.known place other found
      have notId : other ≠ id := by
        rintro rfl
        exact elsewhere ⟨stays, start.symm⟩
      exact ⟨chain.mem_replace_iff.mpr (.inr ⟨isOld, notId⟩),
        (same other isOld).inserted_eq.trans stays,
        (same other isOld).start_eq.trans start⟩

end Lexer

end Snbt
