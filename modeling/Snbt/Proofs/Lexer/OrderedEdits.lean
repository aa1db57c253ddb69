import Snbt.Proofs.Lexer.ChainOrder
import Snbt.Proofs.Lexer.Edits

namespace Snbt.Lexer

/-!
# Edits of an ordered chain

Scanning, going back and taking lines out keep an order of the chain, and
tokens that there were keep their rank in it.  A fresh token that is spliced in
gets a rank between those of its neighbours, and a copy of a token gets the
rank of the token that it replaces.
-/

variable {rank : NodeId → ℚ} {lexer after : Lexer} {spares : List NodeId}
  {id : NodeId} {token : Token} {result : Lexer × NodeId}

/-! ## Scanning and going back -/

/-- The token of a lexeme has a rank. -/
theorem exists_isRanked
    {lexeme : Lexeme}
    {size : Nat}
    (lies : lexeme.Lies size) :
    ∃ lexemeRank, IsRanked lexeme.token size lexemeRank := by
  rcases Nat.lt_or_eq_of_le lies.start_le_stop with nonempty | isEmpty
  · exact ⟨0, lies.stop_le_size, .inl ⟨nonempty, rfl⟩⟩
  · exact ⟨-1, lies.stop_le_size, .inr ⟨isEmpty, by norm_num⟩⟩

/-- The token of a lexeme is not empty, or it is the end. -/
theorem nonempty_or_ending
    {lexeme : Lexeme}
    {size : Nat}
    (lies : lexeme.Lies size) :
    lexeme.token.start < lexeme.token.stop ∨ lexeme.token.kind = .eof := by
  by_cases isEnding : lexeme.kind = .eof
  · exact .inr isEnding
  · exact .inl (lies.stretch isEnding).1

/--
The order of an earlier lexer still holds, and tokens may have been made since.
-/
def Continues
    (base : Lexer)
    (rank : NodeId → ℚ)
    (spares : List NodeId)
    (lexer : Lexer) :
    Prop :=
  ∃ newRank, OrderedBy newRank lexer spares ∧
    base.forest.size ≤ lexer.forest.size ∧
    ∀ id, id < base.forest.size →
      lexer.startOf? id = base.startOf? id ∧ newRank id = rank id

theorem OrderedBy.continues
    (ordered : OrderedBy rank lexer spares) :
    Continues lexer rank spares lexer :=
  ⟨rank, ordered, Nat.le_refl _, fun _ _ => ⟨rfl, rfl⟩⟩

theorem Continues.ordered
    {base : Lexer}
    (continues : Continues base rank spares lexer) :
    ∃ newRank, OrderedBy newRank lexer spares := by
  obtain ⟨newRank, ordered, _⟩ := continues
  exact ⟨newRank, ordered⟩

/-- Pulling tokens, going back and taking lines out keep an order. -/
theorem Continues.kept
    (base : Lexer)
    (rank : NodeId → ℚ)
    (spares : List NodeId) :
    Kept (Continues base rank spares) where
  moved _ := by
    rintro ⟨newRank, ordered, agrees⟩
    exact ⟨newRank,
      ⟨ordered.ranked, ordered.links, ordered.entries, ordered.made⟩, agrees⟩
  tuned _ _ := by
    rintro ⟨newRank, ordered, agrees⟩
    exact ⟨newRank,
      ⟨ordered.ranked, ordered.links, ordered.entries, ordered.made⟩, agrees⟩
  fewer fewer := by
    rintro ⟨newRank, ordered, agrees⟩
    exact ⟨newRank, ⟨ordered.ranked, ordered.links,
      fun found => ordered.entries (fewer _ _ found), ordered.made⟩, agrees⟩
  made {lexer lexeme table} lies entries := by
    rintro ⟨newRank, ordered, grown, agrees⟩
    obtain ⟨lexemeRank, ranked⟩ := exists_isRanked lies
    refine ⟨_, ordered.push ranked nofun nofun fun found => ?_, ?_, ?_⟩
    · rcases entries _ _ found with ⟨start, isNew⟩ | wasFound
      · exact .inr ⟨isNew, start, nonempty_or_ending lies⟩
      · exact .inl wasFound
    · exact grown.trans ((Nat.le_succ _).trans_eq (Array.size_push _).symm)
    · intro id old
      obtain ⟨sameStart, sameRank⟩ := agrees id old
      have notNew : id ≠ lexer.forest.size := by omega
      have stays := (lexer.forest.token?_push lexeme.token
        (lexer.roles.role lexeme.kind = .unparsed) id).trans (if_neg notNew)
      refine ⟨(congrArg (Option.map _) stays).trans sameStart, ?_⟩
      rw [Function.update_of_ne notNew, sameRank]
  cut id := by
    rintro ⟨newRank, ordered, grown, agrees⟩
    refine ⟨newRank,
      ordered.relink (fun _ => ⟨rfl, rfl, rfl⟩) fun isLinked => .inl ?_, ?_, ?_⟩
    · rcases linksTo_updateToken isLinked with
        wasLinked | ⟨_, _, _, ⟨⟩⟩ | ⟨rfl, token, isToken, wasLinked⟩
      · exact wasLinked
      · exact .inr ⟨token, isToken, wasLinked⟩
    · exact grown.trans_eq Array.size_modify.symm
    · intro other old
      obtain ⟨sameStart, sameRank⟩ := agrees other old
      refine ⟨(congrFun (startOf?_updateToken _ id ?_) other).trans sameStart,
        sameRank⟩
      exact fun _ => rfl

/-! ## Splicing and replacing -/

namespace OrderedBy

/-- There is room for a token directly before another. -/
theorem exists_rank
    (ordered : OrderedBy rank lexer spares)
    (isToken : lexer.forest.token? id = some token) :
    ∃ placedRank, placedRank < rank id ∧
      ∀ existing, lexer.previous? id = some existing →
      lexer.startOf? existing = some token.start →
      rank existing < placedRank := by
  cases isPrevious : lexer.previous? id with
  | none =>
      exact ⟨rank id - 1, sub_one_lt _, nofun⟩
  | some existing =>
      by_cases same : lexer.startOf? existing = some token.start
      · obtain ⟨_, _, isStart, isLater, forward⟩ :=
          (ordered.previous? isPrevious).1
        cases isStart.symm.trans same
        cases isLater.symm.trans (startOf?_eq_some isToken)
        obtain ⟨placedRank, above, below⟩ :=
          exists_between (forward.resolve_left (Nat.lt_irrefl _)).2
        exact ⟨placedRank, below, by rintro _ ⟨⟩ _; exact above⟩
      · exact ⟨rank id - 1, sub_one_lt _,
          by rintro _ ⟨⟩ isStart; exact absurd isStart same⟩

theorem sparesLeft_subset
    (spares : List NodeId)
    (id inserted : NodeId) :
    sparesLeft spares id inserted ⊆ spares :=
  List.filter_sublist.subset

theorem not_mem_sparesLeft
    (spares : List NodeId)
    (id inserted : NodeId) :
    id ∉ sparesLeft spares id inserted ∧
      inserted ∉ sparesLeft spares id inserted := by
  simp [sparesLeft]

/-- A spare token is placed before another, where there is room for it. -/
theorem place
    {inserted : NodeId}
    {placedRank : ℚ}
    (ordered : OrderedBy rank lexer spares)
    (isSpare : inserted ∈ spares)
    (isToken : lexer.forest.token? id = some token)
    (apart : inserted ≠ id)
    (below : placedRank < rank id)
    (above : ∀ existing, lexer.previous? id = some existing →
      lexer.startOf? existing = some token.start → rank existing < placedRank) :
    OrderedBy (Function.update rank inserted placedRank)
      (lexer.updateToken inserted
        (placedBefore id token.start (lexer.previous? id)))
      (sparesLeft spares id inserted) := by
  obtain ⟨idNotLeft, insertedNotLeft⟩ := not_mem_sparesLeft spares id inserted
  obtain ⟨new, isNew⟩ := ordered.made isSpare
  have changed := lexer.forest.token?_updateToken inserted
    (placedBefore id token.start (lexer.previous? id))
  have isStart : (lexer.updateToken inserted
      (placedBefore id token.start (lexer.previous? id))).startOf? inserted =
        some token.start := by
    rw [startOf?, updateToken, changed, if_pos rfl, isNew]
    rfl
  have isOther : ∀ {other}, other ≠ inserted →
      (lexer.updateToken inserted
        (placedBefore id token.start (lexer.previous? id))).forest.token?
        other =
          lexer.forest.token? other ∧
        Function.update rank inserted placedRank other = rank other := by
    intro other notInserted
    exact ⟨(changed other).trans (if_neg notInserted.symm),
      Function.update_of_ne notInserted _ _⟩
  refine ordered.of_stays (sparesLeft_subset spares id inserted) ?stays ?ranked
    ?links .inl ?made
  case stays =>
    intro other present isPresent notSpare
    have notInserted : other ≠ inserted :=
      ne_of_mem_of_not_mem isSpare notSpare |>.symm
    obtain ⟨stays, sameRank⟩ := isOther notInserted
    exact ⟨sameRank, present, stays.trans isPresent, rfl, rfl, rfl⟩
  case ranked =>
    intro other present isPresent
    rw [updateToken, changed] at isPresent
    split at isPresent
    case isTrue here =>
      obtain ⟨_, _, rfl⟩ := Option.map_eq_some_iff.mp isPresent
      obtain ⟨inside, stretch⟩ := ordered.ranked isToken
      rw [← here, Function.update_self]
      -- It is empty now, and its rank is below one that is at most zero.
      rcases stretch with ⟨nonempty, isZero⟩ | ⟨isEmpty, negative⟩
      · exact ⟨(Nat.le_of_lt nonempty).trans inside,
          .inr ⟨rfl, below.trans_eq isZero⟩⟩
      · exact ⟨isEmpty.le.trans inside, .inr ⟨rfl, below.trans negative⟩⟩
    case isFalse notInserted =>
      rw [(isOther (Ne.symm notInserted)).2]
      exact ordered.ranked isPresent
  case links =>
    intro first second isLinked
    rcases linksTo_updateToken isLinked with
      wasLinked | ⟨rfl, _, _, ⟨⟩⟩ | ⟨rfl, old, isOld, isPrevious⟩
    · exact .inl wasLinked
    · obtain ⟨stays, sameRank⟩ := isOther apart.symm
      refine .inr ⟨⟨_, _, isStart, (congrArg (Option.map _) stays).trans
        (startOf?_eq_some isToken), .inr ⟨rfl, ?_⟩⟩, insertedNotLeft, idNotLeft⟩
      rwa [Function.update_self, sameRank]
    · rcases Option.or_eq_some_iff.mp isPrevious with
        isExisting | ⟨_, wasLinked⟩
      · obtain ⟨⟨earlier, _, isEarlier, isLater, forward⟩, notSpare⟩ :=
          ordered.previous? isExisting
        obtain ⟨stays, sameRank⟩ :=
          isOther (ne_of_mem_of_not_mem isSpare notSpare).symm
        cases isLater.symm.trans (startOf?_eq_some isToken)
        refine .inr
          ⟨⟨earlier, _, (congrArg (Option.map _) stays).trans isEarlier,
            isStart, forward.imp_right fun same => ?_⟩,
          fun member => notSpare (sparesLeft_subset spares id _ member),
          insertedNotLeft⟩
        rw [Function.update_self, sameRank]
        exact ⟨same.1, above first isExisting (same.1 ▸ isEarlier)⟩
      · -- Without a token before the place, an older link would stay.
        exact .inl (.inr ⟨old, isOld, wasLinked⟩)
  case made =>
    intro other member
    obtain ⟨present, isPresent⟩ :=
      ordered.made (sparesLeft_subset spares id inserted member)
    have notInserted : other ≠ inserted :=
      ne_of_mem_of_not_mem member insertedNotLeft
    exact ⟨present, (isOther notInserted).1.trans isPresent⟩

/-- A spare token is spliced in before any other token. -/
theorem insertBefore
    {inserted : NodeId}
    (ordered : OrderedBy rank lexer spares)
    (isSpare : inserted ∈ spares)
    (apart : inserted ≠ id)
    (answered : lexer.insertBefore id inserted = .ok after) :
    ∃ newRank, OrderedBy newRank after (sparesLeft spares id inserted) := by
  rcases insertBefore_cases answered with
    rfl | ⟨token, new, isToken, isNew, rfl⟩
  · exact ⟨rank, ordered.fewerSpares (sparesLeft_subset spares id inserted)⟩
  obtain ⟨placedRank, below, above⟩ := ordered.exists_rank isToken
  have placed := ordered.place isSpare isToken apart below above
  have isPlaced : (lexer.updateToken inserted
      (placedBefore id token.start (lexer.previous? id))).forest.token?
      inserted =
        some (placedBefore id token.start (lexer.previous? id) new) :=
    Forest.token?_updateToken_self _ isNew
  obtain ⟨isBefore, notSpare, idNotSpare⟩ :=
    placed.links (.inl ⟨_, isPlaced, rfl⟩)
  have existingBefore : ∀ existing, lexer.previous? id = some existing →
      Before (Function.update rank inserted placedRank)
        (lexer.updateToken inserted
          (placedBefore id token.start (lexer.previous? id))).startOf?
          existing inserted ∧
        existing ∉ sparesLeft spares id inserted := by
    intro existing isPrevious
    have isLinked :
        (placedBefore id token.start (lexer.previous? id) new).prepended? =
        some existing := by
      rw [placedBefore, isPrevious, Option.some_or]
    obtain ⟨isBefore, existingNotSpare, _⟩ :=
      placed.links (.inr ⟨_, isPlaced, isLinked⟩)
    exact ⟨isBefore, existingNotSpare⟩
  obtain ⟨linked, sameStarts⟩ :=
    placed.linkBehind (lexer.previous? id) notSpare existingBefore
  refine ⟨_, (linked.linkBefore (some id) notSpare ?_).1⟩
  rintro _ ⟨⟩
  rw [sameStarts]
  exact ⟨isBefore, idNotSpare⟩

/--
A token that was not spliced in is put where it starts if the order allows.
-/
theorem remember
    (ordered : OrderedBy rank lexer spares)
    (isToken : lexer.forest.token? id = some token)
    (notInserted : token.inserted = false)
    (notSpare : id ∉ spares)
    (nonempty : token.start < token.stop ∨ token.kind = .eof) :
    OrderedBy rank (lexer.remember id) spares := by
  rw [remember_of_token isToken notInserted]
  refine ⟨ordered.ranked, ordered.links, fun found => ?_, ordered.made⟩
  rcases tokenAt?_put_cases found with ⟨rfl, rfl⟩ | wasFound
  · exact ⟨notSpare, token, isToken, rfl, nonempty⟩
  · exact ordered.entries wasFound

/-- A copy of a token takes over its links and its rank. -/
theorem withReplacement
    (kind : Kind)
    (ordered : OrderedBy rank lexer spares)
    (isToken : lexer.forest.token? id = some token) :
    OrderedBy (Function.update rank lexer.forest.size (rank id))
        (lexer.withReplacement token kind) spares ∧
      (lexer.withReplacement token kind).forest.token? lexer.forest.size =
        some { token with kind } := by
  have isStart := startOf?_eq_some isToken
  have copied :
      OrderedBy (Function.update rank lexer.forest.size (rank id))
        (lexer.addToken { token with kind }
          (lexer.roles.role kind = .unparsed)).1 spares := by
    obtain ⟨inside, stretch⟩ := ordered.ranked isToken
    refine ordered.push ⟨inside, stretch⟩ (fun isLinked => ?_)
      (fun isLinked => ?_) .inl
    · obtain ⟨⟨start, later, isFirst, isLater, forward⟩, _, notSpare⟩ :=
        ordered.links (.inl ⟨token, isToken, isLinked⟩)
      cases isFirst.symm.trans isStart
      exact ⟨later, isLater, notSpare, forward⟩
    · obtain ⟨⟨earlier, start, isEarlier, isSecond, forward⟩, notSpare, _⟩ :=
        ordered.links (.inr ⟨token, isToken, isLinked⟩)
      cases isSecond.symm.trans isStart
      exact ⟨earlier, isEarlier, notSpare, forward⟩
  have isCopy := (lexer.forest.token?_push { token with kind }
    (lexer.roles.role kind = .unparsed) lexer.forest.size).trans (if_pos rfl)
  obtain ⟨linked, sameStarts⟩ :=
    copied.linkBefore token.appended? ordered.size_not_mem
    fun next isNext => by
      obtain ⟨isBefore, _, notSpare⟩ := copied.links (.inl ⟨_, isCopy, isNext⟩)
      exact ⟨isBefore, notSpare⟩
  refine ⟨(linked.linkBehind token.prepended?
    ordered.size_not_mem fun previous isPrevious => ?_).1, ?_⟩
  · obtain ⟨isBefore, notSpare, _⟩ :=
      copied.links (.inr ⟨_, isCopy, isPrevious⟩)
    rw [sameStarts]
    exact ⟨isBefore, notSpare⟩
  · refine (token?_withReplacement (fun isSize => ?_) (fun isSize => ?_) kind
      _).trans (if_pos rfl)
    · exact Nat.lt_irrefl _
        (ordered.links (.inl ⟨token, isToken, isSize⟩)).1.lt_size.2
    · exact Nat.lt_irrefl _
        (ordered.links (.inr ⟨token, isToken, isSize⟩)).1.lt_size.1

/--
A token is replaced, if it was spliced in
or its copy may be put into the table.
-/
theorem replaceKind
    {kind : Kind}
    (ordered : OrderedBy rank lexer spares)
    (isToken : lexer.forest.token? id = some token)
    (mayReplace :
      token.inserted = true ∨ token.start < token.stop ∨ kind = .eof)
    (answered : lexer.replaceKind id kind = .ok result) :
    ∃ newRank, OrderedBy newRank result.1 spares := by
  obtain ⟨replaced, isCopy⟩ := ordered.withReplacement kind isToken
  rw [replaceKind_of_token isToken, Except.ok.injEq] at answered
  rw [← answered]
  split
  case isTrue =>
    exact ⟨_, replaced⟩
  case isFalse notInserted =>
    refine ⟨_, replaced.remember isCopy ?_ ordered.size_not_mem ?_⟩
    · exact Bool.eq_false_of_not_eq_true notInserted
    · exact mayReplace.resolve_left notInserted

end OrderedBy

end Snbt.Lexer
