import Snbt.Proofs.Lexer.Edits
import Snbt.Proofs.Lexer.Neighbours

namespace Snbt.Lexer

/-!
# Links into lines that are taken out

A mask drops the entries of the table that it hides, but no link.  Links
are only ever set with a token that is spliced in on one side, so a walk
comes to a token of a line that is taken out only over the link of such a
token, directly from it.
-/

variable {settings : LexerSettings} {buffer : Buffer} {masks : List LineMask}
  {lexer before after : Lexer} {id other : NodeId} {token : Token}
  {result : Lexer × NodeId}

/--
A token may be linked to another that exists if one of both was spliced in.
-/
def MayLink (lexer : Lexer) (token : Token) (other : NodeId) : Prop :=
  ∃ neighbour, lexer.forest.token? other = some neighbour ∧
    (token.inserted = true ∨ neighbour.inserted = true)

/--
Links are only between tokens that may be linked.  A token that was not spliced
in stands in the table only where it starts.
-/
structure WellLinked (lexer : Lexer) : Prop where
  links :
    ∀ {id token other}, lexer.forest.token? id = some token →
      IsLinked token other →
    lexer.MayLink token other
  entries : ∀ {place id}, lexer.table.tokenAt? place = some id →
    ∃ token, lexer.forest.token? id = some token ∧
      (token.inserted = false → token.start = place)

/--
A token that was scanned and not spliced in starts in a line that is taken out.
-/
def IsMasked (lexer : Lexer) (id : NodeId) : Prop :=
  ∃ token, lexer.forest.token? id = some token ∧ token.scanned = true ∧
    token.inserted = false ∧ lexer.table.isHidden token.start = true

/--
The tokens that there are stay, where they are unless they are spliced in.
-/
def KeepsPlaces (before after : Lexer) : Prop :=
  ∀ id token, before.forest.token? id = some token →
    ∃ later, after.forest.token? id = some later ∧
      (later.inserted = false →
        token.inserted = false ∧ later.start = token.start)

/-- What may be linked may be so as long as tokens stay. -/
theorem KeepsPlaces.mayLink
    (keeps : before.KeepsPlaces after)
    (mayLink : before.MayLink token other) :
    after.MayLink token other := by
  obtain ⟨neighbour, isNeighbour, inserted⟩ := mayLink
  obtain ⟨later, isLater, same⟩ := keeps _ _ isNeighbour
  refine ⟨later, isLater, inserted.imp_right fun inserted => ?_⟩
  by_contra notInserted
  rw [(same (Bool.eq_false_of_not_eq_true notInserted)).1] at inserted
  cases inserted

theorem keepsPlaces_updateToken
    {change : Token → Token}
    (lexer : Lexer)
    (id : NodeId)
    (inserts : ∀ token, (change token).inserted = false →
      token.inserted = false ∧ (change token).start = token.start) :
    lexer.KeepsPlaces (lexer.updateToken id change) := by
  intro other token isToken
  by_cases here : id = other
  · subst here
    exact ⟨change token, Forest.token?_updateToken_self change isToken,
      inserts token⟩
  · refine ⟨token, ?_, fun notInserted => ⟨notInserted, rfl⟩⟩
    exact ((lexer.forest.token?_updateToken id change other).trans
      (if_neg here)).trans isToken

namespace WellLinked

/-- Where tokens stay, only new links and new entries are left to be checked. -/
theorem of_keepsPlaces
    (wellLinked : before.WellLinked)
    (keeps : before.KeepsPlaces after)
    (links :
      ∀ {id token other}, after.forest.token? id = some token →
        IsLinked token other →
      after.MayLink token other)
    (entries : ∀ {place id}, after.table.tokenAt? place = some id →
      before.table.tokenAt? place = some id ∨
        ∃ token, after.forest.token? id = some token ∧ token.start = place) :
    after.WellLinked := by
  refine ⟨links, fun {place id} found => ?_⟩
  rcases entries found with wasFound | ⟨token, isToken, start⟩
  · obtain ⟨token, isToken, start⟩ := wellLinked.entries wasFound
    obtain ⟨later, isLater, same⟩ := keeps _ _ isToken
    refine ⟨later, isLater, fun notInserted => ?_⟩
    obtain ⟨wasNotInserted, sameStart⟩ := same notInserted
    exact sameStart.trans (start wasNotInserted)
  · exact ⟨token, isToken, fun _ => start⟩

/-- A token is changed into one whose links may be. -/
theorem updateToken
    {change : Token → Token}
    (wellLinked : lexer.WellLinked)
    (inserts : ∀ token, (change token).inserted = false →
      token.inserted = false ∧ (change token).start = token.start)
    (links : ∀ {token other}, lexer.forest.token? id = some token →
      IsLinked (change token) other → lexer.MayLink (change token) other) :
    (lexer.updateToken id change).WellLinked := by
  have keeps := lexer.keepsPlaces_updateToken id inserts
  refine wellLinked.of_keepsPlaces keeps ?_ .inl
  intro other token linked isToken isLinked
  rw [Lexer.updateToken, Forest.token?_updateToken] at isToken
  split at isToken
  case isTrue here =>
    obtain ⟨old, isOld, rfl⟩ := Option.map_eq_some_iff.mp isToken
    exact keeps.mayLink (links (here ▸ isOld) isLinked)
  case isFalse =>
    exact keeps.mayLink (wellLinked.links isToken isLinked)

/--
A token is made, linked to nothing but what it may be linked to, and
put where it starts.
-/
theorem push
    {unparsed : Bool}
    {table : OffsetTable}
    (wellLinked : lexer.WellLinked)
    (links : ∀ {other}, IsLinked token other → lexer.MayLink token other)
    (entries : ∀ {place id}, table.tokenAt? place = some id →
      lexer.table.tokenAt? place = some id ∨
        id = lexer.forest.size ∧ place = token.start) :
    { lexer with
      forest := lexer.forest.push (.token token) unparsed
      table }.WellLinked := by
  have made := lexer.forest.token?_push token unparsed
  have keeps : lexer.KeepsPlaces
      { lexer with
        forest := lexer.forest.push (.token token) unparsed
        table } := by
    intro other present isToken
    refine ⟨present, (made other).trans ?_,
      fun notInserted => ⟨notInserted, rfl⟩⟩
    rw [if_neg (Nat.ne_of_lt (Forest.lt_size_of_token? isToken))]
    exact isToken
  refine wellLinked.of_keepsPlaces keeps ?_ ?_
  · intro id present other isToken isLinked
    rw [made] at isToken
    split at isToken
    case isTrue =>
      cases isToken
      exact keeps.mayLink (links isLinked)
    case isFalse =>
      exact keeps.mayLink (wellLinked.links isToken isLinked)
  · intro place id found
    refine (entries found).imp_right fun ⟨isNew, start⟩ =>
      ⟨token, ?_, start.symm⟩
    exact (made id).trans (if_pos isNew)

/-- A neighbour in the table exists. -/
theorem exists_of_tokenAt?
    {place : Nat}
    (wellLinked : lexer.WellLinked)
    (found : lexer.table.tokenAt? place = some id) :
    ∃ token, lexer.forest.token? id = some token := by
  obtain ⟨token, isToken, _⟩ := wellLinked.entries found
  exact ⟨token, isToken⟩

/-- The token after one exists. -/
theorem exists_of_next?
    (wellLinked : lexer.WellLinked)
    (isNext : lexer.next? id = some other) :
    ∃ token, lexer.forest.token? other = some token := by
  obtain ⟨token, isToken, _, isLinked | isNearest⟩ := next?_cases isNext
  · obtain ⟨neighbour, isNeighbour, _⟩ :=
      wellLinked.links isToken (.inl isLinked)
    exact ⟨neighbour, isNeighbour⟩
  · obtain ⟨_, _, found, _⟩ := OffsetTable.next?_eq_some_iff.mp isNearest
    exact wellLinked.exists_of_tokenAt? found

/-- The token before one exists. -/
theorem exists_of_previous?
    (wellLinked : lexer.WellLinked)
    (isPrevious : lexer.previous? id = some other) :
    ∃ token, lexer.forest.token? other = some token := by
  obtain ⟨token, isToken, isLinked | isNearest⟩ := previous?_cases isPrevious
  · obtain ⟨neighbour, isNeighbour, _⟩ :=
      wellLinked.links isToken (.inr isLinked)
    exact ⟨neighbour, isNeighbour⟩
  · obtain ⟨_, _, found, _⟩ := OffsetTable.previous?_eq_some_iff.mp isNearest
    exact wellLinked.exists_of_tokenAt? found

/-- Pulling tokens, going back and taking lines out keep what may be linked. -/
theorem kept :
    Kept WellLinked where
  moved _ wellLinked := ⟨wellLinked.links, wellLinked.entries⟩
  tuned _ _ wellLinked := ⟨wellLinked.links, wellLinked.entries⟩
  fewer fewer wellLinked :=
    ⟨wellLinked.links, fun found => wellLinked.entries (fewer _ _ found)⟩
  made _ entries wellLinked := by
    refine wellLinked.push (fun isLinked => ?_) fun found => ?_
    · rcases isLinked with impossible | impossible
      · cases impossible
      · cases impossible
    · rcases entries _ _ found with ⟨start, isNew⟩ | wasFound
      · exact .inr ⟨isNew, start⟩
      · exact .inl wasFound
  cut id wellLinked := by
    refine wellLinked.updateToken
      (fun token notInserted => ⟨notInserted, rfl⟩) ?_
    rintro token other isToken (impossible | isLinked)
    · cases impossible
    · have wasLinked : IsLinked token other := .inr isLinked
      have mayLink := wellLinked.links isToken wasLinked
      exact mayLink

/-- A token is made that is linked to nothing and stands nowhere. -/
theorem newToken
    {unparsed : Bool}
    (wellLinked : lexer.WellLinked)
    (unlinked : token.appended? = none ∧ token.prepended? = none) :
    { lexer with forest :=
      lexer.forest.push (.token token) unparsed }.WellLinked := by
  refine wellLinked.push (fun isLinked => ?_) .inl
  rw [IsLinked, unlinked.1, unlinked.2] at isLinked
  rcases isLinked with impossible | impossible
  · cases impossible
  · cases impossible

/-- A token, if one is named, is linked to one more, which was spliced in. -/
theorem relink
    {target? : Option NodeId}
    {change : Token → Token}
    (wellLinked : lexer.WellLinked)
    (same : ∀ token, (change token).inserted = token.inserted ∧
      (change token).start = token.start)
    (isNew : ∀ token linked, IsLinked (change token) linked →
      IsLinked token linked ∨ linked = other)
    (mayLink : ∀ token, lexer.MayLink token other) :
    (lexer.changeToken target? change).WellLinked ∧
      ∀ token, (lexer.changeToken target? change).MayLink token other := by
  cases target? with
  | none =>
      exact ⟨wellLinked, mayLink⟩
  | some target =>
      have inserts : ∀ token, (change token).inserted = false →
          token.inserted = false ∧ (change token).start = token.start := by
        intro token notInserted
        exact ⟨(same token).1 ▸ notInserted, (same token).2⟩
      refine ⟨wellLinked.updateToken
        inserts fun {token linked} isToken isLinked => ?_, fun token =>
        (lexer.keepsPlaces_updateToken target inserts).mayLink (mayLink token)⟩
      rcases isNew token linked isLinked with wasLinked | rfl
      · have stillMayLink := wellLinked.links isToken wasLinked
        rwa [MayLink, (same token).1]
      · exact mayLink (change token)

theorem linkBehind
    (target? : Option NodeId)
    (wellLinked : lexer.WellLinked)
    (mayLink : ∀ token, lexer.MayLink token other) :
    (lexer.changeToken target? fun old =>
      { old with appended? := some other }).WellLinked ∧
      ∀ token, (lexer.changeToken target?
        fun old => { old with appended? := some other }).MayLink
        token other := by
  refine wellLinked.relink (fun _ => ⟨rfl, rfl⟩) ?_ mayLink
  rintro token linked (isNew | wasLinked)
  · exact .inr (Option.some.inj isNew).symm
  · exact .inl (.inr wasLinked)

theorem linkBefore
    (target? : Option NodeId)
    (wellLinked : lexer.WellLinked)
    (mayLink : ∀ token, lexer.MayLink token other) :
    (lexer.changeToken target? fun old =>
      { old with prepended? := some other }).WellLinked ∧
      ∀ token, (lexer.changeToken target?
        fun old => { old with prepended? := some other }).MayLink
        token other := by
  refine wellLinked.relink (fun _ => ⟨rfl, rfl⟩) ?_ mayLink
  rintro token linked (wasLinked | isNew)
  · exact .inl (.inl wasLinked)
  · exact .inr (Option.some.inj isNew).symm

/-- Any token that exists is spliced in before any other. -/
theorem insertBefore
    {inserted : NodeId}
    (wellLinked : lexer.WellLinked)
    (answered : lexer.insertBefore id inserted = .ok after) :
    after.WellLinked := by
  rcases insertBefore_cases answered with
    rfl | ⟨token, new, isToken, isNew, rfl⟩
  · exact wellLinked
  have placed : (lexer.updateToken inserted
      (placedBefore id token.start (lexer.previous? id))).WellLinked := by
    refine wellLinked.updateToken (fun _ impossible => by cases impossible) ?_
    intro new other isNew isLinked
    suffices isThere :
        ∃ neighbour, lexer.forest.token? other = some neighbour by
      exact isThere.imp fun _ isNeighbour => ⟨isNeighbour, .inl rfl⟩
    rcases isLinked with isNext | isPrevious
    · cases isNext
      exact ⟨token, isToken⟩
    · rcases Option.or_eq_some_iff.mp isPrevious with
        isExisting | ⟨_, wasLinked⟩
      · exact wellLinked.exists_of_previous? isExisting
      · obtain ⟨neighbour, isNeighbour, _⟩ :=
          wellLinked.links isNew (.inr wasLinked)
        exact ⟨neighbour, isNeighbour⟩
  have isPlaced : (lexer.updateToken inserted
      (placedBefore id token.start (lexer.previous? id))).forest.token?
      inserted =
        some (placedBefore id token.start (lexer.previous? id) new) :=
    Forest.token?_updateToken_self _ isNew
  obtain ⟨linked, mayLink⟩ :=
    placed.linkBehind (lexer.previous? id) fun _ => ⟨_, isPlaced, .inr rfl⟩
  exact (linked.linkBefore (some id) mayLink).1

/-- A copy of a token takes over its links. -/
theorem withReplacement
    (kind : Kind)
    (wellLinked : lexer.WellLinked)
    (isToken : lexer.forest.token? id = some token) :
    (lexer.withReplacement token kind).WellLinked ∧
      (lexer.withReplacement token kind).forest.token? lexer.forest.size =
        some { token with kind } := by
  have inside :
      ∀ {other}, IsLinked token other → other < lexer.forest.size := by
    intro other isLinked
    obtain ⟨_, isNeighbour, _⟩ := wellLinked.links isToken isLinked
    exact Forest.lt_size_of_token? isNeighbour
  have changed := token?_withReplacement
    (fun isSize => Nat.lt_irrefl _ (inside (.inl isSize)))
    (fun isSize => Nat.lt_irrefl _ (inside (.inr isSize))) kind
  have isCopy :
      (lexer.withReplacement token kind).forest.token? lexer.forest.size =
      some { token with kind } :=
    (changed _).trans (if_pos rfl)
  have keeps : lexer.KeepsPlaces (lexer.withReplacement token kind) := by
    intro other present isPresent
    have old := Nat.ne_of_lt (Forest.lt_size_of_token? isPresent)
    have isLater := changed other
    rw [if_neg old, isPresent, Option.map_some] at isLater
    exact ⟨_, isLater, fun notInserted => ⟨notInserted, rfl⟩⟩
  -- Whoever was linked to the token is linked to its copy now.
  have mayLinkCopy : ∀ {other present}, IsLinked token other →
      lexer.forest.token? other = some present →
      (lexer.withReplacement token kind).MayLink present lexer.forest.size := by
    intro other present isLinked isPresent
    obtain ⟨neighbour, isNeighbour, inserted⟩ :=
      wellLinked.links isToken isLinked
    cases isPresent.symm.trans isNeighbour
    exact ⟨_, isCopy, inserted.symm⟩
  obtain ⟨forest, same⟩ := lexer.withReplacement_same token kind
  refine ⟨wellLinked.of_keepsPlaces keeps ?_ ?_, isCopy⟩
  · intro other later linked isLater isLinked
    rw [changed] at isLater
    split at isLater
    case isTrue =>
      cases isLater
      have mayLink := keeps.mayLink (wellLinked.links isToken isLinked)
      exact mayLink
    case isFalse =>
      obtain ⟨present, isPresent, rfl⟩ := Option.map_eq_some_iff.mp isLater
      suffices mayLink :
          (lexer.withReplacement token kind).MayLink present linked by
        exact mayLink
      rcases isLinked with isNext | isPrevious
      · simp only at isNext
        split at isNext
        case isTrue isBefore =>
          cases isNext
          exact mayLinkCopy (.inr isBefore) isPresent
        case isFalse =>
          exact keeps.mayLink (wellLinked.links isPresent (.inl isNext))
      · simp only at isPrevious
        split at isPrevious
        case isTrue isBehind =>
          cases isPrevious
          exact mayLinkCopy (.inl isBehind) isPresent
        case isFalse =>
          exact keeps.mayLink (wellLinked.links isPresent (.inr isPrevious))
  · intro place other found
    rw [same] at found
    exact .inl found

/-- Any token that exists is replaced. -/
theorem replaceKind
    {kind : Kind}
    (wellLinked : lexer.WellLinked)
    (answered : lexer.replaceKind id kind = .ok result) :
    result.1.WellLinked := by
  obtain ⟨token, isToken⟩ := exists_of_replaceKind answered
  obtain ⟨replaced, isCopy⟩ := wellLinked.withReplacement kind isToken
  rw [replaceKind_of_token isToken, Except.ok.injEq] at answered
  rw [← answered]
  split
  case isTrue =>
    exact replaced
  case isFalse notInserted =>
    have isPut :=
      remember_of_token isCopy (Bool.eq_false_of_not_eq_true notInserted)
    rw [isPut]
    refine replaced.of_keepsPlaces ?_ replaced.links fun found => ?_
    · exact fun _ present isPresent =>
        ⟨present, isPresent, fun notInserted => ⟨notInserted, rfl⟩⟩
    · rcases tokenAt?_put_cases found with ⟨rfl, rfl⟩ | wasFound
      · exact .inr ⟨_, isCopy, rfl⟩
      · exact .inl wasFound

end WellLinked

/-- However a lexer was used, it has only links that may be. -/
theorem Reached.wellLinked
    (reached : Reached settings buffer masks lexer) :
    lexer.WellLinked := by
  induction reached with
  | new =>
      constructor
      · intro id token other isToken
        cases isToken
      · intro place id found
        have nothing := fresh_knows_nothing settings buffer .full place
        cases nothing.symm.trans found
  | nextToken _ answered wellLinked =>
      exact WellLinked.kept.nextToken answered wellLinked
  | scanAt _ offset wellLinked =>
      exact WellLinked.kept.scanAt offset wellLinked
  | tokenize _ wellLinked =>
      exact WellLinked.kept.tokenize wellLinked
  | reset _ answered wellLinked =>
      exact WellLinked.kept.reset answered wellLinked
  | withMode _ mode wellLinked =>
      exact WellLinked.kept.tuned _ mode wellLinked
  | activate _ kinds wellLinked =>
      exact WellLinked.kept.tuned _ _ wellLinked
  | deactivate _ kinds wellLinked =>
      exact WellLinked.kept.tuned _ _ wellLinked
  | mask reached lines wellLinked =>
      exact WellLinked.kept.mask reached.reads.sized lines wellLinked
  | newToken _ kind image wellLinked =>
      exact wellLinked.newToken ⟨rfl, rfl⟩
  | freeToken _ kind image wellLinked =>
      exact wellLinked.newToken ⟨rfl, rfl⟩
  | insertBefore _ answered wellLinked =>
      exact wellLinked.insertBefore answered
  | replaceKind _ answered wellLinked =>
      exact wellLinked.replaceKind answered

/-! ## What walks come to -/

/-- A token was spliced in, and another is linked behind it. -/
def LinksBehind (lexer : Lexer) (id other : NodeId) : Prop :=
  ∃ token, lexer.forest.token? id = some token ∧ token.inserted = true ∧
    token.appended? = some other

/-- A token was spliced in, and another is linked before it. -/
def LinksBefore (lexer : Lexer) (id other : NodeId) : Prop :=
  ∃ token, lexer.forest.token? id = some token ∧ token.inserted = true ∧
    token.prepended? = some other

/-- Where a token stands nothing is taken out. -/
theorem isHidden_of_tokenAt?
    {place : Nat}
    (found : lexer.table.tokenAt? place = some id) :
    lexer.table.isHidden place = false := by
  have admits := OffsetTable.admits_of_tokenAt? found
  simp only [OffsetTable.admits, Bool.and_eq_true, Bool.not_eq_true'] at admits
  exact admits.2

/-- No token that the table has is masked. -/
theorem WellLinked.not_isMasked_of_tokenAt?
    {place : Nat}
    (wellLinked : lexer.WellLinked)
    (found : lexer.table.tokenAt? place = some id) :
    ¬lexer.IsMasked id := by
  rintro ⟨token, isToken, _, notInserted, isHidden⟩
  obtain ⟨_, isEntry, start⟩ := wellLinked.entries found
  cases isToken.symm.trans isEntry
  rw [start notInserted, isHidden_of_tokenAt? found] at isHidden
  cases isHidden

/-- What a masked token is linked to was spliced in. -/
theorem WellLinked.inserted_of_isMasked
    (wellLinked : lexer.WellLinked)
    (isToken : lexer.forest.token? id = some token)
    (isLinked : IsLinked token other)
    (isMasked : lexer.IsMasked other) :
    token.inserted = true := by
  obtain ⟨neighbour, isNeighbour, inserted⟩ := wellLinked.links isToken isLinked
  obtain ⟨_, isMaskedToken, _, notInserted, _⟩ := isMasked
  cases isNeighbour.symm.trans isMaskedToken
  rw [notInserted] at inserted
  exact inserted.resolve_right Bool.false_ne_true

/--
Forward a masked token is come to only from one that was spliced in before it.
-/
theorem WellLinked.linksBehind
    (wellLinked : lexer.WellLinked)
    (isNext : lexer.next? id = some other)
    (isMasked : lexer.IsMasked other) :
    lexer.LinksBehind id other := by
  obtain ⟨token, isToken, _, isLinked | isNearest⟩ := next?_cases isNext
  · have inserted :=
      wellLinked.inserted_of_isMasked isToken (.inl isLinked) isMasked
    exact ⟨token, isToken, inserted, isLinked⟩
  · obtain ⟨_, _, found, _⟩ := OffsetTable.next?_eq_some_iff.mp isNearest
    exact absurd isMasked (wellLinked.not_isMasked_of_tokenAt? found)

/--
Back a masked token is come to only from one that was spliced in behind it.
-/
theorem WellLinked.linksBefore
    (wellLinked : lexer.WellLinked)
    (isPrevious : lexer.previous? id = some other)
    (isMasked : lexer.IsMasked other) :
    lexer.LinksBefore id other := by
  obtain ⟨token, isToken, isLinked | isNearest⟩ := previous?_cases isPrevious
  · have inserted :=
      wellLinked.inserted_of_isMasked isToken (.inr isLinked) isMasked
    exact ⟨token, isToken, inserted, isLinked⟩
  · obtain ⟨_, _, found, _⟩ := OffsetTable.previous?_eq_some_iff.mp isNearest
    exact absurd isMasked (wellLinked.not_isMasked_of_tokenAt? found)

/--
The token after one exists, and is masked only if it is linked behind a splice.
-/
theorem WellLinked.tokenAfter
    (wellLinked : lexer.WellLinked)
    (sized : lexer.Sized)
    (id : NodeId)
    (token : Token) :
    (∃ next,
        (lexer.tokenAfter id token).1.forest.token?
          (lexer.tokenAfter id token).2 = some next) ∧
      ((lexer.tokenAfter id token).1.IsMasked (lexer.tokenAfter id token).2 →
        lexer.LinksBehind id (lexer.tokenAfter id token).2) := by
  have scans : ∀ {start : Lexer}, start.WellLinked → start.Sized → ∀ offset,
      (∃ next,
        (start.scanAt offset).1.forest.token? (start.scanAt offset).2 =
          some next) ∧
        ¬(start.scanAt offset).1.IsMasked (start.scanAt offset).2 := by
    intro start startWellLinked startSized offset
    obtain ⟨_, _, found⟩ := scanAt_found startSized offset
    have scanned := kept.scanAt offset startWellLinked
    exact ⟨scanned.exists_of_tokenAt? found,
      scanned.not_isMasked_of_tokenAt? found⟩
  unfold Lexer.tokenAfter
  split
  case h_1 known isNext =>
    split
    case isTrue =>
      exact ⟨wellLinked.exists_of_next? isNext, wellLinked.linksBehind isNext⟩
    case isFalse =>
      have steady := Steady.rewind lexer id token
      obtain ⟨isThere, shown⟩ :=
        scans (kept.rewind id token wellLinked) (steady.sized sized) token.stop
      exact ⟨isThere, fun isMasked => absurd isMasked shown⟩
  case h_2 =>
    obtain ⟨isThere, shown⟩ := scans wellLinked sized token.stop
    exact ⟨isThere, fun isMasked => absurd isMasked shown⟩

/--
The lexers and tokens that asking for the next token again and again leads to.
-/
def pulls : Nat → Lexer → NodeId → Except Misuse (List (Lexer × NodeId))
  | 0, _, _ =>
      .ok []
  | count + 1, lexer, id => do
      let result ← lexer.nextToken (some id)
      let later ← pulls count result.1 result.2
      return result :: later

/-- Asking for the next token always gives one, masked only behind a splice. -/
theorem Reached.pulls
    (count : Nat)
    (reached : Reached settings buffer masks lexer)
    (isToken : lexer.forest.token? id = some token) :
    ∃ results, Lexer.pulls count lexer id = .ok results ∧
      ((lexer, id) :: results).IsChain fun previous next =>
        next.1.IsMasked next.2 → previous.1.LinksBehind previous.2 next.2 := by
  induction count generalizing lexer id token with
  | zero =>
      exact ⟨[], rfl, .singleton _⟩
  | succ count inductionHypothesis =>
      have answered := nextToken_of_token isToken
      obtain ⟨⟨next, isNext⟩, masked⟩ :=
        reached.wellLinked.tokenAfter reached.reads.sized id token
      obtain ⟨results, pulled, chain⟩ :=
        inductionHypothesis (reached.nextToken answered) isNext
      refine ⟨lexer.tokenAfter id token :: results, ?_, .cons_cons masked chain⟩
      rw [Lexer.pulls, answered]
      simp only [bind, Except.bind, pulled, pure, Except.pure]

/--
However a lexer was used, walking forward or back from a token and asking for
one token after another come to a token that a mask takes out only over the
link of a token that was spliced in, directly from it.
-/
theorem masked_only_behind_splices
    (reached : Reached settings buffer masks lexer)
    (isToken : lexer.forest.token? id = some token) :
    (∀ limit, ∃ ids, lexer.successors id limit = .ok ids ∧
      (id :: ids).IsChain fun previous next =>
        lexer.IsMasked next → lexer.LinksBehind previous next) ∧
    (∀ limit, ∃ ids, lexer.predecessors id limit = .ok ids ∧
      (id :: ids).IsChain fun next previous =>
        lexer.IsMasked previous → lexer.LinksBefore next previous) ∧
    ∀ count, ∃ results, Lexer.pulls count lexer id = .ok results ∧
      ((lexer, id) :: results).IsChain fun previous next =>
        next.1.IsMasked next.2 → previous.1.LinksBehind previous.2 next.2 := by
  have wellLinked := reached.wellLinked
  refine ⟨fun limit => ?_, fun limit => ?_,
    fun count => reached.pulls count isToken⟩
  · refine ⟨walk lexer.next? limit id, ?_,
      isChain_walk (fun _ _ => wellLinked.linksBehind) limit id⟩
    rw [successors, Forest.token_eq_ok isToken]
    rfl
  · refine ⟨walk lexer.previous? limit id, ?_,
      isChain_walk (fun _ _ => wellLinked.linksBefore) limit id⟩
    rw [predecessors, Forest.token_eq_ok isToken]
    rfl

/-- A comma is spliced in before the second of two lines, each of one word. -/
def twoLines : Lexer :=
  ((ofString .standard "a\nb").tokenize.1.newToken .comma ",").1

/-- The second line is taken out behind the splice. -/
def twoLinesMasked : Lexer :=
  ((twoLines.insertBefore 1 3).toOption.getD twoLines).mask (.hide [2])

theorem twoLinesMasked_isMasked :
    twoLinesMasked.IsMasked 1 :=
  ⟨{ kind := .string
     start := 2
     stop := 3
     image? := none
     prepended? := some 3
     appended? := none
     inserted := false
     scanned := true },
    by decide +kernel, rfl, rfl, by decide +kernel⟩

theorem twoLinesMasked_reached :
    Reached .standard (.ofString .standard "a\nb") [.hide [2]]
      twoLinesMasked := by
  have isOk : (twoLines.insertBefore 1 3).isOk = true := by
    decide +kernel
  have reached : Reached .standard (.ofString .standard "a\nb") [] twoLines :=
    Reached.new.tokenize.newToken .comma ","
  cases answered : twoLines.insertBefore 1 3 with
  | error misuse =>
      rw [answered] at isOk
      cases isOk
  | ok spliced =>
      rw [twoLinesMasked, answered]
      exact (reached.insertBefore answered).mask (.hide [2])

theorem twoLinesMasked_successors :
    twoLinesMasked.successors 0 64 = .ok [3, 1, 2] := by
  decide +kernel

/-- The word of the second line is come to from the comma before it. -/
theorem masked_only_behind_splices_twoLines :
    Reached .standard (.ofString .standard "a\nb") [.hide [2]] twoLinesMasked ∧
      (∃ token, twoLinesMasked.forest.token? 0 = some token) ∧
      [0, 3, 1, 2].IsChain (fun previous next =>
        twoLinesMasked.IsMasked next →
          twoLinesMasked.LinksBehind previous next) ∧
      twoLinesMasked.LinksBehind 3 1 := by
  have isToken : twoLinesMasked.forest.token? 0 =
      some { Token.ofStretch .string 0 1 with appended? := some 3 } := by
    decide +kernel
  obtain ⟨forward, _⟩ :=
    masked_only_behind_splices twoLinesMasked_reached isToken
  obtain ⟨ids, walked, chain⟩ := forward 64
  cases twoLinesMasked_successors.symm.trans walked
  refine ⟨twoLinesMasked_reached, ⟨_, isToken⟩, chain, ?_⟩
  obtain ⟨_, behind, _⟩ :=
    List.isChain_cons_cons.mp chain |>.imp_right List.isChain_cons_cons.mp
  exact behind twoLinesMasked_isMasked

/--
A walk from a word that is read comes to
one that is taken out, behind a splice.
-/
theorem splice_leads_to_masked :
    Reached .standard (.ofString .standard "a\nb") [.hide [2]] twoLinesMasked ∧
      twoLinesMasked.successors 0 64 = .ok [3, 1, 2] ∧
      ¬twoLinesMasked.IsMasked 0 ∧ twoLinesMasked.IsMasked 1 := by
  refine ⟨twoLinesMasked_reached, twoLinesMasked_successors, ?_,
    twoLinesMasked_isMasked⟩
  have shown : twoLinesMasked.table.tokenAt? 0 = some 0 := by
    decide +kernel
  exact twoLinesMasked_reached.wellLinked.not_isMasked_of_tokenAt? shown

end Snbt.Lexer
