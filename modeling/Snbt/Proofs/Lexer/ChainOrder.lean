import Mathlib.Algebra.Order.Field.Basic
import Mathlib.Algebra.Order.Field.Rat
import Mathlib.Logic.Function.Basic
import Snbt.Proofs.Lexer.Neighbours
import Snbt.Proofs.Lexer.Splices
import Snbt.Proofs.Lexer.TableEntries

namespace Snbt.Lexer

/-!
# The order of the chain

Tokens are ordered by where they start, and among those that start together
the empty ones come first, ranked by rational numbers so that there is room
between any two.  As long as links follow this order and the table has no
empty token but the end of the input, every step forward leads to a later
token, or to the end.
-/

variable {rank newRank : NodeId → ℚ} {starts newStarts : NodeId → Option Nat}
  {lexer before after : Lexer} {spares : List NodeId} {id other : NodeId}
  {token : Token}

/-- Where the tokens start. -/
def startOf? (lexer : Lexer) (id : NodeId) : Option Nat :=
  (lexer.forest.token? id).map Token.start

/-- A token starts before another, or where it does and with a lower rank. -/
def Before
    (rank : NodeId → ℚ)
    (starts : NodeId → Option Nat)
    (id other : NodeId) :
    Prop :=
  ∃ start later, starts id = some start ∧ starts other = some later ∧
    (start < later ∨ start = later ∧ rank id < rank other)

instance
    (rank : NodeId → ℚ)
    (starts : NodeId → Option Nat)
    (id other : NodeId) :
    Decidable (Before rank starts id other) :=
  decidable_of_iff
    (∃ start ∈ starts id, ∃ later ∈ starts other,
      start < later ∨ start = later ∧ rank id < rank other)
    ⟨fun ⟨start, isStart, later, isLater, forward⟩ =>
      ⟨start, later, isStart, isLater, forward⟩,
      fun ⟨start, later, isStart, isLater, forward⟩ =>
        ⟨start, isStart, later, isLater, forward⟩⟩

/--
A token lies in the buffer, and it has a negative rank exactly if it is empty.
-/
structure IsRanked (token : Token) (size : Nat) (rank : ℚ) : Prop where
  inside : token.stop ≤ size
  stretch :
    token.start < token.stop ∧ rank = 0 ∨ token.start = token.stop ∧ rank < 0

namespace IsRanked

variable {size : Nat} {tokenRank : ℚ}

theorem nonpos
    (ranked : IsRanked token size tokenRank) :
    tokenRank ≤ 0 := by
  rcases ranked.stretch with ⟨_, isZero⟩ | ⟨_, negative⟩
  · exact isZero.le
  · exact negative.le

theorem start_le_stop
    (ranked : IsRanked token size tokenRank) :
    token.start ≤ token.stop := by
  rcases ranked.stretch with ⟨forward, _⟩ | ⟨isEmpty, _⟩
  · exact forward.le
  · exact isEmpty.le

theorem empty_of_neg
    (ranked : IsRanked token size tokenRank)
    (negative : tokenRank < 0) :
    token.start = token.stop := by
  rcases ranked.stretch with ⟨_, isZero⟩ | ⟨isEmpty, _⟩
  · exact absurd isZero negative.ne
  · exact isEmpty

/--
A stretch that starts where a token stops, or further behind, is
later in the order.
-/
theorem before_stretch
    {next : Token}
    {nextRank : ℚ}
    (ranked : IsRanked token size tokenRank)
    (nextRanked : IsRanked next size nextRank)
    (behind : token.stop ≤ next.start)
    (nonempty : next.start < next.stop) :
    token.start < next.start ∨
      token.start = next.start ∧ tokenRank < nextRank := by
  rcases ranked.stretch with ⟨forward, _⟩ | ⟨isEmpty, negative⟩
  · exact .inl (forward.trans_le behind)
  · rcases nextRanked.stretch with ⟨_, isZero⟩ | ⟨nextEmpty, _⟩
    · rcases Nat.lt_or_eq_of_le (isEmpty.le.trans behind) with less | same
      · exact .inl less
      · exact .inr ⟨same, negative.trans_eq isZero.symm⟩
    · exact absurd nextEmpty nonempty.ne

end IsRanked

/-- A token is linked to the one behind it, or that one is linked back to it. -/
def LinksTo (lexer : Lexer) (first second : NodeId) : Prop :=
  (∃ token, lexer.forest.token? first = some token ∧
    token.appended? = some second) ∨
    ∃ token, lexer.forest.token? second = some token ∧
      token.prepended? = some first

/--
Links follow an order, and none of them is with a spare token.  The
table has tokens where they start, none of them spare, and none of them
empty but the end.
-/
structure OrderedBy (rank : NodeId → ℚ) (lexer : Lexer) (spares : List NodeId) :
    Prop where
  ranked : ∀ {id token}, lexer.forest.token? id = some token →
    IsRanked token lexer.buffer.size (rank id)
  links : ∀ {first second}, lexer.LinksTo first second →
    Before rank lexer.startOf? first second ∧ first ∉ spares ∧ second ∉ spares
  entries : ∀ {place id}, lexer.table.tokenAt? place = some id →
    id ∉ spares ∧ ∃ token, lexer.forest.token? id = some token ∧
      token.start = place ∧
      (token.start < token.stop ∨ token.kind = .eof)
  made : ∀ {id}, id ∈ spares → ∃ token, lexer.forest.token? id = some token

/--
The spare tokens that are left when one is spliced in before another token.
-/
def sparesLeft (spares : List NodeId) (id inserted : NodeId) : List NodeId :=
  spares.filter fun spare => spare ≠ inserted ∧ spare ≠ id

/-! ## The order -/

namespace Before

theorem trans
    {third : NodeId}
    (isBefore : Before rank starts id other)
    (later : Before rank starts other third) :
    Before rank starts id third := by
  obtain ⟨first, second, isFirst, isSecond, forward⟩ := isBefore
  obtain ⟨_, last, isMiddle, isLast, further⟩ := later
  cases isSecond.symm.trans isMiddle
  refine ⟨first, last, isFirst, isLast, ?_⟩
  rcases forward with forward | ⟨rfl, forward⟩
  · left
    omega
  · rcases further with further | ⟨rfl, further⟩
    · exact .inl further
    · exact .inr ⟨rfl, forward.trans further⟩

theorem irrefl
    (isBefore : Before rank starts id id) :
    False := by
  obtain ⟨first, second, isFirst, isSecond, forward⟩ := isBefore
  cases isFirst.symm.trans isSecond
  rcases forward with forward | ⟨_, forward⟩
  · exact Nat.lt_irrefl _ forward
  · exact lt_irrefl _ forward

/-- The order of two tokens is that of where they start and of their ranks. -/
theorem congr
    {newId newOther : NodeId}
    (isBefore : Before rank starts id other)
    (sameId : newStarts newId = starts id ∧ newRank newId = rank id)
    (sameOther :
      newStarts newOther = starts other ∧ newRank newOther = rank other) :
    Before newRank newStarts newId newOther := by
  obtain ⟨start, later, isStart, isLater, forward⟩ := isBefore
  refine ⟨start, later, sameId.1.trans isStart, sameOther.1.trans isLater, ?_⟩
  rwa [sameId.2, sameOther.2]

theorem lt_size
    (isBefore : Before rank lexer.startOf? id other) :
    id < lexer.forest.size ∧ other < lexer.forest.size := by
  obtain ⟨_, _, isStart, isLater, _⟩ := isBefore
  obtain ⟨_, isToken, _⟩ := Option.map_eq_some_iff.mp isStart
  obtain ⟨_, isOther, _⟩ := Option.map_eq_some_iff.mp isLater
  exact ⟨Forest.lt_size_of_token? isToken, Forest.lt_size_of_token? isOther⟩

end Before

theorem startOf?_eq_some
    (isToken : lexer.forest.token? id = some token) :
    lexer.startOf? id = some token.start := by
  rw [startOf?, isToken, Option.map_some]

/-- A change of a token that leaves its start leaves all starts. -/
theorem startOf?_updateToken
    {change : Token → Token}
    (lexer : Lexer)
    (id : NodeId)
    (same : ∀ token, (change token).start = token.start) :
    (lexer.updateToken id change).startOf? = lexer.startOf? := by
  funext other
  rw [startOf?, updateToken, Forest.token?_updateToken, startOf?]
  split
  · rw [Option.map_map]
    exact congrArg (Option.map · _) (funext same)
  · rfl

/-- So does a change of the token that is named. -/
theorem startOf?_changeToken
    {change : Token → Token}
    (lexer : Lexer)
    (target? : Option NodeId)
    (same : ∀ token, (change token).start = token.start) :
    (lexer.changeToken target? change).startOf? = lexer.startOf? := by
  cases target? with
  | none =>
      rfl
  | some target =>
      exact lexer.startOf?_updateToken target same

/-- A change of a token changes no links but its own. -/
theorem linksTo_updateToken
    {change : Token → Token}
    {first second : NodeId}
    (isLinked : (lexer.updateToken id change).LinksTo first second) :
    lexer.LinksTo first second ∨
      (first = id ∧ ∃ token, lexer.forest.token? id = some token ∧
        (change token).appended? = some second) ∨
      (second = id ∧ ∃ token, lexer.forest.token? id = some token ∧
        (change token).prepended? = some first) := by
  rcases isLinked with ⟨token, isToken, isNext⟩ | ⟨token, isToken, isPrevious⟩
  · rw [updateToken, Forest.token?_updateToken] at isToken
    split at isToken
    case isTrue here =>
      obtain ⟨old, isOld, rfl⟩ := Option.map_eq_some_iff.mp isToken
      exact .inr (.inl ⟨here.symm, old, here ▸ isOld, isNext⟩)
    case isFalse =>
      exact .inl (.inl ⟨token, isToken, isNext⟩)
  · rw [updateToken, Forest.token?_updateToken] at isToken
    split at isToken
    case isTrue here =>
      obtain ⟨old, isOld, rfl⟩ := Option.map_eq_some_iff.mp isToken
      exact .inr (.inr ⟨here.symm, old, here ▸ isOld, isPrevious⟩)
    case isFalse =>
      exact .inl (.inr ⟨token, isToken, isPrevious⟩)

/-- A new token has the only new links. -/
theorem linksTo_push
    {unparsed : Bool}
    {table : OffsetTable}
    {first second : NodeId}
    (isLinked : { lexer with
      forest := lexer.forest.push (.token token) unparsed, table }.LinksTo
      first second) :
    lexer.LinksTo first second ∨
      (first = lexer.forest.size ∧ token.appended? = some second) ∨
      (second = lexer.forest.size ∧ token.prepended? = some first) := by
  have made := lexer.forest.token?_push token unparsed
  rcases isLinked with
    ⟨present, isPresent, isNext⟩ | ⟨present, isPresent, isPrevious⟩
  · rw [made] at isPresent
    split at isPresent
    case isTrue here =>
      cases isPresent
      exact .inr (.inl ⟨here, isNext⟩)
    case isFalse =>
      exact .inl (.inl ⟨present, isPresent, isNext⟩)
  · rw [made] at isPresent
    split at isPresent
    case isTrue here =>
      cases isPresent
      exact .inr (.inr ⟨here, isPrevious⟩)
    case isFalse =>
      exact .inl (.inr ⟨present, isPresent, isPrevious⟩)

namespace OrderedBy

/--
As long as the tokens that are not spare stay where they are in the order, only
new links and new entries of the table are left to be checked.
-/
theorem of_stays
    {fewer : List NodeId}
    (ordered : OrderedBy rank before spares)
    (subset : fewer ⊆ spares)
    (stays : ∀ {id token}, before.forest.token? id = some token → id ∉ spares →
      newRank id = rank id ∧ ∃ later, after.forest.token? id = some later ∧
        later.start = token.start ∧ later.stop = token.stop ∧
        later.kind = token.kind)
    (ranked : ∀ {id token}, after.forest.token? id = some token →
      IsRanked token after.buffer.size (newRank id))
    (links :
      ∀ {first second}, after.LinksTo first second →
        before.LinksTo first second ∨
      Before newRank after.startOf? first second ∧ first ∉ fewer ∧
        second ∉ fewer)
    (entries : ∀ {place id}, after.table.tokenAt? place = some id →
      before.table.tokenAt? place = some id ∨
        id ∉ fewer ∧ ∃ token, after.forest.token? id = some token ∧
          token.start = place ∧
          (token.start < token.stop ∨ token.kind = .eof))
    (made : ∀ {id}, id ∈ fewer → ∃ token, after.forest.token? id = some token) :
    OrderedBy newRank after fewer where
  ranked := ranked
  links := by
    intro first second isLinked
    rcases links isLinked with wasLinked | isNew
    · obtain ⟨⟨start, later, isStart, isLater, forward⟩, notSpare,
        secondNotSpare⟩ :=
        ordered.links wasLinked
      have isBefore : Before rank before.startOf? first second :=
        ⟨start, later, isStart, isLater, forward⟩
      have agrees :
          ∀ {id place}, before.startOf? id = some place → id ∉ spares →
          after.startOf? id = before.startOf? id ∧ newRank id = rank id := by
        intro id place isStart notSpare
        obtain ⟨token, isToken, _⟩ := Option.map_eq_some_iff.mp isStart
        obtain ⟨sameRank, later, isLater, sameStart, _⟩ :=
          stays isToken notSpare
        refine ⟨?_, sameRank⟩
        rw [startOf?, startOf?, isToken, isLater, Option.map_some,
          Option.map_some, sameStart]
      exact ⟨isBefore.congr (agrees isStart notSpare)
        (agrees isLater secondNotSpare),
        fun member => notSpare (subset member),
        fun member => secondNotSpare (subset member)⟩
    · exact isNew
  entries := by
    intro place id found
    rcases entries found with wasFound | isNew
    · obtain ⟨notSpare, token, isToken, start, nonempty⟩ :=
        ordered.entries wasFound
      obtain ⟨_, later, isLater, sameStart, sameStop, sameKind⟩ :=
        stays isToken notSpare
      exact ⟨fun member => notSpare (subset member), later, isLater,
        sameStart.trans start,
        by rwa [sameStart, sameStop, sameKind]⟩
    · exact isNew
  made := made

/-- A spare token that is none any more can still stay as it is. -/
theorem fewerSpares
    {fewer : List NodeId}
    (ordered : OrderedBy rank lexer spares)
    (subset : fewer ⊆ spares) :
    OrderedBy rank lexer fewer :=
  ordered.of_stays subset (fun isToken _ => ⟨rfl, _, isToken, rfl, rfl, rfl⟩)
    ordered.ranked .inl .inl fun member => ordered.made (subset member)

/--
A token keeps its stretch and its kind, and
its links are changed as the order allows.
-/
theorem relink
    {change : Token → Token}
    (ordered : OrderedBy rank lexer spares)
    (same :
      ∀ token, (change token).start = token.start ∧
        (change token).stop = token.stop ∧
      (change token).kind = token.kind)
    (links :
      ∀ {first second}, (lexer.updateToken id change).LinksTo first second →
      lexer.LinksTo first second ∨
        Before rank lexer.startOf? first second ∧ first ∉ spares ∧
          second ∉ spares) :
    OrderedBy rank (lexer.updateToken id change) spares := by
  have changed := lexer.forest.token?_updateToken id change
  have later : ∀ {other token}, lexer.forest.token? other = some token →
      ∃ later, (lexer.updateToken id change).forest.token? other = some later ∧
        later.start = token.start ∧ later.stop = token.stop ∧
        later.kind = token.kind := by
    intro other token isToken
    by_cases here : id = other
    · subst here
      exact ⟨change token, Forest.token?_updateToken_self change isToken,
        same token⟩
    · exact ⟨token, ((changed other).trans (if_neg here)).trans isToken,
        rfl, rfl, rfl⟩
  refine ordered.of_stays (List.Subset.refl _)
    (fun isToken _ => ⟨rfl, later isToken⟩) ?ranked ?links .inl ?made
  case ranked =>
    intro other token isToken
    rw [updateToken, changed] at isToken
    split at isToken
    case isTrue =>
      obtain ⟨old, isOld, rfl⟩ := Option.map_eq_some_iff.mp isToken
      obtain ⟨inside, stretch⟩ := ordered.ranked isOld
      obtain ⟨sameStart, sameStop, _⟩ := same old
      exact ⟨sameStop ▸ inside, by rwa [sameStart, sameStop]⟩
    case isFalse =>
      exact ordered.ranked isToken
  case links =>
    intro first second isLinked
    rw [lexer.startOf?_updateToken id fun token => (same token).1]
    exact links isLinked
  case made =>
    intro other member
    obtain ⟨token, isToken⟩ := ordered.made member
    obtain ⟨changedToken, isChanged, _⟩ := later isToken
    exact ⟨changedToken, isChanged⟩

/-- A token may be linked behind those that are before it. -/
theorem linkBehind
    (target? : Option NodeId)
    (ordered : OrderedBy rank lexer spares)
    (notSpare : other ∉ spares)
    (isBefore : ∀ target, target? = some target →
      Before rank lexer.startOf? target other ∧ target ∉ spares) :
    OrderedBy rank
      (lexer.changeToken target? fun old =>
        { old with appended? := some other })
        spares ∧
      (lexer.changeToken target? fun old =>
        { old with appended? := some other }).startOf? =
        lexer.startOf? := by
  refine ⟨?_, lexer.startOf?_changeToken target? fun _ => rfl⟩
  cases target? with
  | none =>
      exact ordered
  | some target =>
      obtain ⟨isBefore, targetNotSpare⟩ := isBefore target rfl
      refine ordered.relink (fun _ => ⟨rfl, rfl, rfl⟩) fun isLinked => ?_
      rcases linksTo_updateToken isLinked with
        wasLinked | ⟨rfl, _, _, ⟨⟩⟩ | ⟨rfl, token, isToken, wasLinked⟩
      · exact .inl wasLinked
      · exact .inr ⟨isBefore, targetNotSpare, notSpare⟩
      · exact .inl (.inr ⟨token, isToken, wasLinked⟩)

/-- A token may be linked before those that are behind it. -/
theorem linkBefore
    (target? : Option NodeId)
    (ordered : OrderedBy rank lexer spares)
    (notSpare : other ∉ spares)
    (isBehind : ∀ target, target? = some target →
      Before rank lexer.startOf? other target ∧ target ∉ spares) :
    OrderedBy rank
      (lexer.changeToken target? fun old =>
        { old with prepended? := some other })
        spares ∧
      (lexer.changeToken target? fun old =>
        { old with prepended? := some other }).startOf? =
        lexer.startOf? := by
  refine ⟨?_, lexer.startOf?_changeToken target? fun _ => rfl⟩
  cases target? with
  | none =>
      exact ordered
  | some target =>
      obtain ⟨isBehind, targetNotSpare⟩ := isBehind target rfl
      refine ordered.relink (fun _ => ⟨rfl, rfl, rfl⟩) fun isLinked => ?_
      rcases linksTo_updateToken isLinked with
        wasLinked | ⟨rfl, token, isToken, wasLinked⟩ | ⟨rfl, _, _, ⟨⟩⟩
      · exact .inl wasLinked
      · exact .inl (.inl ⟨token, isToken, wasLinked⟩)
      · exact .inr ⟨isBehind, notSpare, targetNotSpare⟩

/-! ## Steps -/

/-- A step forward leads to a later token or to the end, which is no spare. -/
theorem next?
    (ordered : OrderedBy rank lexer spares)
    (isNext : lexer.next? id = some other) :
    other ∉ spares ∧ ∃ token, lexer.forest.token? other = some token ∧
      (Before rank lexer.startOf? id other ∨ token.kind = .eof) := by
  obtain ⟨token, isToken, _, isLinked | isNearest⟩ := next?_cases isNext
  · obtain ⟨isBefore, _, notSpare⟩ :=
      ordered.links (.inl ⟨token, isToken, isLinked⟩)
    have ⟨_, _, _, isStart, _⟩ := isBefore
    obtain ⟨next, isNextToken, _⟩ := Option.map_eq_some_iff.mp isStart
    exact ⟨notSpare, next, isNextToken, .inl isBefore⟩
  · obtain ⟨place, behind, found, _⟩ :=
      OffsetTable.next?_eq_some_iff.mp isNearest
    obtain ⟨notSpare, next, isNextToken, start, nonempty | isEnding⟩ :=
      ordered.entries found
    · refine ⟨notSpare, next, isNextToken, .inl ?_⟩
      refine ⟨_, _, startOf?_eq_some isToken, startOf?_eq_some isNextToken, ?_⟩
      exact (ordered.ranked isToken).before_stretch (ordered.ranked isNextToken)
        (behind.trans_eq start.symm) nonempty
    · exact ⟨notSpare, next, isNextToken, .inr isEnding⟩

/-- A step back leads to an earlier token, which is no spare. -/
theorem previous?
    (ordered : OrderedBy rank lexer spares)
    (isPrevious : lexer.previous? id = some other) :
    Before rank lexer.startOf? other id ∧ other ∉ spares := by
  obtain ⟨token, isToken, isLinked | isNearest⟩ := previous?_cases isPrevious
  · obtain ⟨isBefore, notSpare, _⟩ :=
      ordered.links (.inr ⟨token, isToken, isLinked⟩)
    exact ⟨isBefore, notSpare⟩
  · obtain ⟨place, before, found, _⟩ :=
      OffsetTable.previous?_eq_some_iff.mp isNearest
    obtain ⟨notSpare, previous, isPreviousToken, start, _⟩ :=
      ordered.entries found
    refine ⟨⟨_, _, startOf?_eq_some isPreviousToken, startOf?_eq_some isToken,
      .inl ?_⟩, notSpare⟩
    omega

/-! ## Making tokens -/

/-- A token that is still to be made is no spare one. -/
theorem size_not_mem
    (ordered : OrderedBy rank lexer spares) :
    lexer.forest.size ∉ spares := by
  intro member
  obtain ⟨_, isToken⟩ := ordered.made member
  exact Nat.lt_irrefl _ (Forest.lt_size_of_token? isToken)

/-- A new token is put where it starts, with links that the order allows. -/
theorem push
    {newRank : ℚ}
    {unparsed : Bool}
    {table : OffsetTable}
    (ordered : OrderedBy rank lexer spares)
    (ranked : IsRanked token lexer.buffer.size newRank)
    (appended : ∀ {other}, token.appended? = some other →
      ∃ later, lexer.startOf? other = some later ∧ other ∉ spares ∧
        (token.start < later ∨ token.start = later ∧ newRank < rank other))
    (prepended : ∀ {other}, token.prepended? = some other →
      ∃ earlier, lexer.startOf? other = some earlier ∧ other ∉ spares ∧
        (earlier < token.start ∨ earlier = token.start ∧ rank other < newRank))
    (entries : ∀ {place id}, table.tokenAt? place = some id →
      lexer.table.tokenAt? place = some id ∨
        id = lexer.forest.size ∧ place = token.start ∧
        (token.start < token.stop ∨ token.kind = .eof)) :
    OrderedBy (Function.update rank lexer.forest.size newRank)
      { lexer with forest := lexer.forest.push (.token token) unparsed, table }
      spares := by
  have made := lexer.forest.token?_push token unparsed
  have isNew :
      { lexer with
        forest := lexer.forest.push (.token token) unparsed
        table }.startOf? lexer.forest.size = some token.start := by
    exact startOf?_eq_some ((made _).trans (if_pos rfl))
  have isOld : ∀ {id}, id < lexer.forest.size →
      (lexer.forest.push (.token token) unparsed).token? id =
        lexer.forest.token? id ∧
        Function.update rank lexer.forest.size newRank id = rank id := by
    intro id old
    exact ⟨(made id).trans (if_neg old.ne), Function.update_of_ne old.ne _ _⟩
  refine ordered.of_stays (List.Subset.refl _) ?stays ?ranked ?links
    ?entries ?made
  case stays =>
    intro id present isToken _
    obtain ⟨stays, sameRank⟩ := isOld (Forest.lt_size_of_token? isToken)
    exact ⟨sameRank, present, stays.trans isToken, rfl, rfl, rfl⟩
  case ranked =>
    intro id present isToken
    rw [made] at isToken
    split at isToken
    case isTrue here =>
      cases isToken
      rw [here, Function.update_self]
      exact ranked
    case isFalse =>
      rw [(isOld (Forest.lt_size_of_token? isToken)).2]
      exact ordered.ranked isToken
  case links =>
    intro first second isLinked
    rcases linksTo_push isLinked with
      wasLinked | ⟨rfl, isNext⟩ | ⟨rfl, isPrevious⟩
    · exact .inl wasLinked
    · obtain ⟨later, isLater, notSpare, forward⟩ := appended isNext
      obtain ⟨present, isToken, _⟩ := Option.map_eq_some_iff.mp isLater
      obtain ⟨stays, sameRank⟩ := isOld (Forest.lt_size_of_token? isToken)
      refine .inr
        ⟨⟨_, later, isNew, (congrArg (Option.map _) stays).trans isLater, ?_⟩,
        ordered.size_not_mem, notSpare⟩
      rwa [Function.update_self, sameRank]
    · obtain ⟨earlier, isEarlier, notSpare, forward⟩ := prepended isPrevious
      obtain ⟨present, isToken, _⟩ := Option.map_eq_some_iff.mp isEarlier
      obtain ⟨stays, sameRank⟩ := isOld (Forest.lt_size_of_token? isToken)
      refine .inr
        ⟨⟨earlier, _, (congrArg (Option.map _) stays).trans isEarlier, isNew,
          ?_⟩,
        notSpare, ordered.size_not_mem⟩
      rwa [Function.update_self, sameRank]
  case entries =>
    intro place id found
    refine (entries found).imp_right fun ⟨isSize, start, nonempty⟩ => ?_
    subst isSize
    exact ⟨ordered.size_not_mem, token, (made _).trans (if_pos rfl),
      start.symm, nonempty⟩
  case made =>
    intro id member
    obtain ⟨present, isToken⟩ := ordered.made member
    exact ⟨present, (isOld (Forest.lt_size_of_token? isToken)).1.trans isToken⟩

/-- A token that is linked to none and stands nowhere is spare. -/
theorem addSpare
    (ordered : OrderedBy rank lexer spares)
    (isToken : lexer.forest.token? id = some token)
    (unlinked :
      ∀ {first second}, lexer.LinksTo first second → first ≠ id ∧ second ≠ id)
    (absent : ∀ {place}, lexer.table.tokenAt? place ≠ some id) :
    OrderedBy rank lexer (id :: spares) where
  ranked := ordered.ranked
  links isLinked := by
    obtain ⟨notFirst, notSecond⟩ := unlinked isLinked
    obtain ⟨isBefore, notSpare, secondNotSpare⟩ := ordered.links isLinked
    exact ⟨isBefore, List.not_mem_cons_of_ne_of_not_mem notFirst notSpare,
      List.not_mem_cons_of_ne_of_not_mem notSecond secondNotSpare⟩
  entries found := by
    obtain ⟨notSpare, entry⟩ := ordered.entries found
    refine ⟨List.not_mem_cons_of_ne_of_not_mem ?_ notSpare, entry⟩
    rintro rfl
    exact absent found
  made member := by
    rcases List.mem_cons.mp member with rfl | member
    · exact ⟨token, isToken⟩
    · exact ordered.made member

/-- A token that is made for no stretch is spare. -/
theorem newToken
    (kind : Kind)
    (image : String)
    (ordered : OrderedBy rank lexer spares) :
    OrderedBy (Function.update rank lexer.forest.size (-1))
      (lexer.newToken kind image).1 (lexer.forest.size :: spares) := by
  have changed :=
    lexer.forest.token?_push
      { Token.free kind image with scanned := true } false
  have pushed : OrderedBy (Function.update rank lexer.forest.size (-1))
      (lexer.newToken kind image).1 spares :=
    ordered.push ⟨Nat.zero_le _, .inr ⟨rfl, by norm_num⟩⟩ nofun nofun .inl
  refine pushed.addSpare ((changed _).trans (if_pos rfl))
    (fun isLinked => ?_) ?_
  · rcases linksTo_push isLinked with wasLinked | ⟨_, ⟨⟩⟩ | ⟨_, ⟨⟩⟩
    obtain ⟨inside, secondInside⟩ := (ordered.links wasLinked).1.lt_size
    exact ⟨inside.ne, secondInside.ne⟩
  · intro place found
    obtain ⟨_, _, isToken, _⟩ := ordered.entries found
    exact Nat.lt_irrefl _ (Forest.lt_size_of_token? isToken)

end OrderedBy

end Snbt.Lexer
