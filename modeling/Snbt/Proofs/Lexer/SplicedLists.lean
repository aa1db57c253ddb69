import Mathlib.Data.List.Nodup
import Snbt.Proofs.Lexer.Progress
import Snbt.Proofs.Lexer.Splicing

namespace Snbt.Lexer

/-!
# Chains as lists

Tokenizing gives a chain.  Whatever tokens are made, spliced in and replaced
then, the chain is the list that has the same done to it: its neighbours are
those of the list, and steps forward and back go through it.
-/

variable {settings : LexerSettings} {buffer : Buffer} {active : KindSet}
  {lexer : Lexer} {tokens : NodeId → Token}
  {ids spare before after : List NodeId} {id inserted other : NodeId}
  {kind : Kind}

/--
Tokens that were made, that end no input,
and that are linked to none before them.
-/
structure Spares (lexer : Lexer) (ids spare : List NodeId) : Prop where
  distinct : spare.Nodup
  apart : ∀ id ∈ spare, id ∉ ids
  free :
    ∀ id ∈ spare, ∃ new, lexer.forest.token? id = some new ∧ new.kind ≠ .eof ∧
    new.prepended? = none

/-- The tokens of a lexer, where it has them. -/
def tokenOf (lexer : Lexer) (id : NodeId) : Token :=
  (lexer.forest.token? id).getD (.ofStretch .eof 0 0)

theorem tokenOf_of_holds
    {lexeme : Lexeme}
    (holds : lexer.Holds id lexeme) :
    lexer.tokenOf id = lexeme.token := by
  rw [tokenOf, holds.token?]
  rfl

/-- The token of a stretch is placed, and so is the end of the input. -/
theorem placed_of_inOrder
    {size offset : Nat}
    {lexeme : Lexeme}
    {stretches : List Lexeme}
    (inOrder : Lexeme.InOrder size offset stretches)
    (isLexeme : lexeme ∈ stretches ++ [⟨.eof, size, size⟩]) :
    lexeme.token.Placed := by
  rcases List.mem_append.mp isLexeme with isStretch | isEnding
  · obtain ⟨_, nonempty, _⟩ := inOrder.of_mem lexeme isStretch
    exact ⟨Nat.le_of_lt nonempty, fun _ => rfl, fun _ _ => nonempty⟩
  · cases List.mem_singleton.mp isEnding
    exact ⟨Nat.le_refl _, fun _ => rfl, fun _ notEnding => absurd rfl notEnding⟩

/--
Tokens of stretches in order, and of the end of the input, stand in a row.
-/
theorem row_of_holds
    {size offset : Nat}
    {stretches : List Lexeme}
    (holds : List.Forall₂ lexer.Holds ids (stretches ++ [⟨.eof, size, size⟩]))
    (inOrder : Lexeme.InOrder size offset stretches) :
    Row lexer.tokenOf ids := by
  have sameTokens :
      ids.map lexer.tokenOf =
        (stretches ++ [Lexeme.mk .eof size size]).map Lexeme.token := by
    rw [← List.forall₂_eq_eq_eq, List.forall₂_map_left_iff,
      List.forall₂_map_right_iff]
    exact holds.imp fun _ _ => tokenOf_of_holds
  have isToken : ∀ id ∈ ids, ∃ lexeme : Lexeme,
      lexer.tokenOf id = lexeme.token ∧ lexeme.token.Placed := by
    intro id member
    obtain ⟨lexeme, isLexeme, holds⟩ := exists_mem_of_forall₂ holds member
    exact ⟨lexeme, tokenOf_of_holds holds, placed_of_inOrder inOrder isLexeme⟩
  have ordered :
      ids.Pairwise fun first second =>
        (lexer.tokenOf first).Precedes (lexer.tokenOf second) := by
    rw [← List.pairwise_map, sameTokens, List.pairwise_map]
    exact inOrder.pairwise.imp fun bounds => ⟨bounds.1, bounds.2⟩
  constructor
  case distinct =>
    refine ordered.imp_of_mem fun member _ precedes => ?_
    rintro rfl
    obtain ⟨lexeme, isToken, placed⟩ := isToken _ member
    rw [isToken] at precedes
    have nonempty := placed.nonempty rfl precedes.notEnding
    have backward := precedes.stop_le_start
    omega
  case placed =>
    intro id member
    obtain ⟨lexeme, isToken, placed⟩ := isToken id member
    rw [isToken]
    exact placed
  case ordered =>
    exact ordered
  case joined =>
    refine List.Pairwise.isChain
      (ordered.imp_of_mem fun firstMember secondMember _ => ?_)
    obtain ⟨_, isFirst, _⟩ := isToken _ firstMember
    obtain ⟨_, isSecond, _⟩ := isToken _ secondMember
    rw [Joined, isFirst, isSecond]
    exact .inr ⟨rfl, rfl, rfl, rfl⟩
  case opens =>
    intro id isFirst
    obtain ⟨_, isToken, _⟩ := isToken id (List.mem_of_head? isFirst)
    rw [isToken]
    rfl
  case ends =>
    have isLast := congrArg List.getLast? sameTokens
    rw [List.getLast?_map, List.getLast?_map, List.getLast?_concat,
      Option.map_some, Option.map_eq_some_iff] at isLast
    obtain ⟨last, isLast, isEnding⟩ := isLast
    exact ⟨last, isLast, congrArg Token.kind isEnding⟩

/--
Tokenizing with a lexer that knows no token gives a chain of tokens that
are linked to none.
-/
theorem tokenize_chain_of_nothing
    (plain : lexer.Plain 0)
    (inside : lexer.position ≤ lexer.buffer.size)
    (nothing : ∀ place, lexer.table.tokenAt? place = none) :
    lexer.tokenize.1.Chain lexer.tokenize.1.tokenOf lexer.tokenize.2 := by
  obtain ⟨grows, _, stretches, holds, inOrder⟩ := tokenize_finishes plain inside
  obtain ⟨_, listed⟩ := tokenize_lists plain.sized inside nothing
  refine { row_of_holds holds inOrder with
    present := ?present, stands := ?stands, known := ?known }
  case present =>
    intro id member
    obtain ⟨lexeme, _, holds, _⟩ := exists_mem_of_forall₂ listed.stands member
    rw [tokenOf_of_holds holds]
    exact holds.token?
  case stands =>
    intro id member _
    obtain ⟨lexeme, _, holds, stands⟩ :=
      exists_mem_of_forall₂ listed.stands member
    rw [tokenOf_of_holds holds]
    exact stands
  case known =>
    intro place id found
    obtain ⟨lexeme, holds, start, _⟩ :=
      grows.plain.entries place id (Nat.zero_le _) found
    rw [tokenOf_of_holds holds]
    exact ⟨listed.entries place id (Nat.zero_le _) found, rfl, start⟩

/-- Tokenizing gives a chain of tokens that are linked to none. -/
theorem tokenize_chain
    (settings : LexerSettings)
    (buffer : Buffer)
    (active : KindSet) :
    (fresh settings buffer active).tokenize.1.Chain
      (fresh settings buffer active).tokenize.1.tokenOf
      (fresh settings buffer active).tokenize.2 :=
  tokenize_chain_of_nothing (fresh_plain settings buffer active) (Nat.zero_le _)
    (fresh_knows_nothing settings buffer active)

/-- A chain depends on no other nodes than its members. -/
theorem Chain.withForest
    {forest : Forest}
    (chain : lexer.Chain tokens ids)
    (kept : ∀ id ∈ ids, forest.token? id = lexer.forest.token? id) :
    { lexer with forest }.Chain tokens ids :=
  { chain with
    present := fun id member => (kept id member).trans (chain.present id member)
    stands := chain.stands
    known := chain.known }

/-- Making a token that is in no chain changes no other. -/
theorem token?_push_of_present
    {forest : Forest}
    {token new : Token}
    {unparsed : Bool}
    (present : forest.token? id = some token) :
    (forest.push (.token new) unparsed).token? id = forest.token? id := by
  have inside := Forest.lt_size_of_token? present
  rw [Forest.token?, Forest.node?_push, if_neg (Nat.ne_of_lt inside)]
  rfl

/-- A token that is made is one more that can be spliced in. -/
theorem Spares.push
    {new : Token}
    {unparsed : Bool}
    (chain : lexer.Chain tokens ids)
    (spares : lexer.Spares ids spare)
    (notEnding : new.kind ≠ .eof)
    (unlinked : new.prepended? = none) :
    { lexer with forest := lexer.forest.push (.token new) unparsed }.Chain
        tokens ids ∧
      { lexer with forest := lexer.forest.push (.token new) unparsed }.Spares
        ids (lexer.forest.size :: spare) := by
  have kept : ∀ id token, lexer.forest.token? id = some token →
      (lexer.forest.push (.token new) unparsed).token? id = some token :=
    fun id token present => (token?_push_of_present present).trans present
  refine ⟨chain.withForest fun id member => ?_, ?_, ?_, ?_⟩
  · exact token?_push_of_present (chain.present id member)
  · refine List.nodup_cons.mpr ⟨fun member => ?_, spares.distinct⟩
    obtain ⟨_, present, _⟩ := spares.free _ member
    exact Nat.lt_irrefl _ (Forest.lt_size_of_token? present)
  · intro id member
    rcases List.mem_cons.mp member with rfl | isOld
    · exact chain.size_notMem
    · exact spares.apart id isOld
  · intro id member
    rcases List.mem_cons.mp member with rfl | isOld
    · refine ⟨new, ?_, notEnding, unlinked⟩
      rw [Forest.token?, Forest.node?_push, if_pos rfl]
      rfl
    · obtain ⟨token, present, isFree⟩ := spares.free id isOld
      exact ⟨token, kept id token present, isFree⟩

/--
A lexer whose chain was tokenized, with the list that the chain should be
and the tokens that were made and can be spliced in: tokens are made by the
lexer or apart from it, spliced in before members, and members that end no
input are replaced.
-/
inductive Spliced (settings : LexerSettings) (buffer : Buffer)
    (active : KindSet) :
    Lexer → List NodeId → List NodeId → Prop where
  | tokenized :
      Spliced settings buffer active
        (fresh settings buffer active).tokenize.1
        (fresh settings buffer active).tokenize.2
        []
  | newToken
      {lexer : Lexer}
      {ids spare : List NodeId}
      {kind : Kind}
      (spliced : Spliced settings buffer active lexer ids spare)
      (notEnding : kind ≠ .eof)
      (image : String) :
      Spliced settings buffer active
        (lexer.newToken kind image).1
        ids
        ((lexer.newToken kind image).2 :: spare)
  | freeToken
      {lexer : Lexer}
      {ids spare : List NodeId}
      {kind : Kind}
      (spliced : Spliced settings buffer active lexer ids spare)
      (notEnding : kind ≠ .eof)
      (image : String) :
      Spliced settings buffer active
        { lexer with forest := (lexer.forest.newToken kind image).1 }
        ids
        ((lexer.forest.newToken kind image).2 :: spare)
  | insertBefore
      {lexer next : Lexer}
      {before after spare : List NodeId}
      {id inserted : NodeId}
      (spliced :
        Spliced settings buffer active lexer (before ++ id :: after) spare)
      (isSpare : inserted ∈ spare)
      (answered : lexer.insertBefore id inserted = .ok next) :
      Spliced settings buffer active
        next
        (before ++ inserted :: id :: after)
        (spare.erase inserted)
  | replaceKind
      {lexer : Lexer}
      {result : Lexer × NodeId}
      {before after spare : List NodeId}
      {id : NodeId}
      {kind : Kind}
      (spliced :
        Spliced settings buffer active lexer (before ++ id :: after) spare)
      (wasStretch : lexer.kindOf? id ≠ some .eof)
      (notEnding : kind ≠ .eof)
      (answered : lexer.replaceKind id kind = .ok result) :
      Spliced settings buffer active
        result.1
        (before ++ result.2 :: after)
        spare

/--
Splicing a spare token in is answered, and doing it again changes nothing.
-/
theorem Chain.insertBefore_spare
    (chain : lexer.Chain tokens (before ++ id :: after))
    (spares : lexer.Spares (before ++ id :: after) spare)
    (isSpare : inserted ∈ spare) :
    ∃ next others, lexer.insertBefore id inserted = .ok next ∧
      next.Chain others (before ++ inserted :: id :: after) ∧
      next.Spares (before ++ inserted :: id :: after) (spare.erase inserted) ∧
      next.insertBefore id inserted = .ok next := by
  obtain ⟨new, isNew, notEnding, unlinked⟩ := spares.free inserted isSpare
  have notMember := spares.apart inserted isSpare
  have idMember : id ∈ before ++ id :: after := by
    simp
  have notId : inserted ≠ id := by
    rintro rfl
    exact notMember idMember
  have notLast :
      ∀ other, other ∉ before ++ id :: after →
        before.getLast? ≠ some other := by
    intro other isApart isLast
    exact isApart (List.mem_append_left _ (List.mem_of_getLast? isLast))
  have notLinked : (tokens id).prepended? ≠ some inserted :=
    fun linked => notLast inserted notMember (chain.prepended?_linked linked)
  have answered :=
    insertBefore_of_not_linked (chain.present id idMember) isNew notLinked
  rw [chain.previous?] at answered
  have nextChain := chain.insertBefore isNew notMember unlinked notEnding
  refine ⟨_, _, answered, nextChain,
    ⟨spares.distinct.erase inserted, ?_, ?_⟩, ?_⟩
  · intro other member
    obtain ⟨isOther, isOld⟩ := (spares.distinct.mem_erase_iff).mp member
    have isApart := spares.apart other isOld
    simp only [List.mem_append, List.mem_cons] at isApart ⊢
    tauto
  · intro other member
    obtain ⟨isOther, isOld⟩ := (spares.distinct.mem_erase_iff).mp member
    have isApart := spares.apart other isOld
    have notOther : other ≠ id := by
      rintro rfl
      exact isApart idMember
    obtain ⟨token, present, isFree⟩ := spares.free other isOld
    refine ⟨token, ?_, isFree⟩
    rw [token?_withInserted notId (notLast inserted notMember), if_neg isOther,
      if_neg notOther, if_neg (notLast other isApart)]
    · exact present
    · exact fun isLast =>
        chain.apart (List.mem_of_getLast? isLast) List.mem_cons_self
  · exact insertBefore_of_linked (nextChain.present id (by simp))
      (insertedTokens_before notId.symm)

/-- Replacing a member leaves the spare tokens as they are. -/
theorem Chain.replaceKind_spare
    (chain : lexer.Chain tokens (before ++ id :: after))
    (spares : lexer.Spares (before ++ id :: after) spare)
    (wasStretch : (tokens id).kind ≠ .eof)
    (notEnding : kind ≠ .eof) :
    ∃ next others, lexer.replaceKind id kind = .ok (next, lexer.forest.size) ∧
      next.Chain others (before ++ lexer.forest.size :: after) ∧
      next.Spares (before ++ lexer.forest.size :: after) spare := by
  obtain ⟨next, answered, forestEq, nextChain⟩ :=
    chain.replaceKind wasStretch notEnding
  obtain ⟨notNext, notPrevious⟩ :=
    chain.not_linked_of_notMem wasStretch chain.size_notMem
  have notSize : ∀ other ∈ spare, other ≠ lexer.forest.size := by
    rintro other member rfl
    obtain ⟨_, present, _⟩ := spares.free _ member
    exact Nat.lt_irrefl _ (Forest.lt_size_of_token? present)
  refine ⟨next, _, answered, nextChain, spares.distinct, ?_, ?_⟩
  · intro other member
    have isApart := spares.apart other member
    have isOther := notSize other member
    simp only [List.mem_append, List.mem_cons] at isApart ⊢
    tauto
  · intro other member
    obtain ⟨otherNotNext, otherNotPrevious⟩ :=
      chain.not_linked_of_notMem wasStretch (spares.apart other member)
    obtain ⟨token, present, isFree⟩ := spares.free other member
    refine ⟨token, ?_, isFree⟩
    rw [forestEq, token?_withReplacement notNext notPrevious,
      if_neg (notSize other member), present]
    simp only [otherNotNext, otherNotPrevious, if_false, Option.map_some]

/-- Whatever has been spliced, there is a chain with the members of the list. -/
theorem Spliced.chain
    (spliced : Spliced settings buffer active lexer ids spare) :
    ∃ tokens, lexer.Chain tokens ids ∧ lexer.Spares ids spare := by
  induction spliced with
  | tokenized =>
      refine ⟨_, tokenize_chain settings buffer active, .nil, ?_, ?_⟩
      · intro id impossible
        cases impossible
      · intro id impossible
        cases impossible
  | newToken _ notEnding image inductionHypothesis =>
      obtain ⟨tokens, chain, spares⟩ := inductionHypothesis
      exact ⟨tokens, spares.push chain notEnding rfl⟩
  | freeToken _ notEnding image inductionHypothesis =>
      obtain ⟨tokens, chain, spares⟩ := inductionHypothesis
      exact ⟨tokens, spares.push chain notEnding rfl⟩
  | insertBefore _ isSpare answered inductionHypothesis =>
      obtain ⟨tokens, chain, spares⟩ := inductionHypothesis
      obtain ⟨_, others, inserted, nextChain, nextSpares, _⟩ :=
        chain.insertBefore_spare spares isSpare
      cases inserted.symm.trans answered
      exact ⟨others, nextChain, nextSpares⟩
  | @replaceKind _ _ _ _ _ id _ _ wasStretch notEnding answered
      inductionHypothesis =>
      obtain ⟨tokens, chain, spares⟩ := inductionHypothesis
      have present :=
        chain.present id (List.mem_append_right _ List.mem_cons_self)
      have wasStretch : (tokens id).kind ≠ .eof := by
        intro isEnding
        rw [kindOf?, present] at wasStretch
        exact wasStretch (congrArg some isEnding)
      obtain ⟨_, others, replaced, nextChain, nextSpares⟩ :=
        chain.replaceKind_spare spares wasStretch notEnding
      cases replaced.symm.trans answered
      exact ⟨others, nextChain, nextSpares⟩

/--
Whatever has been spliced and replaced, the chain is the list that had the same
done to it: forward from the first and back from the last token it is walked in
the order of the list, each neighbour has the other, and splicing in twice is
splicing in once.  No splicing or replacing is refused, and what replaces a
token is a new node of the kind that was asked for, with the same stretch.
-/
theorem spliced_refines_list
    (spliced : Spliced settings buffer active lexer ids spare) :
    (∃ first rest, ids = first :: rest ∧
      lexer.predecessor first = .ok none ∧
      ∀ limit, lexer.successors first limit = .ok (rest.take limit)) ∧
    (∃ init last, ids = init ++ [last] ∧
      lexer.kindOf? last = some .eof ∧
      ∀ limit, lexer.predecessors last limit = .ok (init.reverse.take limit)) ∧
    (∀ first ∈ ids, ∀ second ∈ ids,
      lexer.successor first = .ok (some second) ↔
        lexer.predecessor second = .ok (some first)) ∧
    (∀ id ∈ ids, ∀ inserted ∈ spare, ∃ next,
      lexer.insertBefore id inserted = .ok next ∧
      next.insertBefore id inserted = .ok next) ∧
    (∀ id ∈ ids, ∀ kind, ∃ next replacement old new,
      lexer.replaceKind id kind = .ok (next, replacement) ∧
      lexer.forest.token? id = some old ∧
      lexer.forest.token? replacement = none ∧
      next.forest.token? replacement = some new ∧
      new.kind = kind ∧ new.start = old.start ∧ new.stop = old.stop) := by
  obtain ⟨tokens, chain, spares⟩ := spliced.chain
  have asked : ∀ id ∈ ids, lexer.forest.token id = .ok (tokens id) :=
    fun id member => Forest.token_eq_ok (chain.present id member)
  refine ⟨?_, ?_, ?_, ?_, ?_⟩
  · cases ids with
    | nil =>
        obtain ⟨_, impossible, _⟩ := chain.ends
        cases impossible
    | cons first rest =>
        have isToken := asked first List.mem_cons_self
        refine ⟨first, rest, rfl, ?_, fun limit => ?_⟩
        · simp only [predecessor, isToken, chain.previous?_first]
          rfl
        · have fromFirst : lexer.Chain tokens ([] ++ first :: rest) := chain
          have walked := fromFirst.walk_next? limit
          simp only [successors, isToken, walked]
          rfl
  · rcases ids.eq_nil_or_concat with rfl | ⟨init, last, rfl⟩
    · obtain ⟨_, impossible, _⟩ := chain.ends
      cases impossible
    · rw [List.concat_eq_append] at chain asked ⊢
      have isToken := asked last (by simp)
      refine ⟨init, last, rfl, ?_, fun limit => ?_⟩
      · rw [kindOf?, chain.present last (by simp)]
        exact congrArg some (chain.isEnding_iff.mpr rfl)
      · simp only [predecessors, isToken, chain.walk_previous? limit]
        rfl
  · intro first firstMember second secondMember
    have isNext : lexer.successor first = .ok (lexer.next? first) := by
      simp only [successor, asked first firstMember]
      rfl
    have isPrevious :
        lexer.predecessor second = .ok (lexer.previous? second) := by
      simp only [predecessor, asked second secondMember]
      rfl
    rw [isNext, isPrevious, Except.ok.injEq, Except.ok.injEq]
    exact chain.next?_iff firstMember secondMember
  · intro id isMember inserted isSpare
    obtain ⟨before, after, rfl⟩ := List.append_of_mem isMember
    obtain ⟨next, _, answered, _, _, again⟩ :=
      chain.insertBefore_spare spares isSpare
    exact ⟨next, answered, again⟩
  · intro id isMember kind
    have present := chain.present id isMember
    obtain ⟨next, new, answered, isNew, isCopy⟩ :=
      replaceKind_copies present kind
    exact ⟨next, _, _, new, answered, present, lexer.forest.token?_size,
      isNew, isCopy⟩

/-- Two words are tokenized, and a token is made. -/
def twoWords : Lexer :=
  ((fresh .standard (.ofString .standard "a b") .full).tokenize.1.newToken
    .string "x").1

/-- The token that was made stands before the second word. -/
def twoWordsSpliced : Lexer :=
  (twoWords.insertBefore 1 3).toOption.getD twoWords

/-- The second word is replaced by a number. -/
def twoWordsReplaced : Lexer :=
  ((twoWordsSpliced.replaceKind 1 .integer).toOption.map Prod.fst).getD
    twoWordsSpliced

theorem twoWordsSpliced_spliced :
    Spliced .standard (.ofString .standard "a b") .full twoWordsSpliced
      [0, 3, 1, 2] [] := by
  have tokenized :
      (fresh .standard (.ofString .standard "a b") .full).tokenize.2 =
        [0, 1, 2] := by
    decide +kernel
  have isMade :
      ((fresh .standard (.ofString .standard "a b") .full).tokenize.1.newToken
        .string "x").2 = 3 := by
    decide +kernel
  have isOk : (twoWords.insertBefore 1 3).isOk = true := by
    decide +kernel
  have isStretch : Kind.string ≠ .eof := Kind.noConfusion
  have spliced :
      Spliced .standard (.ofString .standard "a b") .full twoWords
        ([0] ++ 1 :: [2]) [3] := by
    have made :
        Spliced .standard (.ofString .standard "a b") .full
          ((fresh .standard (.ofString .standard "a b")
            .full).tokenize.1.newToken .string "x").1
          (fresh .standard (.ofString .standard "a b") .full).tokenize.2
          [((fresh .standard (.ofString .standard "a b")
            .full).tokenize.1.newToken .string "x").2] :=
      Spliced.tokenized.newToken isStretch "x"
    rw [tokenized, isMade] at made
    exact made
  cases answered : twoWords.insertBefore 1 3 with
  | error misuse =>
      rw [answered] at isOk
      cases isOk
  | ok next =>
      rw [twoWordsSpliced, answered]
      exact spliced.insertBefore List.mem_cons_self answered

theorem twoWordsReplaced_spliced :
    Spliced .standard (.ofString .standard "a b") .full twoWordsReplaced
      [0, 3, 4, 2] [] := by
  have isReplaced :
      (twoWordsSpliced.replaceKind 1 .integer).toOption.map Prod.snd =
        some 4 := by
    decide +kernel
  have wasStretch : twoWordsSpliced.kindOf? 1 ≠ some .eof := by
    decide +kernel
  cases answered : twoWordsSpliced.replaceKind 1 .integer with
  | error misuse =>
      rw [answered] at isReplaced
      cases isReplaced
  | ok result =>
      rw [answered] at isReplaced
      have isFourth : result.2 = 4 := Option.some.inj isReplaced
      have replaced :
          Spliced .standard (.ofString .standard "a b") .full result.1
            ([0, 3] ++ result.2 :: [2]) [] :=
        twoWordsSpliced_spliced.replaceKind wasStretch Kind.noConfusion answered
      rw [isFourth] at replaced
      rw [twoWordsReplaced, answered]
      exact replaced

/--
The token that was made and the one that
was replaced are walked through in place.
-/
theorem spliced_refines_list_twoWords :
    Spliced .standard (.ofString .standard "a b") .full twoWordsReplaced
        [0, 3, 4, 2] [] ∧
      twoWordsReplaced.successors 0 9 = .ok [3, 4, 2] ∧
      twoWordsReplaced.predecessors 2 9 = .ok [4, 3, 0] ∧
      twoWordsReplaced.kindOf? 4 = some .integer := by
  obtain ⟨⟨first, rest, shape, _, forward⟩, ⟨init, last, ending, _, back⟩, _⟩ :=
    spliced_refines_list twoWordsReplaced_spliced
  cases shape
  obtain ⟨rfl, isLast⟩ :=
    List.append_inj' (show [0, 3, 4] ++ [2] = init ++ [last] from ending) rfl
  cases isLast
  have isInteger : twoWordsReplaced.kindOf? 4 = some .integer := by
    decide +kernel
  exact ⟨twoWordsReplaced_spliced, forward 9, back 9, isInteger⟩

end Snbt.Lexer
