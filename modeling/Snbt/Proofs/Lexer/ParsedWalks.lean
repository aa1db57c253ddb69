import Mathlib.Data.List.DropRight
import Snbt.Proofs.Lexer.Lossless
import Snbt.Proofs.Lexer.Neighbours
import Snbt.Proofs.Lexer.SplicedLists

namespace Snbt.Lexer

/-!
# Walks among parsed tokens

Asking for the next parsed token or the last one passes over the unparsed
tokens between them, so it leads along the parsed tokens of a chain in order.
Each unparsed token stands in the run before one parsed token, which is the
next behind it.  With the run before it each parsed token gives back its part
of the text, and together they give back all of it.
-/

/-- The nodes that asking again and again leads to, at most `limit` of them. -/
def follow
    (ask : NodeId → Except Misuse (Option NodeId)) :
    Nat → NodeId → Except Misuse (List NodeId)
  | 0, _ =>
      return []
  | limit + 1, id => do
      match ← ask id with
      | some next => return next :: (← follow ask limit next)
      | none => return []

/--
The text of a token behind those of the unparsed tokens directly before it.
-/
def textWithUnparsed (lexer : Lexer) (id : NodeId) : Except Misuse String := do
  let unparsed ← lexer.unparsedBefore id
  let before ← unparsed.mapM lexer.image
  return String.join before ++ (← lexer.image id)

variable {lexer : Lexer} {tokens : NodeId → Token}
  {before after ids : List NodeId} {id : NodeId}

/-! ## Steps among parsed tokens -/

/--
The run before a node is what the walk back meets before the first parsed node.
-/
theorem unparsedRun_eq
    (lexer : Lexer)
    (limit : Nat)
    (id : NodeId)
    (run : List NodeId) :
    lexer.unparsedRun limit id run =
      ((walk lexer.previous? limit id).takeWhile
        lexer.forest.isUnparsed).reverse ++ run := by
  induction limit generalizing id run with
  | zero =>
      rfl
  | succ limit inductionHypothesis =>
      rw [unparsedRun, walk]
      cases lexer.previous? id with
      | none =>
          rfl
      | some previous =>
          cases isUnparsed : lexer.forest.isUnparsed previous with
          | true =>
              simp only [isUnparsed, if_true, List.takeWhile_cons,
                inductionHypothesis, List.reverse_cons, List.append_assoc,
                List.singleton_append]
          | false =>
              simp only [isUnparsed, Bool.false_eq_true, if_false,
                List.takeWhile_cons]
              rfl

/-- A chain has no more members than there are nodes. -/
theorem Chain.length_le
    (chain : lexer.Chain tokens ids) :
    ids.length ≤ lexer.forest.size := by
  have covered : ids ⊆ List.range lexer.forest.size := by
    intro id member
    exact List.mem_range.mpr
      (Forest.lt_size_of_token? (chain.present id member))
  have shorter := chain.distinct.subperm covered
  simpa using shorter.length_le

/-- Steps forward from a member lead to all that stand behind it. -/
theorem Chain.walk_forward
    (chain : lexer.Chain tokens (before ++ id :: after)) :
    walk lexer.next? (lexer.forest.size + 1) id = after := by
  have bound := chain.length_le
  rw [List.length_append, List.length_cons] at bound
  have notLonger : after.length ≤ lexer.forest.size + 1 := by
    omega
  rw [chain.walk_next?, List.take_of_length_le notLonger]

/--
Steps back from a member lead to all that stand before it, the nearest first.
-/
theorem Chain.walk_back
    (chain : lexer.Chain tokens (before ++ id :: after)) :
    walk lexer.previous? (lexer.forest.size + 1) id = before.reverse := by
  have bound := chain.length_le
  rw [List.length_append] at bound
  have notLonger : before.reverse.length ≤ lexer.forest.size + 1 := by
    rw [List.length_reverse]
    omega
  rw [chain.walk_previous?, List.take_of_length_le notLonger]

/-- The next parsed token is the first of those behind a member. -/
theorem Chain.parsedSuccessor
    (chain : lexer.Chain tokens (before ++ id :: after)) :
    lexer.parsedSuccessor id = .ok (after.filter lexer.isParsed).head? := by
  rw [Lexer.parsedSuccessor, Forest.token_eq_ok (chain.present id (by simp)),
    List.head?_filter, firstParsed?_eq_find?, chain.walk_forward]
  rfl

/-- The last parsed token is the last of those before a member. -/
theorem Chain.parsedPredecessor
    (chain : lexer.Chain tokens (before ++ id :: after)) :
    lexer.parsedPredecessor id =
      .ok (before.filter lexer.isParsed).getLast? := by
  rw [Lexer.parsedPredecessor, Forest.token_eq_ok (chain.present id (by simp)),
    List.getLast?_filter, firstParsed?_eq_find?, chain.walk_back]
  rfl

/--
The run before a member holds the unparsed
ones at the end of what stands before it.
-/
theorem Chain.unparsedBefore
    (chain : lexer.Chain tokens (before ++ id :: after)) :
    lexer.unparsedBefore id =
      .ok (before.rtakeWhile lexer.forest.isUnparsed) := by
  rw [Lexer.unparsedBefore, Forest.token_eq_ok (chain.present id (by simp)),
    unparsedRun_eq, chain.walk_back, List.append_nil]
  rfl

/-- A parsed member knows its neighbours among the parsed members. -/
theorem Chain.parsed_neighbours
    (chain : lexer.Chain tokens ids)
    (split : ids.filter lexer.isParsed = before ++ id :: after) :
    lexer.parsedSuccessor id = .ok after.head? ∧
      lexer.parsedPredecessor id = .ok before.getLast? := by
  obtain ⟨ahead, behind, rfl, rfl, isBehind⟩ :=
    List.filter_eq_append_iff.mp split
  obtain ⟨passed, rest, rfl, nonePassed, _, rfl⟩ :=
    List.filter_eq_cons_iff.mp isBehind
  rw [← List.append_assoc] at chain
  refine ⟨chain.parsedSuccessor, ?_⟩
  rw [chain.parsedPredecessor, List.filter_append,
    List.filter_eq_nil_iff.mpr nonePassed, List.append_nil]

/-- Asking leads along a list if each of its members leads to the next one. -/
theorem follow_of_steps
    {ask : NodeId → Except Misuse (Option NodeId)}
    {first : NodeId}
    {rest : List NodeId}
    (steps :
      ∀ before id after, first :: rest = before ++ id :: after →
        ask id = .ok after.head?)
    (limit : Nat) :
    follow ask limit first = .ok (rest.take limit) := by
  induction limit generalizing first rest with
  | zero =>
      rfl
  | succ limit inductionHypothesis =>
      rw [follow, steps [] first rest rfl]
      cases rest with
      | nil =>
          rfl
      | cons second rest =>
          have behind := inductionHypothesis fun before id after split =>
            steps (first :: before) id after (congrArg (first :: ·) split)
          simp only [List.head?_cons, bind, Except.bind, behind]
          rfl

/-! ## Texts -/

theorem image_of_token
    {token : Token}
    (isToken : lexer.forest.token? id = some token) :
    lexer.image id = .ok (lexer.imageOf token) := by
  obtain ⟨node, isNode, content⟩ := Forest.token?_eq_some_iff.mp isToken
  simp only [image, Forest.node, isNode, bind, Except.bind, content]
  rfl

theorem imageOfAll_nil
    (lexer : Lexer) :
    lexer.imageOfAll [] = "" :=
  rfl

theorem imageOfAll_append
    (lexer : Lexer)
    (front back : List NodeId) :
    lexer.imageOfAll (front ++ back) =
      lexer.imageOfAll front ++ lexer.imageOfAll back := by
  simp only [imageOfAll, List.filterMap_append, List.map_append,
    String.join_append]

/-- The texts of tokens one by one are their text together. -/
theorem exists_images
    (present : ∀ id ∈ ids, lexer.forest.token? id = some (tokens id)) :
    ∃ texts, ids.mapM lexer.image = .ok texts ∧
      String.join texts = lexer.imageOfAll ids := by
  induction ids with
  | nil =>
      exact ⟨[], rfl, rfl⟩
  | cons first rest inductionHypothesis =>
      have isFirst := present first List.mem_cons_self
      obtain ⟨texts, answered, joined⟩ :=
        inductionHypothesis fun id member =>
          present id (List.mem_cons_of_mem _ member)
      refine ⟨lexer.imageOf (tokens first) :: texts, ?_, ?_⟩
      · rw [List.mapM_cons, image_of_token isFirst, answered]
        rfl
      · rw [String.join_cons, joined, ← List.singleton_append,
          imageOfAll_append]
        simp only [imageOfAll, List.filterMap_cons, isFirst, List.filterMap_nil,
          List.map_cons, List.map_nil, String.join_cons, String.join_nil,
          String.append_empty]

/-- A member with the run before it has the text of both. -/
theorem Chain.textWithUnparsed
    (chain : lexer.Chain tokens (before ++ id :: after)) :
    lexer.textWithUnparsed id =
      .ok (lexer.imageOfAll
        (before.rtakeWhile lexer.forest.isUnparsed ++ [id])) := by
  have isToken := chain.present id (by simp)
  have inRun : ∀ other ∈ before.rtakeWhile lexer.forest.isUnparsed,
      lexer.forest.token? other = some (tokens other) := by
    intro other member
    have isBefore := (List.rtakeWhile_suffix _ _).subset member
    exact chain.present other (List.mem_append_left _ isBefore)
  obtain ⟨texts, answered, joined⟩ := exists_images inRun
  have last : lexer.imageOfAll [id] = lexer.imageOf (tokens id) := by
    simp [imageOfAll, isToken]
  rw [Lexer.textWithUnparsed, chain.unparsedBefore, imageOfAll_append,
    last, ← joined]
  simp only [bind, Except.bind, answered, image_of_token isToken]
  rfl

/--
The parsed members up to any place of a chain, each with the run before it, and
the run that is left there make up the text up to that place.
-/
theorem Chain.exists_texts
    (chain : lexer.Chain tokens (before ++ after)) :
    ∃ texts,
      (before.filter lexer.isParsed).mapM lexer.textWithUnparsed = .ok texts ∧
      String.join texts ++
        lexer.imageOfAll (before.rtakeWhile lexer.forest.isUnparsed) =
        lexer.imageOfAll before := by
  induction before using List.reverseRecOn generalizing after with
  | nil =>
      exact ⟨[], rfl, rfl⟩
  | append_singleton before id inductionHypothesis =>
      rw [List.append_assoc, List.singleton_append] at chain
      obtain ⟨texts, answered, joined⟩ := inductionHypothesis chain
      cases isUnparsed : lexer.forest.isUnparsed id with
      | true =>
          have filtered :
              (before ++ [id]).filter lexer.isParsed =
                before.filter lexer.isParsed := by
            rw [List.filter_append,
              List.filter_cons_of_neg (by simp [isParsed, isUnparsed]),
              List.filter_nil, List.append_nil]
          refine ⟨texts, filtered ▸ answered, ?_⟩
          rw [List.rtakeWhile_concat_pos _ _ _ isUnparsed, imageOfAll_append,
            imageOfAll_append, ← String.append_assoc, joined]
      | false =>
          have filtered :
              (before ++ [id]).filter lexer.isParsed =
                before.filter lexer.isParsed ++ [id] := by
            rw [List.filter_append,
              List.filter_cons_of_pos (by simp [isParsed, isUnparsed]),
              List.filter_nil]
          have notUnparsed : ¬lexer.forest.isUnparsed id = true := by
            rw [isUnparsed]
            exact Bool.false_ne_true
          refine ⟨texts ++
            [lexer.imageOfAll
              (before.rtakeWhile lexer.forest.isUnparsed ++ [id])], ?_, ?_⟩
          · rw [filtered, List.mapM_append, answered, List.mapM_cons,
              chain.textWithUnparsed]
            rfl
          · rw [List.rtakeWhile_concat_neg _ _ _ notUnparsed, imageOfAll_nil,
              String.append_empty, String.join_append, String.join_cons,
              String.join_nil, String.append_empty, imageOfAll_append,
              imageOfAll_append, ← String.append_assoc, joined]

/-! ## Whole chains -/

section Whole

variable {first last : NodeId} {rest : List NodeId}

/-- The last member of a chain is its only one that ends the input. -/
theorem Chain.isEnding_iff_last
    (chain : lexer.Chain tokens ids)
    (isLast : ids.getLast? = some last)
    (member : id ∈ ids) :
    lexer.kindOf? id = some .eof ↔ id = last := by
  obtain ⟨before, after, rfl⟩ := List.append_of_mem member
  rw [kindOf?_eq_some (chain.present id member), Option.some.injEq,
    chain.isEnding_iff]
  constructor
  · rintro rfl
    rw [List.getLast?_concat] at isLast
    exact Option.some.inj isLast
  · rintro rfl
    cases after with
    | nil =>
        rfl
    | cons second after =>
        rw [List.getLast?_append_cons, List.getLast?_cons_cons] at isLast
        have notLast := (List.nodup_append.mp chain.distinct).2.1.notMem
        exact absurd (List.mem_of_getLast? isLast) notLast

/-- Both ways through the parsed members of a chain. -/
theorem Chain.follow_parsed
    (chain : lexer.Chain tokens ids)
    (split : ids.filter lexer.isParsed = first :: rest)
    (isLast : (first :: rest).getLast? = some last)
    (limit : Nat) :
    follow lexer.parsedSuccessor limit first = .ok (rest.take limit) ∧
      follow lexer.parsedPredecessor limit last =
        .ok ((first :: rest).dropLast.reverse.take limit) := by
  refine ⟨follow_of_steps ?forward limit, follow_of_steps ?back limit⟩
  case forward =>
    intro before id after same
    exact (chain.parsed_neighbours (split.trans same)).1
  case back =>
    intro before id after same
    obtain ⟨init, isInit⟩ := List.getLast?_eq_some_iff.mp isLast
    rw [isInit, List.dropLast_concat, ← List.reverse_concat, ← isInit,
      List.reverse_eq_iff, List.reverse_append, List.reverse_cons,
      List.append_assoc, List.singleton_append] at same
    rw [(chain.parsed_neighbours (split.trans same)).2, List.getLast?_reverse]

/-- If its end is parsed, the parsed members of a chain have all of its text. -/
theorem Chain.join_texts
    (chain : lexer.Chain tokens ids)
    (isLast : ids.getLast? = some last)
    (lastParsed : lexer.isParsed last = true) :
    ∃ texts,
      (ids.filter lexer.isParsed).mapM lexer.textWithUnparsed = .ok texts ∧
      String.join texts = lexer.imageOfAll ids := by
  have upToEnd : lexer.Chain tokens (ids ++ []) := by
    rw [List.append_nil]
    exact chain
  obtain ⟨texts, answered, joined⟩ := upToEnd.exists_texts
  obtain ⟨init, rfl⟩ := List.getLast?_eq_some_iff.mp isLast
  have notUnparsed : ¬lexer.forest.isUnparsed last = true := by
    rw [isParsed, Bool.not_eq_true'] at lastParsed
    rw [lastParsed]
    exact Bool.false_ne_true
  rw [List.rtakeWhile_concat_neg _ _ _ notUnparsed, imageOfAll_nil,
    String.append_empty] at joined
  exact ⟨texts, answered, joined⟩

/--
If the last member is parsed, there is a
first parsed one, and the last is the same.
-/
theorem exists_first_parsed
    (isLast : ids.getLast? = some last)
    (lastParsed : lexer.isParsed last = true) :
    ∃ first rest, ids.filter lexer.isParsed = first :: rest ∧
      (first :: rest).getLast? = some last := by
  obtain ⟨init, rfl⟩ := List.getLast?_eq_some_iff.mp isLast
  have filtered :
      (init ++ [last]).filter lexer.isParsed =
        init.filter lexer.isParsed ++ [last] := by
    rw [List.filter_append, List.filter_cons_of_pos lastParsed, List.filter_nil]
  obtain ⟨first, rest, split⟩ :=
    List.exists_cons_of_ne_nil
      (List.concat_ne_nil last (init.filter lexer.isParsed))
  refine ⟨first, rest, filtered.trans split, ?_⟩
  rw [← split, List.getLast?_concat]

/-- Tokenizing ends with the end of the input, which takes part in parsing. -/
theorem tokenize_last_isParsed
    (plain : lexer.Plain 0)
    (inside : lexer.position ≤ lexer.buffer.size)
    (nothing : ∀ place, lexer.table.tokenAt? place = none) :
    ∃ last, lexer.tokenize.2.getLast? = some last ∧
      lexer.tokenize.1.isParsed last = true := by
  obtain ⟨last, isLast, isEnding⟩ :=
    (tokenize_chain_of_nothing plain inside nothing).ends
  obtain ⟨_, holds⟩ := tokenize_holds plain inside nothing
  obtain ⟨lexeme, _, holds⟩ :=
    exists_mem_of_forall₂ holds (List.mem_of_mem_getLast? isLast)
  have isEnding : lexeme.kind = .eof := by
    rw [← isEnding, tokenOf_of_holds holds]
    rfl
  refine ⟨last, isLast, ?_⟩
  rw [isParsed, holds.isUnparsed, isEnding]
  rfl

end Whole

/--
Unparsed tokens are lost by no walk among the others.  With no kind skipped,
whatever lines are masked, the tokens that are not unparsed are met in order by
asking for the next parsed token from the first to the end of the input, and in
reverse by asking for the last one.  Their texts, each behind those of the
unparsed tokens directly before it, make up the text of what the masks left.
-/
theorem parsed_walks_lose_nothing
    (settings : LexerSettings)
    (buffer : Buffer)
    (active : KindSet)
    (masks : List LineMask)
    (noSkip : settings.roles.skip = .empty) :
    let scanned := ((fresh settings buffer active).masked masks).tokenize
    let lexer := scanned.1
    ∃ first rest last texts,
      scanned.2.filter lexer.isParsed = first :: rest ∧
      (first :: rest).getLast? = some last ∧
      (∀ id ∈ first :: rest, lexer.kindOf? id = some .eof ↔ id = last) ∧
      (∀ limit,
        follow lexer.parsedSuccessor limit first = .ok (rest.take limit)) ∧
      (∀ limit, follow lexer.parsedPredecessor limit last =
        .ok ((first :: rest).dropLast.reverse.take limit)) ∧
      lexer.parsedPredecessor first = .ok none ∧
      (first :: rest).mapM lexer.textWithUnparsed = .ok texts ∧
      String.join texts =
        Utf16.toString (((List.range buffer.size).filter fun offset =>
          !(buffer.without masks).hidden offset).filterMap buffer.unit?) := by
  intro scanned lexer
  obtain ⟨isMasked, viewEq⟩ := fresh_masked settings buffer active masks
  have inside : ((fresh settings buffer active).masked masks).position ≤
      ((fresh settings buffer active).masked masks).buffer.size := by
    rw [isMasked.position_eq]
    exact Nat.zero_le _
  have chain : lexer.Chain lexer.tokenOf scanned.2 :=
    tokenize_chain_of_nothing isMasked.plain inside isMasked.nothing
  have lossless :
      ∃ lexemes, Lossless (buffer.without masks) lexer scanned.2 lexemes := by
    rw [← viewEq]
    refine tokenize_lossless_of_nothing ?_ ?_ isMasked.position_eq
      isMasked.plain isMasked.nothing
    · rw [viewEq]
      exact buffer.without_hidesLines masks
    · rw [isMasked.roles_eq]
      exact noSkip
  obtain ⟨lexemes, lossless⟩ := lossless
  obtain ⟨last, isLast, lastParsed⟩ :=
    tokenize_last_isParsed isMasked.plain inside isMasked.nothing
  obtain ⟨first, rest, split, lastOfParsed⟩ :=
    exists_first_parsed isLast lastParsed
  have opens : scanned.2.filter lexer.isParsed = [] ++ first :: rest := split
  obtain ⟨texts, answered, joined⟩ := chain.join_texts isLast lastParsed
  refine ⟨first, rest, last, texts, split, lastOfParsed, ?ends,
    fun limit => (chain.follow_parsed split lastOfParsed limit).1,
    fun limit => (chain.follow_parsed split lastOfParsed limit).2,
    (chain.parsed_neighbours opens).2, split ▸ answered,
    joined.trans lossless.all⟩
  case ends =>
    intro id member
    rw [← split] at member
    exact chain.isEnding_iff_last isLast (List.mem_of_mem_filter member)

/--
Among the tokens of three lines, the second masked, the unparsed
ones are passed over.
-/
theorem parsed_walks_lose_nothing_secondMasked :
    Roles.keepingWhitespace.skip = .empty ∧
    secondMasked.tokenize.2 = [0, 1, 2, 3, 4, 5] ∧
    follow secondMasked.tokenize.1.parsedSuccessor 9 0 = .ok [2, 4, 5] ∧
    follow secondMasked.tokenize.1.parsedPredecessor 9 5 = .ok [4, 2, 0] ∧
    ∃ texts,
      [0, 2, 4, 5].mapM secondMasked.tokenize.1.textWithUnparsed = .ok texts ∧
      String.join texts = "a b\ne" := by
  obtain ⟨first, rest, last, texts, split, isLast, _, forward, back, _,
    answered, joined⟩ :=
    parsed_walks_lose_nothing
      { LexerSettings.standard with roles := .keepingWhitespace }
      (.ofString .standard "a b\nc d\ne") .full [.hide [2]] rfl
  have tokens : secondMasked.tokenize.2 = [0, 1, 2, 3, 4, 5] := by
    decide +kernel
  have parsed :
      [0, 1, 2, 3, 4, 5].filter secondMasked.tokenize.1.isParsed =
        [0, 2, 4, 5] := by
    decide +kernel
  rw [show ((fresh _ _ _).masked _).tokenize.2 = _ from tokens] at split
  cases parsed.symm.trans split
  cases isLast
  refine ⟨rfl, tokens, forward 9, back 9, texts, answered, joined.trans ?_⟩
  decide +kernel

end Snbt.Lexer
