import Mathlib.Data.List.Chain
import Snbt.Proofs.Lexer.Masking

namespace Snbt

/-!
# Progress of tokenizing

A lexer that has been asked for tokens, sent back, switched and masked has only
plain tokens, but it may know any of them, those of another mode or of inactive
kinds too.  Still each step of a walk leads behind the token that it starts
from, so tokenizing comes to the end of the input.
-/

/--
Stretches of a buffer of some length that lie one behind the other,
from an offset on.
-/
inductive Lexeme.InOrder (size : Nat) : Nat → List Lexeme → Prop where
  | nothing
      {offset : Nat}
      (inside : offset ≤ size) :
      InOrder size offset []
  | behind
      {offset : Nat}
      {lexeme : Lexeme}
      {rest : List Lexeme}
      (notEnding : lexeme.kind ≠ .eof)
      (forward : offset ≤ lexeme.start)
      (nonempty : lexeme.start < lexeme.stop)
      (later : InOrder size lexeme.stop rest) :
      InOrder size offset (lexeme :: rest)

namespace Lexeme.InOrder

variable {size offset : Nat} {lexemes : List Lexeme}

/-- There are no more stretches than offsets. -/
theorem length_le
    (ordered : InOrder size offset lexemes) :
    offset + lexemes.length ≤ size := by
  induction ordered with
  | nothing inside =>
      exact inside
  | behind _ forward nonempty _ inductionHypothesis =>
      rw [List.length_cons]
      omega

theorem of_mem
    (ordered : InOrder size offset lexemes) :
    ∀ lexeme ∈ lexemes,
      lexeme.kind ≠ .eof ∧ lexeme.start < lexeme.stop ∧ lexeme.stop ≤ size := by
  induction ordered with
  | nothing =>
      intro lexeme impossible
      cases impossible
  | behind notEnding _ nonempty later inductionHypothesis =>
      intro lexeme member
      rcases List.mem_cons.mp member with rfl | isLater
      · exact ⟨notEnding, nonempty,
          (Nat.le_add_right _ _).trans later.length_le⟩
      · exact inductionHypothesis lexeme isLater

/--
Each of them, and the end of the buffer behind them, starts behind the offset.
-/
theorem le_start
    (ordered : InOrder size offset lexemes) :
    ∀ lexeme ∈ lexemes ++ [⟨.eof, size, size⟩], offset ≤ lexeme.start := by
  induction ordered with
  | nothing inside =>
      intro lexeme member
      cases List.mem_singleton.mp member
      exact inside
  | behind _ forward nonempty _ inductionHypothesis =>
      intro lexeme member
      rcases List.mem_cons.mp member with rfl | isLater
      · exact forward
      · have := inductionHypothesis lexeme isLater
        omega

/--
With the end of the buffer behind them, each starts where those
before stop, or later.
-/
theorem pairwise
    (ordered : InOrder size offset lexemes) :
    (lexemes ++ [Lexeme.mk .eof size size]).Pairwise fun first second =>
      first.kind ≠ .eof ∧ first.stop ≤ second.start := by
  induction ordered with
  | nothing =>
      exact List.pairwise_singleton _ _
  | behind notEnding _ _ later inductionHypothesis =>
      refine List.pairwise_cons.mpr ⟨?_, inductionHypothesis⟩
      intro second member
      exact ⟨notEnding, later.le_start second member⟩

end Lexeme.InOrder

namespace Lexer

variable {settings : LexerSettings} {buffer : Buffer}
  {lexer before after : Lexer} {id : NodeId} {lexeme : Lexeme} {offset : Nat}
  {result : Lexer × NodeId} {returned : List NodeId}

/--
A token of a lexeme that starts at an offset or behind it has been come to.
-/
structure Advances (before : Lexer) (offset : Nat) (result : Lexer × NodeId) :
    Prop where
  grows : before.Grows result.1
  inside : result.1.position ≤ before.buffer.size
  next :
    ∃ lexeme, result.1.Holds result.2 lexeme ∧ lexeme.Lies before.buffer.size ∧
    offset ≤ lexeme.start

/-- A scan leaves the position inside the buffer. -/
theorem position_scanNext
    (plain : lexer.Plain 0)
    (inside : lexer.position ≤ lexer.buffer.size) :
    lexer.scanNext.1.position ≤ lexer.buffer.size := by
  cases invalid : (lexer.scanner.scan lexer.position).invalid? with
  | none =>
      rw [scanNext_of_valid invalid]
      exact (lexer.scanner.scan_lexeme_lies lexer.position).stop_le_size
  | some run =>
      have scans := scanNext_scans (plain.mono (Nat.zero_le _)) inside
      have sameSize := scans.keeps.size_eq
      rw [scanNext_of_invalid invalid] at sameSize ⊢
      rw [← sameSize]
      exact (View.settle_bounds _ _).2

/-- A scan from an offset comes to a token there or behind it. -/
theorem Scans.advances
    (scans : before.Scans offset result)
    (plain : before.Plain 0)
    (inside : result.1.position ≤ before.buffer.size) :
    before.Advances (min offset before.buffer.size) result := by
  refine ⟨scans.grows plain, inside, _, scans.holds,
    before.scanner.answer_lies offset, ?_⟩
  obtain ⟨forward, settled⟩ := before.view.settle_bounds offset
  have behind := (before.scanner.answer_isPlace settled).2
  rw [← before.scanner.answer_settle]
  exact forward.trans behind

theorem scanNext_advances
    (plain : lexer.Plain 0)
    (inside : lexer.position ≤ lexer.buffer.size) :
    lexer.Advances (min lexer.position lexer.buffer.size) lexer.scanNext :=
  (scanNext_scans (plain.mono (Nat.zero_le _)) inside).advances plain
    (position_scanNext plain inside)

theorem scanAt_advances
    (plain : lexer.Plain 0)
    (offset : Nat) :
    lexer.Advances (min offset lexer.buffer.size) (lexer.scanAt offset) :=
  (scanAt_scans plain offset).advances plain
    (position_scanNext (plain.withPosition _)
      (lexer.view.settle_bounds offset).2)

/-- The token after a plain one starts where that one stops, or behind it. -/
theorem tokenAfter_advances
    (plain : lexer.Plain 0)
    (inside : lexer.position ≤ lexer.buffer.size)
    (holds : lexer.Holds id lexeme)
    (lies : lexeme.Lies lexer.buffer.size) :
    lexer.Advances lexeme.stop
      (lexer.tokenAfter id
        (.ofStretch lexeme.kind lexeme.start lexeme.stop)) := by
  have stop_le_size := lies.stop_le_size
  cases found : lexer.next? id with
  | none =>
      have advances := scanAt_advances plain lexeme.stop
      rw [Nat.min_eq_left stop_le_size] at advances
      rw [tokenAfter_of_unknown found]
      exact advances
  | some known =>
      have notEnding : lexeme.kind ≠ .eof := by
        intro isEnding
        rw [holds.next?, if_pos isEnding] at found
        cases found
      rw [holds.next?, if_neg notEnding] at found
      obtain ⟨place, behind, present, _⟩ :=
        OffsetTable.next?_eq_some_iff.mp found
      obtain ⟨next, knownHolds, start, nextLies⟩ :=
        plain.entries place known (Nat.zero_le _) present
      cases isActive : lexer.active.contains next.kind with
      | true =>
          rw [tokenAfter_of_known holds notEnding found knownHolds isActive]
          exact ⟨plain.grows, inside, next, knownHolds, nextLies,
            behind.trans_eq start.symm⟩
      | false =>
          rw [tokenAfter_of_inactive holds notEnding found knownHolds isActive]
          have rewound := plain.rewind holds
          generalize lexer.rewind id
            (.ofStretch lexeme.kind lexeme.start lexeme.stop) = forgetful at *
          obtain ⟨grows, position, next⟩ :=
            scanAt_advances rewound.plain lexeme.stop
          rw [rewound.size_eq] at position next
          rw [Nat.min_eq_left stop_le_size] at next
          exact ⟨rewound.trans grows, position, next⟩

/--
The tokens of stretches from an offset on
have been come to, and that of the end.
-/
structure Finishes (before : Lexer) (offset : Nat) (after : Lexer)
    (ids : List NodeId) :
    Prop where
  grows : before.Grows after
  inside : after.position ≤ before.buffer.size
  tokens : ∃ stretches,
    List.Forall₂ after.Holds ids
      (stretches ++ [⟨.eof, before.buffer.size, before.buffer.size⟩]) ∧
    Lexeme.InOrder before.buffer.size offset stretches

/-- At the end of the input a walk is finished. -/
theorem Advances.finishes
    (advances : before.Advances offset result)
    (holds : result.1.Holds result.2 lexeme)
    (lies : lexeme.Lies before.buffer.size)
    (forward : offset ≤ lexeme.start)
    (isEnding : lexeme.kind = .eof) :
    before.Finishes offset result.1 [result.2] := by
  have atEnd : lexeme = ⟨.eof, before.buffer.size, before.buffer.size⟩ :=
    lies.isEnding_of_size_le (Nat.le_of_eq (lies.ending isEnding).1.symm)
  subst atEnd
  exact ⟨advances.grows, advances.inside, [], .cons holds .nil,
    .nothing forward⟩

/-- A walk that goes on behind a token comes to one stretch more. -/
theorem Advances.finishes_behind
    {ids : List NodeId}
    (advances : before.Advances offset result)
    (holds : result.1.Holds result.2 lexeme)
    (lies : lexeme.Lies before.buffer.size)
    (forward : offset ≤ lexeme.start)
    (notEnding : lexeme.kind ≠ .eof)
    (later : result.1.Finishes lexeme.stop after ids) :
    before.Finishes offset after (result.2 :: ids) := by
  obtain ⟨grows, inside, stretches, tokens, ordered⟩ := later
  have sameSize := advances.grows.size_eq
  rw [sameSize] at inside tokens ordered
  exact ⟨advances.grows.trans grows, inside, lexeme :: stretches,
    .cons (grows.holds holds) tokens,
    .behind notEnding forward (lies.stretch notEnding).1 ordered⟩

/--
A walk from a token on comes to the end of the input: behind each token there
are fewer offsets left, and there is a step for each of them.
-/
theorem Advances.tokensFrom
    (bound : Nat)
    (ids : Array NodeId)
    (advances : before.Advances offset result)
    (enough : before.buffer.size - offset < bound) :
    ∃ later,
      (tokensFrom bound result.1 ids result.2).2.toList = ids.toList ++ later ∧
      before.Finishes offset
        (tokensFrom bound result.1 ids result.2).1 later := by
  induction bound generalizing before offset result ids with
  | zero =>
      exact absurd enough (Nat.not_lt_zero _)
  | succ bound inductionHypothesis =>
      obtain ⟨lexeme, holds, lies, forward⟩ := advances.next
      have sameSize := advances.grows.size_eq
      by_cases isEnding : lexeme.kind = .eof
      · have finished :
            Lexer.tokensFrom (bound + 1) result.1 ids result.2 =
              (result.1, ids.push result.2) := by
          rw [Lexer.tokensFrom, holds.token?]
          exact if_pos isEnding
        rw [finished]
        exact ⟨[result.2], Array.toList_push,
          advances.finishes holds lies forward isEnding⟩
      · obtain ⟨nonempty, inside⟩ := lies.stretch isEnding
        have step := tokenAfter_advances advances.grows.plain
          (advances.inside.trans_eq sameSize.symm) holds (sameSize.symm ▸ lies)
        obtain ⟨later, idsEq, finishes⟩ :=
          inductionHypothesis (ids.push result.2) step (by omega)
        rw [tokensFrom_step holds isEnding]
        refine ⟨result.2 :: later, ?_,
          advances.finishes_behind holds lies forward isEnding finishes⟩
        rw [idsEq, Array.toList_push, List.append_assoc]
        rfl

/--
Tokenizing comes to the end of the input, whatever plain tokens are known.
-/
theorem tokenize_finishes
    (plain : lexer.Plain 0)
    (inside : lexer.position ≤ lexer.buffer.size) :
    lexer.Finishes (min lexer.position lexer.buffer.size)
      lexer.tokenize.1 lexer.tokenize.2 := by
  have enough := lexer.size_lt_walkBound
  obtain ⟨later, idsEq, finishes⟩ :=
    (scanNext_advances plain inside).tokensFrom lexer.walkBound #[] (by omega)
  have idsEq : lexer.tokenize.2 = later := idsEq
  rw [idsEq]
  exact finishes

/--
All that a lexer has in its table or has returned before are plain tokens.
-/
structure Sound (lexer : Lexer) (buffer : Buffer) (returned : List NodeId) :
    Prop where
  buffer_eq : lexer.buffer = buffer
  plain : lexer.Plain 0
  inside : lexer.position ≤ lexer.buffer.size
  known :
    ∀ id ∈ returned, ∃ lexeme, lexer.Holds id lexeme ∧
      lexeme.Lies lexer.buffer.size

/--
A lexer with fewer tokens in its table, the same nodes and the same
roles stays sound.
-/
theorem Sound.withLess
    (sound : before.Sound buffer returned)
    (sized : after.Sized)
    (buffer_eq : after.buffer = before.buffer)
    (roles_eq : after.roles = before.roles)
    (forest_eq : after.forest = before.forest)
    (position_eq : after.position = before.position)
    (fewer : ∀ place id, after.table.tokenAt? place = some id →
      before.table.tokenAt? place = some id) :
    after.Sound buffer returned := by
  have sameHolds : after.Holds = before.Holds := by
    have sameNode : after.scanner.node = before.scanner.node :=
      Scanner.node_congr roles_eq
    funext id lexeme
    rw [Holds, Holds, forest_eq, sameNode]
  refine ⟨buffer_eq.trans sound.buffer_eq, ⟨sized, ?_⟩, ?_, ?_⟩
  · intro place id behind found
    rw [sameHolds, buffer_eq]
    exact sound.plain.entries place id behind (fewer place id found)
  · rw [position_eq, buffer_eq]
    exact sound.inside
  · rw [sameHolds, buffer_eq]
    exact sound.known

/-- A lexer that has come to more tokens stays sound. -/
theorem Sound.withMore
    (ids : List NodeId)
    (sound : before.Sound buffer returned)
    (grows : before.Grows after)
    (buffer_eq : after.buffer = before.buffer)
    (inside : after.position ≤ before.buffer.size)
    (more :
      ∀ id ∈ ids, ∃ lexeme, after.Holds id lexeme ∧
        lexeme.Lies before.buffer.size) :
    after.Sound buffer (ids ++ returned) := by
  refine ⟨buffer_eq.trans sound.buffer_eq, grows.plain, ?_, ?_⟩
  · rw [buffer_eq]
    exact inside
  · intro id member
    rw [buffer_eq]
    rcases List.mem_append.mp member with isNew | isOld
    · exact more id isNew
    · obtain ⟨lexeme, holds, lies⟩ := sound.known id isOld
      exact ⟨lexeme, grows.holds holds, lies⟩

/--
A lexer that comes of a new one by asking for tokens, going back, changing what
is reported and how, and taking lines out; with the tokens that were returned.
-/
inductive Driven (settings : LexerSettings) (buffer : Buffer) :
    Lexer → List NodeId → Prop where
  | new :
      Driven settings buffer (ofBuffer settings buffer) []
  | nextToken
      {lexer : Lexer}
      {returned : List NodeId}
      {previous? : Option NodeId}
      {result : Lexer × NodeId}
      (driven : Driven settings buffer lexer returned)
      (earlier : ∀ previous, previous? = some previous → previous ∈ returned)
      (answered : lexer.nextToken previous? = .ok result) :
      Driven settings buffer result.1 (result.2 :: returned)
  | scanAt
      {lexer : Lexer}
      {returned : List NodeId}
      (driven : Driven settings buffer lexer returned)
      (offset : Nat) :
      Driven settings buffer (lexer.scanAt offset).1
        ((lexer.scanAt offset).2 :: returned)
  | tokenize
      {lexer : Lexer}
      {returned : List NodeId}
      (driven : Driven settings buffer lexer returned) :
      Driven settings buffer lexer.tokenize.1 (lexer.tokenize.2 ++ returned)
  | reset
      {lexer after : Lexer}
      {returned : List NodeId}
      {token : NodeId}
      {mode? : Option Mode}
      (driven : Driven settings buffer lexer returned)
      (earlier : token ∈ returned)
      (answered : lexer.reset token mode? = .ok after) :
      Driven settings buffer after returned
  | withMode
      {lexer : Lexer}
      {returned : List NodeId}
      (driven : Driven settings buffer lexer returned)
      (mode : Mode) :
      Driven settings buffer (lexer.withMode mode) returned
  | activate
      {lexer : Lexer}
      {returned : List NodeId}
      (driven : Driven settings buffer lexer returned)
      (kinds : List Kind) :
      Driven settings buffer (lexer.activate kinds) returned
  | deactivate
      {lexer : Lexer}
      {returned : List NodeId}
      (driven : Driven settings buffer lexer returned)
      (kinds : List Kind) :
      Driven settings buffer (lexer.deactivate kinds) returned
  | mask
      {lexer : Lexer}
      {returned : List NodeId}
      (driven : Driven settings buffer lexer returned)
      (lines : LineMask) :
      Driven settings buffer (lexer.mask lines) returned

/-- A step to one more token keeps a lexer sound. -/
theorem Sound.advances
    (sound : before.Sound buffer returned)
    (advances : before.Advances offset result) :
    result.1.Sound buffer (result.2 :: returned) := by
  obtain ⟨lexeme, holds, lies, _⟩ := advances.next
  refine sound.withMore [result.2] advances.grows ?_ advances.inside ?_
  · exact congrArg (fun scanner => scanner.view.buffer)
      advances.grows.scanner_eq
  · intro id member
    cases List.mem_singleton.mp member
    exact ⟨lexeme, holds, lies⟩

/-- A walk to the end of the input keeps a lexer sound. -/
theorem Sound.finishes
    {ids : List NodeId}
    (sound : before.Sound buffer returned)
    (finishes : before.Finishes offset after ids) :
    after.Sound buffer (ids ++ returned) := by
  obtain ⟨stretches, tokens, ordered⟩ := finishes.tokens
  refine sound.withMore ids finishes.grows ?_ finishes.inside ?_
  · exact congrArg (fun scanner => scanner.view.buffer)
      finishes.grows.scanner_eq
  · intro id member
    obtain ⟨lexeme, isLexeme, holds⟩ := exists_mem_of_forall₂ tokens member
    refine ⟨lexeme, holds, ?_⟩
    rcases List.mem_append.mp isLexeme with isStretch | isEnding
    · obtain ⟨notEnding, nonempty, inside⟩ := ordered.of_mem lexeme isStretch
      exact ⟨fun _ => ⟨nonempty, inside⟩,
        fun isEnding => absurd isEnding notEnding⟩
    · cases List.mem_singleton.mp isEnding
      exact ⟨fun notEnding => absurd rfl notEnding, fun _ => ⟨rfl, rfl⟩⟩

/-- Whatever a lexer has been asked for, it is sound. -/
theorem Driven.sound
    (driven : Driven settings buffer lexer returned) :
    lexer.Sound buffer returned := by
  induction driven with
  | new =>
      refine ⟨rfl, fresh_plain settings buffer .full, Nat.zero_le _, ?_⟩
      intro id impossible
      cases impossible
  | @nextToken lexer returned previous? result _ earlier answered sound =>
      cases previous? with
      | none =>
          cases answered
          exact sound.advances (scanNext_advances sound.plain sound.inside)
      | some previous =>
          obtain ⟨lexeme, holds, lies⟩ :=
            sound.known previous (earlier previous rfl)
          rw [nextToken_of_holds holds] at answered
          cases answered
          exact sound.advances
            (tokenAfter_advances sound.plain sound.inside holds lies)
  | @scanAt lexer returned _ offset sound =>
      exact sound.advances (scanAt_advances sound.plain offset)
  | @tokenize lexer returned _ sound =>
      exact sound.finishes (tokenize_finishes sound.plain sound.inside)
  | @reset lexer after returned token mode? _ earlier answered sound =>
      obtain ⟨lexeme, holds, _⟩ := sound.known token earlier
      simp only [Lexer.reset, Forest.token_eq_ok holds.token?] at answered
      cases answered
      have rewound := sound.withMore [] (sound.plain.rewind holds) rfl
        (lexer.view.settle_bounds lexeme.stop).2 fun _ impossible => by
          cases impossible
      exact rewound.withLess
        ⟨rewound.plain.sized.size_eq, rewound.plain.sized.shown⟩ rfl rfl rfl
        rfl fun _ _ found => found
  | @withMode lexer returned _ mode sound =>
      exact sound.withLess ⟨sound.plain.sized.size_eq, sound.plain.sized.shown⟩
        rfl rfl rfl rfl
        fun _ _ found => found
  | @activate lexer returned _ kinds sound =>
      exact sound.withLess ⟨sound.plain.sized.size_eq, sound.plain.sized.shown⟩
        rfl rfl rfl rfl
        fun _ _ found => found
  | @deactivate lexer returned _ kinds sound =>
      exact sound.withLess ⟨sound.plain.sized.size_eq, sound.plain.sized.shown⟩
        rfl rfl rfl rfl
        fun _ _ found => found
  | @mask lexer returned _ lines sound =>
      have hides := mask_hides sound.plain.sized lines
      refine sound.withLess (hides.sized sound.plain.sized) hides.buffer_eq
        hides.roles_eq hides.forest_eq hides.position_eq ?_
      intro place id found
      rw [hides.tokenAt?_eq] at found
      split at found
      case isTrue =>
        cases found
      case isFalse =>
        exact found

/--
Whatever a lexer has been asked for, tokenizing gives stretches one behind
the other and then the end of the input, at most one token for each offset
and one for the end.
-/
theorem tokenize_progress
    (driven : Driven settings buffer lexer returned) :
    ∃ stretches : List Lexeme,
      lexer.tokenize.2.map lexer.tokenize.1.lexeme? =
        (stretches ++ [Lexeme.mk .eof buffer.size buffer.size]).map some ∧
      (∀ lexeme ∈ stretches, lexeme.kind ≠ .eof ∧ lexeme.start < lexeme.stop) ∧
      (stretches ++ [Lexeme.mk .eof buffer.size buffer.size]).IsChain
        (fun first second => first.stop ≤ second.start) ∧
      lexer.tokenize.2.length ≤ buffer.size + 1 := by
  have sound := driven.sound
  obtain ⟨_, _, stretches, tokens, ordered⟩ :=
    tokenize_finishes sound.plain sound.inside
  rw [sound.buffer_eq] at tokens ordered
  refine ⟨stretches, map_lexeme?_of_holds tokens, ?_,
    ordered.pairwise.isChain.imp fun _ _ => And.right, ?_⟩
  · intro lexeme member
    obtain ⟨notEnding, nonempty, _⟩ := ordered.of_mem lexeme member
    exact ⟨notEnding, nonempty⟩
  · have count := ordered.length_le
    rw [tokens.length_eq, List.length_append, List.length_singleton]
    omega

/--
The last word and the first of three lines were scanned; then the second line
was taken out, and words became inactive.
-/
def revised : Lexer :=
  ((((ofString .standard "a\nb c\nd").scanAt 6).1.scanAt 0).1.mask
    (.hide [2])).deactivate [.string]

/--
The word that is known is invalid input now, and the end of the
input comes behind it.
-/
theorem tokenize_progress_revised :
    Driven .standard (.ofString .standard "a\nb c\nd") revised
      [(((ofString .standard "a\nb c\nd").scanAt 6).1.scanAt 0).2,
        ((ofString .standard "a\nb c\nd").scanAt 6).2] ∧
    (∃ stretches : List Lexeme,
      revised.tokenize.2.map revised.tokenize.1.lexeme? =
        (stretches ++ [Lexeme.mk .eof 7 7]).map some ∧
      (∀ lexeme ∈ stretches, lexeme.kind ≠ .eof ∧ lexeme.start < lexeme.stop) ∧
      (stretches ++ [Lexeme.mk .eof 7 7]).IsChain
        (fun first second => first.stop ≤ second.start) ∧
      revised.tokenize.2.length ≤ 8) ∧
    revised.tokenize.2.map revised.tokenize.1.lexeme? =
      [some (Lexeme.mk .invalid 6 7), some (Lexeme.mk .eof 7 7)] := by
  have driven :
      Driven .standard (.ofString .standard "a\nb c\nd") revised
        [(((ofString .standard "a\nb c\nd").scanAt 6).1.scanAt 0).2,
          ((ofString .standard "a\nb c\nd").scanAt 6).2] :=
    (((Driven.new.scanAt 6).scanAt 0).mask (.hide [2])).deactivate [.string]
  have size : (Buffer.ofString .standard "a\nb c\nd").size = 7 := by
    decide +kernel
  have progress := tokenize_progress driven
  rw [size] at progress
  refine ⟨driven, progress, ?_⟩
  decide +kernel

end Lexer

end Snbt
