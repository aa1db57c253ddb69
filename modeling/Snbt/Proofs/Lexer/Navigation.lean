import Snbt.Proofs.Lexer.ChainWalks
import Snbt.Proofs.Lexer.MaskedLinks

namespace Snbt.Lexer

/-!
# Navigation

A lexer can be used in any way that puts no empty token into the table: only
tokens that are fresh are spliced in, and an empty token that was not spliced
in is replaced only by the end of the input.  Then no walk stalls, and no
bound of a walk is ever come to.  An empty token that is replaced by another
kind follows itself.
-/

variable {settings : LexerSettings} {buffer : Buffer} {masks : List LineMask}
  {lexer after : Lexer} {spares : List NodeId} {id : NodeId} {token : Token}
  {kind : Kind} {result : Lexer × NodeId}

/--
A copy of a token may be put where it starts: it is not put, or not
empty, or the end.
-/
def MayReplace (lexer : Lexer) (id : NodeId) (kind : Kind) : Prop :=
  ∀ token, lexer.forest.token? id = some token →
    token.inserted = true ∨ token.start < token.stop ∨ kind = .eof

/--
A lexer that comes of a new one by any mix of scanning, going back, changing
what is reported and how, taking lines out, making tokens, splicing fresh ones
in before others and replacing tokens where that is allowed.  Tokens that were
made and not used are spare.
-/
inductive Threaded (settings : LexerSettings) (buffer : Buffer) :
    List LineMask → Lexer → List NodeId → Prop where
  | new :
      Threaded settings buffer [] (ofBuffer settings buffer) []
  | nextToken
      {masks : List LineMask}
      {lexer : Lexer}
      {spares : List NodeId}
      {previous? : Option NodeId}
      {result : Lexer × NodeId}
      (threaded : Threaded settings buffer masks lexer spares)
      (answered : lexer.nextToken previous? = .ok result) :
      Threaded settings buffer masks result.1 spares
  | scanAt
      {masks : List LineMask}
      {lexer : Lexer}
      {spares : List NodeId}
      (threaded : Threaded settings buffer masks lexer spares)
      (offset : Nat) :
      Threaded settings buffer masks (lexer.scanAt offset).1 spares
  | tokenize
      {masks : List LineMask}
      {lexer : Lexer}
      {spares : List NodeId}
      (threaded : Threaded settings buffer masks lexer spares) :
      Threaded settings buffer masks lexer.tokenize.1 spares
  | reset
      {masks : List LineMask}
      {lexer after : Lexer}
      {spares : List NodeId}
      {id : NodeId}
      {mode? : Option Mode}
      (threaded : Threaded settings buffer masks lexer spares)
      (answered : lexer.reset id mode? = .ok after) :
      Threaded settings buffer masks after spares
  | withMode
      {masks : List LineMask}
      {lexer : Lexer}
      {spares : List NodeId}
      (threaded : Threaded settings buffer masks lexer spares)
      (mode : Mode) :
      Threaded settings buffer masks (lexer.withMode mode) spares
  | activate
      {masks : List LineMask}
      {lexer : Lexer}
      {spares : List NodeId}
      (threaded : Threaded settings buffer masks lexer spares)
      (kinds : List Kind) :
      Threaded settings buffer masks (lexer.activate kinds) spares
  | deactivate
      {masks : List LineMask}
      {lexer : Lexer}
      {spares : List NodeId}
      (threaded : Threaded settings buffer masks lexer spares)
      (kinds : List Kind) :
      Threaded settings buffer masks (lexer.deactivate kinds) spares
  | mask
      {masks : List LineMask}
      {lexer : Lexer}
      {spares : List NodeId}
      (threaded : Threaded settings buffer masks lexer spares)
      (lines : LineMask) :
      Threaded settings buffer (masks ++ [lines]) (lexer.mask lines) spares
  | newToken
      {masks : List LineMask}
      {lexer : Lexer}
      {spares : List NodeId}
      (threaded : Threaded settings buffer masks lexer spares)
      (kind : Kind)
      (image : String) :
      Threaded settings buffer masks (lexer.newToken kind image).1
        ((lexer.newToken kind image).2 :: spares)
  | insertBefore
      {masks : List LineMask}
      {lexer after : Lexer}
      {spares : List NodeId}
      {id inserted : NodeId}
      (threaded : Threaded settings buffer masks lexer spares)
      (isSpare : inserted ∈ spares)
      (apart : inserted ≠ id)
      (answered : lexer.insertBefore id inserted = .ok after) :
      Threaded settings buffer masks after (sparesLeft spares id inserted)
  | replaceKind
      {masks : List LineMask}
      {lexer : Lexer}
      {spares : List NodeId}
      {id : NodeId}
      {kind : Kind}
      {result : Lexer × NodeId}
      (threaded : Threaded settings buffer masks lexer spares)
      (mayReplace : lexer.MayReplace id kind)
      (answered : lexer.replaceKind id kind = .ok result) :
      Threaded settings buffer masks result.1 spares

namespace Threaded

theorem reached
    (threaded : Threaded settings buffer masks lexer spares) :
    Reached settings buffer masks lexer := by
  induction threaded with
  | new =>
      exact .new
  | nextToken _ answered reached =>
      exact reached.nextToken answered
  | scanAt _ offset reached =>
      exact reached.scanAt offset
  | tokenize _ reached =>
      exact reached.tokenize
  | reset _ answered reached =>
      exact reached.reset answered
  | withMode _ mode reached =>
      exact reached.withMode mode
  | activate _ kinds reached =>
      exact reached.activate kinds
  | deactivate _ kinds reached =>
      exact reached.deactivate kinds
  | mask _ lines reached =>
      exact reached.mask lines
  | newToken _ kind image reached =>
      exact reached.newToken kind image
  | insertBefore _ _ _ answered reached =>
      exact reached.insertBefore answered
  | replaceKind _ _ answered reached =>
      exact reached.replaceKind answered

/--
However a lexer was used in these ways,
its links and its table follow an order.
-/
theorem ordered
    (threaded : Threaded settings buffer masks lexer spares) :
    ∃ rank, OrderedBy rank lexer spares := by
  induction threaded with
  | new =>
      refine ⟨fun _ => 0, nofun, fun isLinked => ?_,
        fun {place id} found => ?_, nofun⟩
      · rcases isLinked with ⟨_, ⟨⟩, _⟩ | ⟨_, ⟨⟩, _⟩
      · have nothing := fresh_knows_nothing settings buffer .full place
        cases nothing.symm.trans found
  | nextToken _ answered ordered =>
      obtain ⟨rank, ordered⟩ := ordered
      exact ((Continues.kept _ _ _).nextToken answered
        ordered.continues).ordered
  | scanAt _ offset ordered =>
      obtain ⟨rank, ordered⟩ := ordered
      exact ((Continues.kept _ _ _).scanAt offset ordered.continues).ordered
  | tokenize _ ordered =>
      obtain ⟨rank, ordered⟩ := ordered
      exact ((Continues.kept _ _ _).tokenize ordered.continues).ordered
  | reset _ answered ordered =>
      obtain ⟨rank, ordered⟩ := ordered
      exact ((Continues.kept _ _ _).reset answered ordered.continues).ordered
  | withMode _ mode ordered =>
      obtain ⟨rank, ordered⟩ := ordered
      exact ((Continues.kept _ _ _).tuned _ mode ordered.continues).ordered
  | activate _ kinds ordered =>
      obtain ⟨rank, ordered⟩ := ordered
      exact ((Continues.kept _ _ _).tuned _ _ ordered.continues).ordered
  | deactivate _ kinds ordered =>
      obtain ⟨rank, ordered⟩ := ordered
      exact ((Continues.kept _ _ _).tuned _ _ ordered.continues).ordered
  | mask threaded lines ordered =>
      obtain ⟨rank, ordered⟩ := ordered
      have sized := threaded.reached.reads.sized
      exact ((Continues.kept _ _ _).mask sized lines ordered.continues).ordered
  | newToken _ kind image ordered =>
      obtain ⟨rank, ordered⟩ := ordered
      exact ⟨_, ordered.newToken kind image⟩
  | insertBefore _ isSpare apart answered ordered =>
      obtain ⟨rank, ordered⟩ := ordered
      exact ordered.insertBefore isSpare apart answered
  | replaceKind _ mayReplace answered ordered =>
      obtain ⟨rank, ordered⟩ := ordered
      obtain ⟨token, isToken⟩ := exists_of_replaceKind answered
      exact ordered.replaceKind isToken (mayReplace token isToken) answered

/-- Tokenizing comes to the end of the input before its bound. -/
theorem tokenize_ends
    (threaded : Threaded settings buffer masks lexer spares) :
    (∀ more,
      tokensFrom (lexer.walkBound + more) lexer.scanNext.1 #[]
        lexer.scanNext.2 =
      tokensFrom lexer.walkBound lexer.scanNext.1 #[] lexer.scanNext.2) ∧
      ∃ last, lexer.tokenize.2.getLast? = some last ∧
        lexer.tokenize.1.kindOf? last = some .eof := by
  have sized := threaded.reached.reads.sized
  have steady := Steady.scanNext lexer
  obtain ⟨rank, ordered⟩ := threaded.ordered
  obtain ⟨newRank, orderedAfter, _⟩ :=
    (Continues.kept _ _ _).scanNext ordered.continues
  obtain ⟨_, token, isToken, _⟩ :=
    orderedAfter.entries (scanNext_found sized threaded.reached.inside)
  have room : stepsLeft newRank lexer.scanNext.1 lexer.scanNext.2 token + 1 <
      lexer.walkBound := by
    have steps := stepsLeft_le newRank lexer.scanNext.1 lexer.scanNext.2 token
    have grown := lexer.size_scanNext_le
    rw [steady.buffer_eq] at steps
    -- The bound is a square, and the steps are at most linear.
    have squared :=
      Nat.mul_le_mul_right (lexer.forest.size + lexer.buffer.size + 2)
      (show 2 ≤ lexer.forest.size + lexer.buffer.size + 2 by omega)
    simp only [walkBound]
    omega
  obtain ⟨same, last, isLast, isEnding⟩ :=
    orderedAfter.tokensFrom_ends #[] (steady.sized sized) isToken (.inr room)
  exact ⟨same, last, (Array.getLast?_toList _).trans isLast, isEnding⟩

end Threaded

/--
As long as no empty token is put into the table, walking forward meets no token
twice, no token follows itself, and the search for a parsed token, the search
for one that has a stretch of its own and tokenizing end before their bounds.
-/
theorem walks_never_stall
    (threaded : Threaded settings buffer masks lexer spares) :
    (∀ id limit ids, lexer.successors id limit = .ok ids → (id :: ids).Nodup) ∧
    (∀ id, lexer.successor id ≠ .ok (some id)) ∧
    (∀ id more,
      lexer.firstParsed? lexer.next? (lexer.forest.size + 1 + more) id =
        lexer.firstParsed? lexer.next? (lexer.forest.size + 1) id) ∧
    (∀ id more,
      lexer.anchorWithin? (lexer.forest.size + 1 + more) id =
        lexer.anchorWithin? (lexer.forest.size + 1) id) ∧
    (∀ more,
      tokensFrom (lexer.walkBound + more) lexer.scanNext.1 #[]
        lexer.scanNext.2 =
      tokensFrom lexer.walkBound lexer.scanNext.1 #[] lexer.scanNext.2) ∧
    ∃ last, lexer.tokenize.2.getLast? = some last ∧
      lexer.tokenize.1.kindOf? last = some .eof := by
  obtain ⟨rank, ordered⟩ := threaded.ordered
  have ends : ∀ id, (walk lexer.next? (lexer.forest.size + 1) id).length <
      lexer.forest.size + 1 :=
    fun id => Nat.lt_succ_of_le (ordered.length_walk_le _ id)
  refine ⟨fun id limit ids walked => ?_, fun id follows => ?_,
    fun id more => ?_,
    fun id more => ?_, threaded.tokenize_ends⟩
  · rw [successors] at walked
    cases isToken : lexer.forest.token id with
    | error misuse =>
        rw [isToken] at walked
        cases walked
    | ok token =>
        rw [isToken] at walked
        cases walked
        exact ordered.nodup_walk limit id
  · rw [successor] at follows
    cases isToken : lexer.forest.token id with
    | error misuse =>
        rw [isToken] at follows
        cases follows
    | ok token =>
        rw [isToken] at follows
        exact (ordered.leads (Except.ok.inj follows)).ne rfl
  · exact firstParsed?_of_larger more (ends id)
  · exact anchorWithin?_of_larger more (ends id)

/-- A comma is spliced in between two words. -/
def wordsWithComma : Lexer :=
  let made := ((ofString .standard "a b").tokenize.1.newToken .comma ",").1
  (made.insertBefore 1 3).toOption.getD made

/-- The comma is replaced by a colon. -/
def wordsWithColon : Lexer :=
  ((wordsWithComma.replaceKind 3 .colon).toOption.map Prod.fst).getD
    wordsWithComma

theorem wordsWithComma_threaded :
    Threaded .standard (.ofString .standard "a b") [] wordsWithComma [] := by
  have threaded : Threaded .standard (.ofString .standard "a b") []
      ((ofString .standard "a b").tokenize.1.newToken .comma ",").1
      [((ofString .standard "a b").tokenize.1.newToken .comma ",").2] :=
    Threaded.new.tokenize.newToken .comma ","
  have isMade :
      ((ofString .standard "a b").tokenize.1.newToken .comma ",").2 = 3 := by
    decide +kernel
  have isOk :
      (((ofString .standard "a b").tokenize.1.newToken .comma
        ",").1.insertBefore 1 3).isOk =
        true := by
    decide +kernel
  rw [isMade] at threaded
  rw [wordsWithComma]
  generalize ((ofString .standard "a b").tokenize.1.newToken .comma ",").1 =
    made at *
  cases answered : made.insertBefore 1 3 with
  | error misuse =>
      rw [answered] at isOk
      cases isOk
  | ok spliced =>
      exact threaded.insertBefore List.mem_cons_self (by decide) answered

theorem wordsWithColon_threaded :
    Threaded .standard (.ofString .standard "a b") [] wordsWithColon [] := by
  have isOk : (wordsWithComma.replaceKind 3 .colon).isOk = true := by
    decide +kernel
  have isInserted :
      (wordsWithComma.forest.token? 3).map Token.inserted = some true := by
    decide +kernel
  rw [wordsWithColon]
  cases answered : wordsWithComma.replaceKind 3 .colon with
  | error misuse =>
      rw [answered] at isOk
      cases isOk
  | ok replaced =>
      refine wordsWithComma_threaded.replaceKind
        (fun token isToken => .inl ?_) answered
      rw [isToken] at isInserted
      exact Option.some.inj isInserted

/-- The colon is walked through once. -/
theorem walks_never_stall_wordsWithColon :
    Threaded .standard (.ofString .standard "a b") [] wordsWithColon [] ∧
      wordsWithColon.successors 0 9 = .ok [4, 1, 2] ∧
      [0, 4, 1, 2].Nodup := by
  have walked : wordsWithColon.successors 0 9 = .ok [4, 1, 2] := by
    decide +kernel
  obtain ⟨nodup, _⟩ := walks_never_stall wordsWithColon_threaded
  exact ⟨wordsWithColon_threaded, walked, nodup 0 9 _ walked⟩

/--
An empty token that was not spliced in and that nothing is linked behind
follows itself when it is replaced by any kind but the end, unless it lies
where lines are taken out.
-/
theorem replaceKind_follows_itself
    (reached : Reached settings buffer masks lexer)
    (isToken : lexer.forest.token? id = some token)
    (notInserted : token.inserted = false)
    (scanned : token.scanned = true)
    (isEmpty : token.start = token.stop)
    (unlinked : token.appended? = none)
    (admits : lexer.table.admits token.start = true)
    (notEnding : kind ≠ .eof)
    (answered : lexer.replaceKind id kind = .ok result) :
    result.1.next? result.2 = some result.2 := by
  obtain ⟨_, isCopy⟩ := reached.wellLinked.withReplacement kind isToken
  have sameTable : (lexer.withReplacement token kind).table = lexer.table := by
    obtain ⟨_, same⟩ := lexer.withReplacement_same token kind
    rw [same]
  have isPut := remember_of_token isCopy notInserted
  rw [replaceKind_of_token isToken, if_neg (by simp [notInserted]), isPut,
    sameTable, Except.ok.injEq] at answered
  rw [← answered]
  have found :
      (lexer.table.put token.start lexer.forest.size).next? token.stop =
      some lexer.forest.size := by
    refine OffsetTable.next?_eq_some_iff.mpr
      ⟨token.start, isEmpty.ge, ?_, fun between => ?_⟩
    · exact (OffsetTable.tokenAt?_put admits).trans (if_pos rfl)
    · intro behind before
      omega
  have tied := Forest.source?_of_scanned isCopy scanned
  simp only [next?, isCopy, if_neg notEnding, unlinked, tied,
    Option.isSome_some, if_true]
  exact found

/-- The end of the input, replaced by a word, follows itself over and over. -/
theorem replaced_end_follows_itself :
    ((ofString .standard "a").tokenize.1.replaceKind 1 .string).map
        (fun result => (result.2, result.1.next? 2, walk result.1.next? 3 2)) =
      .ok (2, some 2, [2, 2, 2]) := by
  decide +kernel

end Snbt.Lexer
