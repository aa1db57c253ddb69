import Snbt.Lexer.Scan
import Snbt.Proofs.Automaton.LongestMatch

namespace Snbt

/-!
# Segments and lexemes

How a view is cut, said without a scanner at work: the longest matches cut it
into segments, the roles join segments to spans or drop them, and invalid spans
that follow each other are one.  A scan answers with the first of the lexemes
that are left, and the rest of them are those from its end on.
-/

/-- What the automaton finds is neither the end of the input nor invalid. -/
theorem View.kind_of_longest?
    {view : View}
    {mode : Mode}
    {active : KindSet}
    {offset stop : Nat}
    {kind : Kind}
    (found : view.longest? mode active offset = some (kind, stop)) :
    kind ≠ .eof ∧ kind ≠ .invalid ∧ active.contains kind = true := by
  obtain ⟨⟨text, stands, _⟩, _⟩ := View.longest?_eq_some_iff.mp found
  refine ⟨?_, ?_, stands.isActive⟩
  · rintro rfl
    cases mode <;> exact Language.notMem_zero _ stands.member
  · rintro rfl
    cases mode <;> exact Language.notMem_zero _ stands.member

/--
The segments of a view from an offset on: each is the longest match where it
starts, and a character that begins no match is an invalid segment.
-/
def View.segments
    (view : View)
    (mode : Mode)
    (active : KindSet)
    (offset : Nat) :
    List Lexeme :=
  match _read : view.read? offset with
  | none =>
      []
  | some (_, after) =>
      match _found : view.longest? mode active offset with
      | none =>
          ⟨.invalid, view.settle offset, after⟩ ::
            view.segments mode active after
      | some (kind, stop) =>
          ⟨kind, view.settle offset, stop⟩ :: view.segments mode active stop
termination_by view.buffer.size - offset
decreasing_by
  · have := View.read?_bounds _read
    omega
  · have := View.longest?_bounds _found
    omega

/--
The spans that segments make.  `pending?` is where the segments before them
that begin a longer span started; a segment to be skipped drops it, and at the
end of the input, which is at `size`, it is invalid.
-/
def Roles.spans
    (roles : Roles)
    (size : Nat)
    (pending? : Option Nat) :
    List Lexeme → List Lexeme
  | [] =>
      (pending?.map fun start => ⟨.invalid, start, size⟩).toList
  | segment :: rest =>
      let start := pending?.getD segment.start
      match roles.role segment.kind with
      | .more => roles.spans size (some start) rest
      | .skip => roles.spans size none rest
      | .regular | .unparsed =>
          ⟨segment.kind, start, segment.stop⟩ :: roles.spans size none rest

namespace Lexeme

/--
Put a lexeme before others, as one with the first of them if both are invalid.
-/
def joinOnto (lexeme : Lexeme) : List Lexeme → List Lexeme
  | [] =>
      [lexeme]
  | next :: rest =>
      if lexeme.kind = .invalid ∧ next.kind = .invalid then
        { lexeme with stop := next.stop } :: rest
      else
        lexeme :: next :: rest

/-- Make one of invalid lexemes that follow each other. -/
def joinInvalid (lexemes : List Lexeme) : List Lexeme :=
  lexemes.foldr joinOnto []

end Lexeme

namespace Scanner

/-- The spans of the segments from an offset on. -/
def spans
    (scanner : Scanner)
    (pending? : Option Nat)
    (offset : Nat) :
    List Lexeme :=
  scanner.roles.spans scanner.view.buffer.size pending?
    (scanner.view.segments scanner.mode scanner.active offset)

/-- The end of the input. -/
def ending (scanner : Scanner) : Lexeme :=
  ⟨.eof, scanner.view.buffer.size, scanner.view.buffer.size⟩

/-- The lexemes from an offset on, the last of which is the end of the input. -/
def lexemes (scanner : Scanner) (offset : Nat) : List Lexeme :=
  Lexeme.joinInvalid (scanner.spans none offset) ++ [scanner.ending]

/-- The lexeme that a scan from an offset answers with. -/
def answer (scanner : Scanner) (offset : Nat) : Lexeme :=
  let scan := scanner.scan offset
  scan.invalid?.getD scan.lexeme

end Scanner

namespace View

variable {view : View} {mode : Mode} {active : KindSet}
  {offset after stop : Nat} {char : Char} {kind : Kind}

/-- At the end of the buffer there is nothing to read. -/
theorem read?_size
    (view : View) :
    view.read? view.buffer.size = none := by
  cases read : view.read? view.buffer.size with
  | none =>
      rfl
  | some found =>
      have bounds := read?_bounds read
      omega

theorem segments_of_read?_none
    (nothing : view.read? offset = none) :
    view.segments mode active offset = [] := by
  unfold segments
  split
  case h_1 =>
    rfl
  case h_2 read =>
    rw [nothing] at read
    cases read

theorem segments_of_longest?_none
    (read : view.read? offset = some (char, after))
    (nothing : view.longest? mode active offset = none) :
    view.segments mode active offset =
      ⟨.invalid, view.settle offset, after⟩ ::
        view.segments mode active after := by
  conv_lhs => unfold segments
  split
  case h_1 absent =>
    rw [read] at absent
    cases absent
  case h_2 present =>
    rw [read] at present
    cases present
    split
    case h_1 =>
      rfl
    case h_2 found =>
      rw [nothing] at found
      cases found

theorem segments_of_longest?
    (read : view.read? offset = some (char, after))
    (found : view.longest? mode active offset = some (kind, stop)) :
    view.segments mode active offset =
      ⟨kind, view.settle offset, stop⟩ :: view.segments mode active stop := by
  conv_lhs => unfold segments
  split
  case h_1 absent =>
    rw [read] at absent
    cases absent
  case h_2 present =>
    split
    case h_1 nothing =>
      rw [nothing] at found
      cases found
    case h_2 present =>
      rw [found] at present
      cases present
      rfl

end View

namespace Lexeme

variable {first second : Lexeme} {rest : List Lexeme}

/-- A valid lexeme stays as it is. -/
theorem joinInvalid_of_valid
    (valid : first.kind ≠ .invalid) :
    joinInvalid (first :: rest) = first :: joinInvalid rest := by
  change joinOnto first (joinInvalid rest) = _
  cases joinInvalid rest with
  | nil =>
      rfl
  | cons next later =>
      exact if_neg fun both => valid both.1

/-- A lexeme before a valid one stays as it is. -/
theorem joinInvalid_before_valid
    (valid : second.kind ≠ .invalid) :
    joinInvalid (first :: second :: rest) =
      first :: joinInvalid (second :: rest) := by
  change joinOnto first (joinInvalid (second :: rest)) = _
  rw [joinInvalid_of_valid valid]
  exact if_neg fun both => valid both.2

/--
Two invalid lexemes are as good as one that reaches to the end of the second.
-/
theorem joinInvalid_of_invalid
    (firstInvalid : first.kind = .invalid)
    (secondInvalid : second.kind = .invalid) :
    joinInvalid (first :: second :: rest) =
      joinInvalid ({ first with stop := second.stop } :: rest) := by
  change joinOnto first (joinOnto second (joinInvalid rest)) =
    joinOnto _ (joinInvalid rest)
  cases joinInvalid rest with
  | nil =>
      simp [joinOnto, firstInvalid, secondInvalid]
  | cons third later =>
      by_cases thirdInvalid : third.kind = .invalid
      · simp [joinOnto, firstInvalid, secondInvalid, thirdInvalid]
      · simp [joinOnto, firstInvalid, secondInvalid, thirdInvalid]

end Lexeme

namespace Scanner

variable {scanner : Scanner} {offset : Nat}

theorem role_invalid
    (roles : Roles) :
    roles.role .invalid = .regular := by
  simp [Roles.role]

section Spans

variable {pending? : Option Nat} {after stop : Nat} {char : Char} {kind : Kind}

/-- A skipped segment leaves the spans behind it. -/
theorem spans_of_skip
    (read : scanner.view.read? offset = some (char, after))
    (found :
      scanner.view.longest? scanner.mode scanner.active offset =
        some (kind, stop))
    (role : scanner.roles.role kind = .skip) :
    scanner.spans pending? offset = scanner.spans none stop := by
  rw [spans, View.segments_of_longest? read found]
  simp only [Roles.spans, role]
  rfl

/-- A segment that begins a longer span leaves it to those behind it. -/
theorem spans_of_more
    (read : scanner.view.read? offset = some (char, after))
    (found :
      scanner.view.longest? scanner.mode scanner.active offset =
        some (kind, stop))
    (role : scanner.roles.role kind = .more) :
    scanner.spans pending? offset =
      scanner.spans (some (pending?.getD (scanner.view.settle offset)))
        stop := by
  rw [spans, View.segments_of_longest? read found]
  simp only [Roles.spans, role]
  rfl

/-- Any other segment ends a span. -/
theorem spans_of_longest?
    (read : scanner.view.read? offset = some (char, after))
    (found :
      scanner.view.longest? scanner.mode scanner.active offset =
        some (kind, stop))
    (notSkip : scanner.roles.role kind ≠ .skip)
    (notMore : scanner.roles.role kind ≠ .more) :
    scanner.spans pending? offset =
      ⟨kind, pending?.getD (scanner.view.settle offset), stop⟩ ::
        scanner.spans none stop := by
  rw [spans, View.segments_of_longest? read found]
  simp only [Roles.spans]
  split
  case h_1 role =>
    exact absurd role notMore
  case h_2 role =>
    exact absurd role notSkip
  case h_3 =>
    rfl
  case h_4 =>
    rfl

end Spans

/--
The lexeme of a piece is the end of the input where no span is left, and
otherwise the first span.
-/
theorem pieceFrom_lexeme
    (scanner : Scanner)
    (pending? : Option Nat)
    (skipped : List (Nat × Nat))
    (offset : Nat) :
    (scanner.pieceFrom pending? skipped offset).lexeme = scanner.ending ∧
        scanner.spans pending? offset = [] ∨
      (scanner.pieceFrom pending? skipped offset).lexeme.kind ≠ .eof ∧
        scanner.spans pending? offset =
          (scanner.pieceFrom pending? skipped offset).lexeme ::
            scanner.spans none
              (scanner.pieceFrom pending? skipped offset).lexeme.stop := by
  fun_induction scanner.pieceFrom pending? skipped offset with
  | case1 pending? skipped offset place start nothing kind =>
      have atEnd : place = scanner.view.buffer.size :=
        View.settle_of_read?_none nothing
      have noSegments :=
        @View.segments_of_read?_none _ scanner.mode scanner.active _ nothing
      cases pending? with
      | none =>
          refine .inl ⟨?_, ?_⟩
          · simp [kind, start, ending, atEnd]
          · rw [spans, noSegments]
            rfl
      | some before =>
          refine .inr ⟨by simp [kind], ?_⟩
          have noMore : scanner.view.read? place = none := by
            rw [atEnd]
            exact scanner.view.read?_size
          rw [spans, noSegments, spans, View.segments_of_read?_none noMore]
          simp [Roles.spans, kind, start, atEnd]
  | case2 pending? skipped offset place start char after read nothing =>
      refine .inr ⟨Kind.noConfusion, ?_⟩
      rw [spans, View.segments_of_longest?_none read nothing]
      simp only [Roles.spans, role_invalid]
      rfl
  | case3 pending? skipped offset place start char after read kind stop found
      role inductionHypothesis =>
      rw [spans_of_skip read found role]
      exact inductionHypothesis
  | case4 pending? skipped offset place start char after read kind stop found
      role inductionHypothesis =>
      rw [spans_of_more read found role]
      exact inductionHypothesis
  | case5 pending? skipped offset place start char after read kind stop found
      isSkip isMore =>
      exact .inr ⟨(View.kind_of_longest? found).1,
        spans_of_longest? read found isSkip isMore⟩

/-- What has been skipped before has no part in the lexeme. -/
theorem pieceFrom_lexeme_congr
    (scanner : Scanner)
    (pending? : Option Nat)
    (skipped : List (Nat × Nat))
    (offset : Nat) :
    ∀ other,
      (scanner.pieceFrom pending? other offset).lexeme =
        (scanner.pieceFrom pending? skipped offset).lexeme := by
  fun_induction scanner.pieceFrom pending? skipped offset with
  | case1 pending? skipped offset place start nothing kind =>
      intro other
      rw [pieceFrom, nothing]
      rfl
  | case2 pending? skipped offset place start char after read nothing =>
      intro other
      rw [pieceFrom, read]
      grind only
  | case3 pending? skipped offset place start char after read kind stop found
      role inductionHypothesis =>
      intro other
      rw [pieceFrom, read]
      grind only
  | case4 pending? skipped offset place start char after read kind stop found
      role inductionHypothesis =>
      intro other
      rw [pieceFrom, read]
      grind only
  | case5 pending? skipped offset place start char after read kind stop found
      isSkip isMore =>
      intro other
      rw [pieceFrom, read]
      grind only

/--
What has been skipped before is kept, and what is skipped behind it
does not depend on it.
-/
theorem pieceFrom_skipped_mono
    (scanner : Scanner)
    (pending? : Option Nat)
    (skipped : List (Nat × Nat))
    (offset : Nat) :
    ∀ more, skipped ⊆ more →
      (scanner.pieceFrom pending? skipped offset).skipped ⊆
        (scanner.pieceFrom pending? more offset).skipped := by
  fun_induction scanner.pieceFrom pending? skipped offset with
  | case1 pending? skipped offset place start nothing =>
      intro more subset
      rw [pieceFrom, nothing]
      exact subset
  | case2 pending? skipped offset place start char after read nothing =>
      intro more subset
      rw [pieceFrom, read]
      grind only
  | case3 pending? skipped offset place start char after read kind stop found
      role inductionHypothesis =>
      intro more subset
      have later :=
        inductionHypothesis _ (List.cons_subset_cons (start, stop) subset)
      rw [pieceFrom.eq_def scanner pending? more, read]
      grind only
  | case4 pending? skipped offset place start char after read kind stop found
      role inductionHypothesis =>
      intro more subset
      have later := inductionHypothesis more subset
      rw [pieceFrom.eq_def scanner pending? more, read]
      grind only
  | case5 pending? skipped offset place start char after read kind stop found
      isSkip isMore =>
      intro more subset
      rw [pieceFrom, read]
      grind only

/--
What a scan has gathered: the invalid input ends at `place`, and the lexeme is
the valid one from there on, with what is skipped on the way to it.
-/
structure Gathered (scanner : Scanner) (scan : Scan) (place : Nat) : Prop where
  invalid :
    ∀ run, scan.invalid? = some run → run.kind = .invalid ∧ run.stop = place
  lexeme_eq : scan.lexeme = (scanner.pieceFrom none [] place).lexeme
  skips : (scanner.pieceFrom none [] place).skipped ⊆ scan.skipped
  valid : scan.lexeme.kind ≠ .invalid

section Extending

variable {invalid? : Option Lexeme} {piece : Lexeme} {rest : List Lexeme}

/--
A run of invalid input reaches to the end of the piece that it is extended by.
-/
theorem extend_of_invalid
    (before : ∀ run, invalid? = some run → run.kind = .invalid)
    (isInvalid : piece.kind = .invalid) :
    (extend invalid? piece).kind = .invalid ∧
      (extend invalid? piece).stop = piece.stop := by
  cases invalid? with
  | none =>
      exact ⟨isInvalid, rfl⟩
  | some run =>
      exact ⟨before run rfl, rfl⟩

/-- To extend a run of invalid input is to join it with the piece. -/
theorem joinInvalid_extend
    (before : ∀ run, invalid? = some run → run.kind = .invalid)
    (isInvalid : piece.kind = .invalid) :
    Lexeme.joinInvalid (invalid?.toList ++ piece :: rest) =
      Lexeme.joinInvalid (extend invalid? piece :: rest) := by
  cases invalid? with
  | none =>
      rfl
  | some run =>
      exact Lexeme.joinInvalid_of_invalid (before run rfl) isInvalid

/-- A run of invalid input ends before a valid piece. -/
theorem joinInvalid_before_piece
    (valid : piece.kind ≠ .invalid) :
    Lexeme.joinInvalid (invalid?.toList ++ piece :: rest) =
      invalid?.toList ++ Lexeme.joinInvalid (piece :: rest) := by
  cases invalid? with
  | none =>
      rfl
  | some run =>
      exact Lexeme.joinInvalid_before_valid valid

end Extending

/--
Gathering invalid input joins the invalid spans, as far as the first valid one.
-/
theorem scanFrom_gathered
    (scanner : Scanner)
    (invalid? : Option Lexeme)
    (skipped : List (Nat × Nat))
    (offset : Nat) :
    (∀ run, invalid? = some run → run.kind = .invalid ∧ run.stop = offset) →
      ∃ place,
        scanner.Gathered (scanner.scanFrom invalid? skipped offset) place ∧
        ((scanner.scanFrom invalid? skipped offset).invalid? = none →
          invalid? = none ∧ place = offset) ∧
        Lexeme.joinInvalid (invalid?.toList ++ scanner.spans none offset) =
          (scanner.scanFrom invalid? skipped offset).invalid?.toList ++
            Lexeme.joinInvalid (scanner.spans none place) := by
  fun_induction scanner.scanFrom invalid? skipped offset with
  | case1 invalid? skipped offset raw isInvalid inductionHypothesis =>
      intro before
      have invalidBefore := fun run isRun => (before run isRun).1
      obtain ⟨place, gathered, same, joined⟩ :=
        inductionHypothesis fun run isExtended => by
          cases isExtended
          exact extend_of_invalid invalidBefore isInvalid
      refine ⟨place, gathered, ?_, ?_⟩
      · intro nothing
        cases (same nothing).1
      · rw [← joined]
        rcases scanner.pieceFrom_lexeme none skipped offset with
            ⟨isEnding, _⟩ | ⟨_, spansEq⟩
        · have isInvalid : raw.lexeme.kind = .invalid := isInvalid
          rw [show raw.lexeme = scanner.ending from isEnding] at isInvalid
          cases isInvalid
        · rw [spansEq]
          exact joinInvalid_extend invalidBefore isInvalid
  | case2 invalid? skipped offset raw valid =>
      intro before
      refine ⟨offset, ⟨before, ?_, ?_, valid⟩,
        fun nothing => ⟨nothing, rfl⟩, ?_⟩
      · exact (scanner.pieceFrom_lexeme_congr none skipped offset []).symm
      · exact scanner.pieceFrom_skipped_mono none [] offset skipped
          (List.nil_subset skipped)
      · rcases scanner.pieceFrom_lexeme none skipped offset with
            ⟨_, spansEq⟩ | ⟨_, spansEq⟩
        · rw [spansEq]
          cases invalid? <;> rfl
        · rw [spansEq]
          exact joinInvalid_before_piece valid

/-- What a scan gathers from an offset on. -/
private theorem scan_gathered
    (scanner : Scanner)
    (offset : Nat) :
    ∃ place,
      scanner.Gathered (scanner.scan offset) place ∧
      ((scanner.scan offset).invalid? = none → place = offset) ∧
      Lexeme.joinInvalid (scanner.spans none offset) =
        (scanner.scan offset).invalid?.toList ++
          Lexeme.joinInvalid (scanner.spans none place) := by
  obtain ⟨place, gathered, same, joined⟩ :=
    scanner.scanFrom_gathered none [] offset fun _ impossible => by
      cases impossible
  exact ⟨place, gathered, fun nothing => (same nothing).2, joined⟩

/-- The lexemes from a place where a piece is valid. -/
private theorem lexemes_of_valid
    {place : Nat}
    (valid : (scanner.pieceFrom none [] place).lexeme.kind ≠ .invalid) :
    scanner.lexemes place =
      (scanner.pieceFrom none [] place).lexeme ::
        if (scanner.pieceFrom none [] place).lexeme.kind = .eof then
          []
        else
          scanner.lexemes (scanner.pieceFrom none [] place).lexeme.stop := by
  rcases scanner.pieceFrom_lexeme none [] place with
    ⟨isEnding, noSpans⟩ | ⟨notEnding, spansEq⟩
  · rw [isEnding, lexemes, noSpans]
    rfl
  · rw [if_neg notEnding, lexemes, spansEq, Lexeme.joinInvalid_of_valid valid]
    rfl

/-- A scan that meets invalid input answers with it. -/
theorem answer_of_run
    {run : Lexeme}
    (invalid : (scanner.scan offset).invalid? = some run) :
    scanner.answer offset = run := by
  rw [answer, invalid]
  rfl

/-- A scan that meets no invalid input answers with its lexeme. -/
theorem answer_of_valid
    (valid : (scanner.scan offset).invalid? = none) :
    scanner.answer offset = (scanner.scan offset).lexeme := by
  rw [answer, valid]
  rfl

/--
A scan answers with the first of the lexemes left, and the others are
those from its end on.
-/
theorem lexemes_eq
    (scanner : Scanner)
    (offset : Nat) :
    scanner.lexemes offset =
      scanner.answer offset ::
        if (scanner.answer offset).kind = .eof then
          []
        else
          scanner.lexemes (scanner.answer offset).stop := by
  obtain ⟨place, gathered, same, joined⟩ := scanner.scan_gathered offset
  have lexemeEq := gathered.lexeme_eq
  have valid := gathered.valid
  rw [lexemeEq] at valid
  cases invalid : (scanner.scan offset).invalid? with
  | none =>
      obtain rfl := same invalid
      rw [(answer_of_valid invalid).trans lexemeEq]
      exact lexemes_of_valid valid
  | some run =>
      obtain ⟨isInvalid, rfl⟩ := gathered.invalid run invalid
      have notEnding : run.kind ≠ .eof := by
        rw [isInvalid]
        exact Kind.noConfusion
      rw [answer_of_run invalid, if_neg notEnding, lexemes, joined, invalid]
      rfl

/-- Behind invalid input stands the lexeme that ended it. -/
theorem answer_of_invalid
    {run : Lexeme}
    (invalid : (scanner.scan offset).invalid? = some run) :
    run.kind = .invalid ∧
      scanner.answer run.stop = (scanner.scan offset).lexeme := by
  obtain ⟨place, gathered, -, -⟩ := scanner.scan_gathered offset
  obtain ⟨isInvalid, rfl⟩ := gathered.invalid run invalid
  have lexemeEq := gathered.lexeme_eq
  have valid := gathered.valid
  rw [lexemeEq] at valid
  refine ⟨isInvalid, ?_⟩
  have following :=
    (scanner.lexemes_eq run.stop).symm.trans (lexemes_of_valid valid)
  exact (List.cons.inj following).1.trans lexemeEq.symm

/--
What a scan from behind invalid input skips, the scan that met the
input skipped too.
-/
theorem scan_skipped_of_run
    {run : Lexeme}
    (invalid : (scanner.scan offset).invalid? = some run) :
    (scanner.scan run.stop).skipped ⊆ (scanner.scan offset).skipped := by
  obtain ⟨place, gathered, -, -⟩ := scanner.scan_gathered offset
  obtain ⟨-, rfl⟩ := gathered.invalid run invalid
  have valid := gathered.valid
  rw [gathered.lexeme_eq] at valid
  have behind : (scanner.scan run.stop).skipped =
      (scanner.pieceFrom none [] run.stop).skipped := by
    rw [scan, scanFrom]
    exact congrArg Scan.skipped (if_neg valid)
  rw [behind]
  exact gathered.skips

/-- The lexeme that ends a scan is valid. -/
theorem scan_valid
    (scanner : Scanner)
    (offset : Nat) :
    (scanner.scan offset).lexeme.kind ≠ .invalid := by
  obtain ⟨_, gathered, _, _⟩ := scanner.scan_gathered offset
  exact gathered.valid

end Scanner

end Snbt
