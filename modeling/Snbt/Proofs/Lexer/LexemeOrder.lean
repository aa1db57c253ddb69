import Snbt.Proofs.Lexer.Answers

namespace Snbt

/-!
# The order of lexemes

The lexemes from an offset on start one behind the other, and from the start or
the end of each of them a scan is left with the same lexemes.  Two of them that
follow each other are not both invalid.
-/

/--
A lexeme is the end of a buffer of some length, or a stretch of it
that is not empty.
-/
structure Lexeme.Lies (lexeme : Lexeme) (size : Nat) : Prop where
  stretch : lexeme.kind ≠ .eof → lexeme.start < lexeme.stop ∧ lexeme.stop ≤ size
  ending : lexeme.kind = .eof → lexeme.start = size ∧ lexeme.stop = size

namespace Lexeme.Lies

variable {lexeme : Lexeme} {size : Nat}

theorem start_le_stop
    (lies : lexeme.Lies size) :
    lexeme.start ≤ lexeme.stop := by
  by_cases isEnding : lexeme.kind = .eof
  · exact Nat.le_of_eq
      ((lies.ending isEnding).1.trans (lies.ending isEnding).2.symm)
  · exact Nat.le_of_lt (lies.stretch isEnding).1

theorem stop_le_size
    (lies : lexeme.Lies size) :
    lexeme.stop ≤ size := by
  by_cases isEnding : lexeme.kind = .eof
  · exact Nat.le_of_eq (lies.ending isEnding).2
  · exact (lies.stretch isEnding).2

/-- Only the end starts where it stops. -/
theorem isEnding_of_stop_le_start
    (lies : lexeme.Lies size)
    (empty : lexeme.stop ≤ lexeme.start) :
    lexeme.kind = .eof :=
  Classical.byContradiction fun notEnding =>
    absurd (lies.stretch notEnding).1 (Nat.not_lt.mpr empty)

/-- Only the end starts where the buffer ends. -/
theorem isEnding_of_size_le
    (lies : lexeme.Lies size)
    (atEnd : size ≤ lexeme.start) :
    lexeme = ⟨.eof, size, size⟩ := by
  by_cases isEnding : lexeme.kind = .eof
  · obtain ⟨startEq, stopEq⟩ := lies.ending isEnding
    cases lexeme
    exact Lexeme.mk.injEq .. ▸ ⟨isEnding, startEq, stopEq⟩
  · obtain ⟨nonempty, inside⟩ := lies.stretch isEnding
    omega

end Lexeme.Lies

namespace Scanner

variable {scanner : Scanner} {offset index : Nat} {lexeme : Lexeme}

/--
Lexemes start one behind the other, and not before the offset that
they are asked from.
-/
theorem lexemes_sorted
    (inside : offset ≤ scanner.view.buffer.size) :
    (scanner.lexemes offset).Pairwise
      (fun first second => first.start < second.start) ∧
      ∀ lexeme ∈ scanner.lexemes offset, offset ≤ lexeme.start := by
  refine scanner.lexemes_induction
    (motive := fun offset lexemes =>
      lexemes.Pairwise (fun first second => first.start < second.start) ∧
        ∀ lexeme ∈ lexemes, offset ≤ lexeme.start) ?_ ?_ offset inside
  · intro offset inside _
    refine ⟨List.pairwise_singleton _ _, ?_⟩
    intro lexeme member
    cases List.mem_singleton.mp member
    exact inside
  · intro offset inside fits forward inductionHypothesis
    have nonempty := fits.start_lt_stop
    obtain ⟨sorted, behind⟩ := inductionHypothesis
    refine ⟨List.pairwise_cons.mpr ⟨?_, sorted⟩, ?_⟩
    · intro lexeme member
      have := behind lexeme member
      omega
    · intro lexeme member
      rcases List.mem_cons.mp member with rfl | later
      · exact forward
      · have := behind lexeme later
        omega

/-- What a scan is left with at the start and at the end of a lexeme. -/
structure Continues (scanner : Scanner) (lexeme : Lexeme) (rest : List Lexeme) :
    Prop where
  start_le_size : lexeme.start ≤ scanner.view.buffer.size
  fromStart : scanner.lexemes lexeme.start = lexeme :: rest
  fits : lexeme.kind ≠ .eof → scanner.Fits lexeme
  fromStop : lexeme.kind ≠ .eof → scanner.lexemes lexeme.stop = rest

/-- From the start of a lexeme a scan is left with it and those behind it. -/
theorem lexemes_continues
    (inside : offset ≤ scanner.view.buffer.size)
    (found : (scanner.lexemes offset)[index]? = some lexeme) :
    scanner.Continues lexeme ((scanner.lexemes offset).drop (index + 1)) := by
  refine scanner.lexemes_induction
    (motive := fun _ lexemes => ∀ index lexeme, lexemes[index]? = some lexeme →
      scanner.Continues lexeme (lexemes.drop (index + 1))) ?_ ?_ offset
      inside _ _ found
  · intro offset inside isEnding index lexeme found
    cases index with
    | zero =>
        cases found
        have restart := scanner.lexemes_restart offset
        rw [scanner.lexemes_eq offset, isEnding] at restart
        exact ⟨Nat.le_refl _, restart, fun notEnding => absurd rfl notEnding,
          fun notEnding => absurd rfl notEnding⟩
    | succ index =>
        cases found
  · intro offset inside fits forward inductionHypothesis index lexeme found
    cases index with
    | zero =>
        cases found
        refine ⟨fits.isPlace.1, ?_, fun _ => fits, fun _ => rfl⟩
        rw [lexemes_restart, lexemes_eq, if_neg fits.notEnding]
        rfl
    | succ index =>
        exact inductionHypothesis index lexeme found

/-- What stands from a lexeme on is what stands behind it, and the lexeme. -/
theorem drop_of_getElem?
    {lexemes : List Lexeme}
    (found : lexemes[index]? = some lexeme) :
    lexemes.drop index = lexeme :: lexemes.drop (index + 1) := by
  obtain ⟨inside, rfl⟩ := List.getElem?_eq_some_iff.mp found
  exact List.drop_eq_getElem_cons inside

/--
The lexeme that ends a scan is the answer, or stands behind an
answer that is invalid.
-/
theorem scan_lexeme
    (scanner : Scanner)
    (offset : Nat) :
    (scanner.scan offset).lexeme.kind ≠ .invalid ∧
      ((scanner.answer offset).kind ≠ .invalid ∧
          (scanner.scan offset).lexeme = scanner.answer offset ∨
        (scanner.answer offset).kind = .invalid ∧
          (scanner.scan offset).lexeme =
            scanner.answer (scanner.answer offset).stop) := by
  have valid := scanner.scan_valid offset
  refine ⟨valid, ?_⟩
  cases invalid : (scanner.scan offset).invalid? with
  | none =>
      have answerEq := answer_of_valid invalid
      rw [answerEq]
      exact .inl ⟨valid, rfl⟩
  | some run =>
      obtain ⟨isInvalid, lexemeEq⟩ := answer_of_invalid invalid
      rw [answer_of_run invalid]
      exact .inr ⟨isInvalid, lexemeEq.symm⟩

/-- An answer from a hidden offset is one from the first place behind it. -/
theorem answer_settle
    (scanner : Scanner)
    (offset : Nat) :
    scanner.answer (scanner.view.settle offset) = scanner.answer offset := by
  rw [answer, answer, scan_settle]

/-- An answer is the end or a stretch of the buffer. -/
theorem answer_lies
    (scanner : Scanner)
    (offset : Nat) :
    (scanner.answer offset).Lies scanner.view.buffer.size := by
  rw [← answer_settle]
  have inside := (scanner.view.settle_bounds offset).2
  constructor
  · intro notEnding
    have fits := scanner.answer_fits inside notEnding
    exact ⟨fits.start_lt_stop, fits.stop_le_size⟩
  · intro isEnding
    rw [answer_of_eof isEnding]
    exact ⟨rfl, rfl⟩

/-- Every lexeme is the end or a stretch of the buffer. -/
theorem lies_of_mem_lexemes
    (scanner : Scanner)
    (inside : offset ≤ scanner.view.buffer.size)
    (member : lexeme ∈ scanner.lexemes offset) :
    lexeme.Lies scanner.view.buffer.size := by
  obtain ⟨index, found⟩ := List.getElem?_of_mem member
  have fromStart := (lexemes_continues inside found).fromStart
  rw [lexemes_eq] at fromStart
  rw [← List.head_eq_of_cons_eq fromStart]
  exact scanner.answer_lies _

/-- The lexeme that ends a scan is the end or a stretch of the buffer. -/
theorem scan_lexeme_lies
    (scanner : Scanner)
    (offset : Nat) :
    (scanner.scan offset).lexeme.Lies scanner.view.buffer.size := by
  obtain ⟨_, ⟨_, lexemeEq⟩ | ⟨_, lexemeEq⟩⟩ := scanner.scan_lexeme offset
  · rw [lexemeEq]
    exact scanner.answer_lies offset
  · rw [lexemeEq]
    exact scanner.answer_lies _

/-- At the end of the buffer a scan answers with the end. -/
theorem answer_size
    (scanner : Scanner) :
    scanner.answer scanner.view.buffer.size = scanner.ending :=
  (scanner.answer_lies _).isEnding_of_size_le
    (scanner.answer_isPlace (Nat.le_refl _)).2

/--
Behind an answer that starts where it stops, which is the end,
stands the end again.
-/
theorem answer_stop_of_empty
    (empty : (scanner.answer offset).stop ≤ (scanner.answer offset).start) :
    scanner.answer (scanner.answer offset).stop = scanner.answer offset := by
  have isEnding := (scanner.answer_lies offset).isEnding_of_stop_le_start empty
  rw [answer_of_eof isEnding]
  exact scanner.answer_size

end Scanner

end Snbt
