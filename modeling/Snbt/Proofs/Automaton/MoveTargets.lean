import Snbt.Automaton.Moves
import Snbt.Proofs.Automaton.Grammar

namespace Snbt

open Grammar

/-!
# Targets of moves

Which states a move leads to and which kinds it completes, as conditions on the
character that do not depend on the order in which the moves test it.
-/

/-- A statement about some state is one about one of the states listed. -/
theorem State.exists_iff
    {holds : State → Prop} :
    (∃ state, holds state) ↔
      holds .start ∨ holds .blanks ∨ holds .trueAfterT ∨ holds .trueAfterR ∨
        holds .trueAfterU ∨ holds .falseAfterF ∨ holds .falseAfterA ∨
        holds .falseAfterL ∨ holds .falseAfterS ∨ holds .sign ∨ holds .digits ∨
        holds .leadingPoint ∨ holds .fraction ∨ holds .exponent ∨
        holds .exponentSign ∨ holds .exponentDigits ∨ holds .doubleQuoted ∨
        holds .doubleEscape ∨ holds .singleQuoted ∨ holds .singleEscape ∨
        holds .unquoted := by
  constructor
  · rintro ⟨state, held⟩
    cases state <;> simp only [held, true_or, or_true]
  · intro listed
    rcases listed with held | held | held | held | held | held | held | held |
      held | held | held | held | held | held | held | held | held | held |
      held | held | held
    all_goals exact ⟨_, held⟩

namespace Move

variable {state target : State} {kind completed : Kind} {first second : Move}

@[simp] theorem mem_states_dead :
    state ∈ dead.states ↔ False := by
  simp [dead]

@[simp] theorem mem_states_onward :
    state ∈ (onward target).states ↔ state = target := by
  simp [onward]

@[simp] theorem mem_states_done :
    state ∈ (done completed).states ↔ False := by
  simp [done]

@[simp] theorem mem_states_keep :
    state ∈ (keep target completed).states ↔ state = target := by
  simp [keep]

@[simp] theorem mem_states_both :
    state ∈ (first.both second).states ↔
      state ∈ first.states ∨ state ∈ second.states := by
  simp [both]

@[simp] theorem mem_kinds_dead :
    kind ∈ dead.kinds ↔ False := by
  simp [dead]

@[simp] theorem mem_kinds_onward :
    kind ∈ (onward target).kinds ↔ False := by
  simp [onward]

@[simp] theorem mem_kinds_done :
    kind ∈ (done completed).kinds ↔ kind = completed := by
  simp [done]

@[simp] theorem mem_kinds_keep :
    kind ∈ (keep target completed).kinds ↔ kind = completed := by
  simp [keep]

@[simp] theorem mem_kinds_both :
    kind ∈ (first.both second).kinds ↔
      kind ∈ first.kinds ∨ kind ∈ second.kinds := by
  simp [both]

end Move

/-! ## Classes of characters -/

/-- Every digit may stand in an unquoted string. -/
theorem isUnquoted_of_isDigit
    {char : Char}
    (digit : isDigit char = true) :
    isUnquoted char = true := by
  simp [isUnquoted, digit]

/--
The other characters that numbers and keywords are told apart by are no digits.
-/
theorem isDigit_letters :
    isDigit '.' = false ∧ isDigit '+' = false ∧ isDigit '-' = false ∧
      isDigit 't' = false ∧ isDigit 'f' = false ∧ isDigit 'F' = false ∧
      isDigit 'd' = false ∧ isDigit 'D' = false ∧ isDigit 'e' = false ∧
      isDigit 'E' = false ∧ isDigit 'l' = false ∧ isDigit 'L' = false ∧
      isDigit 'b' = false ∧ isDigit 'B' = false ∧ isDigit 's' = false ∧
      isDigit 'S' = false := by
  decide

/-- No blank may stand in an unquoted string. -/
theorem isUnquoted_of_isBlank
    {char : Char}
    (blank : isBlank char = true) :
    isUnquoted char = false := by
  simp only [isBlank, Bool.or_eq_true, decide_eq_true_eq] at blank
  rcases blank with ((rfl | rfl) | rfl) | rfl <;> decide

/-- Characters of different classes are different. -/
theorem ne_of_isUnquoted
    {first second : Char}
    (unquoted : isUnquoted first = true)
    (other : isUnquoted second = false) :
    first ≠ second := by
  rintro rfl
  simp [unquoted] at other

namespace State

/-- The characters that are tokens by themselves. -/
theorem delimiter?_eq_some_iff
    {char : Char}
    {kind : Kind} :
    delimiter? char = some kind ↔
      char = ':' ∧ kind = .colon ∨
        char = ',' ∧ kind = .comma ∨
        char = '[' ∧ kind = .openBracket ∨
        char = ']' ∧ kind = .closeBracket ∨
        char = '{' ∧ kind = .openBrace ∨
        char = '}' ∧ kind = .closeBrace ∨
        char = ';' ∧ kind = .semicolon := by
  unfold delimiter?
  grind

/-- No delimiter may stand in an unquoted string. -/
theorem isUnquoted_of_delimiter?
    {char : Char}
    {kind : Kind}
    (delimiter : delimiter? char = some kind) :
    isUnquoted char = false := by
  rw [delimiter?_eq_some_iff] at delimiter
  rcases delimiter with ⟨rfl, _⟩ | ⟨rfl, _⟩ | ⟨rfl, _⟩ | ⟨rfl, _⟩ | ⟨rfl, _⟩ |
    ⟨rfl, _⟩ | ⟨rfl, _⟩ <;> decide

/-- A character of no class begins neither a keyword nor a number. -/
theorem literalMove_of_not_isUnquoted
    {char : Char}
    (other : isUnquoted char = false) :
    literalMove char = .dead := by
  have noDigit : ¬isDigit char = true := by
    intro digit
    simp [isUnquoted_of_isDigit digit] at other
  have notT := (ne_of_isUnquoted (by decide : isUnquoted 't' = true) other).symm
  have notF := (ne_of_isUnquoted (by decide : isUnquoted 'f' = true) other).symm
  have notPlus :=
    (ne_of_isUnquoted (by decide : isUnquoted '+' = true) other).symm
  have notMinus :=
    (ne_of_isUnquoted (by decide : isUnquoted '-' = true) other).symm
  have notPoint :=
    (ne_of_isUnquoted (by decide : isUnquoted '.' = true) other).symm
  simp [literalMove, noDigit, notT, notF, notPlus, notMinus, notPoint]

/--
A character of an unquoted string begins
one, and perhaps a keyword or a number.
-/
theorem startMove_of_isUnquoted
    {char : Char}
    (unquoted : isUnquoted char = true) :
    startMove char = (literalMove char).both (unquotedMove char) := by
  have noBlank : ¬isBlank char = true := by
    intro blank
    simp [isUnquoted_of_isBlank blank] at unquoted
  have noDelimiter : delimiter? char = none := by
    rw [Option.eq_none_iff_forall_not_mem]
    intro kind delimiter
    simp [isUnquoted_of_delimiter? delimiter] at unquoted
  have noQuote := ne_of_isUnquoted unquoted (by decide : isUnquoted '"' = false)
  have noApostrophe :=
    ne_of_isUnquoted unquoted (by decide : isUnquoted '\'' = false)
  simp [startMove, noBlank, noDelimiter, noQuote, noApostrophe]

section Targets

variable {state next body hidden : State} {kind : Kind}
  {char expected quote : Char}

theorem mem_states_literalMove :
    state ∈ (literalMove char).states ↔
      char = 't' ∧ state = .trueAfterT ∨
        char = 'f' ∧ state = .falseAfterF ∨
        (char = '+' ∨ char = '-') ∧ state = .sign ∨
        char = '.' ∧ state = .leadingPoint ∨
        isDigit char = true ∧ state = .digits := by
  have notDigits := isDigit_letters
  unfold literalMove
  grind [Move.onward, Move.keep, Move.dead]

theorem mem_kinds_literalMove :
    kind ∈ (literalMove char).kinds ↔
      isDigit char = true ∧ kind = .integer := by
  have notDigits := isDigit_letters
  unfold literalMove
  grind [Move.onward, Move.keep, Move.dead]

@[simp] theorem mem_states_unquotedMove :
    state ∈ (unquotedMove char).states ↔
      isUnquoted char = true ∧ state = .unquoted := by
  unfold unquotedMove
  split <;> simp [*]

@[simp] theorem mem_kinds_unquotedMove :
    kind ∈ (unquotedMove char).kinds ↔
      isUnquoted char = true ∧ kind = .string := by
  unfold unquotedMove
  split <;> simp [*]

@[simp] theorem mem_states_blankMove :
    state ∈ (blankMove char).states ↔
      isBlank char = true ∧ state = .blanks := by
  unfold blankMove
  split <;> simp [*]

@[simp] theorem mem_kinds_blankMove :
    kind ∈ (blankMove char).kinds ↔
      isBlank char = true ∧ kind = .whitespace := by
  unfold blankMove
  split <;> simp [*]

@[simp] theorem mem_states_letterMove :
    state ∈ (letterMove expected next char).states ↔
      char = expected ∧ state = next := by
  unfold letterMove
  split <;> simp [*]

@[simp] theorem mem_kinds_letterMove :
    kind ∈ (letterMove expected next char).kinds ↔ False := by
  unfold letterMove
  split <;> simp

@[simp] theorem mem_states_lastLetterMove :
    state ∈ (lastLetterMove expected char).states ↔ False := by
  unfold lastLetterMove
  split <;> simp

@[simp] theorem mem_kinds_lastLetterMove :
    kind ∈ (lastLetterMove expected char).kinds ↔
      char = expected ∧ kind = .boolean := by
  unfold lastLetterMove
  split <;> simp [*]

@[simp] theorem mem_states_digitMove :
    state ∈ (digitMove next char).states ↔
      isDigit char = true ∧ state = next := by
  unfold digitMove
  split <;> simp [*]

@[simp] theorem mem_kinds_digitMove :
    kind ∈ (digitMove next char).kinds ↔
      isDigit char = true ∧ kind = .double := by
  unfold digitMove
  split <;> simp [*]

theorem mem_states_signMove :
    state ∈ (signMove char).states ↔
      isDigit char = true ∧ state = .digits ∨
        char = '.' ∧ state = .leadingPoint := by
  have notDigits := isDigit_letters
  unfold signMove
  grind [Move.onward, Move.keep, Move.dead]

theorem mem_kinds_signMove :
    kind ∈ (signMove char).kinds ↔ isDigit char = true ∧ kind = .integer := by
  unfold signMove
  grind [Move.onward, Move.keep, Move.dead]

theorem mem_states_decimalSuffixMove :
    state ∈ (decimalSuffixMove char).states ↔ False := by
  unfold decimalSuffixMove
  grind [Move.done, Move.dead]

theorem mem_kinds_decimalSuffixMove :
    kind ∈ (decimalSuffixMove char).kinds ↔
      (char = 'd' ∨ char = 'D') ∧ kind = .double ∨
        (char = 'f' ∨ char = 'F') ∧ kind = .float := by
  unfold decimalSuffixMove
  grind [Move.done, Move.dead]

theorem mem_states_digitsMove :
    state ∈ (digitsMove char).states ↔
      isDigit char = true ∧ state = .digits ∨ char = '.' ∧ state = .fraction ∨
        (char = 'e' ∨ char = 'E') ∧ state = .exponent := by
  have notDigits := isDigit_letters
  have suffix := @mem_states_decimalSuffixMove state char
  unfold digitsMove
  grind [Move.onward, Move.keep, Move.done]

theorem mem_kinds_digitsMove :
    kind ∈ (digitsMove char).kinds ↔
      isDigit char = true ∧ kind = .integer ∨ char = '.' ∧ kind = .double ∨
        (char = 'l' ∨ char = 'L') ∧ kind = .long ∨
        (char = 'b' ∨ char = 'B') ∧ kind = .byte ∨
        (char = 's' ∨ char = 'S') ∧ kind = .short ∨
        (char = 'd' ∨ char = 'D') ∧ kind = .double ∨
        (char = 'f' ∨ char = 'F') ∧ kind = .float := by
  have notDigits := isDigit_letters
  have suffix := @mem_kinds_decimalSuffixMove kind char
  unfold digitsMove
  grind [Move.onward, Move.keep, Move.done]

theorem mem_states_fractionMove :
    state ∈ (fractionMove char).states ↔
      isDigit char = true ∧ state = .fraction ∨
        (char = 'e' ∨ char = 'E') ∧ state = .exponent := by
  have notDigits := isDigit_letters
  have suffix := @mem_states_decimalSuffixMove state char
  unfold fractionMove
  grind [Move.onward, Move.keep]

theorem mem_kinds_fractionMove :
    kind ∈ (fractionMove char).kinds ↔
      isDigit char = true ∧ kind = .double ∨
        (char = 'd' ∨ char = 'D') ∧ kind = .double ∨
        (char = 'f' ∨ char = 'F') ∧ kind = .float := by
  have notDigits := isDigit_letters
  have suffix := @mem_kinds_decimalSuffixMove kind char
  unfold fractionMove
  grind [Move.onward, Move.keep]

theorem mem_states_exponentMove :
    state ∈ (exponentMove char).states ↔
      (char = '+' ∨ char = '-') ∧ state = .exponentSign ∨
        isDigit char = true ∧ state = .exponentDigits := by
  have notDigits := isDigit_letters
  unfold exponentMove
  grind [Move.onward, Move.keep, Move.dead]

theorem mem_kinds_exponentMove :
    kind ∈ (exponentMove char).kinds ↔
      isDigit char = true ∧ kind = .double := by
  have notDigits := isDigit_letters
  unfold exponentMove
  grind [Move.onward, Move.keep, Move.dead]

theorem mem_states_exponentDigitsMove :
    state ∈ (exponentDigitsMove char).states ↔
      isDigit char = true ∧ state = .exponentDigits := by
  have suffix := @mem_states_decimalSuffixMove state char
  unfold exponentDigitsMove
  grind [Move.keep]

theorem mem_kinds_exponentDigitsMove :
    kind ∈ (exponentDigitsMove char).kinds ↔
      isDigit char = true ∧ kind = .double ∨
        (char = 'd' ∨ char = 'D') ∧ kind = .double ∨
        (char = 'f' ∨ char = 'F') ∧ kind = .float := by
  have notDigits := isDigit_letters
  have suffix := @mem_kinds_decimalSuffixMove kind char
  unfold exponentDigitsMove
  grind [Move.keep]

theorem mem_states_quotedMove
    (noBackslash : quote ≠ '\\') :
    state ∈ (quotedMove quote body hidden char).states ↔
      isPlain quote char = true ∧ state = body ∨
        char = '\\' ∧ state = hidden := by
  unfold quotedMove isPlain
  grind [Move.onward, Move.done]

theorem mem_kinds_quotedMove :
    kind ∈ (quotedMove quote body hidden char).kinds ↔
      char = quote ∧ kind = .string := by
  unfold quotedMove
  grind [Move.onward, Move.done]

theorem mem_states_startMove :
    state ∈ (startMove char).states ↔
      isBlank char = true ∧ state = .blanks ∨
        char = '"' ∧ state = .doubleQuoted ∨
        char = '\'' ∧ state = .singleQuoted ∨
        state ∈ (literalMove char).states ∨
        isUnquoted char = true ∧ state = .unquoted := by
  by_cases unquoted : isUnquoted char = true
  · have noBlank : ¬isBlank char = true := by
      intro blank
      simp [isUnquoted_of_isBlank blank] at unquoted
    have noQuote :=
      ne_of_isUnquoted unquoted (by decide : isUnquoted '"' = false)
    have noApostrophe :=
      ne_of_isUnquoted unquoted (by decide : isUnquoted '\'' = false)
    simp [startMove_of_isUnquoted unquoted, unquoted, noBlank, noQuote,
      noApostrophe]
  · have quotesNotBlank : isBlank '"' = false ∧ isBlank '\'' = false := by
      decide
    have noDelimiter : delimiter? '"' = none ∧ delimiter? '\'' = none := by
      decide
    have noLiteral :=
      literalMove_of_not_isUnquoted (Bool.eq_false_iff.mpr unquoted)
    unfold startMove unquotedMove
    grind [Move.onward, Move.keep, Move.done, Move.both, Move.dead]

theorem mem_kinds_startMove :
    kind ∈ (startMove char).kinds ↔
      isBlank char = true ∧ kind = .whitespace ∨ delimiter? char = some kind ∨
        isDigit char = true ∧ kind = .integer ∨
        isUnquoted char = true ∧ kind = .string := by
  by_cases unquoted : isUnquoted char = true
  · have noBlank : ¬isBlank char = true := by
      intro blank
      simp [isUnquoted_of_isBlank blank] at unquoted
    have noDelimiter : ¬delimiter? char = some kind := by
      intro delimiter
      simp [isUnquoted_of_delimiter? delimiter] at unquoted
    simp [startMove_of_isUnquoted unquoted, unquoted, noBlank, noDelimiter,
      mem_kinds_literalMove]
  · have noDigit : ¬isDigit char = true := by
      intro digit
      exact unquoted (isUnquoted_of_isDigit digit)
    have notBlank : isBlank char = true → delimiter? char = none := by
      intro blank
      simp only [isBlank, Bool.or_eq_true, decide_eq_true_eq] at blank
      rcases blank with ((rfl | rfl) | rfl) | rfl <;> decide
    have noLiteral :=
      literalMove_of_not_isUnquoted (Bool.eq_false_iff.mpr unquoted)
    unfold startMove unquotedMove
    grind [Move.onward, Move.keep, Move.done, Move.both, Move.dead]

theorem mem_states_headerStartMove :
    state ∈ (headerStartMove char).states ↔
      isBlank char = true ∧ state = .blanks := by
  have notBlank :
      isBlank 'B' = false ∧ isBlank 'I' = false ∧ isBlank 'L' = false ∧
      isBlank ';' = false := by decide
  have blank := @mem_states_blankMove state char
  unfold headerStartMove
  grind [Move.done]

theorem mem_kinds_headerStartMove :
    kind ∈ (headerStartMove char).kinds ↔
      char = 'B' ∧ kind = .byteArrayTag ∨ char = 'I' ∧ kind = .intArrayTag ∨
        char = 'L' ∧ kind = .longArrayTag ∨ char = ';' ∧ kind = .semicolon ∨
        isBlank char = true ∧ kind = .whitespace := by
  have notBlank :
      isBlank 'B' = false ∧ isBlank 'I' = false ∧ isBlank 'L' = false ∧
      isBlank ';' = false := by decide
  have blank := @mem_kinds_blankMove kind char
  unfold headerStartMove
  grind [Move.done]

end Targets

end State

end Snbt
