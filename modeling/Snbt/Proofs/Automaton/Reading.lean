import Snbt.Proofs.Automaton.MoveTargets

namespace Snbt

open Computability

/-!
# What the states of the automaton stand for

For each state the texts that lead to it.  A text with one more character leads
to a state exactly when the text leads to some state from which the character
moves there, and it belongs to a kind exactly when the character completes that
kind in such a state.  So the grammar and the moves describe the same texts.
-/

namespace Grammar

/-- A number up to its exponent. -/
def mantissa : Language Char :=
  sign * (decimal + digits)

/-- The texts that lead from the start to a state in values. -/
def valueReading : State → Language Char
  | .start => 1
  | .blanks => run isBlank
  | .trueAfterT => letter 't'
  | .trueAfterR => letter 't' * letter 'r'
  | .trueAfterU => letter 't' * letter 'r' * letter 'u'
  | .falseAfterF => letter 'f'
  | .falseAfterA => letter 'f' * letter 'a'
  | .falseAfterL => letter 'f' * letter 'a' * letter 'l'
  | .falseAfterS => letter 'f' * letter 'a' * letter 'l' * letter 's'
  | .sign => either '+' '-'
  | .digits => integer
  | .leadingPoint => sign * letter '.'
  | .fraction => sign * decimal
  | .exponent => mantissa * either 'e' 'E'
  | .exponentSign => mantissa * either 'e' 'E' * either '+' '-'
  | .exponentDigits => mantissa * exponent
  | .doubleQuoted => opened '"'
  | .doubleEscape => opened '"' * letter '\\'
  | .singleQuoted => opened '\''
  | .singleEscape => opened '\'' * letter '\\'
  | .unquoted => run isUnquoted

/-- The texts that lead from the start to a state in the header of an array. -/
def headerReading : State → Language Char
  | .start => 1
  | .blanks => run isBlank
  | _ => 0

/-! ## Languages by the last character of their texts -/

theorem integer_eq :
    integer = one isDigit + either '+' '-' * one isDigit +
      integer * one isDigit := by
  unfold integer sign maybe digits
  conv_lhs => rw [run_eq]
  noncomm_ring

theorem signed_point_eq :
    sign * letter '.' = letter '.' + either '+' '-' * letter '.' := by
  unfold sign maybe
  noncomm_ring

theorem decimal_eq :
    decimal = digits * letter '.' + letter '.' * one isDigit +
      decimal * one isDigit := by
  have more : digits = one isDigit + digits * one isDigit := run_eq isDigit
  calc
    decimal =
        digits * letter '.' + digits * letter '.' * digits +
          letter '.' * digits := by
      unfold decimal maybe
      noncomm_ring
    _ =
        digits * letter '.' +
          digits * letter '.' * (one isDigit + digits * one isDigit) +
          letter '.' * (one isDigit + digits * one isDigit) := by
      rw [← more]
    _ = digits * letter '.' + letter '.' * one isDigit +
        decimal * one isDigit := by
      unfold decimal maybe
      noncomm_ring

theorem signed_decimal_eq :
    sign * decimal =
      integer * letter '.' + sign * letter '.' * one isDigit +
        sign * decimal * one isDigit := by
  conv_lhs => rw [decimal_eq]
  unfold integer
  noncomm_ring

theorem mantissa_eq :
    mantissa = integer + sign * decimal := by
  unfold mantissa integer
  noncomm_ring

theorem exponent_eq :
    exponent =
      either 'e' 'E' * one isDigit +
        either 'e' 'E' * either '+' '-' * one isDigit +
        exponent * one isDigit := by
  unfold exponent sign maybe digits
  conv_lhs => rw [run_eq]
  noncomm_ring

theorem opened_eq
    (quote : Char) :
    opened quote =
      letter quote + opened quote * one (isPlain quote) +
        opened quote * letter '\\' * one fun _ => true := by
  unfold opened
  conv_lhs => rw [← Language.one_add_kstar_mul_self_eq_kstar]
  unfold escape
  noncomm_ring

theorem float_eq :
    float =
      integer * either 'f' 'F' + sign * decimal * either 'f' 'F' +
        mantissa * exponent * either 'f' 'F' := by
  unfold float integer mantissa maybe
  noncomm_ring

theorem double_eq :
    double =
      sign * decimal + mantissa * exponent + integer * either 'd' 'D' +
        sign * decimal * either 'd' 'D' +
        mantissa * exponent * either 'd' 'D' := by
  unfold double integer mantissa maybe
  noncomm_ring

variable {text : List Char} {char : Char}

theorem append_mem_mul_letter
    {texts : Language Char}
    {last : Char} :
    text ++ [char] ∈ texts * letter last ↔ text ∈ texts ∧ char = last := by
  simp [letter, append_mem_mul_one]

theorem append_mem_mul_either
    {texts : Language Char}
    {first second : Char} :
    text ++ [char] ∈ texts * either first second ↔
      text ∈ texts ∧ (char = first ∨ char = second) := by
  simp [either, append_mem_mul_one]

theorem append_mem_letter
    {last : Char} :
    text ++ [char] ∈ letter last ↔
      text ∈ (1 : Language Char) ∧ char = last := by
  simp [letter, append_mem_one, Language.mem_one]

theorem append_mem_either
    {first second : Char} :
    text ++ [char] ∈ either first second ↔
      text ∈ (1 : Language Char) ∧ (char = first ∨ char = second) := by
  simp [either, append_mem_one, Language.mem_one]

theorem append_mem_run
    {accepts : Char → Bool} :
    text ++ [char] ∈ run accepts ↔
      text ∈ (1 : Language Char) ∧ accepts char = true ∨
        text ∈ run accepts ∧ accepts char = true := by
  rw [run_eq, Language.mem_add, append_mem_one, append_mem_mul_one,
    Language.mem_one, ← run_eq]

theorem append_mem_integer :
    text ++ [char] ∈ integer ↔
      text ∈ (1 : Language Char) ∧ isDigit char = true ∨
        text ∈ either '+' '-' ∧ isDigit char = true ∨
        text ∈ integer ∧ isDigit char = true := by
  conv_lhs => rw [integer_eq]
  simp only [Language.mem_add, append_mem_one, append_mem_mul_one,
    Language.mem_one, or_assoc]

theorem append_mem_signed_point :
    text ++ [char] ∈ sign * letter '.' ↔
      text ∈ (1 : Language Char) ∧ char = '.' ∨
        text ∈ either '+' '-' ∧ char = '.' := by
  rw [signed_point_eq, Language.mem_add, append_mem_letter,
    append_mem_mul_letter]

theorem append_mem_signed_decimal :
    text ++ [char] ∈ sign * decimal ↔
      text ∈ integer ∧ char = '.' ∨
        text ∈ sign * letter '.' ∧ isDigit char = true ∨
        text ∈ sign * decimal ∧ isDigit char = true := by
  conv_lhs => rw [signed_decimal_eq]
  simp only [Language.mem_add, append_mem_mul_letter,
    append_mem_mul_one, or_assoc]

theorem append_mem_scaled :
    text ++ [char] ∈ mantissa * exponent ↔
      text ∈ mantissa * either 'e' 'E' ∧ isDigit char = true ∨
        text ∈ mantissa * either 'e' 'E' * either '+' '-' ∧
          isDigit char = true ∨
        text ∈ mantissa * exponent ∧ isDigit char = true := by
  conv_lhs => rw [exponent_eq]
  simp only [mul_add, ← mul_assoc, Language.mem_add,
    append_mem_mul_one, or_assoc]

theorem append_mem_opened
    {quote : Char} :
    text ++ [char] ∈ opened quote ↔
      text ∈ (1 : Language Char) ∧ char = quote ∨
        text ∈ opened quote ∧ isPlain quote char = true ∨
        text ∈ opened quote * letter '\\' := by
  conv_lhs => rw [opened_eq]
  simp only [Language.mem_add, append_mem_letter, append_mem_mul_one,
    or_assoc, and_true]

/-! ## Texts with one more character -/

/-- A text leads to a state in values through a state before it. -/
theorem append_mem_valueReading
    {state : State} :
    text ++ [char] ∈ valueReading state ↔
      ∃ before, text ∈ valueReading before ∧
        state ∈ (State.valueMove before char).states := by
  rw [State.exists_iff]
  cases state
  all_goals
    simp only [State.valueMove, Move.mem_states_onward,
      State.mem_states_startMove, State.mem_states_literalMove,
      State.mem_states_blankMove, State.mem_states_letterMove,
      State.mem_states_lastLetterMove, State.mem_states_signMove,
      State.mem_states_digitsMove, State.mem_states_digitMove,
      State.mem_states_fractionMove, State.mem_states_exponentMove,
      State.mem_states_exponentDigitsMove,
      State.mem_states_quotedMove (by decide : '"' ≠ '\\'),
      State.mem_states_quotedMove (by decide : '\'' ≠ '\\'),
      State.mem_states_unquotedMove, reduceCtorEq, and_false, or_false,
      false_or, and_true, valueReading]
  case start => simp only [append_notMem_unit]
  case blanks => exact append_mem_run
  case trueAfterT => exact append_mem_letter
  case trueAfterR => exact append_mem_mul_letter
  case trueAfterU => exact append_mem_mul_letter
  case falseAfterF => exact append_mem_letter
  case falseAfterA => exact append_mem_mul_letter
  case falseAfterL => exact append_mem_mul_letter
  case falseAfterS => exact append_mem_mul_letter
  case sign => exact append_mem_either
  case digits => exact append_mem_integer
  case leadingPoint => exact append_mem_signed_point
  case fraction => exact append_mem_signed_decimal
  case exponent =>
    rw [append_mem_mul_either, mantissa_eq, Language.mem_add, or_and_right]
  case exponentSign => exact append_mem_mul_either
  case exponentDigits => exact append_mem_scaled
  case doubleQuoted => exact append_mem_opened
  case doubleEscape => exact append_mem_mul_letter
  case singleQuoted => exact append_mem_opened
  case singleEscape => exact append_mem_mul_letter
  case unquoted => exact append_mem_run

/--
A text of a kind of values is completed in a state before its last character.
-/
theorem append_mem_values
    {kind : Kind} :
    text ++ [char] ∈ values kind ↔
      ∃ before, text ∈ valueReading before ∧
        kind ∈ (State.valueMove before char).kinds := by
  rw [State.exists_iff]
  cases kind
  all_goals
    simp only [State.valueMove, Move.mem_kinds_onward,
      State.mem_kinds_startMove, State.delimiter?_eq_some_iff,
      State.mem_kinds_blankMove, State.mem_kinds_letterMove,
      State.mem_kinds_lastLetterMove, State.mem_kinds_signMove,
      State.mem_kinds_digitsMove, State.mem_kinds_digitMove,
      State.mem_kinds_fractionMove, State.mem_kinds_exponentMove,
      State.mem_kinds_exponentDigitsMove, State.mem_kinds_quotedMove,
      State.mem_kinds_unquotedMove, reduceCtorEq, and_false, or_false, false_or,
      and_true, valueReading, values]
  case whitespace => exact append_mem_run
  case boolean =>
    unfold boolean
    rw [Language.mem_add, append_mem_mul_letter, append_mem_mul_letter]
  case float =>
    rw [float_eq, Language.mem_add, Language.mem_add, append_mem_mul_either,
      append_mem_mul_either, append_mem_mul_either, or_assoc]
  case double =>
    rw [double_eq]
    simp only [Language.mem_add, append_mem_signed_decimal, append_mem_scaled,
      append_mem_mul_either]
    grind only
  case integer => exact append_mem_integer
  case string =>
    unfold string quoted
    simp only [Language.mem_add, append_mem_mul_letter, append_mem_run]
    grind only
  case long | byte | short => exact append_mem_mul_either
  case eof | byteArrayTag | intArrayTag | longArrayTag | invalid =>
    simp only [Language.notMem_zero]
  all_goals exact append_mem_letter

/--
A text leads to a state in the header of an array through a state before it.
-/
theorem append_mem_headerReading
    {state : State} :
    text ++ [char] ∈ headerReading state ↔
      ∃ before, text ∈ headerReading before ∧
        state ∈ (State.headerMove before char).states := by
  rw [State.exists_iff]
  cases state
  all_goals
    simp only [State.headerMove, State.mem_states_headerStartMove,
      State.mem_states_blankMove, Move.mem_states_dead, Language.notMem_zero,
      reduceCtorEq, and_false, or_false, and_true, headerReading]
  case start => simp only [append_notMem_unit]
  case blanks => exact append_mem_run

/--
A text of a kind of the header is completed
in a state before its last character.
-/
theorem append_mem_arrayHeader
    {kind : Kind} :
    text ++ [char] ∈ arrayHeader kind ↔
      ∃ before, text ∈ headerReading before ∧
        kind ∈ (State.headerMove before char).kinds := by
  rw [State.exists_iff]
  cases kind
  all_goals
    simp only [State.headerMove, State.mem_kinds_headerStartMove,
      State.mem_kinds_blankMove, Move.mem_kinds_dead, Language.notMem_zero,
      reduceCtorEq, and_false, or_false, false_or, and_true, headerReading,
      arrayHeader]
  case whitespace => exact append_mem_run
  all_goals exact append_mem_letter

/-! ## The empty text -/

theorem nil_notMem_run
    {accepts : Char → Bool} :
    [] ∉ run accepts := by
  simp [run]

theorem nil_notMem_letter
    {char : Char} :
    [] ∉ letter char := by
  simp [letter]

theorem nil_notMem_either
    {first second : Char} :
    [] ∉ either first second := by
  simp [either]

theorem nil_notMem_integer :
    [] ∉ integer := by
  simp [integer, digits, nil_notMem_run]

theorem nil_notMem_decimal :
    [] ∉ decimal := by
  simp only [decimal, Language.mem_add, nil_mem_mul, nil_notMem_letter,
    and_false, false_and, or_self, not_false_eq_true]

theorem nil_notMem_opened
    {quote : Char} :
    [] ∉ opened quote := by
  simp [opened, nil_notMem_letter]

/-- Only the start is reached without reading. -/
theorem nil_mem_valueReading
    {state : State} :
    [] ∈ valueReading state ↔ state = .start := by
  cases state <;>
    simp [valueReading, exponent, nil_notMem_run, nil_notMem_letter,
      nil_notMem_either, nil_notMem_integer, nil_notMem_decimal,
      nil_notMem_opened]

theorem nil_mem_headerReading
    {state : State} :
    [] ∈ headerReading state ↔ state = .start := by
  cases state <;> simp [headerReading, nil_notMem_run]

end Grammar

namespace Mode

/-- The texts that lead from the start to a state in a mode. -/
def reading : Mode → State → Language Char
  | .values => Grammar.valueReading
  | .arrayHeader => Grammar.headerReading

variable {mode : Mode} {state : State} {kind : Kind} {text : List Char}
  {char : Char}

/-- A text leads to a state through a state before it. -/
theorem append_mem_reading :
    text ++ [char] ∈ mode.reading state ↔
      ∃ before, text ∈ mode.reading before ∧
        state ∈ (mode.move before char).states := by
  cases mode with
  | values =>
      exact Grammar.append_mem_valueReading
  | arrayHeader =>
      exact Grammar.append_mem_headerReading

/-- A text of a kind is completed in a state before its last character. -/
theorem append_mem_language :
    text ++ [char] ∈ mode.language kind ↔
      ∃ before, text ∈ mode.reading before ∧
        kind ∈ (mode.move before char).kinds := by
  cases mode with
  | values =>
      exact Grammar.append_mem_values
  | arrayHeader =>
      exact Grammar.append_mem_arrayHeader

/-- Only the start is reached without reading. -/
theorem nil_mem_reading :
    [] ∈ mode.reading state ↔ state = .start := by
  cases mode with
  | values =>
      exact Grammar.nil_mem_valueReading
  | arrayHeader =>
      exact Grammar.nil_mem_headerReading

/-- Only states of the mode are ever reached. -/
theorem mem_states_of_mem_reading
    (member : text ∈ mode.reading state) :
    state ∈ mode.states := by
  cases mode with
  | values =>
      cases state <;> decide
  | arrayHeader =>
      cases state
      case start | blanks => decide
      all_goals exact absurd member (Language.notMem_zero text)

/-- What leads on from a text leads through a state that the text leads to. -/
theorem exists_reading_of_append
    {rest : List Char}
    (member : text ++ rest ∈ mode.reading state) :
    ∃ before, text ∈ mode.reading before := by
  induction rest using List.reverseRecOn generalizing state with
  | nil =>
      rw [List.append_nil] at member
      exact ⟨state, member⟩
  | append_singleton rest last inductionHypothesis =>
      rw [← List.append_assoc, append_mem_reading] at member
      obtain ⟨before, earlier, _⟩ := member
      exact inductionHypothesis earlier

/--
A longer text of a kind leads through a state that its beginning leads to.
-/
theorem exists_reading_of_language
    {rest : List Char}
    (more : rest ≠ [])
    (member : text ++ rest ∈ mode.language kind) :
    ∃ before, text ∈ mode.reading before := by
  obtain ⟨init, last, rfl⟩ := (List.eq_nil_or_concat' rest).resolve_left more
  rw [← List.append_assoc, append_mem_language] at member
  obtain ⟨before, earlier, _⟩ := member
  exact exists_reading_of_append earlier

end Mode

end Snbt
