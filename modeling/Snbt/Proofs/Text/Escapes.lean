import Mathlib.Logic.Function.Basic
import Mathlib.Tactic.SplitIfs
import Snbt.Text.Quoted

namespace Snbt.Quoted

/-!
# Reading escapes

What stands in a quoted literal tells the text that it was made of.  A
character is written in one of three shapes, none of which holds a
control character, and reading the shapes one after the other gives
the characters back.
-/

/-- The value of a lowercase hexadecimal digit. -/
def digitValue (digit : Char) : Nat :=
  if digit.toNat < 0x61 then digit.toNat - 0x30 else digit.toNat - 0x61 + 10

/-- The character that a letter stands for after a backslash. -/
def escapedBy (letter : Char) : Char :=
  if letter = 'b' then '\x08'
  else if letter = 't' then '\t'
  else if letter = 'n' then '\n'
  else if letter = 'f' then '\x0c'
  else if letter = 'r' then '\r'
  else letter

/-- The text that stands in a quoted literal. -/
def unescape : List Char → List Char
  | '\\' :: 'u' :: first :: second :: third :: fourth :: rest =>
      Char.ofNat
          (((digitValue first * 16 + digitValue second) * 16 +
            digitValue third) * 16 +
            digitValue fourth) ::
        unescape rest
  | '\\' :: letter :: rest =>
      escapedBy letter :: unescape rest
  | char :: rest =>
      char :: unescape rest
  | [] =>
      []

/-- The shapes in which a character stands in a quoted literal. -/
inductive Shape (char : Char) : List Char → Prop where
  | letter
      {letter : Char}
      (found : escapeLetter? char = some letter) :
      Shape char ['\\', letter]
  | number
      (noLetter : escapeLetter? char = none)
      (control : isControl char = true) :
      Shape char
        ['\\', 'u', '0', '0', Nat.digitChar (char.toNat / 16),
          Nat.digitChar (char.toNat % 16)]
  | plain
      (noLetter : escapeLetter? char = none)
      (notControl : isControl char = false) :
      Shape char [char]

/-- A number of one or two digits is written with zeros before them. -/
theorem hexDigits_of_lt
    {value : Nat}
    (small : value < 0x100) :
    hexDigits 4 value =
      ['0', '0', Nat.digitChar (value / 16), Nat.digitChar (value % 16)] := by
  by_cases oneDigit : value < 16
  · rw [hexDigits, Nat.toDigits_of_lt_base oneDigit, Nat.div_eq_of_lt oneDigit,
      Nat.mod_eq_of_lt oneDigit]
    rfl
  · have left : value / 16 < 16 := by
      omega
    rw [hexDigits,
      Nat.toDigits_of_base_le (by decide) (Nat.le_of_not_lt oneDigit),
      Nat.toDigits_of_lt_base left]
    rfl

theorem toNat_lt_of_isControl
    {char : Char}
    (control : isControl char = true) :
    char.toNat < 0x100 := by
  simp only [isControl, Bool.or_eq_true, Bool.and_eq_true,
    decide_eq_true_eq] at control
  omega

/-- A character stands in a quoted literal in one of the shapes. -/
theorem shape_escapeChar
    (char : Char) :
    Shape char (escapeChar char) := by
  unfold escapeChar
  cases found : escapeLetter? char with
  | some letter =>
      exact .letter found
  | none =>
      cases control : isControl char with
      | true =>
          have digits := hexDigits_of_lt (toNat_lt_of_isControl control)
          simp only [if_true, digits]
          exact .number found control
      | false =>
          simp only [Bool.false_eq_true, if_false]
          exact .plain found control

/-- The digit of a number below sixteen tells it and can be shown. -/
theorem digit_facts :
    ∀ value < 16,
      digitValue (Nat.digitChar value) = value ∧
        isControl (Nat.digitChar value) = false := by
  decide

/-- The characters that have a letter, each with its letter. -/
def letters : List (Char × Char) :=
  [('\x08', 'b'), ('\t', 't'), ('\n', 'n'), ('\x0c', 'f'), ('\r', 'r'),
    ('"', '"'), ('\'', '\''), ('\\', '\\')]

theorem mem_letters
    {char letter : Char}
    (found : escapeLetter? char = some letter) :
    (char, letter) ∈ letters := by
  unfold escapeLetter? at found
  split_ifs at found <;> cases found <;> subst char <;> decide

/--
A letter is read as the character that has
it, begins no number, and can be shown.
-/
theorem letter_facts :
    ∀ pair ∈ letters,
      escapedBy pair.2 = pair.1 ∧ pair.2 ≠ 'u' ∧ isControl pair.2 = false := by
  decide

/-- A character that stands in front is read first. -/
theorem unescape_append_of_shape
    {char : Char}
    {shown : List Char}
    (shape : Shape char shown)
    (rest : List Char) :
    unescape (shown ++ rest) = char :: unescape rest := by
  cases shape with
  | @letter letter found =>
      obtain ⟨isChar, notNumber, _⟩ := letter_facts _ (mem_letters found)
      simp only [List.cons_append, List.nil_append]
      rw [unescape, isChar]
      intro first second third fourth later same _
      exact notNumber same
  | number noLetter control =>
      have small := toNat_lt_of_isControl control
      have value :
          ((0 * 16 + 0) * 16 + char.toNat / 16) * 16 + char.toNat % 16 =
            char.toNat := by
        omega
      have high := (digit_facts (char.toNat / 16) (by omega)).1
      have low := (digit_facts (char.toNat % 16) (by omega)).1
      have zero : digitValue '0' = 0 := rfl
      simp only [List.cons_append, List.nil_append, unescape, high, low, zero]
      rw [value, Char.ofNat_toNat]
  | plain noLetter notControl =>
      have notBackslash : char ≠ '\\' := by
        rintro rfl
        cases noLetter
      rw [List.singleton_append, unescape]
      · intro first second third fourth later same _
        exact notBackslash same
      · intro letter later same _
        exact notBackslash same

/-- What stands in a quoted literal tells the text that it was made of. -/
theorem unescape_escapeChars
    (chars : List Char) :
    unescape (escapeChars chars) = chars := by
  induction chars with
  | nil =>
      rfl
  | cons char chars inductionHypothesis =>
      rw [escapeChars, List.flatMap_cons,
        unescape_append_of_shape (shape_escapeChar char)]
      exact congrArg (char :: ·) inductionHypothesis

/-- Different texts stand differently in quoted literals. -/
theorem escape_injective : Function.Injective escape := by
  intro first second same
  have sameChars : escapeChars first.toList = escapeChars second.toList :=
    String.ofList_injective same
  have sameTexts := congrArg unescape sameChars
  rw [unescape_escapeChars, unescape_escapeChars] at sameTexts
  exact String.toList_injective sameTexts

/-- No shape holds a control character. -/
theorem Shape.not_isControl
    {char shown : Char}
    {text : List Char}
    (shape : Shape char text)
    (member : shown ∈ text) :
    isControl shown = false := by
  cases shape with
  | letter found =>
      simp only [List.mem_cons, List.not_mem_nil, or_false] at member
      rcases member with rfl | rfl
      · rfl
      · exact (letter_facts _ (mem_letters found)).2.2
  | number noLetter control =>
      have small := toNat_lt_of_isControl control
      simp only [List.mem_cons, List.not_mem_nil, or_false] at member
      rcases member with rfl | rfl | rfl | rfl | rfl | rfl
      · rfl
      · rfl
      · rfl
      · rfl
      · exact (digit_facts _ (by omega)).2
      · exact (digit_facts _ (by omega)).2
  | plain noLetter notControl =>
      rw [List.mem_singleton.mp member]
      exact notControl

/-- No control character stands in a quoted literal. -/
theorem not_isControl_of_mem_escapeChars
    {chars : List Char}
    {shown : Char}
    (member : shown ∈ escapeChars chars) :
    isControl shown = false := by
  obtain ⟨char, _, inShape⟩ := List.mem_flatMap.mp member
  exact (shape_escapeChar char).not_isControl inShape

end Snbt.Quoted
