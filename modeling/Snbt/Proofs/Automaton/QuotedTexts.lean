import Snbt.Proofs.Automaton.Grammar
import Snbt.Proofs.Text.Escapes

namespace Snbt

open Computability

/-!
# Quoted texts

A text between two quotes, with everything escaped that a literal cannot hold,
is a string of the grammar.  Nothing but a string holds a quote, so no other
kind can have the same text.
-/

/-- The two quotes. -/
inductive Quote where
  | double
  | single
  deriving DecidableEq, Repr

namespace Quote

/-- The character of a quote. -/
def mark : Quote → Char
  | .double => '"'
  | .single => '\''

/-- The characters of a text between two quotes. -/
def around (quote : Quote) (chars : List Char) : List Char :=
  quote.mark :: (Quoted.escapeChars chars ++ [quote.mark])

/-- A text as a literal between two quotes. -/
def literal (quote : Quote) (text : String) : String :=
  String.singleton quote.mark ++ Quoted.escape text ++
    String.singleton quote.mark

theorem toList_literal
    (quote : Quote)
    (text : String) :
    (quote.literal text).toList = quote.around text.toList := by
  rw [literal, String.toList_append, String.toList_append,
    String.toList_singleton, Quoted.escape, String.toList_ofList]
  rfl

end Quote

namespace Grammar

/-- No text of a language holds a character. -/
def Avoids (char : Char) (texts : Language Char) : Prop :=
  ∀ text ∈ texts, char ∉ text

section Avoiding

variable {char : Char} {first second texts : Language Char}

theorem avoids_zero :
    Avoids char 0 :=
  fun text member => absurd member (Language.notMem_zero text)

theorem avoids_unit :
    Avoids char 1 := by
  intro text member
  rw [(Language.mem_one text).mp member]
  exact List.not_mem_nil

theorem avoids_one
    {accepts : Char → Bool}
    (rejects : accepts char = false) :
    Avoids char (one accepts) := by
  rintro text ⟨accepted, isAccepted, rfl⟩ member
  rw [← List.mem_singleton.mp member, rejects] at isAccepted
  cases isAccepted

theorem Avoids.add
    (firstAvoids : Avoids char first)
    (secondAvoids : Avoids char second) :
    Avoids char (first + second) := by
  intro text member
  rcases member with inFirst | inSecond
  · exact firstAvoids text inFirst
  · exact secondAvoids text inSecond

theorem Avoids.mul
    (firstAvoids : Avoids char first)
    (secondAvoids : Avoids char second) :
    Avoids char (first * second) := by
  intro text member
  obtain ⟨before, inFirst, after, inSecond, rfl⟩ := Language.mem_mul.mp member
  rw [List.mem_append, not_or]
  exact ⟨firstAvoids before inFirst, secondAvoids after inSecond⟩

theorem Avoids.kstar
    (avoids : Avoids char texts) :
    Avoids char texts∗ := by
  intro text member
  obtain ⟨parts, rfl, inTexts⟩ := Language.mem_kstar.mp member
  intro inside
  obtain ⟨part, isPart, inPart⟩ := List.mem_flatten.mp inside
  exact avoids part (inTexts part isPart) inPart

theorem Avoids.maybe
    (avoids : Avoids char texts) :
    Avoids char (maybe texts) :=
  avoids_unit.add avoids

end Avoiding

/-- A language of one character avoids a quote if the class does. -/
private theorem one_avoids_quote
    {accepts : Char → Bool}
    (quote : Quote)
    (rejectsDouble : accepts '"' = false)
    (rejectsSingle : accepts '\'' = false) :
    Avoids quote.mark (one accepts) := by
  cases quote with
  | double =>
      exact avoids_one rejectsDouble
  | single =>
      exact avoids_one rejectsSingle

/-- Only strings hold quotes. -/
theorem avoids_quote
    (quote : Quote)
    {kind : Kind}
    (notString : kind ≠ .string) :
    Avoids quote.mark (values kind) := by
  have digit : Avoids quote.mark (one isDigit) := one_avoids_quote quote rfl rfl
  have digits : Avoids quote.mark digits := digit.mul digit.kstar
  have point : Avoids quote.mark (letter '.') := one_avoids_quote quote rfl rfl
  have sign : Avoids quote.mark sign := (one_avoids_quote quote rfl rfl).maybe
  have integer : Avoids quote.mark integer := sign.mul digits
  have decimal : Avoids quote.mark decimal :=
    ((digits.mul point).mul digits.maybe).add (point.mul digits)
  have exponent : Avoids quote.mark exponent :=
    ((one_avoids_quote quote rfl rfl).mul sign).mul digits
  have doubleSuffix : Avoids quote.mark (either 'd' 'D') :=
    one_avoids_quote quote rfl rfl
  cases kind with
  | string =>
      exact absurd rfl notString
  | eof | byteArrayTag | intArrayTag | longArrayTag | invalid =>
      exact avoids_zero
  | whitespace =>
      have blank : Avoids quote.mark (one isBlank) :=
        one_avoids_quote quote rfl rfl
      exact blank.mul blank.kstar
  | colon | comma | openBracket | closeBracket | openBrace | closeBrace
  | semicolon =>
      exact one_avoids_quote quote rfl rfl
  | boolean =>
      have trueLetters :
          Avoids quote.mark
            (letter 't' * letter 'r' * letter 'u' * letter 'e') :=
        (((one_avoids_quote quote rfl rfl).mul
          (one_avoids_quote quote rfl rfl)).mul
          (one_avoids_quote quote rfl rfl)).mul (one_avoids_quote quote rfl rfl)
      have falseLetters :
          Avoids quote.mark
            (letter 'f' * letter 'a' * letter 'l' * letter 's' * letter 'e') :=
        ((((one_avoids_quote quote rfl rfl).mul
          (one_avoids_quote quote rfl rfl)).mul
          (one_avoids_quote quote rfl rfl)).mul
          (one_avoids_quote quote rfl rfl)).mul (one_avoids_quote quote rfl rfl)
      exact trueLetters.add falseLetters
  | float =>
      exact ((sign.mul (decimal.add digits)).mul exponent.maybe).mul
        (one_avoids_quote quote rfl rfl)
  | double =>
      have fraction := (decimal.mul exponent.maybe).mul doubleSuffix.maybe
      have scientific := (digits.mul exponent).mul doubleSuffix.maybe
      exact sign.mul ((fraction.add scientific).add (digits.mul doubleSuffix))
  | integer =>
      exact integer
  | long | byte | short =>
      exact integer.mul (one_avoids_quote quote rfl rfl)

private theorem mem_kstar_of_mem
    {texts : Language Char}
    {text : List Char}
    (member : text ∈ texts) :
    text ∈ texts∗ := by
  refine Language.mem_kstar.mpr ⟨[text], (List.flatten_singleton).symm, ?_⟩
  intro part isPart
  rw [List.mem_singleton.mp isPart]
  exact member

private theorem append_mem_kstar
    {texts : Language Char}
    {first second : List Char}
    (inFirst : first ∈ texts∗)
    (inSecond : second ∈ texts∗) :
    first ++ second ∈ texts∗ := by
  have both := Language.append_mem_mul inFirst inSecond
  rwa [kstar_mul_kstar] at both

/-- What may stand between two quotes of a form. -/
def body (quote : Char) : Language Char :=
  (one (isPlain quote) + escape)∗

theorem plain_mem_body
    {quote char : Char}
    (isPlain : isPlain quote char = true) :
    [char] ∈ body quote :=
  mem_kstar_of_mem (Or.inl ⟨char, isPlain, rfl⟩)

/-- A backslash hides any character. -/
theorem hidden_mem_body
    (quote char : Char) :
    ['\\', char] ∈ body quote := by
  have hidden : ['\\'] ++ [char] ∈ escape :=
    Language.append_mem_mul ⟨'\\', rfl, rfl⟩ ⟨char, rfl, rfl⟩
  exact mem_kstar_of_mem (Or.inr hidden)

/-- The digits of a number may stand between quotes. -/
theorem isPlain_digitChar
    (quote : Quote) :
    ∀ value < 16, isPlain quote.mark (Nat.digitChar value) = true := by
  cases quote <;> decide

/-- A character may stand between quotes in each of its shapes. -/
theorem shape_mem_body
    (quote : Quote)
    {char : Char}
    {shown : List Char}
    (shape : Quoted.Shape char shown) :
    shown ∈ body quote.mark := by
  cases shape with
  | @letter letter found =>
      exact hidden_mem_body quote.mark letter
  | number noLetter control =>
      have small := Quoted.toNat_lt_of_isControl control
      have zero : ['0'] ∈ body quote.mark :=
        plain_mem_body (isPlain_digitChar quote 0 (by decide))
      have high :=
        plain_mem_body (isPlain_digitChar quote (char.toNat / 16) (by omega))
      have low :=
        plain_mem_body (isPlain_digitChar quote (char.toNat % 16) (by omega))
      exact append_mem_kstar (hidden_mem_body quote.mark 'u')
        (append_mem_kstar zero
          (append_mem_kstar zero (append_mem_kstar high low)))
  | plain noLetter notControl =>
      refine plain_mem_body ?_
      have notQuote : char ≠ quote.mark := by
        rintro rfl
        cases quote <;> cases noLetter
      have notBackslash : char ≠ '\\' := by
        rintro rfl
        cases noLetter
      simp only [isPlain, notQuote, notBackslash, ne_eq, not_false_eq_true,
        decide_true, Bool.and_self]

/-- What stands in a quoted literal may stand between quotes. -/
theorem escapeChars_mem_body
    (quote : Quote)
    (chars : List Char) :
    Quoted.escapeChars chars ∈ body quote.mark := by
  induction chars with
  | nil =>
      exact Language.nil_mem_kstar _
  | cons char chars inductionHypothesis =>
      exact append_mem_kstar
        (shape_mem_body quote (Quoted.shape_escapeChar char))
        inductionHypothesis

/-- A text between two quotes is a string. -/
theorem around_mem_string
    (quote : Quote)
    (chars : List Char) :
    quote.around chars ∈ string := by
  have opening : [quote.mark] ∈ letter quote.mark :=
    ⟨quote.mark, decide_eq_true rfl, rfl⟩
  have opened : [quote.mark] ++ Quoted.escapeChars chars ∈ opened quote.mark :=
    Language.append_mem_mul opening (escapeChars_mem_body quote chars)
  have inQuotes : quote.around chars ∈ quoted quote.mark := by
    have closed := Language.append_mem_mul opened opening
    rwa [List.append_assoc] at closed
  cases quote with
  | double =>
      exact Or.inl (Or.inl inQuotes)
  | single =>
      exact Or.inl (Or.inr inQuotes)

/-- No other kind has the text of a literal. -/
theorem around_notMem
    (quote : Quote)
    (chars : List Char)
    {kind : Kind}
    (notString : kind ≠ .string) :
    quote.around chars ∉ values kind := by
  intro member
  exact avoids_quote quote notString _ member List.mem_cons_self

end Grammar

end Snbt
