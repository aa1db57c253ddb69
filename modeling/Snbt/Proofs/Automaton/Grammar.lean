import Mathlib.Computability.Language
import Mathlib.Tactic.NoncommRing
import Snbt.Automaton.Moves

namespace Snbt

open Computability

/-!
# The grammar of tokens

The texts of each kind in each mode, written as regular expressions over
characters.  Nothing here mentions the automaton; it shares with it only the
classes of characters.

The last part says what it means for a text to end with a given character, which
is how languages are compared with an automaton that reads from left to right.
-/

namespace Grammar

/-- The texts of one character of a class. -/
def one (accepts : Char → Bool) : Language Char :=
  {text | ∃ char, accepts char = true ∧ text = [char]}

/-- The text of one given character. -/
def letter (char : Char) : Language Char :=
  one fun read => read = char

/-- The texts of one of two given characters. -/
def either (first second : Char) : Language Char :=
  one fun read => read = first || read = second

/-- The texts of a language, and no text at all. -/
def maybe (texts : Language Char) : Language Char :=
  1 + texts

/-- One or more characters of a class. -/
def run (accepts : Char → Bool) : Language Char :=
  one accepts * (one accepts)∗

/-- The sign that a number may begin with. -/
def sign : Language Char :=
  maybe (either '+' '-')

/-- One or more digits. -/
def digits : Language Char :=
  run isDigit

/-- A number without a point. -/
def integer : Language Char :=
  sign * digits

/-- Digits with a point, at least one of them on either side. -/
def decimal : Language Char :=
  digits * letter '.' * maybe digits + letter '.' * digits

/-- An exponent. -/
def exponent : Language Char :=
  either 'e' 'E' * sign * digits

/-- A number with the suffix of single precision. -/
def float : Language Char :=
  sign * (decimal + digits) * maybe exponent * either 'f' 'F'

/--
A number of double precision: without a
point or an exponent it needs its suffix.
-/
def double : Language Char :=
  sign *
    (decimal * maybe exponent * maybe (either 'd' 'D') +
      digits * exponent * maybe (either 'd' 'D') +
      digits * either 'd' 'D')

/-- The two keywords. -/
def boolean : Language Char :=
  letter 't' * letter 'r' * letter 'u' * letter 'e' +
    letter 'f' * letter 'a' * letter 'l' * letter 's' * letter 'e'

/-- A character between quotes that needs no backslash before it. -/
def isPlain (quote char : Char) : Bool :=
  char ≠ quote && char ≠ '\\'

/-- A backslash and the character that it hides. -/
def escape : Language Char :=
  letter '\\' * one fun _ => true

/-- A quote and what it opens. -/
def opened (quote : Char) : Language Char :=
  letter quote * (one (isPlain quote) + escape)∗

/-- A text between quotes. -/
def quoted (quote : Char) : Language Char :=
  opened quote * letter quote

/-- A text between quotes of either form, or one without quotes. -/
def string : Language Char :=
  quoted '"' + quoted '\'' + run isUnquoted

/-- The texts of a kind in values. -/
def values : Kind → Language Char
  | .whitespace => run isBlank
  | .colon => letter ':'
  | .comma => letter ','
  | .openBracket => letter '['
  | .closeBracket => letter ']'
  | .openBrace => letter '{'
  | .closeBrace => letter '}'
  | .semicolon => letter ';'
  | .boolean => boolean
  | .float => float
  | .double => double
  | .integer => integer
  | .long => integer * either 'l' 'L'
  | .byte => integer * either 'b' 'B'
  | .short => integer * either 's' 'S'
  | .string => string
  | .eof | .byteArrayTag | .intArrayTag | .longArrayTag | .invalid => 0

/-- The texts of a kind in the header of an array. -/
def arrayHeader : Kind → Language Char
  | .whitespace => run isBlank
  | .byteArrayTag => letter 'B'
  | .intArrayTag => letter 'I'
  | .longArrayTag => letter 'L'
  | .semicolon => letter ';'
  | _ => 0

end Grammar

/-- The texts of a kind in a mode. -/
def Mode.language : Mode → Kind → Language Char
  | .values => Grammar.values
  | .arrayHeader => Grammar.arrayHeader

namespace Grammar

/-! ## Texts that end with a given character -/

/--
A text ends with a character of a class,
and what stands before it is in a language.
-/
theorem append_mem_mul_one
    {texts : Language Char}
    {accepts : Char → Bool}
    {text : List Char}
    {char : Char} :
    text ++ [char] ∈ texts * one accepts ↔
      text ∈ texts ∧ accepts char = true := by
  constructor
  · intro member
    obtain ⟨before, beforeMember, _, ⟨last, accepted, rfl⟩, same⟩ :=
      Language.mem_mul.mp member
    obtain ⟨rfl, sameLast⟩ := List.append_inj' same rfl
    rw [List.singleton_inj] at sameLast
    subst last
    exact ⟨beforeMember, accepted⟩
  · rintro ⟨member, accepted⟩
    exact Language.append_mem_mul member ⟨char, accepted, rfl⟩

/--
A text that ends with a character is a text of one character when
nothing precedes it.
-/
theorem append_mem_one
    {accepts : Char → Bool}
    {text : List Char}
    {char : Char} :
    text ++ [char] ∈ one accepts ↔ text = [] ∧ accepts char = true := by
  have ending := @append_mem_mul_one 1 accepts text char
  rwa [one_mul, Language.mem_one] at ending

/-- A text that ends with a character is not empty. -/
theorem append_notMem_unit
    {text : List Char}
    {char : Char} :
    text ++ [char] ∉ (1 : Language Char) := by
  simp [Language.mem_one]

/-- The empty text is no text of one character. -/
@[simp] theorem nil_notMem_one
    {accepts : Char → Bool} :
    [] ∉ one accepts := by
  rintro ⟨char, _, same⟩
  cases same

/-- The empty text is in a product exactly when it is in both factors. -/
@[simp] theorem nil_mem_mul
    {first second : Language Char} :
    [] ∈ first * second ↔ [] ∈ first ∧ [] ∈ second := by
  simp [Language.mem_mul]

/-- One or more characters: one of them, or another behind one or more. -/
theorem run_eq
    (accepts : Char → Bool) :
    run accepts = one accepts + run accepts * one accepts := by
  unfold run
  conv_lhs => rw [← Language.one_add_kstar_mul_self_eq_kstar]
  noncomm_ring

end Grammar

end Snbt
