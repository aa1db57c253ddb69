import Snbt.Proofs.Automaton.QuotedTexts
import Snbt.Proofs.Lexer.Tokenizing
import Snbt.Proofs.Text.CodeUnits
import Snbt.Proofs.Text.KeptUnits

namespace Snbt

/-!
# Tokens of quoted literals

A buffer that holds nothing but a quoted literal is one string and the end.  The
literal is the longest text that stands at its start, and no other kind has it.
-/

namespace Buffer

variable {buffer : Buffer}

/-- Where the units of a text stand, the buffer spells it. -/
theorem spells_of_units
    {before after : List CodeUnit}
    (text : List Char)
    (units_eq : buffer.units.toList = before ++ (Utf16.encode text ++ after)) :
    buffer.Spells before.length text
      (before.length + (Utf16.encode text).length) := by
  induction text generalizing before with
  | nil =>
      exact .nil before.length
  | cons char rest inductionHypothesis =>
      rw [Utf16.encode_cons, List.append_assoc] at units_eq
      have present := char?_of_codes (Utf16.codes_encodeChar char) units_eq
      rw [← List.append_assoc] at units_eq
      have later := inductionHypothesis units_eq
      rw [List.length_append] at later
      rw [Utf16.encode_cons, List.length_append, ← Nat.add_assoc]
      exact .cons present later

/-- A buffer of the units of a text spells the text. -/
theorem spells_all
    (text : List Char)
    (units_eq : buffer.units.toList = Utf16.encode text) :
    buffer.Spells 0 text buffer.size := by
  have size_eq : buffer.size = 0 + (Utf16.encode text).length := by
    rw [← units_eq, Array.length_toList, Nat.zero_add]
    rfl
  have alone : buffer.units.toList = [] ++ (Utf16.encode text ++ []) := by
    rw [units_eq, List.nil_append, List.append_nil]
  rw [size_eq]
  exact spells_of_units text alone

end Buffer

/-- A text that is not empty ends inside the buffer. -/
theorem View.Spells.stop_le_size
    {view : View}
    {offset stop : Nat}
    {text : List Char}
    (spells : view.Spells offset text stop)
    (nonempty : text ≠ []) :
    stop ≤ view.buffer.size := by
  induction spells with
  | nil offset =>
      exact absurd rfl nonempty
  | cons read later inductionHypothesis =>
      cases later with
      | nil =>
          exact (read?_bounds read).2
      | cons =>
          exact inductionHypothesis (List.cons_ne_nil _ _)

namespace Quote

variable {buffer : Buffer}

/-- A literal is the longest match of a buffer that holds nothing else. -/
theorem longest?_around
    (quote : Quote)
    (chars : List Char)
    (units_eq : buffer.units.toList = Utf16.encode (quote.around chars)) :
    (View.whole buffer).longest? .values .full 0 =
      some (.string, buffer.size) := by
  have spells :=
    Buffer.whole_spells_iff.mpr
      (Buffer.spells_all (quote.around chars) units_eq)
  refine View.longest?_eq_some_iff.mpr ⟨⟨quote.around chars, ?_, ?_⟩, ?_⟩
  · exact ⟨List.cons_ne_nil _ _, spells, rfl,
      Grammar.around_mem_string quote chars⟩
  · intro other stands
    by_cases isString : other = .string
    · subst isString
      exact Nat.le_refl _
    · exact absurd stands.member (Grammar.around_notMem quote chars isString)
  · intro text other stop stands
    exact stands.spells.stop_le_size stands.nonempty

/--
Cutting a buffer that holds nothing but
a literal leaves one string and the end.
-/
theorem lexemes_around
    (quote : Quote)
    (chars : List Char)
    (units_eq : buffer.units.toList = Utf16.encode (quote.around chars)) :
    Scanner.lexemes
        { view := .whole buffer, mode := .values, active := .full,
          roles := .standard } 0 =
      [⟨.string, 0, buffer.size⟩, ⟨.eof, buffer.size, buffer.size⟩] := by
  have longest := quote.longest?_around chars units_eq
  have nothingBehind : (View.whole buffer).read? buffer.size = none :=
    (View.whole buffer).read?_size
  have start : (View.whole buffer).settle 0 = 0 :=
    View.settle_of_isPlace ⟨Nat.zero_le _, fun _ => rfl⟩
  have spells :=
    Buffer.whole_spells_iff.mpr
      (Buffer.spells_all (quote.around chars) units_eq)
  cases spells with
  | cons read later =>
      have segments := View.segments_of_longest? read longest
      rw [start, View.segments_of_read?_none nothingBehind] at segments
      have role : Roles.standard.role .string = .regular := by
        decide
      rw [Scanner.lexemes, Scanner.spans, segments]
      simp only [Roles.spans, role]
      rfl

/-- No line of a literal ends with a carriage return. -/
theorem carriageReturn_notMem_around
    (quote : Quote)
    (chars : List Char) :
    CodeUnit.carriageReturn.loneChar ∉ quote.around chars := by
  intro member
  rcases List.mem_cons.mp member with isMark | behind
  · cases quote <;> cases isMark
  · rcases List.mem_append.mp behind with shown | isMark
    · cases Quoted.not_isControl_of_mem_escapeChars shown
    · cases quote <;> cases List.mem_singleton.mp isMark

/-- Standard normalization changes nothing in a literal. -/
theorem units_literal
    (quote : Quote)
    (text : String) :
    (Buffer.ofString .standard (quote.literal text)).units =
      (Utf16.ofString (quote.literal text)).toArray := by
  have keeps : ∀ unit ∈ Utf16.ofString (quote.literal text),
      Normalization.standard.Keeps unit := by
    intro unit member
    refine ⟨?_, fun _ => rfl⟩
    rintro rfl
    have inLiteral := Utf16.loneChar_mem_of_mem_encode member rfl rfl
    rw [toList_literal] at inLiteral
    exact absurd inLiteral (carriageReturn_notMem_around quote text.toList)
  exact Normalization.apply_of_all_keep rfl rfl _ keeps

/--
A text that is escaped and quoted is one string and then the end,
whatever the text.  What stands between the quotes holds no control
character and tells the text.
-/
theorem tokenize_literal
    (quote : Quote)
    (text : String) :
    let lexer := Lexer.ofString .standard (quote.literal text)
    lexer.buffer.units = (Utf16.ofString (quote.literal text)).toArray ∧
      lexer.tokenize.2.map lexer.tokenize.1.lexeme? =
        [some ⟨.string, 0, lexer.buffer.size⟩,
          some ⟨.eof, lexer.buffer.size, lexer.buffer.size⟩] ∧
      (∀ shown ∈ (Quoted.escape text).toList, Quoted.isControl shown = false) ∧
      Quoted.unescape (Quoted.escape text).toList = text.toList ∧
      Function.Injective Quoted.escape := by
  intro lexer
  have shown : (Quoted.escape text).toList = Quoted.escapeChars text.toList :=
    String.toList_ofList
  have units := quote.units_literal text
  refine ⟨units, ?_, ?_, ?_, Quoted.escape_injective⟩
  · have units_eq :
        lexer.buffer.units.toList =
          Utf16.encode (quote.around text.toList) := by
      rw [← toList_literal]
      exact congrArg Array.toList units
    have isFresh : lexer = Lexer.fresh .standard lexer.buffer .full := rfl
    obtain ⟨_, holds⟩ :=
      Lexer.tokenize_holds (Lexer.fresh_plain .standard lexer.buffer .full)
      (Nat.zero_le _) (Lexer.fresh_knows_nothing .standard lexer.buffer .full)
    rw [Lexer.fresh_scanner] at holds
    have lexemes := Lexer.map_lexeme?_of_holds holds
    rw [isFresh]
    refine lexemes.trans ?_
    exact congrArg (List.map some) (quote.lexemes_around text.toList units_eq)
  · rw [shown]
    intro char member
    exact Quoted.not_isControl_of_mem_escapeChars member
  · rw [shown]
    exact Quoted.unescape_escapeChars text.toList

end Quote

end Snbt
