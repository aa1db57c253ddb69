import Snbt.Proofs.Text.Encodings
import Snbt.Proofs.Text.KeptUnits

namespace Snbt

/-!
# Text without stray surrogates

What is encoded from characters holds every surrogate in a pair, and so
does whatever is decoded from bytes.  Normalization that replaces no
escapes writes and drops only units that are no surrogates, so it leaves
the pairs as they are.
-/

namespace Utf16

/--
Units that spell characters one after the other, so that no
surrogate stands alone.
-/
inductive Paired : List CodeUnit → Prop where
  | nil :
      Paired []
  | char
      {char : Char}
      {units rest : List CodeUnit}
      (codes : Codes char units)
      (paired : Paired rest) :
      Paired (units ++ rest)

/-- A unit that is no surrogate. -/
structure IsPlain (unit : CodeUnit) : Prop where
  notHigh : unit.isHigh = false
  notLow : unit.isLow = false

/-- U+FFFD is no surrogate. -/
theorem plain_replacement :
    IsPlain CodeUnit.replacement :=
  ⟨by decide, by decide⟩

variable {unit : CodeUnit} {units first second : List CodeUnit}

theorem IsPlain.codes
    (plain : IsPlain unit) :
    Codes unit.loneChar [unit] :=
  .alone plain.notHigh plain.notLow rfl

namespace Paired

theorem append
    (before : Paired first)
    (after : Paired second) :
    Paired (first ++ second) := by
  induction before with
  | nil =>
      exact after
  | char codes _ inductionHypothesis =>
      rw [List.append_assoc]
      exact .char codes inductionHypothesis

theorem encodeChar
    (char : Char) :
    Paired (encodeChar char) := by
  rw [← List.append_nil (Utf16.encodeChar char)]
  exact .char (codes_encodeChar char) .nil

theorem encode
    (chars : List Char) :
    Paired (encode chars) := by
  induction chars with
  | nil =>
      exact .nil
  | cons char chars inductionHypothesis =>
      rw [encode_cons]
      exact .char (codes_encodeChar char) inductionHypothesis

/-- A unit that is no surrogate may stand before paired units. -/
theorem cons
    (plain : IsPlain unit)
    (paired : Paired units) :
    Paired (unit :: units) :=
  .char plain.codes paired

theorem of_all_plain
    (plain : ∀ unit ∈ units, IsPlain unit) :
    Paired units := by
  induction units with
  | nil =>
      exact .nil
  | cons unit units inductionHypothesis =>
      apply cons (plain unit List.mem_cons_self)
      exact inductionHypothesis fun unit member => plain unit (.tail _ member)

/-- A unit that is no surrogate stands between paired units. -/
theorem split
    (plain : IsPlain unit)
    (paired : Paired (first ++ unit :: second)) :
    Paired first ∧ Paired second := by
  generalize whole : first ++ unit :: second = all at paired
  induction paired generalizing first with
  | nil =>
      simp at whole
  | @char char units rest codes paired inductionHypothesis =>
      cases codes with
      | @alone only notHigh notLow char_eq =>
          rcases first with _ | ⟨head, first⟩ <;>
            simp only [List.nil_append, List.cons_append,
              List.cons.injEq] at whole
          · exact ⟨.nil, whole.2 ▸ paired⟩
          · obtain ⟨rfl, whole⟩ := whole
            obtain ⟨before, after⟩ := inductionHypothesis whole
            exact ⟨cons ⟨notHigh, notLow⟩ before, after⟩
      | @pair high low isHigh isLow char_eq =>
          rcases first with _ | ⟨head, _ | ⟨next, first⟩⟩ <;>
            simp only [List.nil_append, List.cons_append,
              List.cons.injEq] at whole
          · rw [← whole.1, plain.notHigh] at isHigh
            cases isHigh
          · rw [← whole.2.1, plain.notLow] at isLow
            cases isLow
          · obtain ⟨rfl, rfl, whole⟩ := whole
            obtain ⟨before, after⟩ := inductionHypothesis whole
            exact ⟨.char (.pair isHigh isLow char_eq) before, after⟩

/-- Other units may stand for one that is no surrogate. -/
theorem replace
    {written rest : List CodeUnit}
    (plain : IsPlain unit)
    (paired : Paired (first ++ unit :: second))
    (writes : ∀ unit ∈ written, IsPlain unit)
    (goesOn : Paired second → Paired rest) :
    Paired (first ++ written ++ rest) := by
  obtain ⟨before, after⟩ := split plain paired
  exact (before.append (of_all_plain writes)).append (goesOn after)

/--
Every unit is no surrogate, or is half of a pair with the unit
behind or before it.
-/
theorem neighbours
    {offset : Nat}
    (paired : Paired units)
    (present : units[offset]? = some unit) :
    IsPlain unit ∨
      (unit.isHigh = true ∧ ∃ low, units[offset + 1]? = some low ∧
        low.isLow = true) ∨
        (unit.isLow = true ∧
          ∃ place high, place + 1 = offset ∧ units[place]? = some high ∧
          high.isHigh = true) := by
  induction paired generalizing offset with
  | nil =>
      cases present
  | @char char units rest codes paired inductionHypothesis =>
      cases codes with
      | @alone only notHigh notLow char_eq =>
          cases offset with
          | zero =>
              cases present
              exact .inl ⟨notHigh, notLow⟩
          | succ offset =>
              rcases inductionHypothesis present with
                plain | ahead | ⟨isLow, place, high, rfl, before⟩
              · exact .inl plain
              · exact .inr (.inl ahead)
              · exact .inr (.inr ⟨isLow, place + 1, high, rfl, before⟩)
      | @pair high low isHigh isLow char_eq =>
          match offset, present with
          | 0, present =>
              cases present
              exact .inr (.inl ⟨isHigh, low, rfl, isLow⟩)
          | 1, present =>
              cases present
              exact .inr (.inr ⟨isLow, 0, high, rfl, rfl, isHigh⟩)
          | offset + 2, present =>
              rcases inductionHypothesis present with
                plain | ahead | ⟨isLow, place, high, rfl, before⟩
              · exact .inl plain
              · exact .inr (.inl ahead)
              · exact .inr (.inr ⟨isLow, place + 2, high, rfl, before⟩)

/-- Behind a high surrogate stands a low one. -/
theorem low_behind
    {offset : Nat}
    (paired : Paired units)
    (present : units[offset]? = some unit)
    (isHigh : unit.isHigh = true) :
    ∃ low, units[offset + 1]? = some low ∧ low.isLow = true := by
  rcases paired.neighbours present with plain | ⟨_, follows⟩ | ⟨isLow, _⟩
  · rw [plain.notHigh] at isHigh
    cases isHigh
  · exact follows
  · rw [CodeUnit.isHigh_of_isLow isLow] at isHigh
    cases isHigh

/-- Before a low surrogate stands a high one. -/
theorem high_before
    {offset : Nat}
    (paired : Paired units)
    (present : units[offset]? = some unit)
    (isLow : unit.isLow = true) :
    ∃ place high, place + 1 = offset ∧ units[place]? = some high ∧
      high.isHigh = true := by
  rcases paired.neighbours present with plain | ⟨isHigh, _⟩ | ⟨_, before⟩
  · rw [plain.notLow] at isLow
    cases isLow
  · rw [CodeUnit.isHigh_of_isLow isLow] at isHigh
    cases isHigh
  · exact before

end Paired

end Utf16

namespace Utf8

/-- What is decoded from UTF-8 holds every surrogate in a pair. -/
theorem paired_decodeOnto
    (units : Array CodeUnit)
    (bytes : List UInt8)
    (paired : Utf16.Paired units.toList) :
    Utf16.Paired (decodeOnto units bytes).toList := by
  fun_induction decodeOnto units bytes with
  | case1 units =>
      exact paired
  | case2 units lead rest char after found inductionHypothesis =>
      apply inductionHypothesis
      rw [Array.toList_appendList]
      exact paired.append (.encodeChar char)
  | case3 units lead rest nothing more inductionHypothesis =>
      apply inductionHypothesis
      rw [Array.toList_appendList]
      apply paired.append (.of_all_plain _)
      intro unit member
      rw [List.eq_of_mem_replicate member]
      exact Utf16.plain_replacement

end Utf8

namespace Utf16

/-- What is decoded from UTF-16 holds every surrogate in a pair. -/
theorem paired_ofBytes
    (order : ByteOrder)
    (bytes : List UInt8) :
    Paired (ofBytes order bytes).toList := by
  unfold ofBytes
  split
  · exact .encode _
  · rw [Array.toList_push]
    exact (Paired.encode _).append (.cons plain_replacement .nil)

end Utf16

namespace Utf32

theorem paired_unitsOfValue
    (value : Nat) :
    Utf16.Paired (unitsOfValue value) := by
  unfold unitsOfValue
  split
  · exact .encodeChar _
  · exact .cons Utf16.plain_replacement .nil

/-- What is decoded from UTF-32 holds every surrogate in a pair. -/
theorem paired_decodeOnto
    (order : ByteOrder)
    (units : Array CodeUnit)
    (bytes : List UInt8)
    (paired : Utf16.Paired units.toList) :
    Utf16.Paired (decodeOnto order units bytes).toList := by
  fun_induction decodeOnto order units bytes with
  | case1 units first second third fourth rest inductionHypothesis =>
      apply inductionHypothesis
      rw [Array.toList_appendList]
      exact paired.append (paired_unitsOfValue _)
  | case2 units =>
      exact paired
  | case3 units bytes =>
      rw [Array.toList_push]
      exact paired.append (.cons Utf16.plain_replacement .nil)

end Utf32

namespace Charset

/-- What is decoded holds every surrogate in a pair. -/
theorem paired_decodeAll
    (charset : Charset)
    (bytes : List UInt8) :
    Utf16.Paired (charset.decodeAll bytes).toList := by
  cases charset with
  | utf8 =>
      exact Utf8.paired_decodeOnto #[] bytes .nil
  | utf16 order =>
      exact Utf16.paired_ofBytes order bytes
  | utf32 order =>
      exact Utf32.paired_decodeOnto order #[] bytes .nil

theorem paired_decode
    (charset? : Option Charset)
    (bytes : List UInt8) :
    Utf16.Paired (decode charset? bytes).toList := by
  unfold decode
  split
  · exact paired_decodeAll _ _
  · split <;> exact paired_decodeAll _ _

end Charset

namespace Normalization

open Utf16 (Paired)

variable {rules : Normalization} {tabSize column : Nat} {escaped : Bool}

theorem paired_afterReturn
    {units : List CodeUnit}
    (paired : Paired units) :
    Paired (afterReturn units) := by
  unfold afterReturn
  split
  · split
    case isTrue isFeed =>
      have plain : Utf16.IsPlain CodeUnit.lineFeed := ⟨by decide, by decide⟩
      rw [isFeed, ← List.nil_append (_ :: _)] at paired
      exact (paired.split plain).2
    case isFalse =>
      exact paired
  · exact .nil

/-- A unit that is kept stands where it stood. -/
theorem toList_push_append
    (out : Array CodeUnit)
    (unit : CodeUnit)
    (rest : List CodeUnit) :
    (out.push unit).toList ++ rest = out.toList ++ unit :: rest := by
  rw [Array.toList_push, List.append_assoc, List.singleton_append]

/--
Where no escapes are replaced pairs stay as they are.  What is written and what
is left to read are paired together, because a pair may be read only in half.
-/
theorem paired_appendMarked
    (noEscapes : rules.expandEscapes = false)
    (out : Array CodeUnit)
    (units : List CodeUnit)
    (paired : Paired (out.toList ++ units)) :
    Paired (appendMarked rules tabSize column escaped out units).toList := by
  fun_induction appendMarked rules tabSize column escaped out units with
  | case1 column escaped out =>
      rw [List.append_nil] at paired
      exact paired
  | case2 column escaped out rest inductionHypothesis =>
      apply inductionHypothesis
      rw [toList_push_append]
      exact paired
  | case3 column escaped out rest expands =>
      rw [noEscapes] at expands
      cases expands
  | case4 column escaped out rest expands =>
      rw [noEscapes] at expands
      cases expands
  | case5 column escaped out rest keeps notFeed inductionHypothesis =>
      apply inductionHypothesis
      rw [toList_push_append]
      exact paired
  | case6 column escaped out unit rest notFeed notBackslash isReturn
      inductionHypothesis =>
      apply inductionHypothesis
      obtain ⟨rfl, _⟩ :
          unit = CodeUnit.carriageReturn ∧ rules.keepLineEnds = false := by
        simpa using isReturn
      rw [Array.toList_push]
      apply Paired.replace ⟨by decide, by decide⟩ paired _ paired_afterReturn
      intro unit member
      rw [List.mem_singleton.mp member]
      exact ⟨by decide, by decide⟩
  | case7 column escaped out unit rest notFeed notBackslash notReturn isTab
      width inductionHypothesis =>
      apply inductionHypothesis
      obtain ⟨rfl, _⟩ : unit = CodeUnit.tab ∧ rules.keepTabs = false := by
        simpa using isTab
      rw [Array.toList_appendList]
      apply Paired.replace ⟨by decide, by decide⟩ paired _ id
      intro unit member
      rw [List.eq_of_mem_replicate member]
      exact ⟨by decide, by decide⟩
  | case8 column escaped out unit rest notFeed notBackslash notReturn notTab
      inductionHypothesis =>
      apply inductionHypothesis
      rw [toList_push_append]
      exact paired

/--
Normalization that replaces no escapes leaves every surrogate in its pair.
-/
theorem paired_apply
    (noEscapes : rules.expandEscapes = false)
    (tabSize : Nat)
    {raw : List CodeUnit}
    (paired : Paired raw) :
    Paired (rules.apply tabSize raw).toList := by
  have written : Paired (rules.openForm tabSize raw).toList := by
    rw [openForm_eq_appendMarked]
    exact paired_appendMarked noEscapes #[] raw paired
  unfold apply
  simp only
  split
  · unfold closeLine
    split
    · exact written
    · rw [Array.toList_push]
      exact written.append (.cons ⟨by decide, by decide⟩ .nil)
  · exact written

end Normalization

namespace Buffer

/-- A high surrogate with no low one behind it. -/
def IsLoneHigh (buffer : Buffer) (offset : Nat) : Prop :=
  (∃ unit, buffer.unit? offset = some unit ∧ unit.isHigh = true) ∧
    ¬buffer.SplitsPair (offset + 1)

/-- A low surrogate with no high one before it. -/
def IsLoneLow (buffer : Buffer) (offset : Nat) : Prop :=
  (∃ unit, buffer.unit? offset = some unit ∧ unit.isLow = true) ∧
    ¬buffer.SplitsPair offset

variable {buffer : Buffer}

/-- Where all surrogates are paired, no high one stands alone. -/
theorem not_isLoneHigh
    (paired : Utf16.Paired buffer.units.toList)
    (offset : Nat) :
    ¬buffer.IsLoneHigh offset := by
  rintro ⟨⟨unit, present, isHigh⟩, alone⟩
  rw [unit?, ← Array.getElem?_toList] at present
  obtain ⟨low, behind, isLow⟩ := paired.low_behind present isHigh
  rw [Array.getElem?_toList] at present behind
  exact alone ⟨unit, low, Nat.succ_pos offset, present, behind,
    by rw [isHigh, isLow]; rfl⟩

/-- Where all surrogates are paired, no low one stands alone. -/
theorem not_isLoneLow
    (paired : Utf16.Paired buffer.units.toList)
    (offset : Nat) :
    ¬buffer.IsLoneLow offset := by
  rintro ⟨⟨unit, present, isLow⟩, alone⟩
  rw [unit?, ← Array.getElem?_toList] at present
  obtain ⟨place, high, rfl, before, isHigh⟩ := paired.high_before present isLow
  rw [Array.getElem?_toList] at present before
  exact alone ⟨high, unit, Nat.succ_pos place, before, present,
    by rw [isHigh, isLow]; rfl⟩

/--
Buffers that texts and bytes are read into, counting columns with any tab size.
-/
inductive IsRead (settings : BufferSettings) : Buffer → Prop where
  | text (text : String) :
      IsRead settings (ofString settings text)
  | bytes (charset? : Option Charset) (bytes : List UInt8) :
      IsRead settings (ofBytes settings charset? bytes)
  | withTabSize
      {buffer : Buffer}
      (read : IsRead settings buffer)
      (tabSize : Nat) :
      IsRead settings (buffer.withTabSize tabSize)

/--
A buffer that is read without replacing escapes holds every
surrogate in a pair.
-/
theorem IsRead.paired
    {settings : BufferSettings}
    (noEscapes : settings.rules.expandEscapes = false)
    (read : IsRead settings buffer) :
    Utf16.Paired buffer.units.toList := by
  induction read with
  | text text =>
      exact Normalization.paired_apply noEscapes _ (.encode _)
  | bytes charset? bytes =>
      exact Normalization.paired_apply noEscapes _
        (Charset.paired_decode charset? bytes)
  | withTabSize _ _ inductionHypothesis =>
      exact inductionHypothesis

end Buffer

end Snbt
