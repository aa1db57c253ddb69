import Snbt.Text.Normalization

namespace Snbt.Normalization

/-!
# Spellings of escapes

Behind its backslash an escape has one or more `u` and four hexadecimal
digits.  Reading finds such a spelling exactly where there is one, and every
unit can be spelled.
-/

/-- Units that name another one behind a backslash. -/
inductive Names : List CodeUnit → CodeUnit → Prop where
  | digits
      {first second third fourth : CodeUnit}
      {a b c d : UInt16}
      (more : Nat)
      (isFirst : first.hexDigit? = some a)
      (isSecond : second.hexDigit? = some b)
      (isThird : third.hexDigit? = some c)
      (isFourth : fourth.hexDigit? = some d) :
      Names
        (CodeUnit.lowerU ::
          (List.replicate more CodeUnit.lowerU ++
            [first, second, third, fourth]))
        (((a * 16 + b) * 16 + c) * 16 + d)

variable {units body after : List CodeUnit} {unit named : CodeUnit}

/-- A letter `u` is no digit. -/
theorem ne_lowerU_of_hexDigit?
    {digit : UInt16}
    (isDigit : unit.hexDigit? = some digit) :
    unit ≠ CodeUnit.lowerU := by
  rintro rfl
  cases isDigit

/-- A backslash is no digit. -/
theorem ne_backslash_of_hexDigit?
    {digit : UInt16}
    (isDigit : unit.hexDigit? = some digit) :
    unit ≠ CodeUnit.backslash := by
  rintro rfl
  cases isDigit

/-- Of several `u` before a digit all are dropped. -/
theorem dropWhile_lowerU
    {digit : UInt16}
    (more : Nat)
    (isDigit : unit.hexDigit? = some digit)
    (rest : List CodeUnit) :
    (List.replicate more CodeUnit.lowerU ++ unit :: rest).dropWhile
      (· = CodeUnit.lowerU) =
      unit :: rest := by
  rw [List.dropWhile_append_of_pos]
  · exact List.dropWhile_cons_of_neg (by simp [ne_lowerU_of_hexDigit? isDigit])
  · intro letter member
    simp [List.eq_of_mem_replicate member]

/-- What names a unit is read as that unit, whatever follows. -/
theorem escape?_append_of_names
    (names : Names body named)
    (after : List CodeUnit) :
    escape? (body ++ after) = some (named, after) := by
  cases names with
  | digits more isFirst isSecond isThird isFourth =>
      rw [List.cons_append, List.append_assoc, escape?, if_pos rfl]
      simp only [List.cons_append, List.nil_append]
      rw [dropWhile_lowerU more isFirst]
      simp only [hexUnit?, isFirst, isSecond, isThird, isFourth]

/-- Four digits are read as the unit that they make up. -/
theorem digits_of_hexUnit?
    (read : hexUnit? units = some (named, after)) :
    ∃ (first second third fourth : CodeUnit) (a b c d : UInt16),
      units = first :: second :: third :: fourth :: after ∧
        first.hexDigit? = some a ∧ second.hexDigit? = some b ∧
        third.hexDigit? = some c ∧
        fourth.hexDigit? = some d ∧
        named = ((a * 16 + b) * 16 + c) * 16 + d := by
  unfold hexUnit? at read
  split at read
  case h_1 first second third fourth rest =>
    split at read
    case h_1 a b c d isFirst isSecond isThird isFourth =>
      cases read
      exact ⟨first, second, third, fourth, a, b, c, d, rfl, isFirst,
        isSecond, isThird, isFourth, rfl⟩
    case h_2 =>
      cases read
  case h_2 =>
    cases read

/-- What is read as a unit begins with what names it. -/
theorem names_of_escape?
    (read : escape? units = some (named, after)) :
    ∃ body, units = body ++ after ∧ Names body named := by
  unfold escape? at read
  split at read
  case h_1 letter rest =>
    split at read
    case isTrue isLetter =>
      obtain ⟨first, second, third, fourth, a, b, c, d, rest_eq, isFirst,
        isSecond, isThird, isFourth, rfl⟩ := digits_of_hexUnit? read
      have letters :
          rest.takeWhile (· = CodeUnit.lowerU) =
            List.replicate (rest.takeWhile (· = CodeUnit.lowerU)).length
              CodeUnit.lowerU := by
        apply List.eq_replicate_of_mem
        intro letter member
        exact of_decide_eq_true
          (List.all_eq_true.mp List.all_takeWhile letter member)
      have names :=
        Names.digits (rest.takeWhile (· = CodeUnit.lowerU)).length isFirst
          isSecond isThird isFourth
      refine ⟨_, ?_, names⟩
      rw [isLetter, List.cons_append, List.append_assoc, ← letters]
      simp only [List.cons_append, List.nil_append]
      rw [← rest_eq, List.takeWhile_append_dropWhile]
    case isFalse =>
      cases read
  case h_2 =>
    cases read

/-- A unit is named by letters `u` and by digits. -/
theorem Names.letter_or_digit
    (names : Names body named)
    (member : unit ∈ body) :
    unit = CodeUnit.lowerU ∨ ∃ digit, unit.hexDigit? = some digit := by
  cases names with
  | digits more isFirst isSecond isThird isFourth =>
      simp only [List.mem_cons, List.mem_append, List.mem_replicate,
        List.not_mem_nil, or_false] at member
      rcases member with rfl | ⟨_, rfl⟩ | rfl | rfl | rfl | rfl
      · exact .inl rfl
      · exact .inl rfl
      · exact .inr ⟨_, isFirst⟩
      · exact .inr ⟨_, isSecond⟩
      · exact .inr ⟨_, isThird⟩
      · exact .inr ⟨_, isFourth⟩

/-- A unit that is part of no name. -/
def NeverNames (unit : CodeUnit) : Prop :=
  ∀ body named, Names body named → unit ∉ body

theorem neverNames_of_not_digit
    (notLetter : unit ≠ CodeUnit.lowerU)
    (notDigit : unit.hexDigit? = none) :
    NeverNames unit := by
  intro body named names member
  rcases names.letter_or_digit member with isLetter | ⟨digit, isDigit⟩
  · exact notLetter isLetter
  · rw [notDigit] at isDigit
    cases isDigit

/--
What is read as no unit does not become one with a unit behind it that
is part of no name.
-/
theorem escape?_append_eq_none
    (nothing : escape? units = none)
    (apart : NeverNames unit)
    (rest : List CodeUnit) :
    escape? (units ++ unit :: rest) = none := by
  apply Option.eq_none_iff_forall_ne_some.mpr
  rintro ⟨named, after⟩ read
  obtain ⟨body, split, names⟩ := names_of_escape? read
  rcases List.append_eq_append_iff.mp split with
    ⟨more, rfl, behind⟩ | ⟨more, rfl, _⟩
  · -- the name ends with the units or behind them
    cases more with
    | nil =>
        rw [List.append_nil] at names
        have found := escape?_append_of_names names []
        rw [List.append_nil, nothing] at found
        cases found
    | cons first more =>
        obtain ⟨rfl, _⟩ := List.cons.inj behind
        exact apart _ _ names (List.mem_append_right units List.mem_cons_self)
  · rw [escape?_append_of_names names] at nothing
    cases nothing

/-- No backslash names a unit. -/
theorem Names.ne_backslash
    (names : Names body named)
    (member : unit ∈ body) :
    unit ≠ CodeUnit.backslash := by
  rcases names.letter_or_digit member with rfl | ⟨digit, isDigit⟩
  · decide
  · exact ne_backslash_of_hexDigit? isDigit

/-- The digit of a number below sixteen. -/
def digitUnit (value : Nat) : CodeUnit :=
  UInt16.ofNat (if value < 10 then 0x30 + value else 0x61 + (value - 10))

theorem hexDigit?_digitUnit :
    ∀ value < 16, (digitUnit value).hexDigit? = some (UInt16.ofNat value) := by
  decide

/-- The escape that names a unit: a backslash, `u` and four digits. -/
def spell (unit : CodeUnit) : List CodeUnit :=
  [CodeUnit.backslash, CodeUnit.lowerU, digitUnit (unit.toNat / 0x1000),
    digitUnit (unit.toNat / 0x100 % 16), digitUnit (unit.toNat / 0x10 % 16),
    digitUnit (unit.toNat % 16)]

/-- A unit that is spelled by an escape. -/
inductive Spells : List CodeUnit → CodeUnit → Prop where
  | escape
      {body : List CodeUnit}
      {named : CodeUnit}
      (names : Names body named) :
      Spells (CodeUnit.backslash :: body) named

theorem spells_spell
    (unit : CodeUnit) :
    Spells (spell unit) unit := by
  have small : unit.toNat < 0x10000 := unit.toNat_lt
  have names :=
    Names.digits 0 (hexDigit?_digitUnit (unit.toNat / 0x1000) (by omega))
      (hexDigit?_digitUnit (unit.toNat / 0x100 % 16) (by omega))
      (hexDigit?_digitUnit (unit.toNat / 0x10 % 16) (by omega))
      (hexDigit?_digitUnit (unit.toNat % 16) (by omega))
  have value :
      ((UInt16.ofNat (unit.toNat / 0x1000) * 16 +
        UInt16.ofNat (unit.toNat / 0x100 % 16)) * 16 +
          UInt16.ofNat (unit.toNat / 0x10 % 16)) * 16 +
          UInt16.ofNat (unit.toNat % 16) =
        unit := by
    apply UInt16.toNat_inj.mp
    simp only [UInt16.toNat_add, UInt16.toNat_mul, UInt16.toNat_ofNat',
      UInt16.reduceToNat]
    omega
  rw [value] at names
  exact .escape names

end Snbt.Normalization
