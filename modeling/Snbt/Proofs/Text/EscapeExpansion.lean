import Mathlib.Data.List.Forall2
import Mathlib.Tactic.Choose
import Snbt.Proofs.Text.KeptUnits

namespace Snbt.Normalization

/-!
# Expansion of escapes

A backslash opens an escape when it ends an odd run of backslashes and a name
follows.  Escapes do not overlap, so each place of the raw text tells what
stands for it: the unit that is named for the start of an escape, nothing
inside one, and the unit itself anywhere else.  Reading from the left with one
mark for odd runs writes just that.
-/

/-- An escape of the raw text and the unit that it names. -/
structure IsEscape (raw : List CodeUnit) (start stop : Nat) (named : CodeUnit) :
    Prop where
  /-- Its backslash ends an odd run. -/
  odd : backslashRun (raw.take (start + 1)) % 2 = 1
  /-- Behind the backslash the unit is named. -/
  spelled :
    ∃ body after, raw.drop start = CodeUnit.backslash :: (body ++ after) ∧
      Names body named ∧
      stop = start + 1 + body.length

/-- What stands for a place of the raw text when its escapes are replaced. -/
inductive Writes (raw : List CodeUnit) (place : Nat) :
    List CodeUnit → Prop where
  | named
      {stop : Nat}
      {named : CodeUnit}
      (escape : IsEscape raw place stop named) :
      Writes raw place [named]
  | inside
      {start stop : Nat}
      {named : CodeUnit}
      (escape : IsEscape raw start stop named)
      (behind : start < place)
      (before : place < stop) :
      Writes raw place []
  | kept
      {unit : CodeUnit}
      (present : raw[place]? = some unit)
      (outside :
        ∀ start stop named, IsEscape raw start stop named → start ≤ place →
          stop ≤ place) :
      Writes raw place [unit]

/-- The raw text with each of its escapes replaced by the unit that it names. -/
def Expands (raw out : List CodeUnit) : Prop :=
  ∃ written : Nat → List CodeUnit,
    (∀ place < raw.length, Writes raw place (written place)) ∧
      out = (List.range raw.length).flatMap written

variable {raw before body after out : List CodeUnit} {start stop place : Nat}
  {unit named : CodeUnit}

namespace IsEscape

/-- An escape begins with a backslash. -/
theorem backslash
    (escape : IsEscape raw start stop named) :
    raw[start]? = some CodeUnit.backslash := by
  obtain ⟨body, after, rest, _⟩ := escape.spelled
  rw [← List.head?_drop, rest]
  rfl

theorem start_lt_stop
    (escape : IsEscape raw start stop named) :
    start < stop := by
  obtain ⟨body, after, _, _, rfl⟩ := escape.spelled
  omega

/-- No backslash stands inside an escape. -/
theorem ne_backslash_inside
    (escape : IsEscape raw start stop named)
    (behind : start < place)
    (inside : place < stop)
    (present : raw[place]? = some unit) :
    unit ≠ CodeUnit.backslash := by
  obtain ⟨body, after, rest, names, rfl⟩ := escape.spelled
  obtain ⟨offset, rfl⟩ : ∃ offset, place = start + (offset + 1) :=
    ⟨place - start - 1, by omega⟩
  have inBody : offset < body.length := by
    omega
  rw [← List.getElem?_drop, rest, List.getElem?_cons_succ,
    List.getElem?_append_left inBody] at present
  exact names.ne_backslash (List.mem_of_getElem? present)

/-- Escapes do not overlap. -/
theorem not_inside
    {other : Nat}
    {otherNamed : CodeUnit}
    (escape : IsEscape raw start stop named)
    (behind : start < place)
    (inside : place < stop) :
    ¬IsEscape raw place other otherNamed := by
  intro nested
  exact escape.ne_backslash_inside behind inside nested.backslash rfl

/-- The start of an escape tells where it ends and what it names. -/
theorem unique
    {other : Nat}
    {otherNamed : CodeUnit}
    (escape : IsEscape raw start stop named)
    (same : IsEscape raw start other otherNamed) :
    stop = other ∧ named = otherNamed := by
  obtain ⟨body, after, rest, names, rfl⟩ := escape.spelled
  obtain ⟨otherBody, otherAfter, otherRest, otherNames, rfl⟩ := same.spelled
  have bodies : body ++ after = otherBody ++ otherAfter :=
    (List.cons.inj (rest.symm.trans otherRest)).2
  have read := escape?_append_of_names names after
  rw [bodies, escape?_append_of_names otherNames otherAfter] at read
  cases read
  have lengths := congrArg List.length bodies
  rw [List.length_append, List.length_append] at lengths
  exact ⟨by omega, rfl⟩

end IsEscape

/-- At most one thing stands for a place. -/
theorem Writes.unique
    {units others : List CodeUnit}
    (writes : Writes raw place units)
    (same : Writes raw place others) :
    units = others := by
  cases writes with
  | named escape =>
      cases same with
      | named other => rw [(escape.unique other).2]
      | inside other behind inside =>
          exact absurd escape (other.not_inside behind inside)
      | kept _ outside =>
          have ended := outside _ _ _ escape (Nat.le_refl _)
          exact absurd escape.start_lt_stop (Nat.not_lt.mpr ended)
  | inside escape behind inside =>
      cases same with
      | named other => exact absurd other (escape.not_inside behind inside)
      | inside => rfl
      | kept _ outside =>
          have ended := outside _ _ _ escape (Nat.le_of_lt behind)
          exact absurd inside (Nat.not_lt.mpr ended)
  | kept present outside =>
      cases same with
      | named other =>
          have ended := outside _ _ _ other (Nat.le_refl _)
          exact absurd other.start_lt_stop (Nat.not_lt.mpr ended)
      | inside other behind inside =>
          have ended := outside _ _ _ other (Nat.le_of_lt behind)
          exact absurd inside (Nat.not_lt.mpr ended)
      | kept otherPresent =>
          rw [present] at otherPresent
          cases otherPresent
          rfl

/-- Something stands for each place of the raw text. -/
theorem exists_writes
    (inRaw : place < raw.length) :
    ∃ units, Writes raw place units := by
  by_cases covered :
      ∃ start stop named, IsEscape raw start stop named ∧ start ≤ place ∧
        place < stop
  · obtain ⟨start, stop, named, escape, behind, inside⟩ := covered
    rcases Nat.eq_or_lt_of_le behind with rfl | later
    · exact ⟨_, .named escape⟩
    · exact ⟨_, .inside escape later inside⟩
  · refine ⟨_, .kept (List.getElem?_eq_getElem inRaw) ?_⟩
    intro start stop named escape behind
    apply Nat.le_of_not_lt
    intro inside
    exact covered ⟨start, stop, named, escape, behind, inside⟩

/-- A backslash that ends an odd run opens an escape, if a name follows. -/
theorem isEscape_of_append
    (odd : backslashRun (before ++ [CodeUnit.backslash]) % 2 = 1)
    (names : Names body named)
    (after : List CodeUnit) :
    IsEscape (before ++ CodeUnit.backslash :: (body ++ after)) before.length
      (before.length + 1 + body.length) named := by
  constructor
  · rw [List.take_length_add_append]
    exact odd
  · rw [List.drop_left]
    exact ⟨body, after, rfl, names, rfl⟩

/-- What an escape behind given units needs. -/
theorem IsEscape.of_append
    {rest : List CodeUnit}
    (escape : IsEscape (before ++ rest) before.length stop named) :
    ∃ body after, rest = CodeUnit.backslash :: (body ++ after) ∧
      Names body named ∧
      backslashRun (before ++ [CodeUnit.backslash]) % 2 = 1 := by
  obtain ⟨body, after, rest_eq, names, _⟩ := escape.spelled
  have odd := escape.odd
  rw [List.drop_left] at rest_eq
  rw [List.take_length_add_append, rest_eq] at odd
  exact ⟨body, after, rest_eq, names, odd⟩

/--
Where reading has come to: what stands for the places before it is written,
no escape reaches over it, and the mark tells whether an odd run of
backslashes ends there.
-/
structure Expanding
    (raw before : List CodeUnit)
    (out : Array CodeUnit)
    (escaped : Bool) :
    Prop where
  written :
    ∀ written : Nat →
      List CodeUnit, (∀ place < raw.length, Writes raw place (written place)) →
      out.toList = (List.range before.length).flatMap written
  ended :
    ∀ start stop named, IsEscape raw start stop named → start < before.length →
      stop ≤ before.length
  parity : backslashRun before % 2 = escaped.toNat

namespace Expanding

variable {out : Array CodeUnit} {rest : List CodeUnit} {escaped later : Bool}

theorem nothing
    (raw : List CodeUnit) :
    Expanding raw [] #[] false := by
  constructor
  · intro written _
    rfl
  · intro start stop named _ before
    cases before
  · rfl

/-- A unit at which no escape starts is kept. -/
theorem keep
    (state : Expanding raw before out escaped)
    (raw_eq : raw = before ++ unit :: rest)
    (noEscape : ∀ stop named, ¬IsEscape raw before.length stop named)
    (parity : backslashRun (before ++ [unit]) % 2 = later.toNat) :
    Expanding raw (before ++ [unit]) (out.push unit) later := by
  have length : (before ++ [unit]).length = before.length + 1 := by
    rw [List.length_append, List.length_singleton]
  have present : raw[before.length]? = some unit := by
    rw [raw_eq, List.getElem?_append_right (Nat.le_refl _), Nat.sub_self]
    rfl
  have kept : Writes raw before.length [unit] := by
    apply Writes.kept present
    intro start stop named escape behind
    rcases Nat.eq_or_lt_of_le behind with rfl | earlier
    · exact absurd escape (noEscape stop named)
    · exact state.ended start stop named escape earlier
  constructor
  case written =>
    intro written writes
    have inRaw : before.length < raw.length :=
      (List.getElem?_eq_some_iff.mp present).1
    rw [Array.toList_push, length, List.range_succ, List.flatMap_append,
      ← state.written written writes, List.flatMap_singleton,
      (writes before.length inRaw).unique kept]
  case ended =>
    intro start stop named escape behind
    rw [length] at behind ⊢
    rcases Nat.eq_or_lt_of_le (Nat.le_of_lt_succ behind) with rfl | earlier
    · exact absurd escape (noEscape stop named)
    · exact Nat.le_succ_of_le (state.ended start stop named escape earlier)
  case parity =>
    exact parity

/-- A unit that is no backslash is kept. -/
theorem keepOther
    (state : Expanding raw before out escaped)
    (raw_eq : raw = before ++ unit :: rest)
    (other : unit ≠ CodeUnit.backslash) :
    Expanding raw (before ++ [unit]) (out.push unit) false := by
  apply state.keep raw_eq
  · intro stop named escape
    rw [raw_eq] at escape
    obtain ⟨_, _, rest_eq, _⟩ := escape.of_append
    exact other (List.cons.inj rest_eq).1
  · rw [backslashRun_concat_other before other]
    rfl

/-- A backslash is kept that ends an even run or that no name follows. -/
theorem keepBackslash
    (state : Expanding raw before out escaped)
    (raw_eq : raw = before ++ CodeUnit.backslash :: rest)
    (verbatim : escaped = true ∨ escape? rest = none) :
    Expanding raw (before ++ [CodeUnit.backslash]) (out.push CodeUnit.backslash)
      (!escaped) := by
  have parity := state.parity
  apply state.keep raw_eq
  · intro stop named escape
    rw [raw_eq] at escape
    obtain ⟨body, after, rest_eq, names, odd⟩ := escape.of_append
    rw [backslashRun_concat_backslash] at odd
    rcases verbatim with rfl | noName
    · rw [Bool.toNat_true] at parity
      omega
    · rw [(List.cons.inj rest_eq).2, escape?_append_of_names names] at noName
      cases noName
  · exact backslashRun_concat_parity parity

/-- An escape is replaced by the unit that it names. -/
theorem replace
    (state : Expanding raw before out false)
    (raw_eq : raw = before ++ CodeUnit.backslash :: (body ++ after))
    (names : Names body named) :
    Expanding raw (before ++ CodeUnit.backslash :: body)
      (out.push named) false := by
  have odd : backslashRun (before ++ [CodeUnit.backslash]) % 2 = 1 := by
    have even : backslashRun before % 2 = 0 := state.parity
    rw [backslashRun_concat_backslash]
    omega
  have escape :
      IsEscape raw before.length (before.length + 1 + body.length) named := by
    rw [raw_eq]
    exact isEscape_of_append odd names after
  have length :
      (before ++ CodeUnit.backslash :: body).length =
        before.length + 1 + body.length := by
    rw [List.length_append, List.length_cons]
    omega
  have inRaw : before.length + 1 + body.length ≤ raw.length := by
    rw [raw_eq, List.length_append, List.length_cons, List.length_append]
    omega
  constructor
  case written =>
    intro written writes
    have first : written before.length = [named] :=
      (writes before.length (by omega)).unique (.named escape)
    have others :
        ((List.range body.length).map (before.length + 1 + ·)).flatMap
          written = [] := by
      apply List.flatMap_eq_nil_iff.mpr
      intro place member
      obtain ⟨offset, inBody, rfl⟩ := List.mem_map.mp member
      have inside := List.mem_range.mp inBody
      exact (writes _ (by omega)).unique (.inside escape (by omega) (by omega))
    rw [Array.toList_push, length, List.range_add, List.flatMap_append, others,
      List.append_nil, List.range_succ, List.flatMap_append,
      ← state.written written writes, List.flatMap_singleton, first]
  case ended =>
    intro start stop otherNamed other behind
    rw [length] at behind ⊢
    rcases Nat.lt_trichotomy start before.length with earlier | rfl | later
    · have ended := state.ended start stop otherNamed other earlier
      omega
    · exact Nat.le_of_eq (escape.unique other).1.symm
    · exact absurd other (escape.not_inside later behind)
  case parity =>
    rw [List.append_cons, backslashRun_of_names _ names]
    rfl

end Expanding

/-- Escapes are replaced, and nothing else is changed. -/
def escapesOnly : Normalization where
  keepTabs := true
  keepLineEnds := true
  expandEscapes := true
  closeLastLine := false

/-- Reading to the end of the raw text replaces its escapes. -/
theorem expanding_appendMarked
    {tabSize column : Nat}
    {escaped : Bool}
    {out : Array CodeUnit}
    {units : List CodeUnit}
    (state : Expanding raw before out escaped)
    (raw_eq : raw = before ++ units) :
    ∃ later,
      Expanding raw raw
        (appendMarked escapesOnly tabSize column escaped out units) later := by
  fun_induction appendMarked escapesOnly tabSize column escaped out units
    generalizing before with
  | case1 column escaped out =>
      rw [List.append_nil] at raw_eq
      rw [raw_eq] at state ⊢
      exact ⟨escaped, state⟩
  | case2 column escaped out rest inductionHypothesis =>
      apply inductionHypothesis (state.keepOther raw_eq (by decide))
      rw [raw_eq, List.append_cons]
  | case3 column escaped out rest expands named after found notFeed
      inductionHypothesis =>
      obtain ⟨body, rfl, names⟩ := names_of_escape? found
      obtain rfl : escaped = false := by
        simpa [escapesOnly] using expands
      apply inductionHypothesis (state.replace raw_eq names)
      rw [raw_eq, List.append_assoc, List.cons_append]
  | case4 column escaped out rest expands noName notFeed inductionHypothesis =>
      obtain rfl : escaped = false := by
        simpa [escapesOnly] using expands
      apply inductionHypothesis (state.keepBackslash raw_eq (.inr noName))
      rw [raw_eq, List.append_cons]
  | case5 column escaped out rest keeps notFeed inductionHypothesis =>
      have isEscaped : escaped = true := by
        simpa [escapesOnly] using keeps
      apply inductionHypothesis (state.keepBackslash raw_eq (.inl isEscaped))
      rw [raw_eq, List.append_cons]
  | case6 column escaped out unit rest notFeed notBackslash isReturn =>
      simp [escapesOnly] at isReturn
  | case7 column escaped out unit rest notFeed notBackslash notReturn isTab =>
      simp [escapesOnly] at isTab
  | case8 column escaped out unit rest notFeed notBackslash notReturn notTab
      inductionHypothesis =>
      apply inductionHypothesis (state.keepOther raw_eq notBackslash)
      rw [raw_eq, List.append_cons]

/--
An escape is read as the unit that it
names, whatever comes before and behind it.
-/
theorem appendMarked_escape
    {rules : Normalization}
    (expands : rules.expandEscapes = true)
    (names : Names body named)
    (tabSize column : Nat)
    (out : Array CodeUnit)
    (after : List CodeUnit) :
    appendMarked rules tabSize column false out
      (CodeUnit.backslash :: (body ++ after)) =
      appendMarked rules tabSize (column + 1) false (out.push named) after := by
  rw [appendMarked, if_neg (by decide), if_pos rfl,
    if_pos (by rw [expands]; rfl)]
  have read := escape?_append_of_names names after
  split
  case h_1 other rest found =>
    rw [read] at found
    cases found
    rfl
  case h_2 missing =>
    rw [read] at missing
    cases missing

/-- Of raw text that spells its units by escapes these units are left. -/
theorem appendMarked_spellings
    {rules : Normalization}
    (expands : rules.expandEscapes = true)
    {spellings : List (List CodeUnit)}
    {units : List CodeUnit}
    (spells : List.Forall₂ Spells spellings units)
    (tabSize column : Nat)
    (out : Array CodeUnit) :
    (appendMarked rules tabSize column false out spellings.flatten).toList =
      out.toList ++ units := by
  induction spells generalizing column out with
  | nil =>
      rw [List.flatten_nil, appendMarked, List.append_nil]
  | cons spelled _ inductionHypothesis =>
      cases spelled with
      | escape names =>
          rw [List.flatten_cons, List.cons_append,
            appendMarked_escape expands names, inductionHypothesis,
            Array.toList_push, List.append_assoc, List.singleton_append]

/--
Text whose escapes alone are replaced is
the raw text with each escape replaced.
-/
theorem expands_iff
    (raw out : List CodeUnit)
    (tabSize : Nat) :
    Expands raw out ↔ out = (escapesOnly.apply tabSize raw).toList := by
  obtain ⟨_, state⟩ :
      ∃ later, Expanding raw raw (escapesOnly.apply tabSize raw) later := by
    have isOpenForm :
        escapesOnly.apply tabSize raw = escapesOnly.openForm tabSize raw := rfl
    rw [isOpenForm, openForm_eq_appendMarked]
    exact expanding_appendMarked (Expanding.nothing raw) rfl
  constructor
  · rintro ⟨written, writes, rfl⟩
    exact (state.written written writes).symm
  · rintro rfl
    have standing :
        ∀ place, ∃ units, place < raw.length → Writes raw place units := by
      intro place
      by_cases inRaw : place < raw.length
      · obtain ⟨units, writes⟩ := exists_writes inRaw
        exact ⟨units, fun _ => writes⟩
      · exact ⟨[], fun inside => absurd inside inRaw⟩
    choose written writes using standing
    exact ⟨written, writes, state.written written writes⟩

/--
Escapes are replaced where they stand and nowhere else.  Text whose escapes
alone are replaced is the raw text with each escape replaced by the unit
that it names; and text in which every unit is spelled by an escape gives
these units back, whatever else is done to tabs and line ends.  A spelling
is there for every unit.
-/
theorem apply_expands_escapes :
    (∀ (raw out : List CodeUnit) (tabSize : Nat),
        Expands raw out ↔ out = (escapesOnly.apply tabSize raw).toList) ∧
      (∀ (rules : Normalization) (spellings : List (List CodeUnit))
        (units : List CodeUnit) (tabSize : Nat),
        rules.expandEscapes = true → rules.closeLastLine = false →
        List.Forall₂ Spells spellings units →
        (rules.apply tabSize spellings.flatten).toList = units) ∧
      ∀ units : List CodeUnit, List.Forall₂ Spells (units.map spell) units := by
  refine ⟨expands_iff, ?spelled, ?spellings⟩
  case spelled =>
    intro rules spellings units tabSize expands staysOpen spells
    rw [apply, staysOpen, openForm_eq_appendMarked]
    exact appendMarked_spellings expands spells _ 0 #[]
  case spellings =>
    intro units
    rw [List.forall₂_map_left_iff]
    exact List.forall₂_same.mpr fun unit _ => spells_spell unit

/-- Escapes are replaced, line ends folded and tabs expanded. -/
def foldingEscapes : Normalization where
  keepTabs := false
  keepLineEnds := false
  expandEscapes := true
  closeLastLine := false

/--
A carriage return, a tab and a backslash that are spelled by escapes
stay what they are.
-/
theorem apply_expands_escapes_controlUnits :
    (foldingEscapes.apply 4
        ([CodeUnit.carriageReturn, CodeUnit.tab, CodeUnit.backslash].map
          spell).flatten).toList =
      [CodeUnit.carriageReturn, CodeUnit.tab, CodeUnit.backslash] := by
  obtain ⟨_, units_of_spellings, spellings⟩ := apply_expands_escapes
  exact units_of_spellings foldingEscapes _ _ 4 rfl rfl (spellings _)

end Snbt.Normalization
