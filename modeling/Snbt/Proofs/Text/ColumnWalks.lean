import Snbt.Proofs.Text.CodeUnits

namespace Snbt

/-!
# Walking along a line

Walking leads from column to column, over a tab to the next tab stop and over a
high surrogate together with the unit behind it.  So it counts the characters
that the units spell, as long as every high surrogate on the way has its low
one; where there are neither tabs nor high surrogates it counts units.
-/

/--
The column behind a character: a tab leads
behind the next multiple of the tab size.
-/
def columnBehind (tabSize column : Nat) (char : Char) : Nat :=
  if char = '\t' then
    column + (tabSize - (column - 1) % tabSize)
  else
    column + 1

namespace LineTable

variable {units : Array CodeUnit} {tabSize stop offset column : Nat}

/-- Between two offsets every high surrogate has its low one. -/
def HighsPaired (units : Array CodeUnit) (offset stop : Nat) : Prop :=
  ∀ place unit, offset ≤ place → place < stop → units[place]? = some unit →
    unit.isHigh = true →
    place + 1 < stop ∧ ∃ low, units[place + 1]? = some low ∧ low.isLow = true

theorem HighsPaired.mono
    {later : Nat}
    (paired : HighsPaired units offset stop)
    (behind : offset ≤ later) :
    HighsPaired units later stop :=
  fun place unit after => paired place unit (Nat.le_trans behind after)

/-- A unit stands in front of those behind it. -/
theorem toList_extract_cons
    {unit : CodeUnit}
    (present : units[offset]? = some unit)
    (before : offset < stop) :
    (units.extract offset stop).toList =
      unit :: (units.extract (offset + 1) stop).toList := by
  obtain ⟨inside, rfl⟩ := Array.getElem?_eq_some_iff.mp present
  have length : stop - offset = stop - (offset + 1) + 1 := by
    omega
  have inList : offset < units.toList.length := inside
  rw [Array.toList_extract, Array.toList_extract, List.extract_eq_take_drop,
    List.extract_eq_take_drop, List.drop_eq_getElem_cons inList, length,
    List.take_succ_cons, Array.getElem_toList]

/-- Only the number of a tab makes a tab. -/
theorem eq_nine_of_ofNat_eq_tab
    {value : Nat}
    (isTab : Char.ofNat value = '\t') :
    value = 9 := by
  by_cases valid : value.isValidChar
  · rw [Char.ofNat, dif_pos valid] at isTab
    exact congrArg Char.toNat isTab
  · rw [Char.ofNat, dif_neg valid] at isTab
    cases isTab

/-- A unit spells a tab only if it is one. -/
theorem eq_tab_of_loneChar_eq_tab
    {unit : CodeUnit}
    (isTab : unit.loneChar = '\t') :
    unit = CodeUnit.tab := by
  unfold CodeUnit.loneChar at isTab
  split at isTab
  · cases isTab
  · exact UInt16.toNat_inj.mp (eq_nine_of_ofNat_eq_tab isTab)

/-- No pair spells a tab. -/
theorem pairChar_ne_tab
    (high low : CodeUnit) :
    high.pairChar low ≠ '\t' := by
  intro isTab
  have small := eq_nine_of_ofNat_eq_tab isTab
  omega

/-- Walking stops where it is to. -/
theorem walk_of_le
    (reached : stop ≤ offset) :
    walk units tabSize stop offset column = column := by
  rw [walk, if_neg (Nat.not_lt.mpr reached)]

/-- A tab is walked over to the next tab stop. -/
theorem walk_tab
    (before : offset < stop)
    (isTab : units[offset]? = some CodeUnit.tab) :
    walk units tabSize stop offset column =
      walk units tabSize stop (offset + 1)
        (column + (tabSize - (column - 1) % tabSize)) := by
  conv => lhs; rw [walk, if_pos before, isTab]
  rfl

/-- A high surrogate is walked over with the unit behind it. -/
theorem walk_high
    {unit : CodeUnit}
    (before : offset < stop)
    (present : units[offset]? = some unit)
    (isHigh : unit.isHigh = true) :
    walk units tabSize stop offset column =
      walk units tabSize stop (offset + 2) (column + 1) := by
  have notTab : unit ≠ CodeUnit.tab := by
    rintro rfl
    cases isHigh
  conv => lhs; rw [walk, if_pos before, present]
  simp only [notTab, isHigh, if_false, if_true]

/-- Any other unit is one column wide. -/
theorem walk_other
    {unit : CodeUnit}
    (before : offset < stop)
    (present : units[offset]? = some unit)
    (notTab : unit ≠ CodeUnit.tab)
    (notHigh : ¬unit.isHigh = true) :
    walk units tabSize stop offset column =
      walk units tabSize stop (offset + 1) (column + 1) := by
  conv => lhs; rw [walk, if_pos before, present]
  simp only [if_neg notTab, if_neg notHigh]

/-- Walking does not lead back. -/
theorem le_walk :
    column ≤ walk units tabSize stop offset column := by
  fun_induction walk units tabSize stop offset column with
  | case1 offset column before isTab inductionHypothesis =>
      exact Nat.le_trans (Nat.le_add_right ..) inductionHypothesis
  | case2 offset column before unit present notTab isHigh inductionHypothesis =>
      exact Nat.le_of_succ_le inductionHypothesis
  | case3 offset column before unit present notTab notHigh
      inductionHypothesis =>
      exact Nat.le_of_succ_le inductionHypothesis
  | case4 =>
      exact Nat.le_refl _
  | case5 =>
      exact Nat.le_refl _

/-- Walking over a character leads to another column. -/
theorem lt_walk
    (tabs : 0 < tabSize)
    (before : offset < stop)
    (inside : stop ≤ units.size) :
    column < walk units tabSize stop offset column := by
  have present := Array.getElem?_eq_getElem (Nat.lt_of_lt_of_le before inside)
  rw [walk, if_pos before, present]
  simp only
  split
  · have rest : (column - 1) % tabSize < tabSize := Nat.mod_lt _ tabs
    exact Nat.lt_of_lt_of_le (by omega) le_walk
  · split <;> exact le_walk

/-- The number of high surrogates in a row directly before an offset. -/
def highRun (units : Array CodeUnit) : Nat → Nat
  | 0 =>
      0
  | offset + 1 =>
      if units[offset]?.any CodeUnit.isHigh then highRun units offset + 1 else 0

/--
Walking rests at an offset of its line if an even number of high surrogates
stand in a row before it: each that is rested at takes the one behind it along.
-/
def RestsAt (units : Array CodeUnit) (offset : Nat) : Prop :=
  highRun units offset % 2 = 0

/-- Walking rests behind any unit but a high surrogate. -/
theorem restsAt_succ_of_not_high
    {unit : CodeUnit}
    (present : units[offset]? = some unit)
    (notHigh : ¬unit.isHigh = true) :
    RestsAt units (offset + 1) := by
  rw [RestsAt, highRun, present, Option.any_some, if_neg notHigh]

/-- Behind a high surrogate walking rests if it did not rest there. -/
theorem restsAt_succ_of_high
    {unit : CodeUnit}
    (present : units[offset]? = some unit)
    (isHigh : unit.isHigh = true) :
    RestsAt units (offset + 1) ↔ ¬RestsAt units offset := by
  rw [RestsAt, RestsAt, highRun, present, Option.any_some, if_pos isHigh]
  omega

/-- A high surrogate leads over the unit behind it. -/
theorem restsAt_add_two
    {unit : CodeUnit}
    (present : units[offset]? = some unit)
    (isHigh : unit.isHigh = true)
    (rests : RestsAt units offset) :
    RestsAt units (offset + 2) := by
  have passes : ¬RestsAt units (offset + 1) :=
    fun restsNext => (restsAt_succ_of_high present isHigh).mp restsNext rests
  rw [RestsAt, highRun]
  split
  case isTrue nextHigh =>
    rw [RestsAt] at passes
    omega
  case isFalse =>
    rfl

/--
Walking to a later offset leads further exactly if it rests on the way there
from the earlier one.
-/
theorem walk_lt_walk_iff
    {first second : Nat}
    (tabs : 0 < tabSize)
    (ordered : first ≤ second)
    (inside : second ≤ units.size)
    (rests : RestsAt units offset) :
    walk units tabSize first offset column <
      walk units tabSize second offset column ↔
      ∃ place, offset ≤ place ∧ first ≤ place ∧ place < second ∧
        RestsAt units place := by
  fun_induction walk units tabSize first offset column with
  | case1 offset column before isTab inductionHypothesis =>
      have restsNext := restsAt_succ_of_not_high isTab (by decide)
      rw [walk_tab (Nat.lt_of_lt_of_le before ordered) isTab,
        inductionHypothesis restsNext]
      refine exists_congr fun place => and_congr_left fun ⟨behind, _⟩ => ?_
      omega
  | case2 offset column before unit present notTab isHigh inductionHypothesis =>
      have restsNext := restsAt_add_two present isHigh rests
      rw [walk_high (Nat.lt_of_lt_of_le before ordered) present isHigh,
        inductionHypothesis restsNext]
      refine exists_congr fun place =>
        and_congr_left fun ⟨behind, _, restsThere⟩ => ?_
      have notNext : place ≠ offset + 1 := by
        rintro rfl
        exact (restsAt_succ_of_high present isHigh).mp restsThere rests
      omega
  | case3 offset column before unit present notTab notHigh
      inductionHypothesis =>
      have restsNext := restsAt_succ_of_not_high present notHigh
      rw [walk_other (Nat.lt_of_lt_of_le before ordered) present notTab notHigh,
        inductionHypothesis restsNext]
      refine exists_congr fun place => and_congr_left fun ⟨behind, _⟩ => ?_
      omega
  | case4 offset column before nothing =>
      have beyond := Array.getElem?_eq_none_iff.mp nothing
      omega
  | case5 offset column reached =>
      constructor
      · intro further
        have before : offset < second := by
          apply Nat.lt_of_not_le
          intro passed
          rw [walk_of_le passed] at further
          exact Nat.lt_irrefl _ further
        exact ⟨offset, Nat.le_refl _, Nat.le_of_not_lt reached, before, rests⟩
      · rintro ⟨place, behind, _, before, _⟩
        exact lt_walk tabs (Nat.lt_of_le_of_lt behind before) inside

/-- Walking counts the characters that the units spell. -/
theorem walk_eq_foldl
    (inside : stop ≤ units.size)
    (paired : HighsPaired units offset stop) :
    walk units tabSize stop offset column =
      (Utf16.decode (units.extract offset stop).toList).foldl
        (columnBehind tabSize) column := by
  fun_induction walk units tabSize stop offset column with
  | case1 offset column before isTab inductionHypothesis =>
      rw [inductionHypothesis (paired.mono (Nat.le_succ _)),
        toList_extract_cons isTab before, Utf16.decode_cons (by decide),
        List.foldl_cons]
      rfl
  | case2 offset column before unit present notTab isHigh inductionHypothesis =>
      obtain ⟨goesOn, low, follows, isLow⟩ :=
        paired offset unit (Nat.le_refl _) before present isHigh
      have decoded := Utf16.decode_append_of_codes (.pair isHigh isLow rfl)
        (units.extract (offset + 2) stop).toList
      rw [inductionHypothesis (paired.mono (by omega)),
        toList_extract_cons present before, toList_extract_cons follows goesOn]
      rw [List.cons_append, List.singleton_append] at decoded
      rw [decoded, List.foldl_cons, columnBehind,
        if_neg (pairChar_ne_tab unit low)]
  | case3 offset column before unit present notTab notHigh
      inductionHypothesis =>
      have notTabChar : unit.loneChar ≠ '\t' :=
        mt eq_tab_of_loneChar_eq_tab notTab
      rw [inductionHypothesis (paired.mono (Nat.le_succ _)),
        toList_extract_cons present before,
        Utf16.decode_cons (Bool.eq_false_iff.mpr notHigh), List.foldl_cons,
        columnBehind, if_neg notTabChar]
  | case4 offset column before nothing =>
      have beyond := Array.getElem?_eq_none_iff.mp nothing
      omega
  | case5 offset column reached =>
      have nothing : (units.extract offset stop).toList = [] := by
        rw [Array.toList_eq_nil_iff, Array.extract_eq_empty_iff]
        omega
      rw [nothing]
      rfl

/-- Where nothing is uneven walking counts offsets. -/
theorem walk_of_even
    (ordered : offset ≤ stop)
    (inside : stop ≤ units.size)
    (even :
      ∀ place unit, offset ≤ place → place < stop → units[place]? = some unit →
        isUneven unit = false) :
    walk units tabSize stop offset column = stop - offset + column := by
  fun_induction walk units tabSize stop offset column with
  | case1 offset column before isTab inductionHypothesis =>
      cases even offset _ (Nat.le_refl _) before isTab
  | case2 offset column before unit present notTab isHigh inductionHypothesis =>
      have isEven := even offset unit (Nat.le_refl _) before present
      rw [isUneven, isHigh, Bool.or_true] at isEven
      cases isEven
  | case3 offset column before unit present notTab notHigh
      inductionHypothesis =>
      rw [inductionHypothesis before fun place unit after =>
        even place unit (by omega)]
      omega
  | case4 offset column before nothing =>
      have beyond := Array.getElem?_eq_none_iff.mp nothing
      omega
  | case5 offset column reached =>
      omega

end LineTable

end Snbt
