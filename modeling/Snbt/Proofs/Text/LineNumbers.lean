import Snbt.Text.Buffer

namespace Snbt

/-!
# Numbers of lines

The line in which an offset lies is told by the `\n` before it.  The table
of lines says the same: the stretch of a line holds the offsets that lie in
it, and no others.
-/

namespace LineTable

/--
Where lines start, the open one at `start`, when the next unit
stands at `offset`.
-/
def startsFrom (start offset : Nat) : List CodeUnit → List Nat
  | [] =>
      [start]
  | unit :: rest =>
      if unit = CodeUnit.lineFeed && !rest.isEmpty then
        start :: startsFrom (offset + 1) (offset + 1) rest
      else
        startsFrom start (offset + 1) rest

theorem map_start_linesOnto
    (done : Array Line)
    (current : Line)
    (offset : Nat)
    (units : List CodeUnit) :
    (linesOnto done current offset units).toList.map Line.start =
      done.toList.map Line.start ++ startsFrom current.start offset units := by
  fun_induction linesOnto done current offset units with
  | case1 done current offset =>
      rw [Array.toList_push, List.map_append]
      rfl
  | case2 done current offset unit rest grown ends inductionHypothesis =>
      rw [inductionHypothesis, startsFrom, if_pos ends, Array.toList_push,
        List.map_append, List.append_assoc]
      rfl
  | case3 done current offset unit rest grown goesOn inductionHypothesis =>
      rw [inductionHypothesis, startsFrom, if_neg goesOn]

/-- The starts in the table of a buffer that is not empty. -/
theorem map_start_ofUnits
    {units : Array CodeUnit}
    (nonempty : 0 < units.size) :
    (ofUnits units).lines.toList.map Line.start =
      startsFrom 0 0 units.toList := by
  have notEmpty : units.isEmpty = false := by
    rw [Array.isEmpty_eq_false_iff]
    exact Array.ne_empty_of_size_pos nonempty
  simp only [ofUnits, notEmpty, Bool.false_eq_true, if_false]
  exact map_start_linesOnto #[] ⟨0, false⟩ 0 units.toList

/-- A line's start in the table of a buffer that is not empty. -/
theorem start?_ofUnits_eq
    {units : Array CodeUnit}
    (nonempty : 0 < units.size)
    (index : Nat) :
    (ofUnits units).start? index = (startsFrom 0 0 units.toList)[index]? := by
  rw [start?, ← map_start_ofUnits nonempty, List.getElem?_map,
    Array.getElem?_toList]

variable {start offset place index : Nat} {units : List CodeUnit}

theorem startsFrom_zero
    (start offset : Nat)
    (units : List CodeUnit) :
    (startsFrom start offset units)[0]? = some start := by
  fun_induction startsFrom start offset units with
  | case1 => rfl
  | case2 => rfl
  | case3 _ _ _ _ _ inductionHypothesis => exact inductionHypothesis

/-- No line starts before the open one, or past the end. -/
theorem startsFrom_bounds
    {first : Nat}
    (ordered : start ≤ offset)
    (member : first ∈ startsFrom start offset units) :
    start ≤ first ∧ first ≤ offset + units.length := by
  fun_induction startsFrom start offset units with
  | case1 start offset =>
      cases List.mem_singleton.mp member
      exact ⟨Nat.le_refl _, ordered⟩
  | case2 start offset unit rest ends inductionHypothesis =>
      rw [List.length_cons]
      rcases List.mem_cons.mp member with rfl | later
      · omega
      · have := inductionHypothesis (Nat.le_refl _) later
        omega
  | case3 start offset unit rest goesOn inductionHypothesis =>
      have := inductionHypothesis (Nat.le_succ_of_le ordered) member
      rw [List.length_cons]
      omega

/-- A line, counted from the open one, reaches over a place. -/
def Reaches (starts : List Nat) (length index place : Nat) : Prop :=
  ∃ first, starts[index]? = some first ∧ first ≤ place ∧
    place < (starts[index + 1]?).getD length

/-- The open line reaches to where the next one starts. -/
theorem reaches_zero_iff
    {first next length : Nat}
    {later : List Nat}
    (isNext : later[0]? = some next) :
    Reaches (first :: later) length 0 place ↔ first ≤ place ∧ place < next := by
  simp [Reaches, isNext]

theorem reaches_succ_iff
    {first length : Nat}
    {later : List Nat} :
    Reaches (first :: later) length (index + 1) place ↔
      Reaches later length index place :=
  Iff.rfl

/-- A line reaches over no place before the first. -/
theorem not_reaches_of_lt
    {starts : List Nat}
    {length : Nat}
    (behind : ∀ first ∈ starts, place < first) :
    ¬Reaches starts length index place := by
  rintro ⟨first, isStart, notBehind, _⟩
  exact absurd (behind first (List.mem_of_getElem? isStart))
    (Nat.not_lt.mpr notBehind)

/--
Behind the first unit, the `\n` before a place are those of the rest
and maybe the first.
-/
theorem count_take_cons
    (unit : CodeUnit)
    (rest : List CodeUnit)
    (later : offset < place) :
    ((unit :: rest).take (place - offset)).count CodeUnit.lineFeed =
      (rest.take (place - (offset + 1))).count CodeUnit.lineFeed +
        if unit = CodeUnit.lineFeed then 1 else 0 := by
  obtain ⟨before, rfl⟩ : ∃ before, place = offset + 1 + before :=
    ⟨place - (offset + 1), (Nat.add_sub_cancel' later).symm⟩
  have fromOffset : offset + 1 + before - offset = before + 1 := by
    omega
  rw [fromOffset, Nat.add_sub_cancel_left, List.take_succ_cons, List.count_cons]
  simp only [beq_iff_eq]

/-- The line that reaches over a place is told by the `\n` before it. -/
theorem reaches_startsFrom_iff
    (ordered : start ≤ offset)
    (behind : start ≤ place)
    (inside : place < offset + units.length) :
    Reaches (startsFrom start offset units) (offset + units.length)
      index place ↔
      (units.take (place - offset)).count CodeUnit.lineFeed = index := by
  fun_induction startsFrom start offset units generalizing index with
  | case1 start offset =>
      rw [List.take_nil, List.count_nil]
      cases index with
      | zero =>
          exact iff_of_true ⟨start, rfl, behind, inside⟩ rfl
      | succ index =>
          refine iff_of_false ?_ (Nat.succ_ne_zero index).symm
          rintro ⟨_, nothing, _⟩
          cases nothing
  | case2 start offset unit rest ends inductionHypothesis =>
      have isFeed : unit = CodeUnit.lineFeed :=
        of_decide_eq_true (Bool.and_eq_true_iff.mp ends).1
      have next := startsFrom_zero (offset + 1) (offset + 1) rest
      rw [List.length_cons, Nat.add_comm rest.length,
        ← Nat.add_assoc] at inside ⊢
      rcases Nat.lt_or_ge offset place with later | here
      · rw [count_take_cons unit rest later, if_pos isFeed]
        cases index with
        | zero =>
            rw [reaches_zero_iff next]
            omega
        | succ index =>
            rw [reaches_succ_iff, Nat.succ_inj]
            exact inductionHypothesis (Nat.le_refl _) later inside
      · rw [Nat.sub_eq_zero_of_le here, List.take_zero, List.count_nil]
        cases index with
        | zero =>
            rw [reaches_zero_iff next]
            omega
        | succ index =>
            rw [reaches_succ_iff]
            refine iff_of_false (not_reaches_of_lt ?_)
              (Nat.succ_ne_zero index).symm
            intro first member
            have := startsFrom_bounds (Nat.le_refl _) member
            omega
  | case3 start offset unit rest goesOn inductionHypothesis =>
      rw [List.length_cons, Nat.add_comm rest.length,
        ← Nat.add_assoc] at inside ⊢
      rw [inductionHypothesis (Nat.le_succ_of_le ordered) behind inside]
      rcases Nat.lt_or_ge offset place with later | here
      · have nonempty : rest ≠ [] := by
          rintro rfl
          rw [List.length_nil] at inside
          omega
        have notFeed : unit ≠ CodeUnit.lineFeed := by
          rintro rfl
          exact goesOn (by simp [nonempty])
        rw [count_take_cons unit rest later, if_neg notFeed]
        exact Iff.rfl
      · have noneBefore : place - (offset + 1) = 0 := by
          omega
        rw [Nat.sub_eq_zero_of_le here, noneBefore, List.take_zero,
          List.take_zero]

/-- No line of a buffer starts past its end. -/
theorem start?_ofUnits_le
    {units : Array CodeUnit}
    (found : (ofUnits units).start? index = some start) :
    start ≤ units.size := by
  rcases Nat.eq_zero_or_pos units.size with empty | nonempty
  · have noUnits : units.isEmpty = true :=
      Array.isEmpty_iff_size_eq_zero.mpr empty
    rw [start?, ofUnits, if_pos noUnits] at found
    cases found
  · rw [start?_ofUnits_eq nonempty] at found
    have bounds :=
      startsFrom_bounds (Nat.le_refl 0) (List.mem_of_getElem? found)
    rw [Array.length_toList] at bounds
    omega

end LineTable

namespace Buffer

/--
The number of the line in which an offset lies, counted from 1 in the buffer.
-/
def lineOf (buffer : Buffer) (offset : Nat) : Nat :=
  (buffer.units.toList.take offset).count CodeUnit.lineFeed + 1

variable {buffer : Buffer} {offset index : Nat}

/-- The number of the line goes up behind a `\n`. -/
theorem lineOf_succ
    {unit : CodeUnit}
    (present : buffer.unit? offset = some unit) :
    buffer.lineOf (offset + 1) =
      if unit = CodeUnit.lineFeed then
        buffer.lineOf offset + 1
      else
        buffer.lineOf offset := by
  rw [unit?, ← Array.getElem?_toList] at present
  rw [lineOf, lineOf, List.take_add_one, present, List.count_append]
  by_cases isFeed : unit = CodeUnit.lineFeed <;> simp [isFeed]

/-- A line of the table ends inside the buffer. -/
theorem range?_le_size
    {stretch : Nat × Nat}
    (isLine : buffer.lines.range? index buffer.size = some stretch) :
    stretch.2 ≤ buffer.size := by
  rw [LineTable.range?, Option.map_eq_some_iff, buffer.lines_eq] at isLine
  obtain ⟨_, _, rfl⟩ := isLine
  cases next : (LineTable.ofUnits buffer.units).start? (index + 1) with
  | none => exact Nat.le_refl _
  | some later => exact LineTable.start?_ofUnits_le next

/-- A line of the table holds the offsets that lie in it. -/
theorem exists_range?_iff
    (inside : offset < buffer.size) :
    (∃ stretch, buffer.lines.range? index buffer.size = some stretch ∧
        stretch.1 ≤ offset ∧ offset < stretch.2) ↔
      buffer.lineOf offset = index + 1 := by
  have nonempty : 0 < buffer.units.size := Nat.zero_lt_of_lt inside
  have sizeEq : buffer.size = 0 + buffer.units.toList.length := by
    rw [Array.length_toList, Nat.zero_add]
    rfl
  have reaches :
      LineTable.Reaches (LineTable.startsFrom 0 0 buffer.units.toList)
        buffer.size index offset ↔
        (buffer.units.toList.take offset).count CodeUnit.lineFeed = index := by
    rw [sizeEq] at inside ⊢
    exact LineTable.reaches_startsFrom_iff (Nat.le_refl 0)
      (Nat.zero_le offset) inside
  rw [lineOf, Nat.succ_inj, ← reaches]
  simp only [LineTable.range?, buffer.lines_eq,
    LineTable.start?_ofUnits_eq nonempty, Option.map_eq_some_iff,
    LineTable.Reaches]
  constructor
  · rintro ⟨_, ⟨first, isStart, rfl⟩, behind, before⟩
    exact ⟨first, isStart, behind, before⟩
  · rintro ⟨first, isStart, behind, before⟩
    exact ⟨_, ⟨first, isStart, rfl⟩, behind, before⟩

end Buffer

end Snbt
