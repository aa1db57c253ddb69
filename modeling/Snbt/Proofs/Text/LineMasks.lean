import Snbt.Proofs.Text.LineNumbers
import Snbt.Proofs.Text.VisibleText

namespace Snbt

/-!
# Buffers without some of their lines

Masks take out whole lines, so what is hidden begins and ends where lines do:
between a hidden and a visible offset stands a `\n`.
-/

/-- Which lines are taken out: all but those listed, or those listed. -/
inductive LineMask where
  | keepOnly (lines : List Nat)
  | hide (lines : List Nat)

namespace LineMask

/-- A line, counted from 1, is taken out. -/
def takesOut : LineMask → Nat → Bool
  | .keepOnly lines, line => !lines.contains line
  | .hide lines, line => lines.contains line

/-- Some mask takes out a line. -/
def anyTakesOut (masks : List LineMask) (line : Nat) : Bool :=
  masks.any fun mask => mask.takesOut line

/-- The stretches of a buffer that are taken out. -/
def stretches (mask : LineMask) (buffer : Buffer) : List (Nat × Nat) :=
  ((List.range buffer.lines.count).filter fun index =>
    mask.takesOut (index + 1)).filterMap
    fun index => buffer.lines.range? index buffer.size

/-- An offset is taken out. -/
def covers (mask : LineMask) (buffer : Buffer) (offset : Nat) : Bool :=
  (mask.stretches buffer).any fun stretch =>
    stretch.1 ≤ offset && offset < stretch.2

variable {mask : LineMask} {buffer : Buffer} {offset : Nat}
  {stretch : Nat × Nat}

/-- What is taken out lies inside the buffer. -/
theorem le_size_of_mem
    (member : stretch ∈ mask.stretches buffer) :
    stretch.2 ≤ buffer.size := by
  obtain ⟨index, _, isLine⟩ := List.mem_filterMap.mp member
  exact Buffer.range?_le_size isLine

theorem covers_iff :
    mask.covers buffer offset = true ↔
      ∃ stretch ∈ mask.stretches buffer, stretch.1 ≤ offset ∧
        offset < stretch.2 := by
  simp only [covers, List.any_eq_true, Bool.and_eq_true, decide_eq_true_eq]

/-- A mask covers the offsets in the lines that it takes out. -/
theorem covers_eq
    (mask : LineMask)
    (inside : offset < buffer.size) :
    mask.covers buffer offset = mask.takesOut (buffer.lineOf offset) := by
  refine Bool.eq_iff_iff.mpr (covers_iff.trans ?_)
  simp only [stretches, List.mem_filterMap, List.mem_filter, List.mem_range]
  constructor
  · rintro ⟨stretch, ⟨index, ⟨_, takenOut⟩, isLine⟩, reaches⟩
    rw [(Buffer.exists_range?_iff inside).mp ⟨stretch, isLine, reaches⟩]
    exact takenOut
  · intro takenOut
    obtain ⟨stretch, isLine, reaches⟩ :=
      (Buffer.exists_range?_iff inside).mpr rfl
    refine ⟨stretch, ⟨_, ⟨?_, takenOut⟩, isLine⟩, reaches⟩
    rw [LineTable.range?, Option.map_eq_some_iff] at isLine
    obtain ⟨start, isStart, _⟩ := isLine
    rw [LineTable.start?, Option.map_eq_some_iff] at isStart
    obtain ⟨line, present, _⟩ := isStart
    exact (Array.getElem?_eq_some_iff.mp present).1

end LineMask

namespace Buffer

/-- A buffer as it is read when masks have taken out lines. -/
def without (buffer : Buffer) (masks : List LineMask) : View where
  buffer := buffer
  hidden := fun offset => masks.any fun mask => mask.covers buffer offset

/-- An offset lies in a line that masks take out. -/
def isMasked (buffer : Buffer) (masks : List LineMask) (offset : Nat) : Bool :=
  LineMask.anyTakesOut masks (buffer.lineOf offset)

variable {buffer : Buffer} {masks : List LineMask} {offset : Nat}

theorem hidden_without_iff :
    (buffer.without masks).hidden offset = true ↔
      ∃ mask ∈ masks, ∃ stretch ∈ mask.stretches buffer,
        stretch.1 ≤ offset ∧ offset < stretch.2 := by
  simp only [without, List.any_eq_true, LineMask.covers_iff]

/-- What masks hide is what lies in the lines that they take out. -/
theorem hidden_without_eq
    (masks : List LineMask)
    (inside : offset < buffer.size) :
    (buffer.without masks).hidden offset = buffer.isMasked masks offset := by
  simp only [without, isMasked, LineMask.anyTakesOut,
    LineMask.covers_eq _ inside]

/-- Masks hide nothing but whole lines. -/
theorem without_hidesLines
    (buffer : Buffer)
    (masks : List LineMask) :
    (buffer.without masks).HidesLines := by
  constructor
  case inside =>
    intro offset isHidden
    obtain ⟨mask, _, stretch, member, _, before⟩ :=
      hidden_without_iff.mp isHidden
    exact Nat.lt_of_lt_of_le before (LineMask.le_size_of_mem member)
  case edges =>
    intro offset inside differ
    have inside : offset + 1 < buffer.size := inside
    have here : offset < buffer.size := Nat.lt_of_succ_lt inside
    have present : buffer.unit? offset = some buffer.units[offset] :=
      Array.getElem?_eq_getElem here
    rw [hidden_without_eq masks inside, hidden_without_eq masks here, isMasked,
      isMasked, lineOf_succ present] at differ
    by_cases isFeed : buffer.units[offset] = CodeUnit.lineFeed
    · rw [← isFeed]
      exact present
    · rw [if_neg isFeed] at differ
      exact absurd rfl differ

end Buffer

end Snbt
