import Snbt.Lexer.Mask
import Snbt.Proofs.Lexer.Tokenizing
import Snbt.Proofs.Text.LineMasks

namespace Snbt.Lexer

/-!
# Masked lexers

Masks hide the lines that they take out, and with them the tokens that start
there; they change nothing else of a lexer.
-/

/-- Take lines out. -/
def mask (lexer : Lexer) : LineMask → Lexer
  | .keepOnly lines => lexer.keepOnlyLines lines
  | .hide lines => lexer.hideLines lines

/-- Take lines out one mask after another. -/
def masked (lexer : Lexer) (masks : List LineMask) : Lexer :=
  masks.foldl mask lexer

variable {lexer before after : Lexer} {masks : List LineMask} {offset : Nat}

/--
What masks do to a lexer: only the table changes, where lines are taken out.
-/
structure Hides (before : Lexer) (masks : List LineMask) (after : Lexer) :
    Prop where
  same : ∃ table, after = { before with table }
  size_eq : after.table.slots.size = before.table.slots.size
  tokenAt?_eq : ∀ place, after.table.tokenAt? place =
    if (before.buffer.without masks).hidden place then
      none
    else
      before.table.tokenAt? place
  hidden : ∀ offset, after.table.isHidden offset = true ↔
    before.table.isHidden offset = true ∨
      (before.buffer.without masks).hidden offset = true

/-- What masks do to a lexer that knows no token. -/
structure Masks (before : Lexer) (masks : List LineMask) (after : Lexer) : Prop
    extends Hides before masks after where
  plain : after.Plain 0
  nothing : ∀ place, after.table.tokenAt? place = none

theorem Hides.buffer_eq
    (hides : before.Hides masks after) :
    after.buffer = before.buffer := by
  obtain ⟨_, rfl⟩ := hides.same
  rfl

theorem Hides.roles_eq
    (hides : before.Hides masks after) :
    after.roles = before.roles := by
  obtain ⟨_, rfl⟩ := hides.same
  rfl

theorem Hides.position_eq
    (hides : before.Hides masks after) :
    after.position = before.position := by
  obtain ⟨_, rfl⟩ := hides.same
  rfl

theorem Hides.forest_eq
    (hides : before.Hides masks after) :
    after.forest = before.forest := by
  obtain ⟨_, rfl⟩ := hides.same
  rfl

/-- The mode and the active kinds are as they were. -/
theorem Hides.settings_eq
    (hides : before.Hides masks after) :
    after.mode = before.mode ∧ after.active = before.active := by
  obtain ⟨_, rfl⟩ := hides.same
  exact ⟨rfl, rfl⟩

/-- The end of the input is never hidden. -/
theorem Hides.sized
    (hides : before.Hides masks after)
    (sized : before.Sized) :
    after.Sized := by
  constructor
  case size_eq =>
    rw [hides.size_eq, hides.buffer_eq]
    exact sized.size_eq
  case shown =>
    rw [hides.buffer_eq]
    refine Bool.eq_false_iff.mpr fun isHidden => ?_
    rcases (hides.hidden _).mp isHidden with wasHidden | isMasked
    · cases sized.shown.symm.trans wasHidden
    · exact Nat.lt_irrefl _
        ((before.buffer.without_hidesLines masks).inside _ isMasked)

/-- A mask hides its stretches one after another. -/
theorem mask_eq
    (lexer : Lexer)
    (mask : LineMask) :
    lexer.mask mask =
      { lexer with
        table := (mask.stretches lexer.buffer).foldl
          (fun table stretch => table.hideRange stretch.1 stretch.2)
          lexer.table } := by
  cases mask with
  | keepOnly lines =>
      have taken :
          lexer.maskedLines lines false =
            (List.range lexer.buffer.lines.count).filter fun index =>
              LineMask.takesOut (.keepOnly lines) (index + 1) := by
        simp only [maskedLines, LineMask.takesOut, beq_false]
      rw [mask, keepOnlyLines, maskLines, taken]
      rfl
  | hide lines =>
      have taken :
          lexer.maskedLines lines true =
            (List.range lexer.buffer.lines.count).filter fun index =>
              LineMask.takesOut (.hide lines) (index + 1) := by
        simp only [maskedLines, LineMask.takesOut, beq_true]
      rw [mask, hideLines, maskLines, taken]
      rfl

/-- One mask hides the lines that it takes out. -/
theorem mask_hides
    (sized : lexer.Sized)
    (mask : LineMask) :
    lexer.Hides [mask] (lexer.mask mask) := by
  have inside :
      ∀ stretch ∈ mask.stretches lexer.buffer,
        stretch.2 ≤ lexer.table.slots.size := by
    intro stretch member
    rw [sized.size_eq]
    exact Nat.le_succ_of_le (LineMask.le_size_of_mem member)
  have covered :
      ∀ offset, (lexer.buffer.without [mask]).hidden offset = true ↔
        ∃ stretch ∈ mask.stretches lexer.buffer, stretch.1 ≤ offset ∧
          offset < stretch.2 := by
    intro offset
    rw [Buffer.hidden_without_iff]
    simp only [List.mem_singleton, exists_eq_left]
  obtain ⟨size, hidden⟩ :=
    lexer.table.isHidden_foldl_hideRange (mask.stretches lexer.buffer) inside
  rw [mask_eq]
  refine ⟨⟨_, rfl⟩, size, ?_, ?_⟩
  · intro place
    refine (OffsetTable.tokenAt?_foldl_hideRange _ _ place).trans ?_
    exact if_congr (covered place).symm rfl rfl
  · intro offset
    rw [covered]
    exact hidden offset

/-- Masks hide the lines that they take out. -/
theorem masked_hides
    (masks : List LineMask)
    (sized : lexer.Sized) :
    lexer.Hides masks (lexer.masked masks) := by
  induction masks generalizing lexer with
  | nil =>
      refine ⟨⟨_, rfl⟩, rfl, fun _ => rfl, ?_⟩
      intro offset
      exact (or_iff_left Bool.false_ne_true).symm
  | cons first rest inductionHypothesis =>
      have step := mask_hides sized first
      have later := inductionHypothesis (step.sized sized)
      have together :
          ∀ offset,
            (lexer.buffer.without (first :: rest)).hidden offset = true ↔
            (lexer.buffer.without [first]).hidden offset = true ∨
              (lexer.buffer.without rest).hidden offset = true := by
        intro offset
        simp only [Buffer.hidden_without_iff, List.mem_cons, List.not_mem_nil,
          or_false, exists_eq_or_imp, exists_eq_left]
      refine ⟨?_, later.size_eq.trans step.size_eq, ?_, ?_⟩
      · obtain ⟨_, stepSame⟩ := step.same
        obtain ⟨table, laterSame⟩ := later.same
        exact ⟨table, laterSame.trans (by rw [stepSame])⟩
      · intro place
        refine (later.tokenAt?_eq place).trans ?_
        rw [step.tokenAt?_eq, step.buffer_eq]
        have := together place
        grind only
      · intro offset
        refine (later.hidden offset).trans ?_
        rw [step.hidden, step.buffer_eq, together, or_assoc]

/-- Masks on a lexer that knows no token leave none. -/
theorem masked_masks
    (masks : List LineMask)
    (sized : lexer.Sized)
    (nothing : ∀ place, lexer.table.tokenAt? place = none) :
    lexer.Masks masks (lexer.masked masks) := by
  have hides := masked_hides masks sized
  have nothing : ∀ place, (lexer.masked masks).table.tokenAt? place = none := by
    intro place
    rw [hides.tokenAt?_eq, nothing, ite_self]
  exact ⟨hides, (hides.sized sized).plain fun place _ => nothing place, nothing⟩

/--
A fresh lexer under masks reads its buffer
without the lines that they take out.
-/
theorem fresh_masked
    (settings : LexerSettings)
    (buffer : Buffer)
    (active : KindSet)
    (masks : List LineMask) :
    (fresh settings buffer active).Masks masks
      ((fresh settings buffer active).masked masks) ∧
      ((fresh settings buffer active).masked masks).view =
        buffer.without masks := by
  have isMasked := masked_masks masks (fresh_sized settings buffer active)
    (fresh_knows_nothing settings buffer active)
  refine ⟨isMasked, ?_⟩
  have shown :
      ∀ offset, (fresh settings buffer active).table.isHidden offset = false :=
    congrFun (OffsetTable.isHidden_ofLength buffer.size)
  have hidden :
      ((fresh settings buffer active).masked masks).table.isHidden =
        (buffer.without masks).hidden := by
    funext offset
    refine Bool.eq_iff_iff.mpr ((isMasked.hidden offset).trans ?_)
    rw [shown]
    exact or_iff_right Bool.false_ne_true
  have sameBuffer :
      ((fresh settings buffer active).masked masks).buffer = buffer :=
    isMasked.buffer_eq
  rw [view, hidden, sameBuffer]
  rfl

end Snbt.Lexer
