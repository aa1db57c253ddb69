import Snbt.Proofs.Text.MarkedReading

namespace Snbt.Normalization

/-!
# Units that normalization keeps

Rules that replace no escapes and close no line keep every unit that is neither
the end of a line nor a tab, or is one that the rules leave as it is.  Text of
such units alone is its own normalized form.
-/

variable {rules : Normalization}

/-- Whether rules leave a unit as it is. -/
structure Keeps (rules : Normalization) (unit : CodeUnit) : Prop where
  lineEnd : unit = CodeUnit.carriageReturn → rules.keepLineEnds = true
  tab : unit = CodeUnit.tab → rules.keepTabs = true

/-- Units that are neither `\r` nor a tab are left as they are. -/
theorem Keeps.of_ne
    {unit : CodeUnit}
    (notReturn : unit ≠ CodeUnit.carriageReturn)
    (notTab : unit ≠ CodeUnit.tab) :
    rules.Keeps unit :=
  ⟨fun isReturn => absurd isReturn notReturn, fun isTab => absurd isTab notTab⟩

/-- A unit that is kept is appended, whatever is counted with it. -/
theorem appendMarked_of_keeps
    {unit : CodeUnit}
    (noEscapes : rules.expandEscapes = false)
    (keeps : rules.Keeps unit)
    (tabSize column : Nat)
    (escaped : Bool)
    (out : Array CodeUnit)
    (rest : List CodeUnit) :
    ∃ laterColumn laterEscaped,
      appendMarked rules tabSize column escaped out (unit :: rest) =
        appendMarked rules tabSize laterColumn laterEscaped
          (out.push unit) rest := by
  have isLineEnd :
      (unit = CodeUnit.carriageReturn && !rules.keepLineEnds) = false := by
    by_cases here : unit = CodeUnit.carriageReturn
    · simp [keeps.lineEnd here]
    · simp [here]
  have isTab : (unit = CodeUnit.tab && !rules.keepTabs) = false := by
    by_cases here : unit = CodeUnit.tab
    · simp [keeps.tab here]
    · simp [here]
  rw [appendMarked]
  simp only [isLineEnd, isTab, noEscapes, Bool.false_and,
    Bool.false_eq_true, if_false]
  split
  · exact ⟨_, _, rfl⟩
  · split
    · exact ⟨_, _, rfl⟩
    · exact ⟨_, _, rfl⟩

/-- Units that are kept are appended one after the other. -/
theorem appendMarked_of_all_keep
    (noEscapes : rules.expandEscapes = false)
    (tabSize : Nat)
    {units : List CodeUnit}
    (keeps : ∀ unit ∈ units, rules.Keeps unit)
    (column : Nat)
    (escaped : Bool)
    (out : Array CodeUnit) :
    (appendMarked rules tabSize column escaped out units).toList =
      out.toList ++ units := by
  induction units generalizing column escaped out with
  | nil =>
      rw [appendMarked, List.append_nil]
  | cons unit rest inductionHypothesis =>
      obtain ⟨laterColumn, laterEscaped, appended⟩ :=
        appendMarked_of_keeps noEscapes (keeps unit List.mem_cons_self) tabSize
          column escaped out rest
      have later :=
        inductionHypothesis (fun unit member => keeps unit (.tail _ member))
        laterColumn laterEscaped (out.push unit)
      rw [appended, later, Array.toList_push, List.append_assoc,
        List.singleton_append]

/--
Copying the units where nothing is to be changed is what reading
with the mark does.
-/
theorem openForm_eq_appendMarked
    (rules : Normalization)
    (tabSize : Nat)
    (raw : List CodeUnit) :
    rules.openForm tabSize raw =
      appendMarked rules (max tabSize 1) 0 false #[] raw := by
  rw [openForm]
  split
  case isTrue copies =>
    simp only [Bool.and_eq_true, Bool.not_eq_true'] at copies
    obtain ⟨⟨keepsTabs, keepsLineEnds⟩, noEscapes⟩ := copies
    have keeps : ∀ unit ∈ raw, rules.Keeps unit :=
      fun _ _ => ⟨fun _ => keepsLineEnds, fun _ => keepsTabs⟩
    exact (Array.ext'
      (appendMarked_of_all_keep noEscapes _ keeps 0 false #[])).symm
  case isFalse =>
    have nothingRead : backslashRun [] % 2 = false.toNat := rfl
    exact (appendMarked_eq_appendOnto nothingRead).symm

/-- Text whose units are all kept is its own normalized form. -/
theorem apply_of_all_keep
    (noEscapes : rules.expandEscapes = false)
    (openLine : rules.closeLastLine = false)
    (tabSize : Nat)
    {raw : List CodeUnit}
    (keeps : ∀ unit ∈ raw, rules.Keeps unit) :
    rules.apply tabSize raw = raw.toArray := by
  have units :=
    appendMarked_of_all_keep noEscapes (max tabSize 1) keeps 0 false #[]
  simp only [apply, openLine, openForm_eq_appendMarked,
    Bool.false_eq_true, if_false]
  exact Array.ext' units

end Snbt.Normalization
