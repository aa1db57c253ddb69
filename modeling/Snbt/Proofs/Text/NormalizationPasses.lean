import Snbt.Proofs.Text.KeptUnits

namespace Snbt.Normalization

/-!
# Normalization in passes

Rules that replace no escapes do three things, and do them as if one came after
the other: line ends are folded, tabs are expanded, and the last line is
ended.  The loop does all of it in one go, with a running column; each pass
here looks only at the text before it, and the column of a tab is counted anew
in what is already written.
-/

/-- The units behind the last `\n`, the last of them first. -/
def openLine (units : List CodeUnit) : List CodeUnit :=
  units.reverse.takeWhile (· ≠ CodeUnit.lineFeed)

/--
The columns of the line that units end in:
one for each unit that is no low surrogate.
-/
def writtenColumn (units : List CodeUnit) : Nat :=
  (openLine units).countP fun unit => !unit.isLow

/-- Every `\r\n` and every other `\r` becomes `\n`. -/
def foldLineEnds : List CodeUnit → List CodeUnit
  | [] =>
      []
  | unit :: rest =>
      if unit = CodeUnit.carriageReturn then
        if rest.head? = some CodeUnit.lineFeed then
          foldLineEnds rest
        else
          CodeUnit.lineFeed :: foldLineEnds rest
      else
        unit :: foldLineEnds rest

/-- Write a unit behind others, and for a tab spaces up to the next tab stop. -/
def writeExpanded
    (tabSize : Nat)
    (written : List CodeUnit)
    (unit : CodeUnit) :
    List CodeUnit :=
  if unit = CodeUnit.tab then
    written ++ List.replicate (tabSize - writtenColumn written % tabSize)
      CodeUnit.space
  else
    written ++ [unit]

/-- Every tab becomes spaces up to the next tab stop. -/
def expandTabs (tabSize : Nat) (units : List CodeUnit) : List CodeUnit :=
  units.foldl (writeExpanded tabSize) []

/-- The last line ends with `\n`, unless it ends with `\n` or `\r` already. -/
def endLastLine (units : List CodeUnit) : List CodeUnit :=
  if units.getLast? = some CodeUnit.lineFeed ∨
    units.getLast? = some CodeUnit.carriageReturn then
    units
  else
    units ++ [CodeUnit.lineFeed]

/-- The pass over line ends, if rules ask for it. -/
def foldedBy (rules : Normalization) (units : List CodeUnit) : List CodeUnit :=
  if rules.keepLineEnds then units else foldLineEnds units

/-- The pass over tabs, if rules ask for it. -/
def expandedBy
    (rules : Normalization)
    (tabSize : Nat)
    (units : List CodeUnit) :
    List CodeUnit :=
  if rules.keepTabs then units else expandTabs tabSize units

/-- The pass over the last line, if rules ask for it. -/
def endedBy (rules : Normalization) (units : List CodeUnit) : List CodeUnit :=
  if rules.closeLastLine then endLastLine units else units

/-- The passes one after the other.  A tab size of 0 counts as 1. -/
def inPasses
    (rules : Normalization)
    (tabSize : Nat)
    (raw : List CodeUnit) :
    List CodeUnit :=
  rules.endedBy (rules.expandedBy (max tabSize 1) (rules.foldedBy raw))

variable {rules : Normalization} {tabSize column : Nat} {escaped : Bool}
  {unit : CodeUnit} {units written : List CodeUnit}

/-! ## Columns of written text -/

theorem openLine_concat_lineFeed
    (units : List CodeUnit) :
    openLine (units ++ [CodeUnit.lineFeed]) = [] := by
  rw [openLine, List.reverse_append, List.reverse_singleton,
    List.singleton_append, List.takeWhile_cons_of_neg (by simp)]

theorem openLine_concat
    (units : List CodeUnit)
    (notFeed : unit ≠ CodeUnit.lineFeed) :
    openLine (units ++ [unit]) = unit :: openLine units := by
  rw [openLine, List.reverse_append, List.reverse_singleton,
    List.singleton_append, List.takeWhile_cons_of_pos (by simpa using notFeed)]
  rfl

/-- A `\n` begins the columns anew. -/
theorem writtenColumn_concat_lineFeed
    (units : List CodeUnit) :
    writtenColumn (units ++ [CodeUnit.lineFeed]) = 0 := by
  rw [writtenColumn, openLine_concat_lineFeed]
  rfl

/-- Any other unit takes a column, except for a low surrogate. -/
theorem writtenColumn_concat
    (units : List CodeUnit)
    (notFeed : unit ≠ CodeUnit.lineFeed) :
    writtenColumn (units ++ [unit]) =
      if unit.isLow then writtenColumn units else writtenColumn units + 1 := by
  rw [writtenColumn, openLine_concat units notFeed, List.countP_cons]
  cases unit.isLow with
  | false =>
      rfl
  | true =>
      rfl

/-- Spaces stand in the line that is open. -/
theorem openLine_append_spaces
    (units : List CodeUnit)
    (width : Nat) :
    openLine (units ++ List.replicate width CodeUnit.space) =
      List.replicate width CodeUnit.space ++ openLine units := by
  induction width with
  | zero =>
      rw [List.replicate_zero, List.append_nil, List.nil_append]
  | succ width inductionHypothesis =>
      rw [List.replicate_succ', ← List.append_assoc,
        openLine_concat _ (by decide), inductionHypothesis, ← List.cons_append,
        ← List.replicate_succ, List.replicate_succ']

/-- Every space takes a column. -/
theorem writtenColumn_append_spaces
    (units : List CodeUnit)
    (width : Nat) :
    writtenColumn (units ++ List.replicate width CodeUnit.space) =
      writtenColumn units + width := by
  have counted : List.countP (fun unit : CodeUnit => !unit.isLow)
      (List.replicate width CodeUnit.space) = width := by
    rw [List.countP_replicate, if_pos (by decide)]
  rw [writtenColumn, openLine_append_spaces, List.countP_append, counted,
    Nat.add_comm]
  rfl

/-! ## One pass after the other -/

/-- A `\r` and the `\n` that may belong to it become one `\n`. -/
theorem foldLineEnds_return
    (rest : List CodeUnit) :
    foldLineEnds (CodeUnit.carriageReturn :: rest) =
      CodeUnit.lineFeed :: foldLineEnds (afterReturn rest) := by
  rw [foldLineEnds, if_pos rfl]
  cases rest with
  | nil =>
      rfl
  | cons next rest =>
      by_cases isFeed : next = CodeUnit.lineFeed
      · have belongs : (next :: rest).head? = some CodeUnit.lineFeed :=
          congrArg some isFeed
        rw [if_pos belongs, afterReturn, if_pos isFeed, isFeed, foldLineEnds,
          if_neg (by decide)]
      · have alone : ¬(next :: rest).head? = some CodeUnit.lineFeed :=
          mt Option.some.inj isFeed
        rw [if_neg alone, afterReturn, if_neg isFeed]

theorem foldLineEnds_other
    (rest : List CodeUnit)
    (other : unit ≠ CodeUnit.carriageReturn) :
    foldLineEnds (unit :: rest) = unit :: foldLineEnds rest := by
  rw [foldLineEnds, if_neg other]

/-- A unit that is not folded stays in front. -/
theorem foldedBy_cons
    (rest : List CodeUnit)
    (keeps : unit = CodeUnit.carriageReturn → rules.keepLineEnds = true) :
    rules.foldedBy (unit :: rest) = unit :: rules.foldedBy rest := by
  unfold foldedBy
  split
  case isTrue =>
    rfl
  case isFalse folds =>
    exact foldLineEnds_other rest (mt keeps folds)

/-- What the passes over line ends and tabs write behind other units. -/
def passesBehind
    (rules : Normalization)
    (tabSize : Nat)
    (written units : List CodeUnit) :
    List CodeUnit :=
  if rules.keepTabs then
    written ++ rules.foldedBy units
  else
    (rules.foldedBy units).foldl (writeExpanded tabSize) written

theorem passesBehind_nil
    (rules : Normalization)
    (tabSize : Nat)
    (written : List CodeUnit) :
    passesBehind rules tabSize written [] = written := by
  simp only [passesBehind, foldedBy, foldLineEnds, ite_self, List.append_nil,
    List.foldl_nil]

/-- A unit that is neither folded nor expanded is written as it is. -/
theorem passesBehind_cons
    (rest : List CodeUnit)
    (keeps : rules.Keeps unit) :
    passesBehind rules tabSize written (unit :: rest) =
      passesBehind rules tabSize (written ++ [unit]) rest := by
  rw [passesBehind, foldedBy_cons rest keeps.lineEnd, passesBehind]
  split
  case isTrue =>
    rw [List.append_assoc, List.singleton_append]
  case isFalse expands =>
    rw [List.foldl_cons, writeExpanded, if_neg (mt keeps.tab expands)]

/-- A `\r` that is folded is written as `\n`. -/
theorem passesBehind_return
    (rest : List CodeUnit)
    (folds : ¬rules.keepLineEnds = true) :
    passesBehind rules tabSize written (CodeUnit.carriageReturn :: rest) =
      passesBehind rules tabSize (written ++ [CodeUnit.lineFeed])
        (afterReturn rest) := by
  have folded :
      rules.foldedBy (CodeUnit.carriageReturn :: rest) =
        CodeUnit.lineFeed :: rules.foldedBy (afterReturn rest) := by
    rw [foldedBy, if_neg folds, foldLineEnds_return, foldedBy, if_neg folds]
  rw [passesBehind, folded, passesBehind]
  split
  case isTrue =>
    rw [List.append_assoc, List.singleton_append]
  case isFalse =>
    rw [List.foldl_cons, writeExpanded, if_neg (by decide)]

/-- A tab that is expanded is written as spaces. -/
theorem passesBehind_tab
    (rest : List CodeUnit)
    (expands : ¬rules.keepTabs = true) :
    passesBehind rules tabSize written (CodeUnit.tab :: rest) =
      passesBehind rules tabSize
        (written ++
          List.replicate (tabSize - writtenColumn written % tabSize)
            CodeUnit.space) rest := by
  rw [passesBehind,
    foldedBy_cons rest fun isReturn => absurd isReturn (by decide),
    if_neg expands, List.foldl_cons, writeExpanded, if_pos rfl, passesBehind,
    if_neg expands]

/--
The loop writes what the passes write.  Its running column is that of the text
written so far, which is what the invariant `column_eq` says.
-/
theorem toList_appendMarked
    (noEscapes : rules.expandEscapes = false)
    (out : Array CodeUnit)
    (units : List CodeUnit)
    (column_eq : column = writtenColumn out.toList) :
    (appendMarked rules tabSize column escaped out units).toList =
      passesBehind rules tabSize out.toList units := by
  fun_induction appendMarked rules tabSize column escaped out units with
  | case1 column escaped out =>
      rw [passesBehind_nil]
  | case2 column escaped out rest inductionHypothesis =>
      rw [Array.toList_push] at inductionHypothesis
      rw [inductionHypothesis (writtenColumn_concat_lineFeed _).symm,
        passesBehind_cons rest (.of_ne (by decide) (by decide))]
  | case3 column escaped out rest expands =>
      rw [noEscapes] at expands
      cases expands
  | case4 column escaped out rest expands =>
      rw [noEscapes] at expands
      cases expands
  | case5 column escaped out rest keeps notFeed inductionHypothesis =>
      rw [Array.toList_push] at inductionHypothesis
      rw [inductionHypothesis,
        passesBehind_cons rest (.of_ne (by decide) (by decide))]
      rw [writtenColumn_concat _ (by decide), if_neg (by decide), column_eq]
  | case6 column escaped out unit rest notFeed notBackslash isReturn
      inductionHypothesis =>
      obtain ⟨rfl, folds⟩ :
          unit = CodeUnit.carriageReturn ∧ ¬rules.keepLineEnds = true := by
        simpa using isReturn
      rw [Array.toList_push] at inductionHypothesis
      rw [inductionHypothesis (writtenColumn_concat_lineFeed _).symm,
        passesBehind_return rest folds]
  | case7 column escaped out unit rest notFeed notBackslash notReturn isTab
      width inductionHypothesis =>
      obtain ⟨rfl, expands⟩ : unit = CodeUnit.tab ∧ ¬rules.keepTabs = true := by
        simpa using isTab
      rw [Array.toList_appendList] at inductionHypothesis
      rw [inductionHypothesis (by rw [writtenColumn_append_spaces, column_eq]),
        passesBehind_tab rest expands, ← column_eq]
  | case8 column escaped out unit rest notFeed notBackslash notReturn notTab
      inductionHypothesis =>
      have column_eq :
          (if unit.isLow then column else column + 1) =
            writtenColumn (out.push unit).toList := by
        rw [Array.toList_push, writtenColumn_concat _ notFeed, column_eq]
      have keeps : rules.Keeps unit :=
        ⟨by simpa using notReturn, by simpa using notTab⟩
      have later := inductionHypothesis column_eq
      rw [Array.toList_push, ← passesBehind_cons rest keeps] at later
      exact later

/-- The last line is ended in the same way. -/
theorem toList_closeLine
    (units : Array CodeUnit) :
    (closeLine units).toList = endLastLine units.toList := by
  rw [closeLine, endLastLine, Array.getLast?_toList]
  simp only [Bool.or_eq_true, decide_eq_true_eq]
  split
  · rfl
  · exact Array.toList_push

/-- Where no escapes are replaced, the normalized text is that of the passes. -/
theorem apply_eq_inPasses
    (noEscapes : rules.expandEscapes = false)
    (tabSize : Nat)
    (raw : List CodeUnit) :
    (rules.apply tabSize raw).toList = rules.inPasses tabSize raw := by
  have loop :
      (rules.openForm tabSize raw).toList =
        rules.expandedBy (max tabSize 1) (rules.foldedBy raw) := by
    rw [openForm_eq_appendMarked]
    exact toList_appendMarked noEscapes #[] raw rfl
  rw [inPasses, ← loop, apply, endedBy, apply_ite Array.toList,
    toList_closeLine]

/-! ## What is left when a pass is made -/

/-- Folding leaves no `\r`. -/
theorem carriageReturn_notMem_foldLineEnds
    (units : List CodeUnit) :
    CodeUnit.carriageReturn ∉ foldLineEnds units := by
  induction units with
  | nil =>
      exact List.not_mem_nil
  | cons unit rest inductionHypothesis =>
      by_cases isReturn : unit = CodeUnit.carriageReturn
      · rw [foldLineEnds, if_pos isReturn]
        split
        · exact inductionHypothesis
        · exact List.not_mem_cons_of_ne_of_not_mem (by decide)
            inductionHypothesis
      · rw [foldLineEnds_other rest isReturn]
        exact List.not_mem_cons_of_ne_of_not_mem (Ne.symm isReturn)
          inductionHypothesis

/-- Text without `\r` has nothing to fold. -/
theorem foldLineEnds_of_notMem
    (units : List CodeUnit)
    (noReturn : CodeUnit.carriageReturn ∉ units) :
    foldLineEnds units = units := by
  induction units with
  | nil =>
      rfl
  | cons unit rest inductionHypothesis =>
      obtain ⟨other, noReturn⟩ := List.ne_and_not_mem_of_not_mem_cons noReturn
      rw [foldLineEnds_other rest (Ne.symm other), inductionHypothesis noReturn]

/-- What a unit is written as holds that unit or spaces only. -/
theorem mem_writeExpanded
    {other : CodeUnit}
    (member : other ∈ writeExpanded tabSize written unit) :
    other ∈ written ∨ other = CodeUnit.space ∨
      other = unit ∧ unit ≠ CodeUnit.tab := by
  unfold writeExpanded at member
  split at member
  case isTrue =>
    rcases List.mem_append.mp member with before | isSpace
    · exact .inl before
    · exact .inr (.inl (List.eq_of_mem_replicate isSpace))
  case isFalse notTab =>
    rcases List.mem_append.mp member with before | isUnit
    · exact .inl before
    · exact .inr (.inr ⟨List.mem_singleton.mp isUnit, notTab⟩)

/-- Expanding writes spaces and what is no tab. -/
theorem mem_foldl_writeExpanded
    {other : CodeUnit}
    (units written : List CodeUnit)
    (member : other ∈ units.foldl (writeExpanded tabSize) written) :
    other ∈ written ∨ other = CodeUnit.space ∨
      other ∈ units ∧ other ≠ CodeUnit.tab := by
  induction units generalizing written with
  | nil =>
      exact .inl member
  | cons unit rest inductionHypothesis =>
      rcases inductionHypothesis _ member with
        before | isSpace | ⟨later, notTab⟩
      · rcases mem_writeExpanded before with before | isSpace | ⟨rfl, notTab⟩
        · exact .inl before
        · exact .inr (.inl isSpace)
        · exact .inr (.inr ⟨List.mem_cons_self, notTab⟩)
      · exact .inr (.inl isSpace)
      · exact .inr (.inr ⟨List.mem_cons_of_mem _ later, notTab⟩)

/-- Expanding leaves no tab. -/
theorem tab_notMem_expandTabs
    (tabSize : Nat)
    (units : List CodeUnit) :
    CodeUnit.tab ∉ expandTabs tabSize units := by
  intro member
  rcases mem_foldl_writeExpanded units [] member with
    before | isSpace | ⟨_, notTab⟩
  · cases before
  · cases isSpace
  · exact notTab rfl

/-- Expanding brings in no `\r`. -/
theorem carriageReturn_notMem_expandTabs
    (noReturn : CodeUnit.carriageReturn ∉ units) :
    CodeUnit.carriageReturn ∉ expandTabs tabSize units := by
  intro member
  rcases mem_foldl_writeExpanded units [] member with
    before | isSpace | ⟨later, _⟩
  · cases before
  · cases isSpace
  · exact noReturn later

/-- Text without tabs has nothing to expand. -/
theorem expandTabs_of_notMem
    (noTab : CodeUnit.tab ∉ units) :
    expandTabs tabSize units = units := by
  have appended :
      ∀ written,
        units.foldl (writeExpanded tabSize) written = written ++ units := by
    induction units with
    | nil =>
        exact fun written => (List.append_nil written).symm
    | cons unit rest inductionHypothesis =>
        intro written
        obtain ⟨other, noTab⟩ := List.ne_and_not_mem_of_not_mem_cons noTab
        rw [List.foldl_cons, inductionHypothesis noTab, writeExpanded,
          if_neg (Ne.symm other), List.append_assoc, List.singleton_append]
  exact appended []

/-- Only a `\n` is written behind the last line. -/
theorem mem_endLastLine
    {other : CodeUnit}
    (member : other ∈ endLastLine units) :
    other ∈ units ∨ other = CodeUnit.lineFeed := by
  unfold endLastLine at member
  split at member
  · exact .inl member
  · rcases List.mem_append.mp member with before | isFeed
    · exact .inl before
    · exact .inr (List.mem_singleton.mp isFeed)

/-- A last line that is ended stays as it is. -/
theorem endLastLine_endLastLine
    (units : List CodeUnit) :
    endLastLine (endLastLine units) = endLastLine units := by
  by_cases ended :
      units.getLast? = some CodeUnit.lineFeed ∨
        units.getLast? = some CodeUnit.carriageReturn
  · have same : endLastLine units = units := if_pos ended
    rw [same, same]
  · have more : endLastLine units = units ++ [CodeUnit.lineFeed] := if_neg ended
    rw [more, endLastLine, if_pos (.inl List.getLast?_concat)]

/--
What is neither `\n` nor in the expanded text is not in the text whose
last line is ended.
-/
theorem notMem_endedBy
    (notMem : unit ∉ units)
    (notFeed : unit ≠ CodeUnit.lineFeed) :
    unit ∉ rules.endedBy units := by
  unfold endedBy
  split
  case isTrue =>
    intro member
    exact (mem_endLastLine member).elim notMem notFeed
  case isFalse =>
    exact notMem

/-- Where line ends are folded, the passes leave no `\r`. -/
theorem carriageReturn_notMem_inPasses
    (folds : ¬rules.keepLineEnds = true)
    (tabSize : Nat)
    (raw : List CodeUnit) :
    CodeUnit.carriageReturn ∉ rules.inPasses tabSize raw := by
  apply notMem_endedBy _ (by decide)
  have noReturn : CodeUnit.carriageReturn ∉ rules.foldedBy raw := by
    rw [foldedBy, if_neg folds]
    exact carriageReturn_notMem_foldLineEnds raw
  unfold expandedBy
  split
  · exact noReturn
  · exact carriageReturn_notMem_expandTabs noReturn

/-- Where tabs are expanded, the passes leave no tab. -/
theorem tab_notMem_inPasses
    (expands : ¬rules.keepTabs = true)
    (tabSize : Nat)
    (raw : List CodeUnit) :
    CodeUnit.tab ∉ rules.inPasses tabSize raw := by
  apply notMem_endedBy _ (by decide)
  rw [expandedBy, if_neg expands]
  exact tab_notMem_expandTabs _ _

/-- The passes leave nothing to do for the same passes. -/
theorem inPasses_inPasses
    (rules : Normalization)
    (tabSize : Nat)
    (raw : List CodeUnit) :
    rules.inPasses tabSize (rules.inPasses tabSize raw) =
      rules.inPasses tabSize raw := by
  have folded :
      rules.foldedBy (rules.inPasses tabSize raw) =
        rules.inPasses tabSize raw := by
    rw [foldedBy, ite_eq_left_iff]
    intro folds
    exact foldLineEnds_of_notMem _
      (carriageReturn_notMem_inPasses folds tabSize raw)
  have expanded :
      rules.expandedBy (max tabSize 1) (rules.inPasses tabSize raw) =
        rules.inPasses tabSize raw := by
    rw [expandedBy, ite_eq_left_iff]
    intro expands
    exact expandTabs_of_notMem (tab_notMem_inPasses expands tabSize raw)
  have ended :
      rules.endedBy (rules.inPasses tabSize raw) =
        rules.inPasses tabSize raw := by
    rw [inPasses, endedBy, endedBy]
    split
    · exact endLastLine_endLastLine _
    · rfl
  calc
    rules.inPasses tabSize (rules.inPasses tabSize raw)
    _ = rules.endedBy
        (rules.expandedBy (max tabSize 1) (rules.inPasses tabSize raw)) := by
      rw [inPasses, folded]
    _ = rules.endedBy (rules.inPasses tabSize raw) := by
      rw [expanded]
    _ = rules.inPasses tabSize raw :=
      ended

/--
Without escapes normalization is three passes over the text: line ends are
folded, tabs are expanded to the next tab stop, and the last line is ended.  So
no `\r` is left where line ends are folded and no tab where tabs are expanded,
and normalized text is its own normalized form.
-/
theorem apply_in_passes
    (noEscapes : rules.expandEscapes = false)
    (tabSize : Nat)
    (raw : List CodeUnit) :
    (rules.apply tabSize raw).toList = rules.inPasses tabSize raw ∧
      (rules.keepLineEnds = false →
        CodeUnit.carriageReturn ∉ rules.apply tabSize raw) ∧
      (rules.keepTabs = false → CodeUnit.tab ∉ rules.apply tabSize raw) ∧
      rules.apply tabSize (rules.apply tabSize raw).toList =
        rules.apply tabSize raw := by
  have passes := apply_eq_inPasses noEscapes tabSize raw
  refine ⟨passes, ?returns, ?tabs, ?again⟩
  case returns =>
    intro folds
    rw [← Array.mem_toList_iff, passes]
    exact carriageReturn_notMem_inPasses
      (Bool.eq_false_iff.mp folds) tabSize raw
  case tabs =>
    intro expands
    rw [← Array.mem_toList_iff, passes]
    exact tab_notMem_inPasses (Bool.eq_false_iff.mp expands) tabSize raw
  case again =>
    apply Array.ext'
    rw [apply_eq_inPasses noEscapes, passes, inPasses_inPasses]

/-- Line ends are folded, tabs expanded, and the last line is ended. -/
def closing : Normalization where
  keepTabs := false
  keepLineEnds := false
  expandEscapes := false
  closeLastLine := true

/--
Columns begin anew behind a folded line end, and a tab takes at
least one of them.
-/
theorem apply_in_passes_returnsAndTabs :
    closing.expandEscapes = false ∧
      (closing.apply 4 (Utf16.ofString "ab\tc\r\n\t😀\t\rd")).toList =
        Utf16.ofString "ab  c\n    😀   \nd\n" := by
  have noEscapes : closing.expandEscapes = false := rfl
  obtain ⟨passes, _⟩ :=
    apply_in_passes noEscapes 4 (Utf16.ofString "ab\tc\r\n\t😀\t\rd")
  refine ⟨noEscapes, ?_⟩
  rw [passes]
  decide +kernel

end Snbt.Normalization
