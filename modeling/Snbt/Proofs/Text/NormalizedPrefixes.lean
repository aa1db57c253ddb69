import Snbt.Proofs.Text.EscapeExpansion
import Snbt.Proofs.Text.NormalizationPasses

namespace Snbt.Normalization

/-!
# Normalizing the beginning of a text

What is written for the beginning of a raw text does not depend on what follows
it, if what follows begins with the end of a line or a tab: no escape reaches
over these.  Behind the end of a raw line reading starts anew, and from there
on the running column is that of the written text as long as no escape names a
unit that takes other than one column.
-/

/-- What is written for raw text, its last line left open. -/
def written
    (rules : Normalization)
    (tabSize : Nat)
    (raw : List CodeUnit) :
    List CodeUnit :=
  (rules.openForm tabSize raw).toList

/-- No text, or raw text whose last unit ends a line, given what follows it. -/
def EndsLine (rules : Normalization) (earlier rest : List CodeUnit) : Prop :=
  earlier = [] ∨ earlier.getLast? = some CodeUnit.lineFeed ∨
    (rules.keepLineEnds = false ∧
      earlier.getLast? = some CodeUnit.carriageReturn ∧
      rest.head? ≠ some CodeUnit.lineFeed)

/-- A unit that takes one column wherever it stands. -/
structure TakesColumn (unit : CodeUnit) : Prop where
  notFeed : unit ≠ CodeUnit.lineFeed
  notTab : unit ≠ CodeUnit.tab
  notLow : unit.isLow = false

/-- The escapes that are replaced name units that take one column. -/
def EscapesTakeColumns (rules : Normalization) (raw : List CodeUnit) : Prop :=
  rules.expandEscapes = true →
    ∀ start stop named, IsEscape raw start stop named → TakesColumn named

/--
The running column is that of the text
written so far, whose last line has no tab.
-/
structure Counted (column : Nat) (out : Array CodeUnit) : Prop where
  column_eq : column = writtenColumn out.toList
  noTab : CodeUnit.tab ∉ openLine out.toList

variable {rules : Normalization} {tabSize column : Nat} {escaped : Bool}
  {out : Array CodeUnit} {unit mark : CodeUnit}
  {units first before earlier line rest : List CodeUnit}

namespace Counted

/-- At the start of a line no columns are counted. -/
theorem of_openLine
    (begins : openLine out.toList = []) :
    Counted 0 out := by
  constructor
  · rw [writtenColumn, begins]
    rfl
  · rw [begins]
    exact List.not_mem_nil

theorem lineFeed
    (out : Array CodeUnit) :
    Counted 0 (out.push CodeUnit.lineFeed) := by
  apply of_openLine
  rw [Array.toList_push, openLine_concat_lineFeed]

theorem push
    (counted : Counted column out)
    (notFeed : unit ≠ CodeUnit.lineFeed)
    (notTab : unit ≠ CodeUnit.tab) :
    Counted (if unit.isLow then column else column + 1) (out.push unit) := by
  constructor
  · rw [Array.toList_push, writtenColumn_concat _ notFeed, counted.column_eq]
  · rw [Array.toList_push, openLine_concat _ notFeed]
    exact List.not_mem_cons_of_ne_of_not_mem (Ne.symm notTab) counted.noTab

theorem pushColumn
    (counted : Counted column out)
    (takes : TakesColumn unit) :
    Counted (column + 1) (out.push unit) := by
  have pushed := counted.push takes.notFeed takes.notTab
  rw [takes.notLow] at pushed
  exact pushed

theorem spaces
    (counted : Counted column out)
    (width : Nat) :
    Counted (column + width) (out ++ List.replicate width CodeUnit.space) := by
  constructor
  · rw [Array.toList_appendList, writtenColumn_append_spaces, counted.column_eq]
  · rw [Array.toList_appendList, openLine_append_spaces]
    intro member
    rcases List.mem_append.mp member with isSpace | isTab
    · cases List.eq_of_mem_replicate isSpace
    · exact counted.noTab isTab

end Counted

/-! ## Text behind which a mark stands -/

/--
Whether a mark belongs to none of the units before it: it ends no
name and no line end.
-/
structure Apart (rules : Normalization) (first : List CodeUnit)
    (mark : CodeUnit) : Prop where
  neverNames : NeverNames mark
  opensLineEnd :
    mark = CodeUnit.lineFeed → rules.keepLineEnds = false →
      first.getLast? ≠ some CodeUnit.carriageReturn

theorem Apart.of_suffix
    (apart : Apart rules first mark)
    (suffix : units <:+ first) :
    Apart rules units mark := by
  refine ⟨apart.neverNames, ?_⟩
  rintro isFeed folds isReturn
  obtain ⟨front, rfl⟩ := suffix
  apply apart.opensLineEnd isFeed folds
  rw [List.getLast?_append, isReturn]
  rfl

/-- A mark stays behind what follows a line end that `\r` opened. -/
theorem afterReturn_append
    (apart : Apart rules (CodeUnit.carriageReturn :: first) mark)
    (folds : rules.keepLineEnds = false)
    (after : List CodeUnit) :
    afterReturn (first ++ mark :: after) =
      afterReturn first ++ mark :: after := by
  cases first with
  | nil =>
      have notFeed : mark ≠ CodeUnit.lineFeed :=
        fun isFeed => apart.opensLineEnd isFeed folds rfl
      rw [List.nil_append, afterReturn, if_neg notFeed]
      rfl
  | cons unit first =>
      rw [List.cons_append, afterReturn, afterReturn]
      split
      · rfl
      · rfl

/--
Reading goes on behind the beginning of a text as it does anywhere else: a mark
that is apart is read in some column behind `result`.  It is the column of the
text written so far if the column before the beginning was.
-/
def GoesOn
    (rules : Normalization)
    (tabSize column : Nat)
    (escaped : Bool)
    (out : Array CodeUnit)
    (first : List CodeUnit)
    (result : Array CodeUnit) :
    Prop :=
  ∃ later laterEscaped,
    (∀ mark after, Apart rules first mark →
      appendMarked rules tabSize column escaped out (first ++ mark :: after) =
        appendMarked rules tabSize later laterEscaped result (mark :: after)) ∧
    ∀ before, backslashRun before % 2 = escaped.toNat →
      EscapesTakeColumns rules (before ++ first) → Counted column out →
      Counted later result

/--
One step before reading goes on: it reads
a piece and leaves the units behind it.
-/
theorem GoesOn.step
    (piece : List CodeUnit)
    {nextColumn : Nat}
    {nextEscaped : Bool}
    {nextOut result : Array CodeUnit}
    (next : GoesOn rules tabSize nextColumn nextEscaped nextOut units result)
    (reads :
      ∀ mark after, Apart rules (piece ++ units) mark →
        appendMarked rules tabSize column escaped out
          (piece ++ units ++ mark :: after) =
          appendMarked rules tabSize nextColumn nextEscaped nextOut
            (units ++ mark :: after))
    (counts :
      ∀ before, backslashRun before % 2 = escaped.toNat →
        EscapesTakeColumns rules (before ++ (piece ++ units)) →
        Counted column out →
        backslashRun (before ++ piece) % 2 = nextEscaped.toNat ∧
          Counted nextColumn nextOut) :
    GoesOn rules tabSize column escaped out (piece ++ units) result := by
  obtain ⟨later, laterEscaped, goesOn, counted⟩ := next
  refine ⟨later, laterEscaped, ?goesOn, ?counted⟩
  case goesOn =>
    intro mark after apart
    rw [reads mark after apart,
      goesOn mark after (apart.of_suffix (List.suffix_append _ _))]
  case counted =>
    intro before parity harmless start
    obtain ⟨nextParity, nextCounted⟩ := counts before parity harmless start
    rw [← List.append_assoc] at harmless
    exact counted (before ++ piece) nextParity harmless nextCounted

theorem goesOn_appendMarked
    (expands : rules.keepTabs = false)
    (tabSize column : Nat)
    (escaped : Bool)
    (out : Array CodeUnit)
    (first : List CodeUnit) :
    GoesOn rules tabSize column escaped out first
      (appendMarked rules tabSize column escaped out first) := by
  fun_induction appendMarked rules tabSize column escaped out first with
  | case1 column escaped out =>
      exact ⟨column, escaped, fun mark after _ => rfl,
        fun before _ _ counted => counted⟩
  | case2 column escaped out rest inductionHypothesis =>
      apply GoesOn.step [CodeUnit.lineFeed] inductionHypothesis
      · intro mark after _
        rw [List.singleton_append, List.cons_append, appendMarked, if_pos rfl]
      · intro before _ _ _
        refine ⟨?_, .lineFeed out⟩
        rw [backslashRun_concat_other before (by decide)]
        rfl
  | case3 column escaped out rest expandsEscapes named after found notFeed
      inductionHypothesis =>
      obtain ⟨body, rfl, names⟩ := names_of_escape? found
      obtain ⟨expandsAll, rfl⟩ :
          rules.expandEscapes = true ∧ escaped = false := by
        simpa using expandsEscapes
      apply GoesOn.step (CodeUnit.backslash :: body) inductionHypothesis
      · intro mark behind _
        rw [List.cons_append, List.cons_append, List.append_assoc]
        exact appendMarked_escape expandsAll names tabSize column out _
      · intro before parity harmless counted
        have odd := backslashRun_concat_parity parity
        have escape := isEscape_of_append (by simpa using odd) names after
        refine ⟨?_, counted.pushColumn (harmless expandsAll _ _ _ escape)⟩
        rw [List.append_cons, backslashRun_of_names _ names]
        rfl
  | case4 column escaped out rest expandsEscapes noName notFeed
      inductionHypothesis =>
      have isOpen : escaped = false :=
        (by simpa using expandsEscapes : _ ∧ escaped = false).2
      apply GoesOn.step [CodeUnit.backslash] inductionHypothesis
      · intro mark after apart
        rw [List.singleton_append, List.cons_append, appendMarked,
          if_neg notFeed, if_pos rfl, if_pos expandsEscapes]
        have stillNone := escape?_append_eq_none noName apart.neverNames after
        split
        case h_1 found =>
          rw [stillNone] at found
          cases found
        case h_2 =>
          rfl
      · intro before parity _ counted
        subst isOpen
        exact ⟨backslashRun_concat_parity parity,
          counted.pushColumn ⟨by decide, by decide, rfl⟩⟩
  | case5 column escaped out rest keeps notFeed inductionHypothesis =>
      apply GoesOn.step [CodeUnit.backslash] inductionHypothesis
      · intro mark after _
        rw [List.singleton_append, List.cons_append, appendMarked,
          if_neg notFeed, if_pos rfl, if_neg keeps]
      · intro before parity _ counted
        exact ⟨backslashRun_concat_parity parity,
          counted.pushColumn ⟨by decide, by decide, rfl⟩⟩
  | case6 column escaped out unit rest notFeed notBackslash isReturn
      inductionHypothesis =>
      obtain ⟨rfl, folds⟩ :
          unit = CodeUnit.carriageReturn ∧ rules.keepLineEnds = false := by
        simpa using isReturn
      obtain ⟨lineEnd, rest_eq, noBackslash⟩ := exists_lineEnd rest
      rw [rest_eq]
      apply GoesOn.step lineEnd inductionHypothesis
      · intro mark after apart
        rw [← rest_eq] at apart ⊢
        rw [List.cons_append, appendMarked, if_neg notFeed, if_neg notBackslash,
          if_pos isReturn, afterReturn_append apart folds]
      · intro before _ _ _
        exact ⟨by rw [noBackslash]; rfl, .lineFeed out⟩
  | case7 column escaped out unit rest notFeed notBackslash notReturn isTab
      width inductionHypothesis =>
      apply GoesOn.step [unit] inductionHypothesis
      · intro mark after _
        rw [List.singleton_append, List.cons_append, appendMarked,
          if_neg notFeed, if_neg notBackslash, if_neg notReturn, if_pos isTab]
      · intro before _ _ counted
        refine ⟨?_, counted.spaces _⟩
        rw [backslashRun_concat_other before notBackslash]
        rfl
  | case8 column escaped out unit rest notFeed notBackslash notReturn notTab
      inductionHypothesis =>
      have other : unit ≠ CodeUnit.tab := by
        simpa [expands] using notTab
      apply GoesOn.step [unit] inductionHypothesis
      · intro mark after _
        rw [List.singleton_append, List.cons_append, appendMarked,
          if_neg notFeed, if_neg notBackslash, if_neg notReturn, if_neg notTab]
        rfl
      · intro before _ _ counted
        exact ⟨by rw [backslashRun_concat_other before notBackslash]; rfl,
          counted.push notFeed other⟩

/-! ## The start of a line and a tab in it -/

/-- Nothing is dropped behind a `\r` if no `\n` follows. -/
theorem afterReturn_of_head?_ne
    (alone : units.head? ≠ some CodeUnit.lineFeed) :
    afterReturn units = units := by
  cases units with
  | nil =>
      rfl
  | cons unit rest =>
      rw [afterReturn, if_neg (mt (congrArg some) alone)]

/-- Reading a `\r` that is folded, alone or with its `\n`, begins a line. -/
theorem appendMarked_return
    (folds : rules.keepLineEnds = false)
    (rest : List CodeUnit) :
    appendMarked rules tabSize column escaped out
      (CodeUnit.carriageReturn :: rest) =
      appendMarked rules tabSize 0 false (out.push CodeUnit.lineFeed)
        (afterReturn rest) := by
  rw [appendMarked, if_neg (by decide), if_neg (by decide),
    if_pos (by rw [folds]; rfl)]

/-- Reading a tab that is expanded leads to the next tab stop. -/
theorem appendMarked_tab
    (expands : rules.keepTabs = false)
    (rest : List CodeUnit) :
    appendMarked rules tabSize column escaped out (CodeUnit.tab :: rest) =
      appendMarked rules tabSize (column + (tabSize - column % tabSize)) false
        (out ++ List.replicate (tabSize - column % tabSize) CodeUnit.space)
        rest := by
  have notReturn : CodeUnit.tab ≠ CodeUnit.carriageReturn := by
    decide
  rw [appendMarked, if_neg (by decide), if_neg (by decide),
    if_neg (by simp [notReturn]), if_pos (by rw [expands]; rfl)]

/-- A `\r` that ends a line has no `\n` behind it. -/
theorem EndsLine.head?_ne
    (ends : EndsLine rules (first ++ [CodeUnit.carriageReturn]) rest) :
    rest.head? ≠ some CodeUnit.lineFeed := by
  rcases ends with isEmpty | isFeed | ⟨_, _, alone⟩
  · cases List.append_ne_nil_of_right_ne_nil
      first (List.cons_ne_nil _ _) isEmpty
  · rw [List.getLast?_concat] at isFeed
    cases isFeed
  · exact alone

/--
The line end that a text ends with is `\n`, `\r` or both, and
reading it begins a line.
-/
theorem EndsLine.exists_mark
    (ends : EndsLine rules earlier rest)
    (nonempty : earlier ≠ []) :
    ∃ front mark behind, earlier = front ++ mark :: behind ∧
      Apart rules front mark ∧
      ∀ tabSize column escaped out rest, EndsLine rules earlier rest →
        appendMarked rules tabSize column escaped out
          (mark :: (behind ++ rest)) =
          appendMarked rules tabSize 0 false
            (out.push CodeUnit.lineFeed) rest := by
  have apartReturn (front : List CodeUnit) :
      Apart rules front CodeUnit.carriageReturn :=
    ⟨neverNames_of_not_digit (by decide) rfl, fun isFeed => by cases isFeed⟩
  rcases ends with isEmpty | isFeed | ⟨folds, isReturn, _⟩
  · exact absurd isEmpty nonempty
  · obtain ⟨front, rfl⟩ := List.getLast?_eq_some_iff.mp isFeed
    by_cases belongs :
        rules.keepLineEnds = false ∧
          front.getLast? = some CodeUnit.carriageReturn
    · obtain ⟨folds, isReturn⟩ := belongs
      obtain ⟨front, rfl⟩ := List.getLast?_eq_some_iff.mp isReturn
      refine ⟨front, _, [CodeUnit.lineFeed], List.append_assoc ..,
        apartReturn front, ?_⟩
      intro tabSize column escaped out rest _
      rw [appendMarked_return folds, List.singleton_append, afterReturn,
        if_pos rfl]
    · refine ⟨front, _, [], rfl, ⟨neverNames_of_not_digit (by decide) rfl, ?_⟩,
        ?_⟩
      · intro _ folds isReturn
        exact belongs ⟨folds, isReturn⟩
      · intro tabSize column escaped out rest _
        rw [List.nil_append, appendMarked, if_pos rfl]
  · obtain ⟨front, rfl⟩ := List.getLast?_eq_some_iff.mp isReturn
    refine ⟨front, _, [], rfl, apartReturn front, ?_⟩
    intro tabSize column escaped out rest ends
    rw [List.nil_append, appendMarked_return folds,
      afterReturn_of_head?_ne ends.head?_ne]

/-- Behind the end of a line reading starts in the first column. -/
theorem EndsLine.exists_appendMarked
    (ends : EndsLine rules earlier rest)
    (expands : rules.keepTabs = false)
    (tabSize : Nat) :
    ∃ out, openLine out.toList = [] ∧
      ∀ rest, EndsLine rules earlier rest →
        appendMarked rules tabSize 0 false #[] (earlier ++ rest) =
          appendMarked rules tabSize 0 false out rest := by
  by_cases nonempty : earlier = []
  · subst nonempty
    exact ⟨#[], rfl, fun rest _ => rfl⟩
  · obtain ⟨front, mark, behind, rfl, apart, begins⟩ :=
      ends.exists_mark nonempty
    obtain ⟨later, laterEscaped, goesOn, _⟩ :=
      goesOn_appendMarked expands tabSize 0 false #[] front
    refine ⟨(appendMarked rules tabSize 0 false #[] front).push
      CodeUnit.lineFeed, ?_, ?_⟩
    · rw [Array.toList_push, openLine_concat_lineFeed]
    · intro rest ends
      rw [List.append_assoc, List.cons_append, goesOn mark _ apart,
        begins _ _ _ _ _ ends]

/-- Whether a line ends is told by the unit behind it. -/
theorem EndsLine.of_append
    (ends : EndsLine rules earlier (line ++ rest)) :
    EndsLine rules earlier line := by
  rcases ends with isEmpty | isFeed | ⟨folds, isReturn, alone⟩
  · exact .inl isEmpty
  · exact .inr (.inl isFeed)
  · refine .inr (.inr ⟨folds, isReturn, ?_⟩)
    intro isFeed
    apply alone
    rw [List.head?_append, isFeed]
    rfl

/-- What is written stays when more is written. -/
theorem prefix_appendMarked
    (rules : Normalization)
    (tabSize column : Nat)
    (escaped : Bool)
    (out : Array CodeUnit)
    (units : List CodeUnit) :
    out.toList <+:
      (appendMarked rules tabSize column escaped out units).toList := by
  have push (out : Array CodeUnit) (unit : CodeUnit) :
      out.toList <+: (out.push unit).toList := by
    rw [Array.toList_push]
    exact List.prefix_append _ _
  fun_induction appendMarked rules tabSize column escaped out units with
  | case1 column escaped out =>
      exact List.prefix_refl _
  | case2 column escaped out rest inductionHypothesis =>
      exact (push out _).trans inductionHypothesis
  | case3 column escaped out rest expands named after found notFeed
      inductionHypothesis =>
      exact (push out _).trans inductionHypothesis
  | case4 column escaped out rest expands noName notFeed inductionHypothesis =>
      exact (push out _).trans inductionHypothesis
  | case5 column escaped out rest keeps notFeed inductionHypothesis =>
      exact (push out _).trans inductionHypothesis
  | case6 column escaped out unit rest notFeed notBackslash isReturn
      inductionHypothesis =>
      exact (push out _).trans inductionHypothesis
  | case7 column escaped out unit rest notFeed notBackslash notReturn isTab
      width inductionHypothesis =>
      rw [Array.toList_appendList] at inductionHypothesis
      exact (List.prefix_append _ _).trans inductionHypothesis
  | case8 column escaped out unit rest notFeed notBackslash notReturn notTab
      inductionHypothesis =>
      exact (push out _).trans inductionHypothesis

theorem written_eq
    (rules : Normalization)
    (tabSize : Nat)
    (raw : List CodeUnit) :
    rules.written tabSize raw =
      (appendMarked rules (max tabSize 1) 0 false #[] raw).toList :=
  congrArg Array.toList (openForm_eq_appendMarked rules tabSize raw)

/-- What the loop writes stays in front when the last line is ended. -/
theorem prefix_apply
    (rules : Normalization)
    (tabSize : Nat)
    (raw : List CodeUnit) :
    rules.written tabSize raw <+: (rules.apply tabSize raw).toList := by
  rw [apply, written]
  split
  · rw [toList_closeLine, endLastLine]
    split
    · exact List.prefix_refl _
    · exact List.prefix_append _ _
  · exact List.prefix_refl _

/-- The next tab stop is a multiple of the tab size. -/
theorem dvd_nextStop
    {size : Nat}
    (positive : 0 < size)
    (column : Nat) :
    size ∣ column + (size - column % size) := by
  have parts := Nat.div_add_mod column size
  have small := Nat.mod_lt column positive
  refine ⟨column / size + 1, ?_⟩
  rw [Nat.mul_add, Nat.mul_one]
  omega

/--
A tab is written as spaces up to the next tab stop: the column of the text that
is written with them is a multiple of the tab size.
-/
theorem written_tab
    (expands : rules.keepTabs = false)
    (ends : EndsLine rules earlier (line ++ CodeUnit.tab :: rest))
    (harmless : EscapesTakeColumns rules line)
    (tabSize : Nat) :
    ∃ width column out, 0 < width ∧ width ≤ max tabSize 1 ∧
      max tabSize 1 ∣ column ∧
      Counted column out ∧
      out.toList = rules.written tabSize (earlier ++ line ++ [CodeUnit.tab]) ∧
      out.toList =
        rules.written tabSize (earlier ++ line) ++
          List.replicate width CodeUnit.space ∧
      out.toList <+:
        (rules.apply tabSize
          (earlier ++ line ++ CodeUnit.tab :: rest)).toList := by
  obtain ⟨start, begins, restarts⟩ :=
    ends.exists_appendMarked expands (max tabSize 1)
  obtain ⟨column, escaped, goesOn, counts⟩ :=
    goesOn_appendMarked expands (max tabSize 1) 0 false start line
  have apart : Apart rules line CodeUnit.tab :=
    ⟨neverNames_of_not_digit (by decide) rfl, fun isFeed => by cases isFeed⟩
  have counted := counts [] rfl harmless (.of_openLine begins)
  have before := restarts line ends.of_append
  have reads (after : List CodeUnit)
      (ends : EndsLine rules earlier (line ++ CodeUnit.tab :: after)) :=
    (restarts _ ends).trans
      ((goesOn _ after apart).trans (appendMarked_tab expands after))
  have positive : 0 < max tabSize 1 :=
    Nat.lt_of_lt_of_le Nat.zero_lt_one (Nat.le_max_right ..)
  refine ⟨_, _, _, Nat.sub_pos_of_lt (Nat.mod_lt column positive),
    Nat.sub_le .., dvd_nextStop positive column, counted.spaces _, ?_, ?_, ?_⟩
  · have alone : EndsLine rules earlier (line ++ [CodeUnit.tab]) := by
      rw [List.append_cons] at ends
      exact ends.of_append
    rw [written_eq, List.append_assoc, reads [] alone, appendMarked]
  · rw [written_eq, before, Array.toList_appendList]
  · have loop :=
      prefix_apply rules tabSize (earlier ++ (line ++ CodeUnit.tab :: rest))
    rw [written_eq, reads rest ends, ← List.append_assoc] at loop
    exact (prefix_appendMarked ..).trans loop

end Snbt.Normalization
