import Snbt.Proofs.Text.EscapeSpellings

namespace Snbt.Normalization

/-!
# Reading with a mark

Looking back over the raw text tells whether a backslash opens an
escape.  A mark that is carried along, for an odd run of backslashes,
tells the same: reading with the mark writes what the loop writes,
wherever reading has come to.
-/

/--
Append the normalized form of the units.  `column` counts the columns before
the next unit, and `escaped` says that an odd run of backslashes ends just
before it, so that a backslash there opens no escape.
-/
def appendMarked
    (rules : Normalization)
    (tabSize : Nat)
    (column : Nat)
    (escaped : Bool)
    (out : Array CodeUnit) :
    List CodeUnit → Array CodeUnit
  | [] =>
      out
  | unit :: rest =>
      if unit = CodeUnit.lineFeed then
        appendMarked rules tabSize 0 false (out.push unit) rest
      else if unit = CodeUnit.backslash then
        if rules.expandEscapes && !escaped then
          match _found : escape? rest with
          | some (named, after) =>
              appendMarked rules tabSize (column + 1) false
                (out.push named) after
          | none =>
              appendMarked rules tabSize (column + 1) true (out.push unit) rest
        else
          appendMarked rules tabSize (column + 1) (!escaped)
            (out.push unit) rest
      else if unit = CodeUnit.carriageReturn && !rules.keepLineEnds then
        appendMarked rules tabSize 0 false (out.push CodeUnit.lineFeed)
          (afterReturn rest)
      else if unit = CodeUnit.tab && !rules.keepTabs then
        let width := tabSize - column % tabSize
        appendMarked rules tabSize (column + width) false
          (out ++ List.replicate width CodeUnit.space) rest
      else
        appendMarked rules tabSize
          (if unit.isLow then column else column + 1) false (out.push unit) rest
termination_by units => units.length
decreasing_by
  all_goals simp only [List.length_cons]
  case _ => omega
  case _ =>
    have := escape?_length _found
    omega
  case _ => omega
  case _ => omega
  case _ =>
    have := afterReturn_length rest
    omega
  all_goals omega

variable {rules : Normalization} {tabSize column : Nat} {escaped : Bool}
  {out : Array CodeUnit} {before body rest units : List CodeUnit}
  {unit named : CodeUnit}

/-! ## Runs of backslashes -/

theorem backslashRun_concat_backslash
    (units : List CodeUnit) :
    backslashRun (units ++ [CodeUnit.backslash]) = backslashRun units + 1 := by
  rw [backslashRun, List.reverse_append, List.reverse_singleton,
    List.singleton_append, List.takeWhile_cons_of_pos (by decide),
    List.length_cons]
  rfl

theorem backslashRun_concat_other
    (units : List CodeUnit)
    (other : unit ≠ CodeUnit.backslash) :
    backslashRun (units ++ [unit]) = 0 := by
  rw [backslashRun, List.reverse_append, List.reverse_singleton,
    List.singleton_append, List.takeWhile_cons_of_neg (by simpa using other)]
  rfl

/--
A further backslash makes an odd run of an
even one, and an even one of an odd one.
-/
theorem backslashRun_concat_parity
    {escaped : Bool}
    (parity : backslashRun before % 2 = escaped.toNat) :
    backslashRun (before ++ [CodeUnit.backslash]) % 2 = (!escaped).toNat := by
  rw [backslashRun_concat_backslash]
  cases escaped with
  | false =>
      rw [Bool.toNat_false] at parity
      rw [Bool.not_false, Bool.toNat_true]
      omega
  | true =>
      rw [Bool.toNat_true] at parity
      rw [Bool.not_true, Bool.toNat_false]
      omega

/-- No backslash ends what names a unit. -/
theorem backslashRun_of_names
    (units : List CodeUnit)
    (names : Names body named) :
    backslashRun (units ++ body) = 0 := by
  rcases List.eq_nil_or_concat body with rfl | ⟨front, last, rfl⟩
  · cases names
  · rw [List.concat_eq_append, ← List.append_assoc]
    apply backslashRun_concat_other
    apply names.ne_backslash
    rw [List.concat_eq_append]
    exact List.mem_append_right front List.mem_cons_self

/--
A line end that `\r` opens is `\r` alone or with the `\n` that belongs to it.
-/
theorem exists_lineEnd
    (units : List CodeUnit) :
    ∃ lineEnd, CodeUnit.carriageReturn :: units = lineEnd ++ afterReturn units ∧
      ∀ before, backslashRun (before ++ lineEnd) = 0 := by
  have alone (before : List CodeUnit) :
      backslashRun (before ++ [CodeUnit.carriageReturn]) = 0 :=
    backslashRun_concat_other before (by decide)
  cases units with
  | nil =>
      exact ⟨[CodeUnit.carriageReturn], rfl, alone⟩
  | cons unit units =>
      by_cases isFeed : unit = CodeUnit.lineFeed
      · refine ⟨[CodeUnit.carriageReturn, unit],
          by rw [afterReturn, if_pos isFeed]; rfl, ?_⟩
        intro before
        rw [List.append_cons]
        exact backslashRun_concat_other _ (by rw [isFeed]; decide)
      · exact ⟨[CodeUnit.carriageReturn],
          by rw [afterReturn, if_neg isFeed]; rfl, alone⟩

/-! ## Looking back -/

/-- Where reading has come to is told by what is left to read. -/
theorem take_of_left
    (before : List CodeUnit)
    (unit : CodeUnit)
    (rest : List CodeUnit) :
    (before ++ unit :: rest).take
      ((before ++ unit :: rest).length - rest.length) =
      before ++ [unit] := by
  have read :
      (before ++ unit :: rest).length - rest.length = before.length + 1 := by
    simp only [List.length_append, List.length_cons]
    omega
  rw [read, List.take_length_add_append]
  rfl

/-- No escape is read where no `u` follows. -/
theorem escape?_of_head?_ne
    (noLetter : units.head? ≠ some CodeUnit.lowerU) :
    escape? units = none := by
  cases units with
  | nil =>
      rfl
  | cons unit rest =>
      rw [escape?, if_neg (mt (congrArg some) noLetter)]

/--
At a backslash an escape is read if escapes are replaced and no odd run ends
before it.  Otherwise, and where no escape follows, the backslash is written.
-/
theorem appendOnto_backslash
    (rules : Normalization)
    (tabSize column : Nat)
    (out : Array CodeUnit)
    (rest : List CodeUnit)
    (parity : backslashRun before % 2 = escaped.toNat) :
    appendOnto rules tabSize (before ++ CodeUnit.backslash :: rest) column out
        (CodeUnit.backslash :: rest) =
      match if rules.expandEscapes && !escaped then escape? rest else none with
      | some (named, after) =>
          appendOnto rules tabSize (before ++ CodeUnit.backslash :: rest)
            (column + 1) (out.push named) after
      | none =>
          appendOnto rules tabSize (before ++ CodeUnit.backslash :: rest)
            (column + 1) (out.push CodeUnit.backslash) rest := by
  have parity := backslashRun_concat_parity parity
  have notReturn :
      ¬(CodeUnit.backslash = CodeUnit.carriageReturn && !rules.keepLineEnds) =
        true := by
    rw [decide_eq_false (by decide), Bool.false_and]
    exact Bool.false_ne_true
  have notTab :
      ¬(CodeUnit.backslash = CodeUnit.tab && !rules.keepTabs) = true := by
    rw [decide_eq_false (by decide), Bool.false_and]
    exact Bool.false_ne_true
  rw [appendOnto, if_neg (by decide), take_of_left, parity, if_neg notReturn,
    if_neg notTab]
  by_cases opens : (rules.expandEscapes && !escaped) = true
  · obtain ⟨expands, rfl⟩ : rules.expandEscapes = true ∧ escaped = false := by
      simpa using opens
    rw [if_pos opens]
    by_cases letter : rest.head? = some CodeUnit.lowerU
    · rw [if_pos (by simp [expands, letter]), if_neg (by decide)]
      split
      case h_1 read =>
        rw [read]
      case h_2 noName =>
        rw [noName]
    · rw [if_neg (by simp [letter]), escape?_of_head?_ne letter]
      rfl
  · rw [if_neg opens]
    split
    case isTrue looks =>
      have expands : rules.expandEscapes = true := by
        simp only [Bool.and_eq_true] at looks
        exact looks.1.1
      have isEscaped : escaped = true := by
        simpa [expands] using opens
      rw [isEscaped, if_pos (by decide)]
    case isFalse =>
      rfl

/-- Reading with the mark writes what the loop writes that looks back. -/
theorem appendMarked_eq_appendOnto
    (parity : backslashRun before % 2 = escaped.toNat) :
    appendMarked rules tabSize column escaped out units =
      appendOnto rules tabSize (before ++ units) column out units := by
  fun_induction appendMarked rules tabSize column escaped out units
    generalizing before with
  | case1 column escaped out =>
      rw [appendOnto]
  | case2 column escaped out rest inductionHypothesis =>
      have noRun : backslashRun (before ++ [CodeUnit.lineFeed]) = 0 :=
        backslashRun_concat_other before (by decide)
      rw [inductionHypothesis (congrArg (· % 2) noRun), ← List.append_cons,
        appendOnto, if_pos rfl]
  | case3 column escaped out rest expands named after found notFeed
      inductionHypothesis =>
      obtain ⟨body, rfl, names⟩ := names_of_escape? found
      have noRun := backslashRun_of_names (before ++ [CodeUnit.backslash]) names
      rw [inductionHypothesis (congrArg (· % 2) noRun),
        appendOnto_backslash _ _ _ _ _ parity, if_pos expands, found,
        List.append_assoc, ← List.append_cons]
  | case4 column escaped out rest expands noName notFeed inductionHypothesis =>
      obtain rfl : escaped = false :=
        (by simpa using expands : _ ∧ escaped = false).2
      rw [inductionHypothesis (backslashRun_concat_parity parity),
        appendOnto_backslash _ _ _ _ _ parity, if_pos expands, noName,
        ← List.append_cons]
  | case5 column escaped out rest keeps notFeed inductionHypothesis =>
      rw [inductionHypothesis (backslashRun_concat_parity parity),
        appendOnto_backslash _ _ _ _ _ parity, if_neg keeps, ← List.append_cons]
  | case6 column escaped out unit rest notFeed notBackslash isReturn
      inductionHypothesis =>
      obtain ⟨rfl, _⟩ :
          unit = CodeUnit.carriageReturn ∧ rules.keepLineEnds = false := by
        simpa using isReturn
      obtain ⟨lineEnd, rest_eq, noBackslash⟩ := exists_lineEnd rest
      rw [inductionHypothesis (congrArg (· % 2) (noBackslash before)),
        List.append_assoc, ← rest_eq, appendOnto, if_neg notFeed,
        if_neg (by simp [notBackslash]), if_pos isReturn]
  | case7 column escaped out unit rest notFeed notBackslash notReturn
      isTab width =>
      rename_i inductionHypothesis
      have noRun := backslashRun_concat_other before notBackslash
      rw [inductionHypothesis (congrArg (· % 2) noRun), ← List.append_cons,
        appendOnto, if_neg notFeed, if_neg (by simp [notBackslash]),
        if_neg notReturn, if_pos isTab]
  | case8 column escaped out unit rest notFeed notBackslash notReturn notTab
      inductionHypothesis =>
      have noRun := backslashRun_concat_other before notBackslash
      refine (inductionHypothesis (congrArg (· % 2) noRun)).trans ?_
      rw [← List.append_cons, appendOnto, if_neg notFeed,
        if_neg (by simp [notBackslash]), if_neg notReturn, if_neg notTab]
      rfl

end Snbt.Normalization
