import Snbt.Proofs.Text.PairSeams

namespace Snbt.View

/-!
# Visible text

The text of a stretch of a view is that of its units that are not hidden.
Where whole lines are hidden, the texts of two stretches that meet inside no
surrogate pair make up the text of both.
-/

/-- The unit at an offset that is not hidden. -/
def shown? (view : View) (offset : Nat) : Option CodeUnit :=
  if view.hidden offset then none else view.buffer.unit? offset

/-- The units between two offsets that are not hidden. -/
def visible (view : View) (start stop : Nat) : List CodeUnit :=
  (List.range' start (stop - start)).filterMap view.shown?

/-- What is hidden lies inside the buffer, and begins and ends behind a `\n`. -/
structure HidesLines (view : View) : Prop where
  inside : ∀ offset, view.hidden offset = true → offset < view.buffer.size
  edges : ∀ offset, offset + 1 < view.buffer.size →
    view.hidden offset ≠ view.hidden (offset + 1) →
    view.buffer.unit? offset = some CodeUnit.lineFeed

variable {view : View} {start middle stop offset : Nat} {unit : CodeUnit}

theorem shown?_eq_some_iff :
    view.shown? offset = some unit ↔
      view.hidden offset = false ∧ view.buffer.unit? offset = some unit := by
  unfold shown?
  cases view.hidden offset <;> simp

/-- What is visible is what is left when the hidden offsets are taken out. -/
theorem visible_eq
    (view : View)
    (start stop : Nat) :
    view.visible start stop =
      ((List.range' start (stop - start)).filter fun offset =>
        !view.hidden offset).filterMap view.buffer.unit? := by
  rw [List.filterMap_filter, visible]
  congr
  funext offset
  rw [shown?]
  cases view.hidden offset <;> rfl

/-- The units of stretches that meet are the units of both. -/
theorem visible_append
    (view : View)
    (first : start ≤ middle)
    (second : middle ≤ stop) :
    view.visible start middle ++ view.visible middle stop =
      view.visible start stop := by
  have firstOffsets :=
    @List.range'_append_1 start (middle - start) (stop - middle)
  rw [Nat.add_sub_cancel' first,
    show middle - start + (stop - middle) = stop - start by omega]
      at firstOffsets
  rw [visible, visible, visible, ← List.filterMap_append, firstOffsets]

/-- One offset more adds its unit, if it is not hidden. -/
theorem visible_succ
    (view : View)
    (behind : start ≤ offset) :
    view.visible start (offset + 1) =
      view.visible start offset ++ (view.shown? offset).toList := by
  rw [visible, Nat.sub_add_comm behind, List.range'_1_concat,
    Nat.add_sub_cancel' behind, List.filterMap_append, visible]
  cases isShown : view.shown? offset with
  | none => rw [List.filterMap_cons_none isShown]; rfl
  | some unit => rw [List.filterMap_cons_some isShown]; rfl

theorem visible_cons
    (view : View)
    (before : start < stop) :
    view.visible start stop =
      (view.shown? start).toList ++ view.visible (start + 1) stop := by
  have first := view.visible_succ (Nat.le_refl start)
  rw [visible, visible, Nat.sub_self, List.range'_zero, List.filterMap_nil,
    List.nil_append] at first
  rw [← view.visible_append (Nat.le_succ start) before, visible, first]

/--
What is visible of a stretch, as a part of
what is visible up to an offset behind it.
-/
theorem visible_eq_drop_take
    (view : View)
    (first : start ≤ middle)
    (second : middle ≤ stop) :
    view.visible start middle =
      ((view.visible 0 stop).take (view.visible 0 middle).length).drop
        (view.visible 0 start).length := by
  rw [← view.visible_append (Nat.zero_le middle) second, List.take_left,
    ← view.visible_append (Nat.zero_le start) first, List.drop_left]

/-- All of a buffer is visible where nothing is left out. -/
theorem visible_whole
    (buffer : Buffer)
    (stop : Nat) :
    (whole buffer).visible 0 stop = buffer.units.toList.take stop := by
  induction stop with
  | zero =>
      rfl
  | succ stop inductionHypothesis =>
      rw [visible_succ _ (Nat.zero_le stop), inductionHypothesis,
        List.take_add_one, Array.getElem?_toList]
      rfl

/-- Where all is hidden there are no units. -/
theorem visible_of_hidden
    (hidden :
      ∀ offset, start ≤ offset → offset < stop → view.hidden offset = true) :
    view.visible start stop = [] := by
  refine List.filterMap_eq_nil_iff.mpr ?_
  intro offset member
  obtain ⟨after, before⟩ := List.mem_range'_1.mp member
  rw [shown?, if_pos (hidden offset after (by omega))]

/-- What lies before the first place is hidden. -/
theorem hidden_of_lt_settle
    {place : Nat}
    (behind : offset ≤ place)
    (before : place < view.settle offset) :
    view.hidden place = true := by
  have inside : offset ≤ view.buffer.size := by
    have bounds := view.settle_bounds offset
    omega
  rw [settle, Nat.min_eq_left inside] at before
  clear inside
  fun_induction view.stepOver offset with
  | case1 offset inside hidden inductionHypothesis =>
      rcases Nat.eq_or_lt_of_le behind with rfl | later
      · exact hidden
      · exact inductionHypothesis later before
  | case2 offset inside shown =>
      omega
  | case3 offset after =>
      omega

/-- Where the last visible unit of a stretch stands. -/
theorem getLast?_visible
    (length : Nat)
    (last :
      ((List.range' start length).filterMap view.shown?).getLast? = some unit) :
    ∃ place, start ≤ place ∧ place < start + length ∧
      view.shown? place = some unit ∧
      ∀ between, place < between → between < start + length →
        view.shown? between = none := by
  induction length with
  | zero =>
      cases last
  | succ length inductionHypothesis =>
      rw [List.range'_1_concat, List.filterMap_append] at last
      cases isShown : view.shown? (start + length) with
      | none =>
          rw [List.filterMap_cons_none isShown, List.filterMap_nil,
            List.append_nil] at last
          obtain ⟨place, after, before, present, nothing⟩ :=
            inductionHypothesis last
          refine ⟨place, after, by omega, present, ?_⟩
          intro between later earlier
          by_cases isLast : between = start + length
          · rw [isLast]
            exact isShown
          · exact nothing between later (by omega)
      | some other =>
          rw [List.filterMap_cons_some isShown, List.filterMap_nil,
            List.getLast?_concat] at last
          cases last
          refine ⟨start + length, by omega, by omega, isShown, ?_⟩
          intro between later earlier
          omega

/-- Nothing but a `\n` stands before what is hidden. -/
theorem HidesLines.next_shown
    (hides : view.HidesLines)
    (shown : view.hidden offset = false)
    (inside : offset + 1 < view.buffer.size)
    (notFeed : view.buffer.unit? offset ≠ some CodeUnit.lineFeed) :
    view.hidden (offset + 1) = false := by
  by_cases same : view.hidden offset = view.hidden (offset + 1)
  · exact same.symm.trans shown
  · exact absurd (hides.edges offset inside same) notFeed

/-- Where an offset splits no pair, neither do the visible units around it. -/
theorem HidesLines.isSeam
    (hides : view.HidesLines)
    (whole : ¬view.buffer.SplitsPair middle) :
    Utf16.IsSeam (view.visible start middle) (view.visible middle stop) := by
  intro high low isLast isHead
  obtain ⟨place, after, before, present, nothing⟩ :=
    view.getLast?_visible _ isLast
  obtain ⟨placeShown, highUnit⟩ := shown?_eq_some_iff.mp present
  refine Bool.eq_false_iff.mpr fun isPair => ?_
  obtain ⟨lowPlace, inStretch, isLow⟩ :=
    List.mem_filterMap.mp (List.mem_of_head? isHead)
  obtain ⟨behind, beforeStop⟩ := List.mem_range'_1.mp inStretch
  have lowInside : lowPlace < view.buffer.size :=
    (Array.getElem?_eq_some_iff.mp (shown?_eq_some_iff.mp isLow).2).1
  have notFeed : view.buffer.unit? place ≠ some CodeUnit.lineFeed := by
    rw [highUnit]
    rintro ⟨⟩
    cases (Bool.and_eq_true_iff.mp isPair).1
  -- the unit behind the high one is shown, so it is the first of the second
  -- stretch
  have nextInside : place + 1 < view.buffer.size := by
    omega
  have nextShown := hides.next_shown placeShown nextInside notFeed
  have isNext : view.shown? (place + 1) = some view.buffer.units[place + 1] :=
    shown?_eq_some_iff.mpr ⟨nextShown, Array.getElem?_eq_getElem nextInside⟩
  have meet : place + 1 = middle := by
    by_cases earlier : place + 1 < middle
    · cases (nothing (place + 1) (by omega) (by omega)).symm.trans isNext
    · omega
  subst meet
  obtain ⟨length, lengthEq⟩ : ∃ length, stop - (place + 1) = length + 1 :=
    ⟨stop - (place + 1) - 1, by omega⟩
  rw [visible, lengthEq, List.range'_succ,
    List.filterMap_cons_some isNext] at isHead
  cases isHead
  exact whole ⟨high, _, Nat.succ_pos place, highUnit,
    (shown?_eq_some_iff.mp isNext).2, isPair⟩

/--
Around an offset that splits no pair, the
texts of two stretches are that of both.
-/
theorem HidesLines.toString_visible
    (hides : view.HidesLines)
    (whole : ¬view.buffer.SplitsPair middle)
    (first : start ≤ middle)
    (second : middle ≤ stop) :
    Utf16.toString (view.visible start middle) ++
      Utf16.toString (view.visible middle stop) =
      Utf16.toString (view.visible start stop) := by
  rw [← Utf16.toString_append (hides.isSeam whole),
    view.visible_append first second]

end Snbt.View
