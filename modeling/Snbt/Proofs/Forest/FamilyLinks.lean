import Mathlib.Data.List.Perm.Basic
import Mathlib.Logic.Function.Basic
import Mathlib.Logic.Relation
import Snbt.Forest.Basic

namespace Snbt

/-!
# Parents and children

A forest keeps its edges twice: parents list their children, and children know
their parents.  The two agree, no child is listed twice, and no node is above
itself.  A node without a parent can be adopted by any node that it is not
above, and a child can be let go; both keep all of this.
-/

/-- The children that nodes list, and the parents that nodes know. -/
@[ext]
structure FamilyLinks where
  children : NodeId → List NodeId
  parent? : NodeId → Option NodeId

namespace FamilyLinks

variable {links : FamilyLinks} {parent child : NodeId} {listed : List NodeId}

/-- A node knows another as its parent. -/
def IsParent (links : FamilyLinks) (parent child : NodeId) : Prop :=
  links.parent? child = some parent

/-- A node is a parent of another, or a parent's parent, and so on. -/
def Above (links : FamilyLinks) : NodeId → NodeId → Prop :=
  Relation.TransGen links.IsParent

/-- A node is another, or above it. -/
def AtOrAbove (links : FamilyLinks) : NodeId → NodeId → Prop :=
  Relation.ReflTransGen links.IsParent

/-- Both sides of the edges agree, and the edges form trees. -/
structure Sound (links : FamilyLinks) : Prop where
  mem_children_iff : ∀ parent child,
    child ∈ links.children parent ↔ links.parent? child = some parent
  nodup : ∀ parent, (links.children parent).Nodup
  acyclic : ∀ id, ¬links.Above id id

/-- A node becomes a child, and its parent lists these children then. -/
def adopt
    (links : FamilyLinks)
    (parent child : NodeId)
    (listed : List NodeId) :
    FamilyLinks where
  children := Function.update links.children parent listed
  parent? := Function.update links.parent? child (some parent)

/--
A node becomes nobody's child, and its former parent lists these children then.
-/
def letGo
    (links : FamilyLinks)
    (parent child : NodeId)
    (listed : List NodeId) :
    FamilyLinks where
  children := Function.update links.children parent listed
  parent? := Function.update links.parent? child none

/-- All children of a node become nobody's. -/
def letAllGo (links : FamilyLinks) (parent : NodeId) : FamilyLinks where
  children := Function.update links.children parent []
  parent? := fun child =>
    if child ∈ links.children parent then none else links.parent? child

/-- With fewer edges no more nodes are above others. -/
theorem AtOrAbove.of_fewer
    {fewer : FamilyLinks}
    {upper lower : NodeId}
    (subset :
      ∀ parent child, fewer.IsParent parent child → links.IsParent parent child)
    (above : fewer.AtOrAbove upper lower) :
    links.AtOrAbove upper lower :=
  Relation.ReflTransGen.mono subset _ _ above

/-- With fewer edges no node comes to be above itself. -/
theorem acyclic_of_fewer
    {fewer : FamilyLinks}
    (subset :
      ∀ parent child, fewer.IsParent parent child → links.IsParent parent child)
    (acyclic : ∀ id, ¬links.Above id id) :
    ∀ id, ¬fewer.Above id id :=
  fun id above => acyclic id (Relation.TransGen.mono subset _ _ above)

/--
What is above another after an adoption was so before, or is so through the new
edge, which leads from the parent down to the child.
-/
theorem above_adopt
    {upper lower : NodeId}
    (apart : ¬links.AtOrAbove child parent)
    (above : (links.adopt parent child listed).Above upper lower) :
    links.Above upper lower ∨
      links.AtOrAbove upper parent ∧ links.AtOrAbove child lower := by
  have edge :
      ∀ {first second},
        (links.adopt parent child listed).IsParent first second →
      links.IsParent first second ∨ first = parent ∧ second = child := by
    intro first second isParent
    by_cases isChild : second = child
    · subst isChild
      simp only [IsParent, adopt, Function.update_self] at isParent
      exact .inr ⟨(Option.some.inj isParent).symm, rfl⟩
    · simp only [IsParent, adopt, Function.update_of_ne isChild] at isParent
      exact .inl isParent
  induction above with
  | single isParent =>
      rcases edge isParent with old | ⟨rfl, rfl⟩
      · exact .inl (.single old)
      · exact .inr ⟨.refl, .refl⟩
  | tail _ isParent inductionHypothesis =>
      rcases edge isParent with old | ⟨rfl, rfl⟩
      · rcases inductionHypothesis with above | ⟨above, below⟩
        · exact .inl (above.tail old)
        · exact .inr ⟨above, below.tail old⟩
      · rcases inductionHypothesis with above | ⟨_, below⟩
        · exact .inr ⟨above.to_reflTransGen, .refl⟩
        · exact absurd below apart

/-- Of two nodes that are at or above a third, one is at or above the other. -/
theorem AtOrAbove.linear
    {first second lower : NodeId}
    (above : links.AtOrAbove first lower)
    (alsoAbove : links.AtOrAbove second lower) :
    links.AtOrAbove first second ∨ links.AtOrAbove second first := by
  have oneParent : Relator.RightUnique (Function.swap links.IsParent) := by
    intro child parent other isParent isOther
    exact Option.some.inj (isParent.symm.trans isOther)
  rcases Relation.ReflTransGen.total_of_right_unique oneParent above.swap
    alsoAbove.swap with
    down | down
  · exact .inr down.swap
  · exact .inl down.swap

namespace Sound

/-- No node is below two children of another. -/
theorem not_below_both
    {sibling lower : NodeId}
    (sound : links.Sound)
    (isChild : child ∈ links.children parent)
    (isSibling : sibling ∈ links.children parent)
    (apart : child ≠ sibling)
    (below : links.AtOrAbove child lower) :
    ¬links.AtOrAbove sibling lower := by
  -- a child that is above its sibling is above their parent, and so above
  -- itself
  have notAbove : ∀ {first second}, first ∈ links.children parent →
      second ∈ links.children parent → first ≠ second →
      ¬links.AtOrAbove first second := by
    intro first second isFirst isSecond apart above
    rw [sound.mem_children_iff] at isFirst isSecond
    rcases Relation.ReflTransGen.cases_tail above with
      same | ⟨other, above, isOther⟩
    · exact apart same.symm
    · cases Option.some.inj (isOther.symm.trans isSecond)
      exact sound.acyclic parent (.head' isFirst above)
  intro alsoBelow
  rcases below.linear alsoBelow with above | above
  · exact notAbove isChild isSibling apart above
  · exact notAbove isSibling isChild apart.symm above

/-- A node without a parent that is not above its new parent is adopted. -/
theorem adopt
    (sound : links.Sound)
    (orphan : links.parent? child = none)
    (apart : ¬links.AtOrAbove child parent)
    (isListed : listed.Perm (child :: links.children parent)) :
    (links.adopt parent child listed).Sound := by
  have notListed : ∀ other, child ∉ links.children other := by
    intro other member
    rw [sound.mem_children_iff, orphan] at member
    cases member
  constructor
  case mem_children_iff =>
    intro other id
    simp only [FamilyLinks.adopt, Function.update_apply]
    by_cases isParent : other = parent
    · subst isParent
      rw [if_pos rfl, isListed.mem_iff, List.mem_cons, sound.mem_children_iff]
      by_cases isChild : id = child
      · rw [if_pos isChild]
        exact iff_of_true (.inl isChild) rfl
      · rw [if_neg isChild]
        exact or_iff_right isChild
    · rw [if_neg isParent, sound.mem_children_iff]
      by_cases isChild : id = child
      · rw [if_pos isChild, isChild, orphan]
        exact iff_of_false nofun fun same =>
          isParent (Option.some.inj same).symm
      · rw [if_neg isChild]
  case nodup =>
    intro other
    simp only [FamilyLinks.adopt, Function.update_apply]
    split
    case isTrue =>
      exact isListed.nodup_iff.mpr
        (List.nodup_cons.mpr ⟨notListed parent, sound.nodup parent⟩)
    case isFalse =>
      exact sound.nodup other
  case acyclic =>
    intro id above
    rcases above_adopt apart above with old | ⟨upper, lower⟩
    · exact sound.acyclic id old
    · exact apart (lower.trans upper)

/-- Letting a child go loses its edge and no other. -/
theorem letGo_subset
    (other id : NodeId)
    (isParent : (links.letGo parent child listed).IsParent other id) :
    links.IsParent other id := by
  simp only [IsParent, FamilyLinks.letGo, Function.update_apply] at isParent
  split at isParent
  case isTrue =>
    cases isParent
  case isFalse =>
    exact isParent

/-- A child is let go. -/
theorem letGo
    (sound : links.Sound)
    (wasListed : (links.children parent).Perm (child :: listed)) :
    (links.letGo parent child listed).Sound := by
  have isChild : links.parent? child = some parent := by
    rw [← sound.mem_children_iff, wasListed.mem_iff]
    exact List.mem_cons_self
  obtain ⟨notListed, nodup⟩ :=
    List.nodup_cons.mp (wasListed.nodup_iff.mp (sound.nodup parent))
  constructor
  case mem_children_iff =>
    intro other id
    simp only [FamilyLinks.letGo, Function.update_apply]
    by_cases isLost : id = child
    · subst isLost
      rw [if_pos rfl]
      refine iff_of_false ?_ nofun
      split
      case isTrue =>
        exact notListed
      case isFalse isOther =>
        rw [sound.mem_children_iff, isChild]
        exact fun same => isOther (Option.some.inj same).symm
    · rw [if_neg isLost, ← sound.mem_children_iff]
      split
      case isTrue isParent =>
        rw [isParent, wasListed.mem_iff, List.mem_cons]
        exact (or_iff_right isLost).symm
      case isFalse =>
        exact Iff.rfl
  case nodup =>
    intro other
    simp only [FamilyLinks.letGo, Function.update_apply]
    split
    case isTrue =>
      exact nodup
    case isFalse =>
      exact sound.nodup other
  case acyclic =>
    exact acyclic_of_fewer letGo_subset sound.acyclic

/-- All children of a node are let go. -/
theorem letAllGo
    (sound : links.Sound)
    (parent : NodeId) :
    (links.letAllGo parent).Sound := by
  constructor
  case mem_children_iff =>
    intro other id
    simp only [FamilyLinks.letAllGo, Function.update_apply]
    by_cases isParent : other = parent
    · subst isParent
      rw [if_pos rfl]
      split
      case isTrue =>
        simp
      case isFalse notChild =>
        rw [← sound.mem_children_iff]
        exact iff_of_false List.not_mem_nil notChild
    · rw [if_neg isParent, sound.mem_children_iff]
      split
      case isTrue wasChild =>
        rw [sound.mem_children_iff] at wasChild
        rw [wasChild]
        exact iff_of_false
          (fun same => isParent (Option.some.inj same).symm) nofun
      case isFalse =>
        exact Iff.rfl
  case nodup =>
    intro other
    simp only [FamilyLinks.letAllGo, Function.update_apply]
    split
    case isTrue =>
      exact List.nodup_nil
    case isFalse =>
      exact sound.nodup other
  case acyclic =>
    refine acyclic_of_fewer (fun other id isParent => ?_) sound.acyclic
    simp only [IsParent, FamilyLinks.letAllGo] at isParent
    split at isParent
    case isTrue =>
      cases isParent
    case isFalse =>
      exact isParent

/--
A child gives its place to a node without
a parent that is not above its new parent.
-/
theorem exchange
    {former : NodeId}
    {others : List NodeId}
    (sound : links.Sound)
    (orphan : links.parent? child = none)
    (apart : ¬links.AtOrAbove child parent)
    (wasListed : (links.children parent).Perm (former :: others))
    (isListed : listed.Perm (child :: others)) :
    ((links.letGo parent former others).adopt parent child listed).Sound := by
  refine (sound.letGo wasListed).adopt ?_ ?_ ?_
  · simp only [FamilyLinks.letGo, Function.update_apply, orphan, ite_self]
  · exact fun above => apart (above.of_fewer letGo_subset)
  · simp only [FamilyLinks.letGo, Function.update_self]
    exact isListed

end Sound

end FamilyLinks

end Snbt
