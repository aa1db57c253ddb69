import Mathlib.Data.List.Nodup
import Mathlib.Data.List.Perm.Subperm
import Mathlib.Data.List.Range
import Snbt.Forest.Children
import Snbt.Proofs.Forest.FamilyLinks
import Snbt.Proofs.Forest.Nodes

namespace Snbt.Forest

/-!
# Ancestors in a forest

The walk from a node to its ancestors is bounded by the number of nodes.
Where no node is above itself, it meets no node twice and therefore never
comes to its bound, so it finds exactly the nodes that are at or above the
one it starts from.
-/

variable {forest : Forest} {id upper : NodeId} {bound : Nat}

/-- The parent of a node; a node that does not exist has none. -/
def parentOf? (forest : Forest) (id : NodeId) : Option NodeId :=
  (forest.node? id).bind (·.parent?)

/-- The edges of a forest from both sides. -/
def links (forest : Forest) : FamilyLinks where
  children := forest.childrenOf
  parent? := forest.parentOf?

theorem lt_size_of_mem_childrenOf
    {child : NodeId}
    (isChild : child ∈ forest.childrenOf id) :
    id < forest.size := by
  unfold childrenOf at isChild
  split at isChild
  case h_1 isNode =>
    exact lt_size_of_node? isNode
  case h_2 =>
    cases isChild

/-- A parent exists, since it lists its children. -/
theorem parent_lt_size
    {parent : NodeId}
    (sound : forest.links.Sound)
    (isParent : forest.parentOf? id = some parent) :
    parent < forest.size :=
  lt_size_of_mem_childrenOf ((sound.mem_children_iff parent id).mpr isParent)

theorem lineageWithin_succ
    (forest : Forest)
    (bound : Nat)
    (id : NodeId) :
    forest.lineageWithin (bound + 1) id =
      id :: (forest.parentOf? id).elim [] (forest.lineageWithin bound) := by
  rw [lineageWithin, parentOf?]
  cases (forest.node? id).bind (·.parent?) with
  | none =>
      rfl
  | some parent =>
      rfl

/-- Only what is at or above a node is in its lineage. -/
theorem atOrAbove_of_mem_lineageWithin
    (member : upper ∈ forest.lineageWithin bound id) :
    forest.links.AtOrAbove upper id := by
  induction bound generalizing id with
  | zero =>
      cases member
  | succ bound inductionHypothesis =>
      rw [lineageWithin_succ, List.mem_cons] at member
      rcases member with rfl | later
      · exact .refl
      · cases isParent : forest.parentOf? id with
        | none =>
            rw [isParent] at later
            cases later
        | some parent =>
            rw [isParent] at later
            exact (inductionHypothesis later).tail isParent

/-- No node is twice in a lineage. -/
theorem nodup_lineageWithin
    (acyclic : ∀ id, ¬forest.links.Above id id)
    (bound : Nat)
    (id : NodeId) :
    (forest.lineageWithin bound id).Nodup := by
  induction bound generalizing id with
  | zero =>
      exact List.nodup_nil
  | succ bound inductionHypothesis =>
      rw [lineageWithin_succ]
      cases isParent : forest.parentOf? id with
      | none =>
          exact List.nodup_singleton id
      | some parent =>
          refine List.nodup_cons.mpr
            ⟨fun again => ?_, inductionHypothesis parent⟩
          exact acyclic id
            (.tail' (atOrAbove_of_mem_lineageWithin again) isParent)

/-- Every node of a lineage exists. -/
theorem lt_size_of_mem_lineageWithin
    (sound : forest.links.Sound)
    (inside : id < forest.size)
    (member : upper ∈ forest.lineageWithin bound id) :
    upper < forest.size := by
  induction atOrAbove_of_mem_lineageWithin member using
    Relation.ReflTransGen.head_induction_on with
  | refl =>
      exact inside
  | head isParent _ _ =>
      exact parent_lt_size sound isParent

/-- A lineage is never longer than the forest, whatever its bound. -/
theorem length_lineageWithin_le
    (sound : forest.links.Sound)
    (inside : id < forest.size)
    (bound : Nat) :
    (forest.lineageWithin bound id).length ≤ forest.size := by
  have covered : forest.lineageWithin bound id ⊆ List.range forest.size :=
    fun _ member =>
      List.mem_range.mpr (lt_size_of_mem_lineageWithin sound inside member)
  have shorter := (nodup_lineageWithin sound.acyclic bound id).subperm covered
  simpa using shorter.length_le

/-- A smaller bound cuts the same lineage short. -/
theorem lineageWithin_eq_take
    (forest : Forest)
    (bound more : Nat)
    (id : NodeId) :
    forest.lineageWithin bound id =
      (forest.lineageWithin (bound + more) id).take bound := by
  induction bound generalizing id with
  | zero =>
      rfl
  | succ bound inductionHypothesis =>
      rw [Nat.add_right_comm, lineageWithin_succ, lineageWithin_succ,
        List.take_succ_cons]
      cases forest.parentOf? id with
      | none =>
          simp
      | some parent =>
          exact congrArg (id :: ·) (inductionHypothesis parent)

/-- The walk to the ancestors ends by itself before it comes to its bound. -/
theorem lineageWithin_of_larger
    (sound : forest.links.Sound)
    (inside : id < forest.size)
    (more : Nat) :
    forest.lineageWithin (forest.size + more) id = forest.lineage id := by
  rw [lineage, lineageWithin_eq_take forest forest.size more]
  exact (List.take_of_length_le (length_lineageWithin_le sound inside _)).symm

/-- A walk that stops before its bound has met everything above its start. -/
theorem mem_lineageWithin_of_atOrAbove
    (shorter : (forest.lineageWithin bound id).length < bound)
    (above : forest.links.AtOrAbove upper id) :
    upper ∈ forest.lineageWithin bound id := by
  induction bound generalizing id with
  | zero =>
      cases shorter
  | succ bound inductionHypothesis =>
      rw [lineageWithin_succ] at shorter ⊢
      rcases Relation.ReflTransGen.cases_tail above with
        rfl | ⟨parent, above, isParent⟩
      · exact List.mem_cons_self
      · have isParent : forest.parentOf? id = some parent := isParent
        rw [isParent] at shorter ⊢
        exact List.mem_cons_of_mem _
          (inductionHypothesis (Nat.lt_of_succ_lt_succ shorter) above)

/-- The lineage of a node that exists is the node and everything above it. -/
theorem mem_lineage_iff
    (sound : forest.links.Sound)
    (inside : id < forest.size) :
    upper ∈ forest.lineage id ↔ forest.links.AtOrAbove upper id := by
  refine ⟨atOrAbove_of_mem_lineageWithin, fun above => ?_⟩
  rw [← lineageWithin_of_larger sound inside 1]
  exact mem_lineageWithin_of_atOrAbove
    (Nat.lt_succ_of_le (length_lineageWithin_le sound inside _)) above

end Snbt.Forest
