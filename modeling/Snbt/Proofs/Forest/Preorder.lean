import Mathlib.Data.List.Nodup
import Snbt.Proofs.Forest.Lineage

namespace Snbt.Forest

/-!
# Nodes in order

Depth first and left to right, a node comes before everything below it, and
what is below a child comes before what is below the next.  A child has one
ancestor more than its parent, so that a path down cannot be longer than the
forest; hence what holds of a node when it holds of its children holds of every
node, and the order is the same at every depth that leaves room enough.
-/

variable {forest : Forest} {id child other : NodeId}

/--
A node and everything below it, depth first and left to right, down to a depth.
-/
def preorderWithin (forest : Forest) : Nat → NodeId → List NodeId
  | 0, _ =>
      []
  | depth + 1, id =>
      id :: (forest.childrenOf id).flatMap (forest.preorderWithin depth)

/-- A node and everything below it, depth first and left to right. -/
def preorder (forest : Forest) (id : NodeId) : List NodeId :=
  forest.preorderWithin forest.size id

/-- How many more nodes a path down from a node can have. -/
def room (forest : Forest) (id : NodeId) : Nat :=
  forest.size - (forest.lineage id).length

/-! ## Paths down -/

/-- A node that has a parent exists. -/
theorem lt_size_of_parentOf?
    {parent : NodeId}
    (isParent : forest.parentOf? id = some parent) :
    id < forest.size := by
  obtain ⟨node, isNode, _⟩ := Option.bind_eq_some_iff.mp isParent
  exact lt_size_of_node? isNode

/-- A child exists, since it knows its parent. -/
theorem child_lt_size
    (sound : forest.links.Sound)
    (isChild : child ∈ forest.childrenOf id) :
    child < forest.size :=
  lt_size_of_parentOf? ((sound.mem_children_iff id child).mp isChild)

/-- A child has the ancestors of its parent, and its parent. -/
theorem lineage_child
    (sound : forest.links.Sound)
    (isChild : child ∈ forest.childrenOf id) :
    forest.lineage child = child :: forest.lineage id := by
  have isParent : forest.parentOf? child = some id :=
    (sound.mem_children_iff id child).mp isChild
  rw [← lineageWithin_of_larger sound (child_lt_size sound isChild) 1,
    lineageWithin_succ, isParent]
  rfl

/-- There is less room below a child. -/
theorem room_child_lt
    (sound : forest.links.Sound)
    (isChild : child ∈ forest.childrenOf id) :
    forest.room child < forest.room id := by
  have short :=
    length_lineageWithin_le sound (child_lt_size sound isChild) forest.size
  rw [← lineage, lineage_child sound isChild, List.length_cons] at short
  rw [room, room, lineage_child sound isChild, List.length_cons]
  omega

/--
A depth that leaves room below a node leaves
room below its children with one less.
-/
theorem room_child_lt_of_lt_succ
    {depth : Nat}
    (sound : forest.links.Sound)
    (isChild : child ∈ forest.childrenOf id)
    (enough : forest.room id < depth + 1) :
    forest.room child < depth :=
  Nat.lt_of_lt_of_le (room_child_lt sound isChild) (Nat.le_of_lt_succ enough)

/--
No path is as long as the forest has nodes, the first of them not counted.
-/
theorem room_lt_size
    (inside : id < forest.size) :
    forest.room id < forest.size := by
  obtain ⟨before, size⟩ :=
    Nat.exists_eq_succ_of_ne_zero (Nat.ne_zero_of_lt inside)
  rw [room, lineage, size, Nat.succ_eq_add_one, lineageWithin_succ,
    List.length_cons]
  omega

/-- What holds of a node if it holds of its children holds of every node. -/
theorem childInduction
    {motive : NodeId → Prop}
    (sound : forest.links.Sound)
    (step :
      ∀ id < forest.size, (∀ child ∈ forest.childrenOf id, motive child) →
        motive id)
    (inside : id < forest.size) :
    motive id := by
  induction bound : forest.room id using Nat.strongRecOn generalizing id with
  | ind room inductionHypothesis =>
      apply step id inside
      intro child isChild
      refine inductionHypothesis _ ?_ (child_lt_size sound isChild) rfl
      rw [← bound]
      exact room_child_lt sound isChild

/-! ## The order -/

/-- The order is the same at every depth that leaves room enough. -/
theorem preorderWithin_congr
    {depth deeper : Nat}
    (sound : forest.links.Sound)
    (enough : forest.room id < depth)
    (alsoEnough : forest.room id < deeper) :
    forest.preorderWithin depth id = forest.preorderWithin deeper id := by
  induction depth generalizing id deeper with
  | zero =>
      cases enough
  | succ depth inductionHypothesis =>
      obtain ⟨deeper, rfl⟩ :=
        Nat.exists_eq_succ_of_ne_zero (Nat.ne_zero_of_lt alsoEnough)
      rw [preorderWithin, Nat.succ_eq_add_one, preorderWithin]
      congr 1
      apply List.flatMap_congr
      intro child isChild
      exact inductionHypothesis (room_child_lt_of_lt_succ sound isChild enough)
        (room_child_lt_of_lt_succ sound isChild alsoEnough)

/--
A node comes first, and then what is below its children, one after the other.
-/
theorem preorder_eq
    (sound : forest.links.Sound)
    (inside : id < forest.size) :
    forest.preorder id =
      id :: (forest.childrenOf id).flatMap forest.preorder := by
  have enough := room_lt_size inside
  rw [preorder, preorderWithin_congr sound enough (Nat.lt_succ_of_lt enough),
    preorderWithin]
  rfl

/-- What is below a node exists. -/
theorem lt_size_of_atOrAbove
    (inside : id < forest.size)
    (below : forest.links.AtOrAbove id other) :
    other < forest.size := by
  rcases Relation.ReflTransGen.cases_tail below with rfl | ⟨parent, _, isParent⟩
  · exact inside
  · exact lt_size_of_parentOf? isParent

/-- The node and everything below it is met, and nothing else. -/
theorem mem_preorder_iff
    (sound : forest.links.Sound)
    (inside : id < forest.size) :
    other ∈ forest.preorder id ↔ forest.links.AtOrAbove id other := by
  refine childInduction
    (motive := fun id =>
      ∀ other, other ∈ forest.preorder id ↔ forest.links.AtOrAbove id other)
    sound ?_ inside other
  intro id inside inductionHypothesis other
  rw [preorder_eq sound inside, List.mem_cons, List.mem_flatMap]
  constructor
  · rintro (rfl | ⟨child, isChild, member⟩)
    · exact .refl
    · have isParent := (sound.mem_children_iff id child).mp isChild
      exact .head isParent ((inductionHypothesis child isChild other).mp member)
  · intro below
    rcases Relation.ReflTransGen.cases_head below with
      rfl | ⟨child, isParent, below⟩
    · exact .inl rfl
    · have isChild := (sound.mem_children_iff id child).mpr isParent
      exact .inr ⟨child, isChild,
        (inductionHypothesis child isChild other).mpr below⟩

/-- No node is met twice. -/
theorem nodup_preorder
    (sound : forest.links.Sound)
    (inside : id < forest.size) :
    (forest.preorder id).Nodup := by
  refine childInduction (motive := fun id => (forest.preorder id).Nodup)
    sound ?_ inside
  intro id inside inductionHypothesis
  have below {child other : NodeId} (isChild : child ∈ forest.childrenOf id)
      (member : other ∈ forest.preorder child) :
        forest.links.AtOrAbove child other :=
    (mem_preorder_iff sound (child_lt_size sound isChild)).mp member
  rw [preorder_eq sound inside, List.nodup_cons]
  constructor
  · intro again
    obtain ⟨child, isChild, member⟩ := List.mem_flatMap.mp again
    have isParent := (sound.mem_children_iff id child).mp isChild
    exact sound.acyclic id (.head' isParent (below isChild member))
  · refine List.nodup_flatMap.mpr ⟨inductionHypothesis, ?_⟩
    apply (sound.nodup id).imp_of_mem
    intro child sibling isChild isSibling apart other member again
    exact sound.not_below_both isChild isSibling apart (below isChild member)
      (below isSibling again)

/-- No more nodes are met than there are. -/
theorem length_preorder_le
    (sound : forest.links.Sound)
    (inside : id < forest.size) :
    (forest.preorder id).length ≤ forest.size := by
  have covered : forest.preorder id ⊆ List.range forest.size := by
    intro other member
    rw [mem_preorder_iff sound inside] at member
    exact List.mem_range.mpr (lt_size_of_atOrAbove inside member)
  have shorter := (nodup_preorder sound inside).subperm covered
  simpa using shorter.length_le

end Snbt.Forest
