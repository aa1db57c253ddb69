import Snbt.Forest.Leaves
import Snbt.Proofs.Forest.Lineage

namespace Snbt.Forest

/-!
# What operations do to parents and children

Each operation on a forest is read as an operation on its family links.  Four
of them change links: inserting a child, replacing one, taking one out, and
clearing all.  The others change contents only, or make a node without links.
-/

variable
  {forest next : Forest}
  {parent child id : NodeId}
  {index : Nat}
  {branch : Branch}

/-! ## Both sides of the edges after a change -/

theorem childrenOf_eq_elim
    (forest : Forest)
    (id : NodeId) :
    forest.childrenOf id = (forest.node? id).elim [] Node.children := by
  rw [childrenOf]
  cases forest.node? id with
  | none =>
      rfl
  | some node =>
      rfl

theorem childrenOf_eq_of_branch
    (isBranch : forest.branch id = .ok branch) :
    forest.childrenOf id = branch.children := by
  obtain ⟨node, isNode, content⟩ := branch_eq_ok_iff.mp isBranch
  rw [childrenOf_eq_elim, isNode, Option.elim_some, Node.children, content]

/--
A change that keeps the children and the parent of a node keeps all links.
-/
theorem links_update
    {change : Node → Node}
    (forest : Forest)
    (id : NodeId)
    (sameChildren : ∀ node, (change node).children = node.children)
    (sameParent : ∀ node, (change node).parent? = node.parent?) :
    (forest.update id change).links = forest.links := by
  refine FamilyLinks.ext (funext fun other => ?_) (funext fun other => ?_)
  · change (forest.update id change).childrenOf other = forest.childrenOf other
    rw [childrenOf_eq_elim, childrenOf_eq_elim, node?_update]
    cases forest.node? other with
    | none =>
        simp
    | some node =>
        split
        · exact sameChildren node
        · rfl
  · change (forest.update id change).parentOf? other = forest.parentOf? other
    rw [parentOf?, parentOf?, node?_update]
    cases forest.node? other with
    | none =>
        simp
    | some node =>
        split
        · exact sameParent node
        · rfl

theorem links_updateToken
    (forest : Forest)
    (id : NodeId)
    (change : Token → Token) :
    (forest.updateToken id change).links = forest.links := by
  refine links_update forest id (fun node => ?_) (fun node => ?_)
  · cases content : node.content with
    | token token =>
        simp only [Node.children, content]
    | branch branch =>
        rfl
  · cases node.content with
    | token token =>
        rfl
    | branch branch =>
        rfl

/-- A branch that keeps its children keeps all links. -/
theorem links_updateBranch
    {change : Branch → Branch}
    (forest : Forest)
    (id : NodeId)
    (same : ∀ branch, (change branch).children = branch.children) :
    (forest.updateBranch id change).links = forest.links := by
  refine links_update forest id (fun node => ?_) (fun node => ?_)
  · cases content : node.content with
    | token token =>
        rfl
    | branch branch =>
        simp only [Node.children, content]
        exact same branch
  · cases node.content with
    | token token =>
        rfl
    | branch branch =>
        rfl

/-- A new node that lists no children has no links. -/
theorem links_push
    {content : Content}
    (forest : Forest)
    (unparsed : Bool)
    (childless : ∀ node : Node, node.content = content → node.children = []) :
    (forest.push content unparsed).links = forest.links := by
  have absent : forest.node? forest.size = none :=
    Array.getElem?_eq_none (Nat.le_refl _)
  refine FamilyLinks.ext (funext fun other => ?_) (funext fun other => ?_)
  · change (forest.push content unparsed).childrenOf other =
      forest.childrenOf other
    rw [childrenOf_eq_elim, childrenOf_eq_elim, node?_push]
    split
    case isTrue isNew =>
      rw [isNew, absent]
      exact childless _ rfl
    case isFalse =>
      rfl
  · change (forest.push content unparsed).parentOf? other =
      forest.parentOf? other
    rw [parentOf?, parentOf?, node?_push]
    split
    case isTrue isNew =>
      rw [isNew, absent]
      rfl
    case isFalse =>
      rfl

theorem parentOf?_updateBranch
    (forest : Forest)
    (id : NodeId)
    (change : Branch → Branch) :
    (forest.updateBranch id change).parentOf? = forest.parentOf? := by
  funext other
  rw [updateBranch, parentOf?, node?_update, parentOf?]
  cases forest.node? other with
  | none =>
      simp
  | some node =>
      cases content : node.content with
      | token token =>
          simp [content]
      | branch branch =>
          simp only [content, Option.map_some]
          split
          · rfl
          · rfl

/-- What a changed branch lists is listed, and the others list what they did. -/
theorem childrenOf_updateBranch
    {change : Branch → Branch}
    (isBranch : forest.branch id = .ok branch) :
    (forest.updateBranch id change).childrenOf =
      Function.update forest.childrenOf id (change branch).children := by
  obtain ⟨node, isNode, content⟩ := branch_eq_ok_iff.mp isBranch
  funext other
  rw [Function.update_apply, childrenOf_eq_elim, updateBranch, node?_update]
  by_cases here : id = other
  · subst here
    rw [if_pos rfl, if_pos rfl, isNode]
    simp [Node.children, content]
  · rw [if_neg here, if_neg (Ne.symm here), childrenOf_eq_elim]

theorem childrenOf_setParent
    (forest : Forest)
    (parent? : Option NodeId)
    (id : NodeId) :
    (forest.setParent parent? id).childrenOf = forest.childrenOf := by
  funext other
  rw [setParent, childrenOf_eq_elim, node?_update, childrenOf_eq_elim]
  cases forest.node? other with
  | none =>
      simp
  | some node =>
      split
      · rfl
      · rfl

theorem parentOf?_setParent
    (parent? : Option NodeId)
    (inside : id < forest.size) :
    (forest.setParent parent? id).parentOf? =
      Function.update forest.parentOf? id parent? := by
  funext other
  rw [setParent, parentOf?, node?_update, Function.update_apply]
  by_cases here : id = other
  · subst here
    obtain ⟨node, isNode⟩ := exists_node? inside
    rw [if_pos rfl, if_pos rfl, isNode]
    rfl
  · rw [if_neg here, if_neg (Ne.symm here), parentOf?]

/-- Taking the parent from a node takes nothing from one that does not exist. -/
theorem parentOf?_setParent_none
    (forest : Forest)
    (id : NodeId) :
    (forest.setParent none id).parentOf? =
      Function.update forest.parentOf? id none := by
  by_cases inside : id < forest.size
  · exact parentOf?_setParent none inside
  · have absent : forest.node? id = none :=
      Array.getElem?_eq_none (Nat.not_lt.mp inside)
    funext other
    rw [setParent, parentOf?, node?_update, Function.update_apply]
    by_cases here : id = other
    · subst here
      rw [if_pos rfl, if_pos rfl, absent]
      rfl
    · rw [if_neg here, if_neg (Ne.symm here), parentOf?]

theorem size_setParent
    (forest : Forest)
    (parent? : Option NodeId)
    (id : NodeId) :
    (forest.setParent parent? id).size = forest.size :=
  Array.size_modify

theorem size_updateBranch
    (forest : Forest)
    (id : NodeId)
    (change : Branch → Branch) :
    (forest.updateBranch id change).size = forest.size :=
  Array.size_modify

/-! ## The operations that change links -/

/--
A node may be adopted if it has no parent and is not at or above its new one.
-/
theorem checkMayAdopt_eq_ok_iff :
    forest.checkMayAdopt parent child = .ok () ↔
      child < forest.size ∧ forest.parentOf? child = none ∧
        child ∉ forest.lineage parent ∧ parent < forest.size := by
  have absent : ∀ id, forest.node? id = none ↔ ¬id < forest.size := fun id =>
    Array.getElem?_eq_none_iff.trans Nat.not_lt.symm
  unfold checkMayAdopt Forest.parent Forest.node
  simp only [bind, Except.bind, pure, Except.pure, throw, throwThe,
    MonadExceptOf.throw]
  cases isNode : forest.node? child with
  | none =>
      simp [(absent child).mp isNode]
  | some node =>
      have isParent : forest.parentOf? child = node.parent? := by
        rw [parentOf?, isNode, Option.bind_some]
      rw [isParent]
      cases owned : node.parent? with
      | some owner =>
          simp [owned]
      | none =>
          by_cases above : child ∈ forest.lineage parent
          · simp [owned, above]
          · cases isParentNode : forest.node? parent with
            | none =>
                simp [owned, above, (absent parent).mp isParentNode]
            | some parentNode =>
                simp [owned, above, lt_size_of_node? isNode,
                  lt_size_of_node? isParentNode]

/--
A child that may be adopted is inserted
into a branch, at an index up to the last.
-/
theorem insertChild_eq_ok_iff :
    forest.insertChild parent index child = .ok next ↔
      forest.checkMayAdopt parent child = .ok () ∧
        ∃ branch, forest.branch parent = .ok branch ∧
        index ≤ branch.children.length ∧
          next =
            (forest.updateBranch parent fun branch =>
              { branch with
                children := branch.children.insertIdx index child }).setParent
              (some parent) child := by
  unfold insertChild
  simp only [bind, Except.bind, pure, Except.pure, throw, throwThe,
    MonadExceptOf.throw]
  cases forest.checkMayAdopt parent child with
  | error misuse =>
      simp
  | ok _ =>
      cases forest.branch parent with
      | error misuse =>
          simp
      | ok branch =>
          by_cases past : branch.children.length < index
          · simp [past]
          · simp [past, Nat.not_lt.mp past, eq_comm]

/-- A child that may be adopted takes the place of one that a branch has. -/
theorem setChild_eq_ok_iff
    {outcome : Forest × NodeId} :
    forest.setChild parent index child = .ok outcome ↔
      forest.checkMayAdopt parent child = .ok () ∧
        ∃ branch former, forest.branch parent = .ok branch ∧
          branch.children[index]? = some former ∧
          outcome =
            (((forest.updateBranch parent fun branch =>
              { branch with
                children := branch.children.set index child }).setParent none
                former).setParent
              (some parent) child, former) := by
  unfold setChild
  simp only [bind, Except.bind, pure, Except.pure, throw, throwThe,
    MonadExceptOf.throw]
  cases forest.checkMayAdopt parent child with
  | error misuse =>
      simp
  | ok _ =>
      cases forest.branch parent with
      | error misuse =>
          simp
      | ok branch =>
          cases atIndex : branch.children[index]? with
          | none =>
              simp [atIndex]
          | some former =>
              simp [atIndex, eq_comm]

/-- A child that a branch has is taken out. -/
theorem removeChild_eq_ok_iff
    {outcome : Forest × NodeId} :
    forest.removeChild parent index = .ok outcome ↔
      ∃ branch former, forest.branch parent = .ok branch ∧
        branch.children[index]? = some former ∧
        outcome =
          ((forest.updateBranch parent fun branch =>
            { branch with
              children := branch.children.eraseIdx index }).setParent none
              former, former) := by
  unfold removeChild
  simp only [bind, Except.bind, pure, Except.pure, throw, throwThe,
    MonadExceptOf.throw]
  cases forest.branch parent with
  | error misuse =>
      simp
  | ok branch =>
      cases atIndex : branch.children[index]? with
      | none =>
          simp [atIndex]
      | some former =>
          simp [atIndex, eq_comm]

/-- Who may be adopted has no parent yet and is not at or above the new one. -/
theorem apart_of_checkMayAdopt
    (sound : forest.links.Sound)
    (mayAdopt : forest.checkMayAdopt parent child = .ok ()) :
    ¬forest.links.AtOrAbove child parent := by
  obtain ⟨_, _, notAbove, inside⟩ := checkMayAdopt_eq_ok_iff.mp mayAdopt
  rwa [mem_lineage_iff sound inside] at notAbove

/-- The node that a branch lists at an index is listed there only. -/
theorem childrenOf_perm_of_getElem?
    {former : NodeId}
    (isBranch : forest.branch parent = .ok branch)
    (isFormer : branch.children[index]? = some former) :
    (forest.links.children parent).Perm
      (former :: branch.children.eraseIdx index) := by
  obtain ⟨short, rfl⟩ := List.getElem?_eq_some_iff.mp isFormer
  rw [show forest.links.children parent =
    branch.children from childrenOf_eq_of_branch isBranch]
  exact (List.getElem_cons_eraseIdx_perm short).symm

theorem sound_insertChild
    (sound : forest.links.Sound)
    (inserted : forest.insertChild parent index child = .ok next) :
    next.links.Sound := by
  obtain ⟨mayAdopt, branch, isBranch, within, rfl⟩ :=
    insertChild_eq_ok_iff.mp inserted
  obtain ⟨inside, orphan, _⟩ := checkMayAdopt_eq_ok_iff.mp mayAdopt
  have isListed : (branch.children.insertIdx index child).Perm
      (child :: forest.links.children parent) := by
    rw [show forest.links.children parent =
      branch.children from childrenOf_eq_of_branch isBranch]
    exact List.perm_insertIdx child branch.children within
  convert sound.adopt orphan (apart_of_checkMayAdopt sound mayAdopt)
    isListed using 1
  apply FamilyLinks.ext
  · exact (childrenOf_setParent _ _ _).trans (childrenOf_updateBranch isBranch)
  · refine (parentOf?_setParent _ ?_).trans ?_
    · exact inside.trans_eq (size_updateBranch forest parent _).symm
    · rw [parentOf?_updateBranch]
      rfl

theorem sound_addChild
    (sound : forest.links.Sound)
    (added : forest.addChild parent child = .ok next) :
    next.links.Sound := by
  unfold addChild at added
  simp only [bind, Except.bind] at added
  split at added
  · cases added
  · exact sound_insertChild sound added

theorem sound_setChild
    {outcome : Forest × NodeId}
    (sound : forest.links.Sound)
    (replaced : forest.setChild parent index child = .ok outcome) :
    outcome.1.links.Sound := by
  obtain ⟨mayAdopt, branch, former, isBranch, isFormer, rfl⟩ :=
    setChild_eq_ok_iff.mp replaced
  obtain ⟨inside, orphan, _⟩ := checkMayAdopt_eq_ok_iff.mp mayAdopt
  have wasListed := childrenOf_perm_of_getElem? isBranch isFormer
  have short := (List.getElem?_eq_some_iff.mp isFormer).1
  convert sound.exchange orphan
    (apart_of_checkMayAdopt sound mayAdopt) wasListed
    (List.set_perm_cons_eraseIdx short child) using 1
  apply FamilyLinks.ext
  · refine (childrenOf_setParent _ _ _).trans ?_
    rw [childrenOf_setParent, childrenOf_updateBranch isBranch]
    exact (Function.update_idem _ _ _).symm
  · refine (parentOf?_setParent _ ?_).trans ?_
    · rwa [size_setParent, size_updateBranch]
    · rw [parentOf?_setParent_none, parentOf?_updateBranch]
      rfl

theorem sound_removeChild
    {outcome : Forest × NodeId}
    (sound : forest.links.Sound)
    (removed : forest.removeChild parent index = .ok outcome) :
    outcome.1.links.Sound := by
  obtain ⟨branch, former, isBranch, isFormer, rfl⟩ :=
    removeChild_eq_ok_iff.mp removed
  have wasListed := childrenOf_perm_of_getElem? isBranch isFormer
  convert sound.letGo wasListed using 1
  apply FamilyLinks.ext
  · exact (childrenOf_setParent _ _ _).trans (childrenOf_updateBranch isBranch)
  · refine (parentOf?_setParent_none _ _).trans ?_
    rw [parentOf?_updateBranch]
    rfl

/-- Taking the parents from some nodes leaves what is listed. -/
theorem childrenOf_orphan
    (ids : List NodeId)
    (forest : Forest) :
    (ids.foldl (fun forest child => forest.setParent none child)
      forest).childrenOf =
      forest.childrenOf := by
  induction ids generalizing forest with
  | nil =>
      rfl
  | cons id rest inductionHypothesis =>
      exact (inductionHypothesis _).trans (childrenOf_setParent forest none id)

/-- Taking the parents from some nodes leaves those of the others. -/
theorem parentOf?_orphan
    (ids : List NodeId)
    (forest : Forest) :
    (ids.foldl (fun forest child => forest.setParent none child)
      forest).parentOf? =
      fun child => if child ∈ ids then none else forest.parentOf? child := by
  induction ids generalizing forest with
  | nil =>
      simp
  | cons id rest inductionHypothesis =>
      rw [List.foldl_cons, inductionHypothesis, parentOf?_setParent_none]
      funext child
      by_cases isRest : child ∈ rest
      · simp [isRest]
      · simp [isRest, Function.update_apply]

/--
Without children of its own a node lists none, whether it is a branch or not.
-/
theorem childrenOf_clear
    (forest : Forest)
    (id : NodeId) :
    (forest.updateBranch id fun branch =>
      { branch with children := [] }).childrenOf =
      Function.update forest.childrenOf id [] := by
  funext other
  rw [Function.update_apply, childrenOf_eq_elim, updateBranch, node?_update]
  by_cases here : id = other
  · rw [if_pos here, if_pos here.symm]
    cases forest.node? other with
    | none =>
        rfl
    | some node =>
        cases content : node.content with
        | token token =>
            simp [Node.children, content]
        | branch branch =>
            simp [Node.children, content]
  · rw [if_neg here, if_neg (Ne.symm here), childrenOf_eq_elim]

theorem sound_clearChildren
    (sound : forest.links.Sound)
    (parent : NodeId) :
    (forest.clearChildren parent).links.Sound := by
  convert sound.letAllGo parent using 1
  apply FamilyLinks.ext
  · exact (childrenOf_orphan _ _).trans (childrenOf_clear forest parent)
  · refine (parentOf?_orphan _ _).trans ?_
    rw [parentOf?_updateBranch]
    rfl

end Snbt.Forest
