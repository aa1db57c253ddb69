import Snbt.Proofs.Forest.Adoption

namespace Snbt.Forest

/-!
# Forests under any operations

Whatever is done to an empty forest, in any order and with any identities and
indices, parents and children agree and form trees.  The trees bound every walk
to the ancestors, and with them adding a child fails exactly when the child or
the parent does not admit it.
-/

variable {forest next : Forest} {parent child : NodeId}

/-- An operation that makes or changes nodes. -/
inductive Operation where
  | newToken (kind : Kind) (image : String)
  | newBranch (label : String)
  | addChild (parent child : NodeId)
  | insertChild (parent : NodeId) (index : Nat) (child : NodeId)
  | setChild (parent : NodeId) (index : Nat) (child : NodeId)
  | removeChild (parent : NodeId) (index : Nat)
  | clearChildren (parent : NodeId)
  | setNamed (parent : NodeId) (name : String) (id : NodeId)
  | addNamed (parent : NodeId) (name : String) (id : NodeId)
  | setUnparsed (id : NodeId) (unparsed : Bool)
  | setStart (id : NodeId) (offset : Nat)
  | setStop (id : NodeId) (offset : Nat)
  | copyLocation (id first last : NodeId)

/-- The forest after an operation that is admitted. -/
def attempt (forest : Forest) : Operation → Except Misuse Forest
  | .newToken kind image => .ok (forest.newToken kind image).1
  | .newBranch label => .ok (forest.newBranch label).1
  | .addChild parent child => forest.addChild parent child
  | .insertChild parent index child => forest.insertChild parent index child
  | .setChild parent index child =>
      (forest.setChild parent index child).map Prod.fst
  | .removeChild parent index => (forest.removeChild parent index).map Prod.fst
  | .clearChildren parent => .ok (forest.clearChildren parent)
  | .setNamed parent name id => forest.setNamed parent name id
  | .addNamed parent name id => forest.addNamed parent name id
  | .setUnparsed id unparsed => forest.setUnparsed id unparsed
  | .setStart id offset => forest.setStart id offset
  | .setStop id offset => forest.setStop id offset
  | .copyLocation id first last => forest.copyLocation id first last

/-- The forest after an operation; one that is refused leaves it as it was. -/
def perform (forest : Forest) (operation : Operation) : Forest :=
  match forest.attempt operation with
  | .ok next => next
  | .error _ => forest

/-- The forest after operations on an empty one. -/
def afterAll (storage : ChildStorage) (operations : List Operation) : Forest :=
  operations.foldl perform (empty storage)

/-! ## Operations that leave all links -/

theorem links_setNamed
    {name : String}
    {id : NodeId}
    (named : forest.setNamed parent name id = .ok next) :
    next.links = forest.links := by
  unfold setNamed at named
  simp only [bind, Except.bind] at named
  split at named
  · cases named
  · split at named
    · cases named
    · cases named
      exact links_updateBranch _ _ fun _ => rfl

theorem links_addNamed
    {name : String}
    {id : NodeId}
    (named : forest.addNamed parent name id = .ok next) :
    next.links = forest.links := by
  unfold addNamed at named
  simp only [bind, Except.bind] at named
  split at named
  · cases named
  · cases named
    exact links_updateBranch _ _ fun _ => rfl

theorem links_setUnparsed
    {id : NodeId}
    {unparsed : Bool}
    (set : forest.setUnparsed id unparsed = .ok next) :
    next.links = forest.links := by
  unfold setUnparsed at set
  simp only [bind, Except.bind] at set
  split at set
  · cases set
  · cases set
    exact links_update _ _ (fun _ => rfl) fun _ => rfl

theorem links_setStart
    {id : NodeId}
    {offset : Nat}
    (set : forest.setStart id offset = .ok next) :
    next.links = forest.links := by
  unfold setStart at set
  simp only [bind, Except.bind] at set
  split at set
  · cases set
  · cases set
    refine (links_updateBranch _ _ ?_).trans (links_updateToken _ _ _)
    exact fun _ => rfl

theorem links_setStop
    {id : NodeId}
    {offset : Nat}
    (set : forest.setStop id offset = .ok next) :
    next.links = forest.links := by
  unfold setStop at set
  simp only [bind, Except.bind] at set
  split at set
  · cases set
  · cases set
    refine (links_updateBranch _ _ ?_).trans (links_updateToken _ _ _)
    exact fun _ => rfl

theorem links_copyLocation
    {id first last : NodeId}
    (copied : forest.copyLocation id first last = .ok next) :
    next.links = forest.links := by
  unfold copyLocation at copied
  simp only [bind, Except.bind] at copied
  split at copied
  · cases copied
  · split at copied
    · cases copied
    · split at copied
      case h_1 =>
        cases copied
      case h_2 started startSet =>
        split at copied
        case h_1 =>
          cases copied
        case h_2 located stopSet =>
          cases copied
          rw [links_updateToken, links_setStop stopSet, links_setStart startSet]

/-! ## Every forest that operations give -/

/-- An operation that is admitted keeps the links sound. -/
theorem sound_attempt
    {operation : Operation}
    (sound : forest.links.Sound)
    (done : forest.attempt operation = .ok next) :
    next.links.Sound := by
  cases operation with
  | newToken kind image =>
      cases done
      rwa [newToken, addToken, links_push]
      intro node isToken
      rw [Node.children, isToken]
  | newBranch label =>
      cases done
      rwa [newBranch, links_push]
      intro node isBranch
      rw [Node.children, isBranch]
  | addChild parent child =>
      exact sound_addChild sound done
  | insertChild parent index child =>
      exact sound_insertChild sound done
  | setChild parent index child =>
      rw [attempt] at done
      cases replaced : forest.setChild parent index child with
      | error misuse =>
          rw [replaced] at done
          cases done
      | ok outcome =>
          rw [replaced] at done
          cases done
          exact sound_setChild sound replaced
  | removeChild parent index =>
      rw [attempt] at done
      cases removed : forest.removeChild parent index with
      | error misuse =>
          rw [removed] at done
          cases done
      | ok outcome =>
          rw [removed] at done
          cases done
          exact sound_removeChild sound removed
  | clearChildren parent =>
      cases done
      exact sound_clearChildren sound parent
  | setNamed parent name id =>
      rwa [links_setNamed done]
  | addNamed parent name id =>
      rwa [links_addNamed done]
  | setUnparsed id unparsed =>
      rwa [links_setUnparsed done]
  | setStart id offset =>
      rwa [links_setStart done]
  | setStop id offset =>
      rwa [links_setStop done]
  | copyLocation id first last =>
      rwa [links_copyLocation done]

theorem sound_perform
    (sound : forest.links.Sound)
    (operation : Operation) :
    (forest.perform operation).links.Sound := by
  unfold perform
  split
  case h_1 done =>
    exact sound_attempt sound done
  case h_2 =>
    exact sound

/-- Without nodes there are no links. -/
theorem sound_empty
    (storage : ChildStorage) :
    (empty storage).links.Sound where
  mem_children_iff _ _ := iff_of_false List.not_mem_nil nofun
  nodup _ := List.nodup_nil
  acyclic id above := by
    obtain ⟨parent, _, isParent⟩ := Relation.TransGen.tail'_iff.mp above
    cases isParent

/-- The links are sound whatever operations were performed. -/
theorem sound_afterAll
    (storage : ChildStorage)
    (operations : List Operation) :
    (afterAll storage operations).links.Sound := by
  induction operations using List.reverseRecOn with
  | nil =>
      exact sound_empty storage
  | append_singleton before operation inductionHypothesis =>
      rw [afterAll, List.foldl_concat]
      exact sound_perform inductionHypothesis operation

/-! ## What can be asked of a forest -/

theorem children_eq_ok_iff
    {children : List NodeId} :
    forest.children parent = .ok children ↔
      parent < forest.size ∧ forest.childrenOf parent = children := by
  rw [Forest.children, Forest.node, childrenOf_eq_elim]
  simp only [bind, Except.bind, pure, Except.pure]
  cases isNode : forest.node? parent with
  | none =>
      have outside : ¬parent < forest.size := by
        intro inside
        obtain ⟨node, present⟩ := exists_node? inside
        cases isNode.symm.trans present
      simp [outside]
  | some node =>
      simp [lt_size_of_node? isNode]

theorem parent_eq_ok_some_iff :
    forest.parent child = .ok (some parent) ↔
      forest.parentOf? child = some parent := by
  rw [Forest.parent, Forest.node, parentOf?]
  simp only [bind, Except.bind, pure, Except.pure]
  cases forest.node? child with
  | none =>
      simp
  | some node =>
      simp

/-- A child is among what a node lists exactly if the node is its parent. -/
theorem mem_children_iff
    (sound : forest.links.Sound) :
    (∃ children, forest.children parent = .ok children ∧ child ∈ children) ↔
      forest.parent child = .ok (some parent) := by
  rw [parent_eq_ok_some_iff]
  refine Iff.trans ?_ (sound.mem_children_iff parent child)
  constructor
  · rintro ⟨children, listed, member⟩
    obtain ⟨_, rfl⟩ := children_eq_ok_iff.mp listed
    exact member
  · intro member
    exact ⟨_, children_eq_ok_iff.mpr ⟨lt_size_of_mem_childrenOf member, rfl⟩,
      member⟩

/-- A node that exists is a token or else a branch. -/
theorem isToken_iff_not_branch
    (inside : parent < forest.size) :
    (∃ token, forest.token parent = .ok token) ↔
      ¬∃ branch, forest.branch parent = .ok branch := by
  obtain ⟨node, isNode⟩ := exists_node? inside
  simp only [token_eq_ok_iff, token?_eq_some_iff, branch_eq_ok_iff, isNode,
    Option.some.injEq]
  cases content : node.content with
  | token token =>
      simp [content]
  | branch branch =>
      simp [content]

/--
A node is added to a branch that it is not at or above, unless it has a parent.
-/
theorem addChild_eq_ok_iff
    (sound : forest.links.Sound)
    (parentInside : parent < forest.size)
    (childInside : child < forest.size) :
    (∃ next, forest.addChild parent child = .ok next) ↔
      forest.parentOf? child = none ∧ ¬forest.links.AtOrAbove child parent ∧
        ∃ branch, forest.branch parent = .ok branch := by
  have listed : forest.children parent = .ok (forest.childrenOf parent) :=
    children_eq_ok_iff.mpr ⟨parentInside, rfl⟩
  have opened : forest.addChild parent child =
      forest.insertChild parent (forest.childrenOf parent).length child := by
    rw [addChild, listed]
    rfl
  rw [opened]
  constructor
  · rintro ⟨next, inserted⟩
    obtain ⟨mayAdopt, branch, isBranch, _⟩ := insertChild_eq_ok_iff.mp inserted
    obtain ⟨_, orphan, _⟩ := checkMayAdopt_eq_ok_iff.mp mayAdopt
    exact ⟨orphan, apart_of_checkMayAdopt sound mayAdopt, branch, isBranch⟩
  · rintro ⟨orphan, apart, branch, isBranch⟩
    rw [← mem_lineage_iff sound parentInside] at apart
    have mayAdopt :=
      checkMayAdopt_eq_ok_iff.mpr ⟨childInside, orphan, apart, parentInside⟩
    have within : (forest.childrenOf parent).length ≤ branch.children.length :=
      (congrArg List.length (childrenOf_eq_of_branch isBranch)).le
    exact ⟨_,
      insertChild_eq_ok_iff.mpr ⟨mayAdopt, branch, isBranch, within, rfl⟩⟩

/-- Adding a child to a node that exists fails if either does not admit it. -/
theorem addChild_eq_error_iff
    (sound : forest.links.Sound)
    (parentInside : parent < forest.size)
    (childInside : child < forest.size) :
    (∃ misuse, forest.addChild parent child = .error misuse) ↔
      (∃ owner, forest.parent child = .ok (some owner)) ∨
        child = parent ∨ forest.links.Above child parent ∨
        ∃ token, forest.token parent = .ok token := by
  have fails : (∃ misuse, forest.addChild parent child = .error misuse) ↔
      ¬∃ next, forest.addChild parent child = .ok next := by
    cases forest.addChild parent child with
    | error misuse =>
        simp
    | ok next =>
        simp
  have owned : (∃ owner, forest.parent child = .ok (some owner)) ↔
      ¬forest.parentOf? child = none := by
    simp only [parent_eq_ok_some_iff, ← Option.ne_none_iff_exists']
  have atOrAbove : forest.links.AtOrAbove child parent ↔
      child = parent ∨ forest.links.Above child parent :=
    Relation.reflTransGen_iff_eq_or_transGen.trans (or_congr_left eq_comm)
  rw [fails, addChild_eq_ok_iff sound parentInside childInside, owned,
    atOrAbove, isToken_iff_not_branch parentInside, not_and_or, not_and_or,
    not_not, or_assoc]

/--
After any operations on an empty forest a node is listed as a child exactly
where it has its parent, and never twice; no node is above itself, so that the
walk to the ancestors ends before its bound; tokens have no children.  Adding a
child to a node fails exactly if the child has a parent, is the node or above
it, or the node is a token.
-/
theorem afterAll_isForest
    (storage : ChildStorage)
    (operations : List Operation) :
    let forest := afterAll storage operations
    (∀ parent child,
      (∃ children, forest.children parent = .ok children ∧ child ∈ children) ↔
        forest.parent child = .ok (some parent)) ∧
    (∀ parent children, forest.children parent = .ok children →
      children.Nodup) ∧
    (∀ id, ¬forest.links.Above id id) ∧
    (∀ id more, id < forest.size →
      forest.lineageWithin (forest.size + more) id = forest.lineage id) ∧
    (∀ id token, forest.token id = .ok token → forest.children id = .ok []) ∧
    (∀ parent child, parent < forest.size → child < forest.size →
      ((∃ misuse, forest.addChild parent child = .error misuse) ↔
        (∃ owner, forest.parent child = .ok (some owner)) ∨
          child = parent ∨ forest.links.Above child parent ∨
          ∃ token, forest.token parent = .ok token)) := by
  intro forest
  have sound : forest.links.Sound := sound_afterAll storage operations
  refine ⟨fun _ _ => mem_children_iff sound, ?nodup, sound.acyclic, ?ends,
    ?leaves, ?fails⟩
  case nodup =>
    intro parent children listed
    obtain ⟨_, rfl⟩ := children_eq_ok_iff.mp listed
    exact sound.nodup parent
  case ends =>
    exact fun id more inside => lineageWithin_of_larger sound inside more
  case leaves =>
    intro id token isToken
    obtain ⟨node, isNode, content⟩ :=
      token?_eq_some_iff.mp (token_eq_ok_iff.mp isToken)
    refine children_eq_ok_iff.mpr ⟨lt_size_of_node? isNode, ?_⟩
    rw [childrenOf_eq_elim, isNode, Option.elim_some, Node.children, content]
  case fails =>
    exact fun _ _ parentInside childInside =>
      addChild_eq_error_iff sound parentInside childInside

end Snbt.Forest
