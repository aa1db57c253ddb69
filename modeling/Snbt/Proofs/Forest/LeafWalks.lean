import Snbt.Proofs.Forest.Operations
import Snbt.Proofs.Forest.Preorder

namespace Snbt.Forest

/-!
# Walks down to the tokens

The tokens under a node are taken off a stack, found by going down at one side,
and asked one after the other.  All of these walks meet the nodes in the same
order, and none comes to its bound: a stack does not, since it meets no node
twice, and a path down does not, since it is shorter than the forest.
-/

variable {forest : Forest} {id child : NodeId} {token : Token} {branch : Branch}

/-! ## Lists whose members all have an answer -/

section Answers

variable {α β : Type} {list : List α}

theorem anyM_eq_some
    {ask : α → Option Bool}
    {answer : α → Bool}
    (answers : ∀ member ∈ list, ask member = some (answer member)) :
    list.anyM ask = some (list.any answer) := by
  induction list with
  | nil =>
      rfl
  | cons first rest inductionHypothesis =>
      obtain ⟨atFirst, others⟩ := List.forall_mem_cons.mp answers
      rw [List.anyM_cons, atFirst, List.any_cons]
      cases answer first with
      | false =>
          exact inductionHypothesis others
      | true =>
          rfl

theorem findM?_eq_some
    {ask : α → Option Bool}
    {answer : α → Bool}
    (answers : ∀ member ∈ list, ask member = some (answer member)) :
    list.findM? ask = some (list.find? answer) := by
  induction list with
  | nil =>
      rfl
  | cons first rest inductionHypothesis =>
      obtain ⟨atFirst, others⟩ := List.forall_mem_cons.mp answers
      rw [List.findM?, atFirst, List.find?_cons]
      cases answer first with
      | false =>
          exact inductionHypothesis others
      | true =>
          rfl

theorem findSomeM?_eq_some
    {ask : α → Option (Option β)}
    {answer : α → Option β}
    (answers : ∀ member ∈ list, ask member = some (answer member)) :
    list.findSomeM? ask = some (list.findSome? answer) := by
  induction list with
  | nil =>
      rfl
  | cons first rest inductionHypothesis =>
      obtain ⟨atFirst, others⟩ := List.forall_mem_cons.mp answers
      rw [List.findSomeM?_cons, atFirst, List.findSome?_cons]
      cases answer first with
      | none =>
          exact inductionHypothesis others
      | some found =>
          rfl

/-- The first answer is that of the first member that has one. -/
theorem findSome?_eq_find?
    (answer : α → Option β)
    (list : List α) :
    list.findSome? answer =
      (list.find? fun member => (answer member).isSome).bind answer := by
  induction list with
  | nil =>
      rfl
  | cons first rest inductionHypothesis =>
      rw [List.findSome?_cons, List.find?_cons]
      cases found : answer first with
      | none =>
          exact inductionHypothesis
      | some result =>
          exact found.symm

theorem findSome?_flatMap
    {γ : Type}
    (answer : β → Option γ)
    (parts : α → List β)
    (list : List α) :
    (list.flatMap parts).findSome? answer =
      list.findSome? fun member => (parts member).findSome? answer := by
  induction list with
  | nil =>
      rfl
  | cons first rest inductionHypothesis =>
      rw [List.flatMap_cons, List.findSome?_append, inductionHypothesis,
        List.findSome?_cons]
      cases (parts first).findSome? answer with
      | none =>
          rfl
      | some found =>
          rfl

end Answers

/-! ## The tokens under a node -/

/-- Whether a node is a token. -/
def isToken (forest : Forest) (id : NodeId) : Bool :=
  (forest.token? id).isSome

theorem isToken_of_token?
    (present : forest.token? id = some token) :
    forest.isToken id = true := by
  rw [isToken, present, Option.isSome_some]

theorem not_isToken_of_token?
    (absent : forest.token? id = none) :
    ¬forest.isToken id = true := by
  rw [isToken, absent, Option.isSome_none]
  exact Bool.false_ne_true

/-- A node that exists is a token without children, or a branch. -/
theorem content_cases
    (inside : id < forest.size) :
    (∃ token, forest.content? id = some (.token token) ∧
      forest.token? id = some token ∧
        forest.childrenOf id = []) ∨
      ∃ branch, forest.content? id = some (.branch branch) ∧
        forest.token? id = none ∧
        forest.childrenOf id = branch.children := by
  obtain ⟨node, isNode⟩ := exists_node? inside
  rw [content?, token?, childrenOf_eq_elim, isNode, Option.map_some,
    Option.bind_some, Option.elim_some, Node.token?, Node.children]
  cases node.content with
  | token token =>
      exact .inl ⟨token, rfl, rfl, rfl⟩
  | branch branch =>
      exact .inr ⟨branch, rfl, rfl, rfl⟩

/--
The nodes of a stack are met in order, if the bound allows for all of them.
-/
theorem leavesWithin?_eq_some
    {bound : Nat}
    {stack : List NodeId}
    (sound : forest.links.Sound)
    (inside : ∀ id ∈ stack, id < forest.size)
    (enough : (stack.flatMap forest.preorder).length ≤ bound) :
    forest.leavesWithin? bound stack =
      some ((stack.flatMap forest.preorder).filter forest.isToken) := by
  induction bound generalizing stack with
  | zero =>
      cases stack with
      | nil =>
          rfl
      | cons id stack =>
          obtain ⟨inside, _⟩ := List.forall_mem_cons.mp inside
          rw [List.flatMap_cons, preorder_eq sound inside] at enough
          cases enough
  | succ bound inductionHypothesis =>
      cases stack with
      | nil =>
          rfl
      | cons id stack =>
          obtain ⟨idInside, inside⟩ := List.forall_mem_cons.mp inside
          rw [List.flatMap_cons, preorder_eq sound idInside, List.cons_append,
            List.length_cons] at enough
          rw [List.flatMap_cons, preorder_eq sound idInside, List.cons_append,
            leavesWithin?]
          rcases content_cases idInside with
            ⟨token, content, isToken, childless⟩ | ⟨branch, content,
              notToken, children⟩
          · rw [childless, List.flatMap_nil, List.nil_append] at enough ⊢
            rw [content, List.filter_cons_of_pos (isToken_of_token? isToken)]
            simp only
            rw [inductionHypothesis inside (Nat.le_of_succ_le_succ enough),
              Option.map_some]
          · rw [children, ← List.flatMap_append] at enough ⊢
            rw [content,
              List.filter_cons_of_neg (not_isToken_of_token? notToken)]
            apply inductionHypothesis _ (Nat.le_of_succ_le_succ enough)
            intro other member
            rcases List.mem_append.mp member with isChild | later
            · rw [← children] at isChild
              exact child_lt_size sound isChild
            · exact inside other later

/--
The tokens under a node are those that are met, whatever the bound
allows for beyond.
-/
theorem leavesWithin?_of_larger
    (sound : forest.links.Sound)
    (inside : id < forest.size)
    (more : Nat) :
    forest.leavesWithin? (forest.size + more) [id] =
      some ((forest.preorder id).filter forest.isToken) := by
  have all : [id].flatMap forest.preorder = forest.preorder id :=
    List.flatMap_singleton ..
  rw [leavesWithin?_eq_some sound (List.forall_mem_singleton.mpr inside), all]
  rw [all]
  exact Nat.le_add_right_of_le (length_preorder_le sound inside)

theorem leaves_eq_filter
    (sound : forest.links.Sound)
    (inside : id < forest.size) :
    forest.leaves id = (forest.preorder id).filter forest.isToken := by
  rw [leaves, ← Nat.add_zero forest.size,
    leavesWithin?_of_larger sound inside 0, Option.getD_some]

/-- The only token under a token is itself. -/
theorem leaves_of_token
    (sound : forest.links.Sound)
    (isToken : forest.token? id = some token) :
    forest.leaves id = [id] := by
  have inside := lt_size_of_token? isToken
  rcases content_cases inside with ⟨_, _, _, childless⟩ | ⟨_, _, notToken, _⟩
  · rw [leaves_eq_filter sound inside, preorder_eq sound inside, childless,
      List.flatMap_nil, List.filter_cons_of_pos (isToken_of_token? isToken),
      List.filter_nil]
  · rw [notToken] at isToken
    cases isToken

/--
The tokens under a branch are those under
its children, one child after the other.
-/
theorem leaves_of_not_token
    (sound : forest.links.Sound)
    (inside : id < forest.size)
    (notToken : forest.token? id = none) :
    forest.leaves id = (forest.childrenOf id).flatMap forest.leaves := by
  rw [leaves_eq_filter sound inside, preorder_eq sound inside,
    List.filter_cons_of_neg (not_isToken_of_token? notToken),
    List.filter_flatMap]
  apply List.flatMap_congr
  intro child isChild
  exact (leaves_eq_filter sound (child_lt_size sound isChild)).symm

theorem leaves_of_branch
    (sound : forest.links.Sound)
    (isBranch : forest.branch id = .ok branch) :
    forest.leaves id = branch.children.flatMap forest.leaves := by
  obtain ⟨node, isNode, content⟩ := branch_eq_ok_iff.mp isBranch
  have notToken : forest.token? id = none := by
    rw [token?, isNode, Option.bind_some, Node.token?, content]
  rw [leaves_of_not_token sound (lt_size_of_node? isNode) notToken,
    childrenOf_eq_of_branch isBranch]

/-- Under a node are the tokens that are the node or below it. -/
theorem mem_leaves_iff
    {leaf : NodeId}
    (sound : forest.links.Sound)
    (inside : id < forest.size) :
    leaf ∈ forest.leaves id ↔
      forest.links.AtOrAbove id leaf ∧
        ∃ token, forest.token? leaf = some token := by
  rw [leaves_eq_filter sound inside, List.mem_filter,
    mem_preorder_iff sound inside, isToken, Option.isSome_iff_exists]

/-- No token is met twice. -/
theorem nodup_leaves
    (sound : forest.links.Sound)
    (inside : id < forest.size) :
    (forest.leaves id).Nodup := by
  rw [leaves_eq_filter sound inside]
  exact (nodup_preorder sound inside).filter _

/-! ## Going down -/

/-- Whether there are tokens under a node. -/
theorem hasTokenWithin?_eq_some
    {depth : Nat}
    (sound : forest.links.Sound)
    (inside : id < forest.size)
    (enough : forest.room id < depth) :
    forest.hasTokenWithin? depth id = some (!(forest.leaves id).isEmpty) := by
  induction depth generalizing id with
  | zero =>
      cases enough
  | succ depth inductionHypothesis =>
      rw [hasTokenWithin?]
      rcases content_cases inside with
        ⟨token, content, isToken, childless⟩ | ⟨branch, content,
          notToken, children⟩
      · rw [content, leaves_of_token sound isToken]
        rfl
      · have answers : ∀ child ∈ branch.children,
            forest.hasTokenWithin? depth child =
              some (!(forest.leaves child).isEmpty) := by
          intro child isChild
          rw [← children] at isChild
          exact inductionHypothesis (child_lt_size sound isChild)
            (room_child_lt_of_lt_succ sound isChild enough)
        rw [content, leaves_of_not_token sound inside notToken, children]
        simp only
        rw [anyM_eq_some answers, Option.some_inj, Bool.eq_iff_iff]
        simp [List.any_eq_true]

/--
A side of lists: which members are first at it, and which is the foremost.
-/
structure IsSide
    (order : List NodeId → List NodeId)
    (foremost? : List NodeId → Option NodeId) :
    Prop where
  singleton : ∀ id, foremost? [id] = some id
  isSome : ∀ list, (foremost? list).isSome = !list.isEmpty
  flatMap : ∀ list parts,
    foremost? (list.flatMap parts) = (order list).findSome? fun id =>
      foremost? (parts id)
  subset : ∀ list, order list ⊆ list
  mem : ∀ list id, foremost? list = some id → id ∈ list

theorem isSide_left : IsSide (fun list => list) List.head? where
  singleton _ := rfl
  isSome list := by cases list <;> rfl
  flatMap _ _ := List.head?_flatMap
  subset list := List.Subset.refl list
  mem _ _ := List.mem_of_head?

theorem isSide_right : IsSide List.reverse List.getLast? where
  singleton _ := rfl
  isSome list := by
    rw [Bool.eq_iff_iff, List.getLast?_isSome]
    simp
  flatMap _ _ := List.getLast?_flatMap
  subset list := fun _ member => List.mem_reverse.mp member
  mem _ _ := List.mem_of_getLast?

/-- Going down at a side leads to the token that is foremost there. -/
theorem foremostWithin?_eq_some
    {order : List NodeId → List NodeId}
    {foremost? : List NodeId → Option NodeId}
    {depth : Nat}
    (side : IsSide order foremost?)
    (sound : forest.links.Sound)
    (inside : id < forest.size)
    (enough : forest.room id < depth) :
    forest.foremostWithin? order depth id =
      some (foremost? (forest.leaves id)) := by
  induction depth generalizing id with
  | zero =>
      cases enough
  | succ depth inductionHypothesis =>
      rw [foremostWithin?]
      rcases content_cases inside with
        ⟨token, content, isToken, childless⟩ | ⟨branch, content,
          notToken, children⟩
      · rw [content, leaves_of_token sound isToken, side.singleton]
      · have isChild :
            ∀ child ∈ order branch.children, child ∈ forest.childrenOf id := by
          intro child member
          rw [children]
          exact side.subset _ member
        have answers : ∀ child ∈ order branch.children,
            forest.hasTokenWithin? forest.size child =
              some (foremost? (forest.leaves child)).isSome := by
          intro child member
          have childInside := child_lt_size sound (isChild child member)
          rw [hasTokenWithin?_eq_some sound childInside
            (room_lt_size childInside), side.isSome]
        rw [content, leaves_of_not_token sound inside notToken, children,
          side.flatMap, findSome?_eq_find?]
        simp only
        rw [findM?_eq_some answers, Option.bind_eq_bind, Option.bind_some]
        cases found : (order branch.children).find? fun child =>
            (foremost? (forest.leaves child)).isSome with
        | none =>
            rfl
        | some child =>
            have member := isChild child (List.mem_of_find?_eq_some found)
            exact inductionHypothesis (child_lt_size sound member)
              (room_child_lt_of_lt_succ sound member enough)

/-! ## Asking the tokens -/

/-- The first token that is tied to a buffer is asked for a branch. -/
theorem sourceWithin?_eq_some
    {depth : Nat}
    (sound : forest.links.Sound)
    (inside : id < forest.size)
    (enough : forest.room id < depth) :
    forest.sourceWithin? depth id =
      some ((forest.leaves id).findSome? forest.source?) := by
  induction depth generalizing id with
  | zero =>
      cases enough
  | succ depth inductionHypothesis =>
      rw [sourceWithin?]
      rcases content_cases inside with
        ⟨token, content, isToken, childless⟩ | ⟨branch, content,
          notToken, children⟩
      · rw [content, leaves_of_token sound isToken, List.findSome?_singleton,
          source?_of_token isToken]
      · have answers : ∀ child ∈ branch.children,
            forest.sourceWithin? depth child =
              some ((forest.leaves child).findSome? forest.source?) := by
          intro child isChild
          rw [← children] at isChild
          exact inductionHypothesis (child_lt_size sound isChild)
            (room_child_lt_of_lt_succ sound isChild enough)
        rw [content, leaves_of_not_token sound inside notToken, children,
          findSome?_flatMap]
        exact findSomeM?_eq_some answers

/-! ## Where nodes start and stop -/

theorem foremost?_eq_bind
    {order : List NodeId → List NodeId}
    {foremost? : List NodeId → Option NodeId}
    (side : IsSide order foremost?)
    (sound : forest.links.Sound)
    (inside : id < forest.size) :
    forest.foremost? order id =
      (foremost? (forest.leaves id)).bind forest.token? := by
  rw [Forest.foremost?,
    foremostWithin?_eq_some side sound inside (room_lt_size inside),
    Option.getD_some]

/--
The offset that is found at a side is that of the token that is
foremost there, if any.
-/
theorem offset_of_foremost
    {order : List NodeId → List NodeId}
    {foremost? : List NodeId → Option NodeId}
    {ofToken : Token → Nat}
    {ofNode : NodeId → Except Misuse Nat}
    (side : IsSide order foremost?)
    (sound : forest.links.Sound)
    (inside : id < forest.size)
    (agree :
      ∀ {leaf token}, forest.token? leaf = some token →
        ofNode leaf = .ok (ofToken token)) :
    .ok (((forest.foremost? order id).map ofToken).getD 0) =
      (foremost? (forest.leaves id)).elim (.ok 0) ofNode := by
  rw [foremost?_eq_bind side sound inside]
  cases found : foremost? (forest.leaves id) with
  | none =>
      rfl
  | some leaf =>
      obtain ⟨_, token, isToken⟩ :=
        (mem_leaves_iff sound inside).mp (side.mem _ _ found)
      rw [Option.bind_some, isToken, Option.elim_some, agree isToken]
      rfl

theorem startOffset_of_token
    (isToken : forest.token? id = some token) :
    forest.startOffset id = .ok token.start := by
  obtain ⟨node, isNode, content⟩ := token?_eq_some_iff.mp isToken
  rw [startOffset, Forest.node, isNode]
  simp only [bind, Except.bind, content]
  rfl

theorem stopOffset_of_token
    (isToken : forest.token? id = some token) :
    forest.stopOffset id = .ok token.stop := by
  obtain ⟨node, isNode, content⟩ := token?_eq_some_iff.mp isToken
  rw [stopOffset, Forest.node, isNode]
  simp only [bind, Except.bind, content]
  rfl

/--
A branch that is not said to start anywhere starts where the first
token under it does.
-/
theorem startOffset_of_branch
    (sound : forest.links.Sound)
    (isBranch : forest.branch id = .ok branch)
    (unset : branch.start? = none) :
    forest.startOffset id =
      (forest.leaves id).head?.elim (.ok 0) forest.startOffset := by
  obtain ⟨node, isNode, content⟩ := branch_eq_ok_iff.mp isBranch
  rw [← offset_of_foremost isSide_left sound (lt_size_of_node? isNode)
    startOffset_of_token, startOffset, Forest.node, isNode]
  simp only [bind, Except.bind, content, unset, Option.none_or]
  rfl

/--
A branch that is not said to stop anywhere stops where the last
token under it does.
-/
theorem stopOffset_of_branch
    (sound : forest.links.Sound)
    (isBranch : forest.branch id = .ok branch)
    (unset : branch.stop? = none) :
    forest.stopOffset id =
      (forest.leaves id).getLast?.elim (.ok 0) forest.stopOffset := by
  obtain ⟨node, isNode, content⟩ := branch_eq_ok_iff.mp isBranch
  rw [← offset_of_foremost isSide_right sound (lt_size_of_node? isNode)
    stopOffset_of_token, stopOffset, Forest.node, isNode]
  simp only [bind, Except.bind, content, unset, Option.none_or]
  rfl

/-! ## Every forest that can come about -/

/--
Forests that operations give, tokens being made and changed in any way besides.
-/
inductive Grown : Forest → Prop where
  | empty (storage : ChildStorage) :
      Grown (empty storage)
  | perform
      {forest : Forest}
      (grown : Grown forest)
      (operation : Operation) :
      Grown (forest.perform operation)
  | addToken
      {forest : Forest}
      (grown : Grown forest)
      (token : Token)
      (unparsed : Bool) :
      Grown (forest.addToken token unparsed).1
  | updateToken
      {forest : Forest}
      (grown : Grown forest)
      (id : NodeId)
      (change : Token → Token) :
      Grown (forest.updateToken id change)

theorem Grown.sound
    (grown : Grown forest) :
    forest.links.Sound := by
  induction grown with
  | empty storage =>
      exact sound_empty storage
  | perform _ operation inductionHypothesis =>
      exact sound_perform inductionHypothesis operation
  | addToken _ token unparsed inductionHypothesis =>
      rwa [Forest.addToken, links_push]
      intro node isToken
      rw [Node.children, isToken]
  | updateToken _ id change inductionHypothesis =>
      rwa [links_updateToken]

theorem Grown.performAll
    (grown : Grown forest)
    (operations : List Operation) :
    Grown (operations.foldl Forest.perform forest) := by
  induction operations generalizing forest with
  | nil =>
      exact grown
  | cons operation _ inductionHypothesis =>
      exact inductionHypothesis (grown.perform operation)

/--
The walks down agree with the tokens under a node.  A token has itself under
it, and a branch what its children have, one child after the other; these are
the tokens at or below the node, none of them twice.  A branch that is not said
to start or stop anywhere starts where the first of them does and stops where
the last does, or at 0, whatever is said of branches inside; and it is tied to
a buffer through the first that is.  Each walk ends by itself before the number
of nodes bounds it.
-/
theorem walks_agree_with_leaves
    (grown : Grown forest)
    (inside : id < forest.size) :
    forest.leavesUnder id = .ok (forest.leaves id) ∧
      (∀ token, forest.token id = .ok token → forest.leaves id = [id]) ∧
      (∀ branch, forest.branch id = .ok branch →
        forest.leaves id = branch.children.flatMap forest.leaves ∧
        (branch.start? = none →
          forest.startOffset id =
            (forest.leaves id).head?.elim (.ok 0) forest.startOffset) ∧
        (branch.stop? = none →
          forest.stopOffset id =
            (forest.leaves id).getLast?.elim (.ok 0) forest.stopOffset) ∧
        forest.sourceOf id =
          .ok ((forest.leaves id).findSome? forest.source?)) ∧
      (forest.leaves id).Nodup ∧
      (∀ leaf, leaf ∈ forest.leaves id ↔
        forest.links.AtOrAbove id leaf ∧
          ∃ token, forest.token leaf = .ok token) ∧
      ∀ more,
        forest.leavesWithin? (forest.size + more) [id] =
          some (forest.leaves id) ∧
        forest.hasTokenWithin? (forest.size + more) id =
          some (!(forest.leaves id).isEmpty) ∧
        forest.foremostWithin? (fun list => list) (forest.size + more) id =
          some (forest.leaves id).head? ∧
        forest.foremostWithin? List.reverse (forest.size + more) id =
          some (forest.leaves id).getLast? ∧
        forest.sourceWithin? (forest.size + more) id =
          some ((forest.leaves id).findSome? forest.source?) := by
  have sound := grown.sound
  obtain ⟨node, isNode⟩ := exists_node? inside
  have asked : forest.node id = .ok node := by
    rw [Forest.node, isNode]
  refine ⟨?under, ?ofToken, ?ofBranch, nodup_leaves sound inside,
    ?members, ?ends⟩
  case under =>
    rw [leavesUnder, asked]
    rfl
  case ofToken =>
    intro token isToken
    exact leaves_of_token sound (token_eq_ok_iff.mp isToken)
  case ofBranch =>
    intro branch isBranch
    refine ⟨leaves_of_branch sound isBranch,
      startOffset_of_branch sound isBranch,
      stopOffset_of_branch sound isBranch, ?_⟩
    rw [sourceOf, asked, source?,
      sourceWithin?_eq_some sound inside (room_lt_size inside)]
    rfl
  case members =>
    intro leaf
    rw [mem_leaves_iff sound inside]
    simp only [token_eq_ok_iff]
  case ends =>
    intro more
    have enough := Nat.lt_add_right more (room_lt_size inside)
    refine ⟨?_, hasTokenWithin?_eq_some sound inside enough,
      foremostWithin?_eq_some isSide_left sound inside enough,
      foremostWithin?_eq_some isSide_right sound inside enough,
      sourceWithin?_eq_some sound inside enough⟩
    rw [leavesWithin?_of_larger sound inside, leaves_eq_filter sound inside]

/--
A branch with an empty branch before an inner one, which is said to start at 99
and has an empty branch, a token made for itself and two scanned tokens inside.
-/
def nested : Forest :=
  let branches :=
    (["outer", "before", "inner", "within"].map Operation.newBranch).foldl
      perform (empty .apart)
  let opened := (branches.addToken (.ofStretch .openBrace 5 6) false).1
  let closed := (opened.addToken (.ofStretch .closeBrace 7 8) false).1
  [.newToken .string "a", .addChild 2 3, .addChild 2 6, .addChild 2 4,
    .addChild 2 5, .addChild 0 1, .addChild 0 2, .setStart 2 99,
    .setStart 6 4].foldl perform closed

theorem grown_nested : Grown nested := by
  unfold nested
  apply Grown.performAll
  apply Grown.addToken
  apply Grown.addToken
  apply Grown.performAll
  exact .empty .apart

/--
The outer branch starts where the token made for itself does, and
the next one ties it.
-/
theorem walks_agree_with_leaves_nested :
    nested.leavesUnder 0 = .ok [6, 4, 5] ∧
      nested.startOffset 0 = .ok 4 ∧
      nested.stopOffset 0 = .ok 8 ∧
      nested.sourceOf 0 = .ok (some 4) := by
  have inside : 0 < nested.size := by decide +kernel
  obtain ⟨branch, isBranch, noStart, noStop⟩ : ∃ branch,
      nested.branch 0 = .ok branch ∧ branch.start? = none ∧
        branch.stop? = none :=
    ⟨_, rfl, rfl, rfl⟩
  have met : nested.leaves 0 = [6, 4, 5] := by decide +kernel
  obtain ⟨under, _, ofBranch, _⟩ := walks_agree_with_leaves grown_nested inside
  obtain ⟨_, start, stop, source⟩ := ofBranch branch isBranch
  rw [met] at under start stop source
  refine ⟨under, ?_, ?_, ?_⟩
  · rw [start noStart]
    decide +kernel
  · rw [stop noStop]
    decide +kernel
  · rw [source]
    decide +kernel

end Snbt.Forest
