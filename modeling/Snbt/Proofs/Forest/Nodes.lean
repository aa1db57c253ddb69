import Snbt.Forest.Leaves

namespace Snbt.Forest

/-!
# Nodes of a forest

What making and changing a node does to the node with an identity, and what a
scanned token is tied to.
-/

variable {forest : Forest} {id other : NodeId} {token : Token}

theorem lt_size_of_node?
    {node : Node}
    (present : forest.node? id = some node) :
    id < forest.size :=
  (Array.getElem?_eq_some_iff.mp present).1

/-- There is a node for every smaller identity. -/
theorem exists_node?
    (inside : id < forest.size) :
    ∃ node, forest.node? id = some node :=
  ⟨_, Array.getElem?_eq_getElem inside⟩

/-- A new node takes the next identity, and the others stay. -/
theorem node?_push
    (forest : Forest)
    (content : Content)
    (unparsed : Bool)
    (id : NodeId) :
    (forest.push content unparsed).node? id =
      if id = forest.size then
        some { content, parent? := none, unparsed }
      else
        forest.node? id :=
  Array.getElem?_push

/-- Changing a node leaves the others as they are. -/
theorem node?_update
    (forest : Forest)
    (id : NodeId)
    (change : Node → Node)
    (other : NodeId) :
    (forest.update id change).node? other =
      if id = other then
        (forest.node? other).map change
      else
        forest.node? other :=
  Array.getElem?_modify

/-- There is a token exactly when there is a node and it is the token. -/
theorem token?_eq_some_iff :
    forest.token? id = some token ↔
      ∃ node, forest.node? id = some node ∧ node.content = .token token := by
  rw [token?, Option.bind_eq_some_iff]
  refine exists_congr fun node => and_congr_right fun _ => ?_
  unfold Node.token?
  cases node.content with
  | token present =>
      simp
  | branch present =>
      simp

theorem lt_size_of_token?
    (present : forest.token? id = some token) :
    id < forest.size := by
  obtain ⟨_, isNode, _⟩ := token?_eq_some_iff.mp present
  exact lt_size_of_node? isNode

/-- There is no token yet with the next identity. -/
theorem token?_size
    (forest : Forest) :
    forest.token? forest.size = none :=
  Option.eq_none_iff_forall_ne_some.mpr fun _ present =>
    Nat.lt_irrefl _ (lt_size_of_token? present)

/-- A new token takes the next identity, and the others stay. -/
theorem token?_push
    (forest : Forest)
    (token : Token)
    (unparsed : Bool)
    (id : NodeId) :
    (forest.push (.token token) unparsed).token? id =
      if id = forest.size then some token else forest.token? id := by
  rw [token?, node?_push]
  split
  · rfl
  · rfl

/-- A node that is asked for as a token is given exactly if it is one. -/
theorem token_eq_ok_iff :
    forest.token id = .ok token ↔ forest.token? id = some token := by
  rw [token?, Forest.token, Forest.node]
  cases forest.node? id with
  | none =>
      simp [bind, Except.bind]
  | some node =>
      obtain ⟨content, parent?, unparsed⟩ := node
      cases content with
      | token present =>
          simp [bind, Except.bind, Node.token?]
      | branch branch =>
          simp [bind, Except.bind, Node.token?]

/-- A token that there is can be asked for. -/
theorem token_eq_ok
    (present : forest.token? id = some token) :
    forest.token id = .ok token :=
  token_eq_ok_iff.mpr present

/-- A node that is asked for as a branch is given exactly if it is one. -/
theorem branch_eq_ok_iff
    {branch : Branch} :
    forest.branch id = .ok branch ↔
      ∃ node, forest.node? id = some node ∧ node.content = .branch branch := by
  rw [Forest.branch, Forest.node]
  cases forest.node? id with
  | none =>
      simp [bind, Except.bind]
  | some node =>
      obtain ⟨content, parent?, unparsed⟩ := node
      cases content with
      | token token =>
          simp [bind, Except.bind]
      | branch present =>
          simp [bind, Except.bind]

/-- Changing a token changes no other. -/
theorem token?_updateToken
    (forest : Forest)
    (id : NodeId)
    (change : Token → Token)
    (other : NodeId) :
    (forest.updateToken id change).token? other =
      if id = other then
        (forest.token? other).map change
      else
        forest.token? other := by
  rw [token?, updateToken, node?_update]
  by_cases here : id = other
  · rw [if_pos here, if_pos here, token?]
    cases forest.node? other with
    | none =>
        rfl
    | some node =>
        obtain ⟨content, parent?, unparsed⟩ := node
        cases content <;> rfl
  · rw [if_neg here, if_neg here, token?]

/-- A token that exists is there as it was changed. -/
theorem token?_updateToken_self
    {forest : Forest}
    {id : NodeId}
    {token : Token}
    (change : Token → Token)
    (isToken : forest.token? id = some token) :
    (forest.updateToken id change).token? id = some (change token) := by
  rw [token?_updateToken, if_pos rfl, isToken, Option.map_some]

/-- Changing a branch changes no token. -/
theorem token?_updateBranch
    (forest : Forest)
    (id : NodeId)
    (change : Branch → Branch)
    (other : NodeId) :
    (forest.updateBranch id change).token? other = forest.token? other := by
  rw [token?, updateBranch, node?_update, token?]
  by_cases here : id = other
  · rw [if_pos here]
    cases forest.node? other with
    | none =>
        rfl
    | some node =>
        obtain ⟨content, parent?, unparsed⟩ := node
        cases content <;> rfl
  · rw [if_neg here]

/-- A token is what its node is. -/
theorem content?_of_token
    (isToken : forest.token? id = some token) :
    forest.content? id = some (.token token) := by
  obtain ⟨node, isNode, content⟩ := token?_eq_some_iff.mp isToken
  rw [content?, isNode, Option.map_some, content]

/-- A token is tied to the buffer by itself or by its own links. -/
theorem source?_of_token
    (isToken : forest.token? id = some token) :
    forest.source? id = forest.sourceOfToken id token := by
  obtain ⟨before, size⟩ :=
    Nat.exists_eq_succ_of_ne_zero
      (Nat.ne_zero_of_lt (lt_size_of_token? isToken))
  rw [source?, size, Nat.succ_eq_add_one, sourceWithin?,
    content?_of_token isToken]
  rfl

/-- A scanned token is tied to the buffer by itself. -/
theorem source?_of_scanned
    (present : forest.token? id = some token)
    (scanned : token.scanned = true) :
    forest.source? id = some id := by
  rw [source?_of_token present, sourceOfToken, if_pos scanned]

end Snbt.Forest
