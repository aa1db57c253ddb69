import Snbt.Proofs.Forest.Nodes

namespace Snbt.Forest

/-!
# Tokens of trees that are built

Making nodes, moving them between parents, naming them and saying where a
branch lies leaves every token as it is.
-/

/-- Every token is still there, as it was. -/
def KeepsTokens (before after : Forest) : Prop :=
  ∀ id token, before.token? id = some token → after.token? id = some token

namespace KeepsTokens

variable {first forest next : Forest}

theorem refl
    (forest : Forest) :
    forest.KeepsTokens forest :=
  fun _ _ present => present

theorem trans
    (keeps : first.KeepsTokens forest)
    (later : forest.KeepsTokens next) :
    first.KeepsTokens next :=
  fun id token present => later id token (keeps id token present)

/-- A new node leaves the others as they are. -/
theorem push
    (forest : Forest)
    (content : Content)
    (unparsed : Bool) :
    forest.KeepsTokens (forest.push content unparsed) := by
  intro id token present
  obtain ⟨node, isNode, isToken⟩ := token?_eq_some_iff.mp present
  have inside := lt_size_of_node? isNode
  refine token?_eq_some_iff.mpr ⟨node, ?_, isToken⟩
  rw [node?_push, if_neg (Nat.ne_of_lt inside)]
  exact isNode

/-- A change that leaves tokens as they are, at one node. -/
theorem update
    {change : Node → Node}
    (forest : Forest)
    (changed : NodeId)
    (keeps : ∀ node token, node.content = .token token →
      (change node).content = .token token) :
    forest.KeepsTokens (forest.update changed change) := by
  intro id token present
  obtain ⟨node, isNode, isToken⟩ := token?_eq_some_iff.mp present
  rw [token?_eq_some_iff]
  rw [node?_update]
  by_cases here : changed = id
  · rw [if_pos here, isNode]
    exact ⟨change node, rfl, keeps node token isToken⟩
  · rw [if_neg here]
    exact ⟨node, isNode, isToken⟩

theorem updateBranch
    (forest : Forest)
    (id : NodeId)
    (change : Branch → Branch) :
    forest.KeepsTokens (forest.updateBranch id change) := by
  intro other token present
  rw [token?_updateBranch]
  exact present

/-- A node that is no token has none to change. -/
theorem updateToken
    {id : NodeId}
    (change : Token → Token)
    (isBranch : forest.token? id = none) :
    forest.KeepsTokens (forest.updateToken id change) := by
  intro other token present
  rw [token?_updateToken]
  by_cases here : id = other
  · cases isBranch.symm.trans ((congrArg forest.token? here).trans present)
  · rw [if_neg here]
    exact present

theorem setParent
    (forest : Forest)
    (parent? : Option NodeId)
    (id : NodeId) :
    forest.KeepsTokens (forest.setParent parent? id) :=
  update forest id fun _ _ isToken => isToken

theorem insertChild
    {parent child : NodeId}
    {index : Nat}
    (inserted : forest.insertChild parent index child = .ok next) :
    forest.KeepsTokens next := by
  unfold Forest.insertChild at inserted
  simp only [bind, Except.bind] at inserted
  split at inserted
  · cases inserted
  · split at inserted
    · cases inserted
    · split at inserted
      · cases inserted
      · cases inserted
        exact (updateBranch _ _ _).trans (setParent _ _ _)

theorem addChild
    {parent child : NodeId}
    (added : forest.addChild parent child = .ok next) :
    forest.KeepsTokens next := by
  unfold Forest.addChild at added
  simp only [bind, Except.bind] at added
  split at added
  · cases added
  · exact insertChild added

theorem setChild
    {parent child : NodeId}
    {index : Nat}
    {outcome : Forest × NodeId}
    (replaced : forest.setChild parent index child = .ok outcome) :
    forest.KeepsTokens outcome.1 := by
  unfold Forest.setChild at replaced
  simp only [bind, Except.bind] at replaced
  split at replaced
  · cases replaced
  · split at replaced
    · cases replaced
    · split at replaced
      · cases replaced
      · cases replaced
        exact ((updateBranch _ _ _).trans (setParent _ _ _)).trans
          (setParent _ _ _)

theorem removeChild
    {parent : NodeId}
    {index : Nat}
    {outcome : Forest × NodeId}
    (removed : forest.removeChild parent index = .ok outcome) :
    forest.KeepsTokens outcome.1 := by
  unfold Forest.removeChild at removed
  simp only [bind, Except.bind] at removed
  split at removed
  · cases removed
  · split at removed
    · cases removed
    · cases removed
      exact (updateBranch _ _ _).trans (setParent _ _ _)

theorem setParents
    (parent? : Option NodeId)
    (ids : List NodeId)
    (forest : Forest) :
    forest.KeepsTokens
      (ids.foldl
        (fun forest child => forest.setParent parent? child) forest) := by
  induction ids generalizing forest with
  | nil =>
      exact refl forest
  | cons child rest inductionHypothesis =>
      exact (setParent forest parent? child).trans (inductionHypothesis _)

theorem clearChildren
    (forest : Forest)
    (parent : NodeId) :
    forest.KeepsTokens (forest.clearChildren parent) :=
  (updateBranch forest parent _).trans
    (setParents none (forest.childrenOf parent) _)

theorem setNamed
    {parent id : NodeId}
    {name : String}
    (named : forest.setNamed parent name id = .ok next) :
    forest.KeepsTokens next := by
  unfold Forest.setNamed at named
  simp only [bind, Except.bind] at named
  split at named
  · cases named
  · split at named
    · cases named
    · cases named
      exact updateBranch _ _ _

theorem addNamed
    {parent id : NodeId}
    {name : String}
    (named : forest.addNamed parent name id = .ok next) :
    forest.KeepsTokens next := by
  unfold Forest.addNamed at named
  simp only [bind, Except.bind] at named
  split at named
  · cases named
  · cases named
    exact updateBranch _ _ _

theorem setUnparsed
    {id : NodeId}
    {unparsed : Bool}
    (set : forest.setUnparsed id unparsed = .ok next) :
    forest.KeepsTokens next := by
  unfold Forest.setUnparsed at set
  simp only [bind, Except.bind] at set
  split at set
  · cases set
  · cases set
    exact update _ _ fun _ _ isToken => isToken

/-- A branch that is changed stays one, and no token changes. -/
theorem updateBoth
    {id : NodeId}
    (changeToken : Token → Token)
    (changeBranch : Branch → Branch)
    (isBranch : forest.token? id = none) :
    forest.KeepsTokens
      ((forest.updateToken id changeToken).updateBranch id changeBranch) ∧
      ((forest.updateToken id changeToken).updateBranch id changeBranch).token?
        id = none := by
  refine ⟨(updateToken changeToken isBranch).trans (updateBranch _ _ _), ?_⟩
  rw [token?_updateBranch, token?_updateToken, if_pos rfl, isBranch,
    Option.map_none]

theorem setStart
    {id : NodeId}
    {offset : Nat}
    (isBranch : forest.token? id = none)
    (set : forest.setStart id offset = .ok next) :
    forest.KeepsTokens next ∧ next.token? id = none := by
  unfold Forest.setStart at set
  simp only [bind, Except.bind] at set
  split at set
  · cases set
  · cases set
    exact updateBoth _ _ isBranch

theorem setStop
    {id : NodeId}
    {offset : Nat}
    (isBranch : forest.token? id = none)
    (set : forest.setStop id offset = .ok next) :
    forest.KeepsTokens next ∧ next.token? id = none := by
  unfold Forest.setStop at set
  simp only [bind, Except.bind] at set
  split at set
  · cases set
  · cases set
    exact updateBoth _ _ isBranch

theorem copyLocation
    {id firstId lastId : NodeId}
    (isBranch : forest.token? id = none)
    (copied : forest.copyLocation id firstId lastId = .ok next) :
    forest.KeepsTokens next := by
  unfold Forest.copyLocation at copied
  simp only [bind, Except.bind] at copied
  split at copied
  · cases copied
  · split at copied
    · cases copied
    · split at copied
      · cases copied
      · rename_i started startSet
        obtain ⟨startKeeps, startBranch⟩ := setStart isBranch startSet
        split at copied
        · cases copied
        · rename_i located stopSet
          obtain ⟨stopKeeps, stopBranch⟩ := setStop startBranch stopSet
          cases copied
          exact startKeeps.trans (stopKeeps.trans (updateToken _ stopBranch))

end KeepsTokens

/-- A forest that comes of another by building trees. -/
inductive Builds (first : Forest) : Forest → Prop where
  | nothing :
      Builds first first
  | newToken
      {forest : Forest}
      (builds : Builds first forest)
      (kind : Kind)
      (image : String) :
      Builds first (forest.newToken kind image).1
  | newBranch
      {forest : Forest}
      (builds : Builds first forest)
      (label : String) :
      Builds first (forest.newBranch label).1
  | insertChild
      {forest next : Forest}
      {parent child : NodeId}
      {index : Nat}
      (builds : Builds first forest)
      (inserted : forest.insertChild parent index child = .ok next) :
      Builds first next
  | addChild
      {forest next : Forest}
      {parent child : NodeId}
      (builds : Builds first forest)
      (added : forest.addChild parent child = .ok next) :
      Builds first next
  | setChild
      {forest : Forest}
      {outcome : Forest × NodeId}
      {parent child : NodeId}
      {index : Nat}
      (builds : Builds first forest)
      (replaced : forest.setChild parent index child = .ok outcome) :
      Builds first outcome.1
  | removeChild
      {forest : Forest}
      {outcome : Forest × NodeId}
      {parent : NodeId}
      {index : Nat}
      (builds : Builds first forest)
      (removed : forest.removeChild parent index = .ok outcome) :
      Builds first outcome.1
  | clearChildren
      {forest : Forest}
      (builds : Builds first forest)
      (parent : NodeId) :
      Builds first (forest.clearChildren parent)
  | setNamed
      {forest next : Forest}
      {parent id : NodeId}
      {name : String}
      (builds : Builds first forest)
      (named : forest.setNamed parent name id = .ok next) :
      Builds first next
  | addNamed
      {forest next : Forest}
      {parent id : NodeId}
      {name : String}
      (builds : Builds first forest)
      (named : forest.addNamed parent name id = .ok next) :
      Builds first next
  | setUnparsed
      {forest next : Forest}
      {id : NodeId}
      {unparsed : Bool}
      (builds : Builds first forest)
      (set : forest.setUnparsed id unparsed = .ok next) :
      Builds first next
  | setStart
      {forest next : Forest}
      {id : NodeId}
      {offset : Nat}
      (builds : Builds first forest)
      (isBranch : forest.token? id = none)
      (set : forest.setStart id offset = .ok next) :
      Builds first next
  | setStop
      {forest next : Forest}
      {id : NodeId}
      {offset : Nat}
      (builds : Builds first forest)
      (isBranch : forest.token? id = none)
      (set : forest.setStop id offset = .ok next) :
      Builds first next
  | copyLocation
      {forest next : Forest}
      {id firstId lastId : NodeId}
      (builds : Builds first forest)
      (isBranch : forest.token? id = none)
      (copied : forest.copyLocation id firstId lastId = .ok next) :
      Builds first next

/-- Building trees keeps the tokens. -/
theorem Builds.keepsTokens
    {first forest : Forest}
    (builds : first.Builds forest) :
    first.KeepsTokens forest := by
  induction builds with
  | nothing =>
      exact .refl first
  | newToken _ kind image inductionHypothesis =>
      exact inductionHypothesis.trans (.push _ _ _)
  | newBranch _ label inductionHypothesis =>
      exact inductionHypothesis.trans (.push _ _ _)
  | insertChild _ inserted inductionHypothesis =>
      exact inductionHypothesis.trans (.insertChild inserted)
  | addChild _ added inductionHypothesis =>
      exact inductionHypothesis.trans (.addChild added)
  | setChild _ replaced inductionHypothesis =>
      exact inductionHypothesis.trans (.setChild replaced)
  | removeChild _ removed inductionHypothesis =>
      exact inductionHypothesis.trans (.removeChild removed)
  | clearChildren _ parent inductionHypothesis =>
      exact inductionHypothesis.trans (.clearChildren _ parent)
  | setNamed _ named inductionHypothesis =>
      exact inductionHypothesis.trans (.setNamed named)
  | addNamed _ named inductionHypothesis =>
      exact inductionHypothesis.trans (.addNamed named)
  | setUnparsed _ set inductionHypothesis =>
      exact inductionHypothesis.trans (.setUnparsed set)
  | setStart _ isBranch set inductionHypothesis =>
      exact inductionHypothesis.trans (KeepsTokens.setStart isBranch set).1
  | setStop _ isBranch set inductionHypothesis =>
      exact inductionHypothesis.trans (KeepsTokens.setStop isBranch set).1
  | copyLocation _ isBranch copied inductionHypothesis =>
      exact inductionHypothesis.trans (.copyLocation isBranch copied)

end Snbt.Forest
