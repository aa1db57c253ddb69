import Snbt.Forest.Basic

namespace Snbt.Forest

/-!
# Children

Parents list their children, and every child knows its parent; each operation
changes both sides together.  A node is adopted only if it has no parent yet and
is no ancestor of its new parent, so parents never form a cycle.
-/

/-- A node and its ancestors, nearest first, at most `bound` of them. -/
def lineageWithin (forest : Forest) : Nat → NodeId → List NodeId
  | 0, _ =>
      []
  | bound + 1, id =>
      match (forest.node? id).bind (·.parent?) with
      | some parent => id :: forest.lineageWithin bound parent
      | none => [id]

/-- A node and its ancestors, nearest first. -/
def lineage (forest : Forest) (id : NodeId) : List NodeId :=
  forest.lineageWithin forest.size id

/-- Check that a node may become a child of another. -/
def checkMayAdopt
    (forest : Forest)
    (parent child : NodeId) :
    Except Misuse Unit := do
  match ← forest.parent child with
  | some owner =>
      throw (.owned child owner)
  | none =>
      if child ∈ forest.lineage parent then
        throw (.cycle child parent)
      let _ ← forest.node parent

/-- The children of a node in order; a token has none. -/
def children (forest : Forest) (id : NodeId) : Except Misuse (List NodeId) := do
  let node ← forest.node id
  return node.children

/-- The child at an index. -/
def child
    (forest : Forest)
    (parent : NodeId)
    (index : Nat) :
    Except Misuse NodeId := do
  let children ← forest.children parent
  match children[index]? with
  | some id => return id
  | none => throw (.noSuchChild index parent children.length)

/-- The index of a child. -/
def indexOf (forest : Forest) (parent child : NodeId) :
    Except Misuse (Option Nat) := do
  let children ← forest.children parent
  return children.idxOf? child

/-- Put a node among the children of another, before the child at an index. -/
def insertChild
    (forest : Forest)
    (parent : NodeId)
    (index : Nat)
    (child : NodeId) :
    Except Misuse Forest := do
  forest.checkMayAdopt parent child
  let branch ← forest.branch parent
  if branch.children.length < index then
    throw .outOfRange
  let listed :=
    forest.updateBranch parent fun branch =>
      { branch with children := branch.children.insertIdx index child }
  return listed.setParent (some parent) child

/-- Put a node behind the children of another. -/
def addChild
    (forest : Forest)
    (parent child : NodeId) :
    Except Misuse Forest := do
  let children ← forest.children parent
  forest.insertChild parent children.length child

/--
Put a node in the place of the child at an
index, which is returned without a parent.
-/
def setChild
    (forest : Forest)
    (parent : NodeId)
    (index : Nat)
    (child : NodeId) :
    Except Misuse (Forest × NodeId) := do
  forest.checkMayAdopt parent child
  let branch ← forest.branch parent
  match branch.children[index]? with
  | none =>
      throw .outOfRange
  | some former =>
      let listed :=
        forest.updateBranch parent fun branch =>
          { branch with children := branch.children.set index child }
      return ((listed.setParent none former).setParent (some parent) child,
        former)

/-- Take out the child at an index, which is returned without a parent. -/
def removeChild
    (forest : Forest)
    (parent : NodeId)
    (index : Nat) :
    Except Misuse (Forest × NodeId) := do
  let branch ← forest.branch parent
  match branch.children[index]? with
  | none =>
      throw .outOfRange
  | some former =>
      let listed :=
        forest.updateBranch parent fun branch =>
          { branch with children := branch.children.eraseIdx index }
      return (listed.setParent none former, former)

/--
Take out every child.  A token, or a node
that does not exist, has none to lose.
-/
def clearChildren (forest : Forest) (parent : NodeId) : Forest :=
  let listed :=
    forest.updateBranch parent fun branch => { branch with children := [] }
  (forest.childrenOf parent).foldl
    (fun forest child => forest.setParent none child) listed

/-- Give a node a name among the named children of a branch. -/
def setNamed
    (forest : Forest)
    (parent : NodeId)
    (name : String)
    (id : NodeId) :
    Except Misuse Forest := do
  let branch ← forest.branch parent
  if (branch.named.lookup name).isSome then
    throw (.duplicateName name)
  return forest.updateBranch parent fun branch =>
    { branch with named := (name, id) :: branch.named }

/-- The child with a name; a token has none. -/
def named (forest : Forest) (parent : NodeId) (name : String) :
    Except Misuse (Option NodeId) := do
  let node ← forest.node parent
  return node.branch?.bind fun branch => branch.named.lookup name

/--
A node behind the others of a named list, which is opened if there is none.
-/
def addToList (name : String) (id : NodeId) :
    List (String × List NodeId) → List (String × List NodeId)
  | [] =>
      [(name, [id])]
  | (other, ids) :: rest =>
      if other = name then
        (other, ids ++ [id]) :: rest
      else
        (other, ids) :: addToList name id rest

/-- Put a node behind the others of a named list of a branch. -/
def addNamed
    (forest : Forest)
    (parent : NodeId)
    (name : String)
    (id : NodeId) :
    Except Misuse Forest := do
  let _ ← forest.branch parent
  return forest.updateBranch parent fun branch =>
    { branch with namedLists := addToList name id branch.namedLists }

/-- The nodes of a named list; a token has none. -/
def namedList (forest : Forest) (parent : NodeId) (name : String) :
    Except Misuse (Option (List NodeId)) := do
  let node ← forest.node parent
  return node.branch?.bind fun branch => branch.namedLists.lookup name

end Snbt.Forest
