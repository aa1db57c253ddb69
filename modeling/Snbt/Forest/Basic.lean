import Snbt.Kind.Basic

namespace Snbt

/-!
# Forests of tokens and branches

Tokens and branches are kept in one array in the order in which they were made,
and a node is known by its place in it.  A token is a leaf of the trees that
branches build, and it also has links to its neighbours in the chain of tokens.

Operations that a node does not admit fail with the cause, and leave the forest
as it was.  Making a node never fails: identities have no bound here, and that
those of 32 bits could run out is left out.
-/

/-- The place of a node in its forest. -/
abbrev NodeId := Nat

/-- A classified stretch of the buffer, or a token with a text of its own. -/
structure Token where
  kind : Kind
  start : Nat
  stop : Nat
  /-- The text of the token when it is not that of the buffer. -/
  image? : Option String
  /-- The token linked before it. -/
  prepended? : Option NodeId
  /-- The token linked after it. -/
  appended? : Option NodeId
  /-- It was put between others and has no stretch of its own. -/
  inserted : Bool
  /-- Its offsets are offsets of the buffer. -/
  scanned : Bool
  deriving DecidableEq, Repr

namespace Token

/-- A token with a text of its own and no place in any buffer. -/
def free (kind : Kind) (image : String) : Token where
  kind := kind
  start := 0
  stop := 0
  image? := some image
  prepended? := none
  appended? := none
  inserted := false
  scanned := false

/-- A token for a stretch of the buffer, linked to no other. -/
def ofStretch (kind : Kind) (start stop : Nat) : Token where
  kind := kind
  start := start
  stop := stop
  image? := none
  prepended? := none
  appended? := none
  inserted := false
  scanned := true

end Token

/--
An inner node with children in order, named children and named lists of nodes.
-/
structure Branch where
  label : String
  children : List NodeId
  /-- Where it starts, when that is not where its first token starts. -/
  start? : Option Nat
  /-- Where it stops, when that is not where its last token stops. -/
  stop? : Option Nat
  named : List (String × NodeId)
  namedLists : List (String × List NodeId)
  deriving DecidableEq, Repr

/-- What a node is. -/
inductive Content where
  | token (token : Token)
  | branch (branch : Branch)
  deriving DecidableEq, Repr

/-- A node of a forest. -/
structure Node where
  content : Content
  parent? : Option NodeId
  /-- It takes no part in parsing. -/
  unparsed : Bool
  deriving DecidableEq, Repr

namespace Node

/-- The token that a node is. -/
def token? (node : Node) : Option Token :=
  match node.content with
  | .token token => some token
  | .branch _ => none

/-- The branch that a node is. -/
def branch? (node : Node) : Option Branch :=
  match node.content with
  | .token _ => none
  | .branch branch => some branch

/-- The children of a node; a token has none. -/
def children (node : Node) : List NodeId :=
  match node.content with
  | .token _ => []
  | .branch branch => branch.children

end Node

/--
Where lists of children are kept; it changes
nothing that can be observed of them.
-/
inductive ChildStorage where
  /-- Apart from the node. -/
  | apart
  /-- In the node, as long as they are short. -/
  | inline
  deriving DecidableEq, Repr

/-- All nodes that were made, in order. -/
structure Forest where
  nodes : Array Node
  storage : ChildStorage
  deriving DecidableEq, Repr

/-- Why an operation on a forest is refused. -/
inductive Misuse where
  /-- A node or an index that does not exist. -/
  | outOfRange
  /-- A branch where a token is needed. -/
  | notToken (id : NodeId) (label : String)
  /-- A token where a branch is needed. -/
  | childless (id : NodeId) (kind : Kind)
  /-- A child that does not exist. -/
  | noSuchChild (index : Nat) (parent : NodeId) (count : Nat)
  /-- A node that is already a child. -/
  | owned (child owner : NodeId)
  /-- A node that would become its own ancestor. -/
  | cycle (child parent : NodeId)
  /-- A name that is already given to a child. -/
  | duplicateName (name : String)
  deriving DecidableEq, Repr

namespace Misuse

/-- What is told about a misuse. -/
def message : Misuse → String
  | .outOfRange =>
      "no such node or index"
  | .notToken id label =>
      "node " ++ toString id ++ " (`" ++ label ++ "`) is not a token"
  | .childless id kind =>
      "token " ++ toString id ++ " (" ++ kind.name ++ ") cannot have children"
  | .noSuchChild index parent count =>
      "child index " ++ toString index ++ " out of range for node " ++
        toString parent ++ " with " ++ toString count ++ " children"
  | .owned child owner =>
      "node " ++ toString child ++ " already belongs to node " ++ toString owner
  | .cycle child parent =>
      "adding node " ++ toString child ++ " under node " ++ toString parent ++
        " would create a cycle"
  | .duplicateName name =>
      "duplicate named child not allowed: " ++ name

end Misuse

namespace Forest

/-- A forest without nodes. -/
def empty (storage : ChildStorage) : Forest where
  nodes := #[]
  storage := storage

/-- The number of nodes. -/
def size (forest : Forest) : Nat :=
  forest.nodes.size

/-- The node with an identity, if there is one. -/
def node? (forest : Forest) (id : NodeId) : Option Node :=
  forest.nodes[id]?

/-- What the node with an identity is, if there is one. -/
def content? (forest : Forest) (id : NodeId) : Option Content :=
  (forest.node? id).map Node.content

/-- The token with an identity, if there is a node and it is a token. -/
def token? (forest : Forest) (id : NodeId) : Option Token :=
  (forest.node? id).bind Node.token?

/-- The children of a node; a node that does not exist has none. -/
def childrenOf (forest : Forest) (id : NodeId) : List NodeId :=
  match forest.node? id with
  | some node => node.children
  | none => []

/-- The node with an identity. -/
def node (forest : Forest) (id : NodeId) : Except Misuse Node :=
  match forest.node? id with
  | some node => .ok node
  | none => .error .outOfRange

/-- The token with an identity. -/
def token (forest : Forest) (id : NodeId) : Except Misuse Token := do
  let node ← forest.node id
  match node.content with
  | .token token => .ok token
  | .branch branch => .error (.notToken id branch.label)

/-- The branch with an identity, to be changed. -/
def branch (forest : Forest) (id : NodeId) : Except Misuse Branch := do
  let node ← forest.node id
  match node.content with
  | .token token => .error (.childless id token.kind)
  | .branch branch => .ok branch

/-- The kind of a token; a branch has none. -/
def kind (forest : Forest) (id : NodeId) : Except Misuse (Option Kind) := do
  let node ← forest.node id
  return node.token?.map (·.kind)

/-- The label of a branch; a token has none. -/
def label (forest : Forest) (id : NodeId) : Except Misuse (Option String) := do
  let node ← forest.node id
  return node.branch?.map (·.label)

/-- The node of which a node is a child. -/
def parent (forest : Forest) (id : NodeId) : Except Misuse (Option NodeId) := do
  let node ← forest.node id
  return node.parent?

/-- Whether a node takes no part in parsing. -/
def unparsed (forest : Forest) (id : NodeId) : Except Misuse Bool := do
  let node ← forest.node id
  return node.unparsed

/-- Whether a node that exists takes no part in parsing. -/
def isUnparsed (forest : Forest) (id : NodeId) : Bool :=
  match forest.node? id with
  | some node => node.unparsed
  | none => false

/-- Change a node; a node that does not exist is not made. -/
def update (forest : Forest) (id : NodeId) (change : Node → Node) : Forest :=
  { forest with nodes := forest.nodes.modify id change }

/-- Change a node if it is a token. -/
def updateToken
    (forest : Forest)
    (id : NodeId)
    (change : Token → Token) :
    Forest :=
  forest.update id fun node =>
    match node.content with
    | .token token => { node with content := .token (change token) }
    | .branch _ => node

/-- Change a node if it is a branch. -/
def updateBranch
    (forest : Forest)
    (id : NodeId)
    (change : Branch → Branch) :
    Forest :=
  forest.update id fun node =>
    match node.content with
    | .token _ => node
    | .branch branch => { node with content := .branch (change branch) }

/-- Give a node a parent or take it from it. -/
def setParent
    (forest : Forest)
    (parent? : Option NodeId)
    (id : NodeId) :
    Forest :=
  forest.update id fun node => { node with parent? }

/-- Say whether a node takes part in parsing. -/
def setUnparsed (forest : Forest) (id : NodeId) (unparsed : Bool) :
    Except Misuse Forest := do
  let _ ← forest.node id
  return forest.update id fun node => { node with unparsed }

/--
Make a node without a parent; its identity is the number of nodes before it.
-/
def push (forest : Forest) (content : Content) (unparsed : Bool) : Forest :=
  { forest with
    nodes := forest.nodes.push { content, parent? := none, unparsed } }

/-- Make a token. -/
def addToken
    (forest : Forest)
    (token : Token)
    (unparsed : Bool) :
    Forest × NodeId :=
  let id := forest.size
  (forest.push (.token token) unparsed, id)

/-- Make a token with a text of its own that is tied to no buffer. -/
def newToken
    (forest : Forest)
    (kind : Kind)
    (image : String) :
    Forest × NodeId :=
  forest.addToken (.free kind image) false

/-- Make a branch without children. -/
def newBranch (forest : Forest) (label : String) : Forest × NodeId :=
  let id := forest.size
  let branch : Branch :=
    { label
      children := []
      start? := none
      stop? := none
      named := []
      namedLists := [] }
  (forest.push (.branch branch) false, id)

end Forest

end Snbt
