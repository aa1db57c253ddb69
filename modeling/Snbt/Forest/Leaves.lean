import Snbt.Forest.Children

namespace Snbt.Forest

/-!
# Leaves and offsets

Walks down the trees: the tokens under a node, the stretch that they cover, and
the token through which a node is tied to a buffer.  Each walk has a bound, for
which the number of nodes will do, and has no answer when it comes to it.
-/

/--
The tokens under the nodes of a stack, left to right, if there are at
most `bound` nodes.
-/
def leavesWithin? (forest : Forest) : Nat → List NodeId → Option (List NodeId)
  | _, [] =>
      some []
  | 0, _ :: _ =>
      none
  | bound + 1, id :: stack =>
      match forest.content? id with
      | some (.token _) => (forest.leavesWithin? bound stack).map (id :: ·)
      | some (.branch branch) =>
          forest.leavesWithin? bound (branch.children ++ stack)
      | none => none

/-- The tokens under a node, left to right; a token is its own. -/
def leaves (forest : Forest) (id : NodeId) : List NodeId :=
  (forest.leavesWithin? forest.size [id]).getD []

/-- The tokens under a node that exists. -/
def leavesUnder (forest : Forest) (id : NodeId) :
    Except Misuse (List NodeId) := do
  let _ ← forest.node id
  return forest.leaves id

/-- Whether there is a token under a node, down to a depth. -/
def hasTokenWithin? (forest : Forest) : Nat → NodeId → Option Bool
  | 0, _ =>
      none
  | depth + 1, id =>
      match forest.content? id with
      | some (.token _) => some true
      | some (.branch branch) =>
          branch.children.anyM (forest.hasTokenWithin? depth)
      | none => none

/--
The token that is come to by going down, each time to the foremost
child with a token under it, down to a depth.  `order` says which
children are before others.
-/
def foremostWithin?
    (forest : Forest)
    (order : List NodeId → List NodeId) :
    Nat → NodeId → Option (Option NodeId)
  | 0, _ =>
      none
  | depth + 1, id =>
      match forest.content? id with
      | some (.token _) =>
          some (some id)
      | some (.branch branch) => do
          match ← (order branch.children).findM?
            (forest.hasTokenWithin? forest.size) with
          | some child => forest.foremostWithin? order depth child
          | none => return none
      | none =>
          none

/--
The token under a node that is before all
others, with the children in this order.
-/
def foremost?
    (forest : Forest)
    (order : List NodeId → List NodeId)
    (id : NodeId) :
    Option Token :=
  ((forest.foremostWithin? order forest.size id).getD none).bind forest.token?

/-- The first token under a node. -/
def first? (forest : Forest) (id : NodeId) : Option Token :=
  forest.foremost? (fun children => children) id

/-- The last token under a node. -/
def last? (forest : Forest) (id : NodeId) : Option Token :=
  forest.foremost? List.reverse id

/--
Where a node starts: where a token does, where a branch is said to, or where the
first token under it does.  A branch without tokens starts at 0.
-/
def startOffset (forest : Forest) (id : NodeId) : Except Misuse Nat := do
  let node ← forest.node id
  match node.content with
  | .token token =>
      return token.start
  | .branch branch =>
      return (branch.start?.or ((forest.first? id).map (·.start))).getD 0

/--
Where a node stops: where a token does, where a branch is said to, or where the
last token under it does.  A branch without tokens stops at 0.
-/
def stopOffset (forest : Forest) (id : NodeId) : Except Misuse Nat := do
  let node ← forest.node id
  match node.content with
  | .token token =>
      return token.stop
  | .branch branch =>
      return (branch.stop?.or ((forest.last? id).map (·.stop))).getD 0

/-- Say where a node starts. -/
def setStart
    (forest : Forest)
    (id : NodeId)
    (offset : Nat) :
    Except Misuse Forest := do
  let _ ← forest.node id
  return (forest.updateToken id fun token =>
    { token with start := offset }).updateBranch
    id fun branch => { branch with start? := some offset }

/-- Say where a node stops. -/
def setStop
    (forest : Forest)
    (id : NodeId)
    (offset : Nat) :
    Except Misuse Forest := do
  let _ ← forest.node id
  return (forest.updateToken id fun token =>
    { token with stop := offset }).updateBranch
    id fun branch => { branch with stop? := some offset }

/--
Give a node the stretch from where one node starts to where another stops.  A
token also takes over the link before the one and the link after the other, as
far as these are tokens.
-/
def copyLocation
    (forest : Forest)
    (id first last : NodeId) :
    Except Misuse Forest := do
  let start ← forest.startOffset first
  let stop ← forest.stopOffset last
  let located ← (← forest.setStart id start).setStop id stop
  return located.updateToken id fun token =>
    { token with
      prepended? :=
        match forest.token? first with
        | some linked => linked.prepended?
        | none => token.prepended?
      appended? :=
        match forest.token? last with
        | some linked => linked.appended?
        | none => token.appended? }

/-- The first scanned token on a chain of links, at most `bound` links long. -/
def scannedAlong
    (forest : Forest)
    (link : Token → Option NodeId) :
    Nat → Option NodeId → Option NodeId
  | bound + 1, some id =>
      match forest.token? id with
      | some token =>
          if token.scanned then
            some id
          else
            forest.scannedAlong link bound (link token)
      | none =>
          none
  | _, _ =>
      none

/-- The scanned token through which a token is tied to a buffer. -/
def sourceOfToken
    (forest : Forest)
    (id : NodeId)
    (token : Token) :
    Option NodeId :=
  if token.scanned then
    some id
  else
    (forest.scannedAlong Token.prepended? forest.size token.prepended?).or
      (forest.scannedAlong Token.appended? forest.size token.appended?)

/--
The scanned token through which a node is tied to a buffer, down to a depth.
-/
def sourceWithin? (forest : Forest) : Nat → NodeId → Option (Option NodeId)
  | 0, _ =>
      none
  | depth + 1, id =>
      match forest.content? id with
      | some (.token token) => some (forest.sourceOfToken id token)
      | some (.branch branch) =>
          branch.children.findSomeM? (forest.sourceWithin? depth)
      | none => none

/--
The scanned token through which a node is tied to a buffer.  A token that was
not scanned is tied by the links before it or else by those after it, and a
branch by the first of its children that is.
-/
def source? (forest : Forest) (id : NodeId) : Option NodeId :=
  (forest.sourceWithin? forest.size id).getD none

/-- The scanned token through which a node that exists is tied to a buffer. -/
def sourceOf
    (forest : Forest)
    (id : NodeId) :
    Except Misuse (Option NodeId) := do
  let _ ← forest.node id
  return forest.source? id

end Snbt.Forest
