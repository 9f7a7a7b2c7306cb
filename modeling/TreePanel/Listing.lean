import TreePanel.Node

/-!
# Pre-order listings

A listing names the nodes of a tree in pre-order, each with its depth below the root. There are
two ways to obtain it. `Node.listing` follows the tree by recursion. `Walk` keeps the nodes that
are still to come on a stack and hands out one node a step; a walk may leave out every anonymous
node together with all below it, the root excepted. `Node.preorder` and `Node.namedPreorder` run
a walk to its end: a step takes at least one node off the stack for good, so the size of the tree
bounds the number of steps.

A listing determines its tree. `Node.ofRaw` reads one back, from raw ends that nobody has tested
yet, and stops at the first span or child that is out of place.
-/

namespace TreePanel

/-- What a listing says of one node. -/
structure Entry where
  /-- Number of proper ancestors. -/
  depth : Nat
  name : String
  span : Span
  named : Bool
deriving DecidableEq

namespace Node

/-- What a listing says of `n` at the given depth. -/
def entry (depth : Nat) (n : Node) : Entry := ⟨depth, n.name, n.span, n.named⟩

/-! ## By recursion -/

mutual
/-- The nodes of a tree in pre-order, with the root at the given depth. -/
def descend (depth : Nat) : Node → List (Nat × Node)
  | mk name span named children =>
    (depth, mk name span named children) :: descendAll (depth + 1) children

/-- The nodes of several trees in turn. -/
def descendAll (depth : Nat) : List Node → List (Nat × Node)
  | [] => []
  | n :: rest => descend depth n ++ descendAll depth rest
end

/-- The listing of a tree: the node itself, then the listing of each child in order. -/
def listing (n : Node) : List Entry := (descend 0 n).map fun (depth, m) => m.entry depth

/-! ## By a walk -/

/-- A walk in progress: the nodes still to come, the next one first. -/
structure Walk where
  /-- Nodes with their depths; the nodes below them have not been met. -/
  stack : List (Nat × Node)
  /-- Leave out anonymous nodes and all below them. -/
  namedOnly : Bool

namespace Walk

/-- The children of a node that the walk visits. -/
def keeps (w : Walk) (children : List Node) : List Node :=
  children.filter fun child => !w.namedOnly || child.named

/-- Hand out the next node and put its children in front of the others. -/
def next (w : Walk) : Option ((Nat × Node) × Walk) :=
  match w.stack with
  | [] => none
  | (depth, n) :: rest =>
    some ((depth, n),
      { w with stack := (w.keeps n.children).map (fun child => (depth + 1, child)) ++ rest })

/-- The nodes of the next `steps` steps. -/
def run : Nat → Walk → List (Nat × Node)
  | 0, _ => []
  | steps + 1, w =>
    match w.next with
    | none => []
    | some (visited, w) => visited :: run steps w

end Walk

/-- Every node, in pre-order with its depth. -/
def preorder (root : Node) : List (Nat × Node) :=
  Walk.run root.size ⟨[(0, root)], false⟩

/-- Number of nodes in the tree, counted by the walk. -/
def count (root : Node) : Nat := root.preorder.length

/-- The root and the named nodes without an anonymous node above them other than the root. -/
def namedPreorder (root : Node) : List (Nat × Node) :=
  Walk.run root.size ⟨[(0, root)], true⟩

/-! ## Reading a listing back -/

/-- An entry of a listing whose ends nobody has tested. -/
structure RawEntry where
  depth : Nat
  name : String
  start : Nat
  stop : Nat
  named : Bool

/-- A node whose children are still being read. -/
structure Open where
  depth : Nat
  name : String
  span : Span
  named : Bool
  /-- The children read so far, the last one first. -/
  children : List Node

namespace Open

/-- The node is complete: its children must lie inside it. -/
def close (o : Open) : Except Fault Node := build o.name o.span o.named o.children.reverse

/-- Give a node one more child. -/
def push (o : Open) (child : Node) : Open := { o with children := child :: o.children }

end Open

/-- Close the open nodes of at least the given depth, the deepest first. The outermost node stays
open. -/
def closeDownTo (depth : Nat) : Open → List Open → Except Fault (List Open)
  | o, [] => .ok [o]
  | o, parent :: rest =>
    if depth ≤ o.depth then do
      closeDownTo depth (parent.push (← o.close)) rest
    else
      .ok (o :: parent :: rest)

/-- Close all open nodes, the deepest first. -/
def closeAll : Open → List Open → Except Fault Node
  | o, [] => o.close
  | o, parent :: rest => do closeAll (parent.push (← o.close)) rest

/-- Read the entries after the first ones, with the open nodes at hand, the deepest first. -/
def readRaw : List Open → List RawEntry → Except Fault (List Open)
  | opened, [] => .ok opened
  | opened, raw :: rest => do
    let opened ← match opened with
      | [] => pure []
      | o :: outer => closeDownTo raw.depth o outer
    let span ← Span.between raw.start raw.stop
    readRaw (⟨raw.depth, raw.name, span, raw.named, []⟩ :: opened) rest

/-- The tree that a listing describes. A node's ends are tested when its entry is reached, and its
children when the first entry outside it is. An empty listing describes no tree. -/
def ofRaw? (entries : List RawEntry) : Except Fault (Option Node) := do
  match ← readRaw [] entries with
  | [] => return none
  | o :: outer => return some (← closeAll o outer)

end Node

end TreePanel
