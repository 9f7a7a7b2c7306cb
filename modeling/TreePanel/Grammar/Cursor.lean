import TreePanel.Grammar.RangeTree

/-!
# Cursors in a tree

A cursor stands on one node of a tree, shows it, and moves to the first child, to the next sibling
or back to the parent. What a cursor is made of is left open (`Cursors`). One kind of cursor keeps
the way down to its node, with the siblings that were left on either side (`Cursor`).

`Cursors.convertTree` gives the nodes of a tree their character spans with a single cursor. It does
not look at the tree: the moves that are made decide alone how it goes on, so it need not come to an
end for cursors that go round in circles. A limit on how deep conversions stand inside one another
makes it a function; a conversion that would exceed the limit has no result.
-/

namespace TreePanel

/-- What a cursor shows of a node. -/
structure Label where
  kind : String
  named : Bool
  start : Nat
  stop : Nat

/-- What a cursor shows of the root of a tree. -/
def RangeTree.label (t : RangeTree) : Label := ⟨t.kind, t.named, t.start, t.stop⟩

/-- The tree over children whose root shows as the label. -/
def Label.over (label : Label) (children : List RangeTree) : RangeTree :=
  .mk label.kind label.named label.start label.stop children

/-- The node with a label over children that are done, with its character span. -/
def Label.toNode (text : List Char) (label : Label) (children : List Node) : Except Fault Node := do
  let span ← Span.between (RangeTree.charOffset text label.start)
    (RangeTree.charOffset text label.stop)
  Node.build label.kind span label.named children

/-- How cursors of a kind are made, read and moved. A cursor that cannot be moved stays. -/
structure Cursors (κ : Type) where
  /-- A cursor on the root of a tree. -/
  ofTree : RangeTree → κ
  /-- The node under a cursor. -/
  label : κ → Label
  firstChild? : κ → Option κ
  nextSibling? : κ → Option κ
  parent? : κ → Option κ

/-- What a cursor brings back: what was converted, where it stands now, and where it stood whenever
the conversion of a node began, in order. -/
structure Harvest (κ α : Type) where
  found : α
  cursor : κ
  visited : List κ

namespace Cursors

variable {κ : Type}

mutual
/-- Convert the node under a cursor with all that is below it. -/
def convertNode (cursors : Cursors κ) (text : List Char) :
    Nat → κ → ExceptT Fault Option (Harvest κ Node)
  | 0, _ => ExceptT.mk none
  | limit + 1, c => do
    let label := cursors.label c
    let below ← match cursors.firstChild? c with
      | none => pure ⟨[], c, []⟩
      | some child => do
        let row ← cursors.convertRow text limit child
        -- The last child brings back to the node, if there is a way back at all.
        pure { row with cursor := (cursors.parent? row.cursor).getD row.cursor }
    let node ← label.toNode text below.found
    return ⟨node, below.cursor, c :: below.visited⟩

/-- Convert the node under a cursor and every sibling after it. -/
def convertRow (cursors : Cursors κ) (text : List Char) :
    Nat → κ → ExceptT Fault Option (Harvest κ (List Node))
  | 0, _ => ExceptT.mk none
  | limit + 1, c => do
    let first ← cursors.convertNode text limit c
    let rest ← match cursors.nextSibling? first.cursor with
      | none => pure ⟨[], first.cursor, []⟩
      | some sibling => cursors.convertRow text limit sibling
    return ⟨first.found :: rest.found, rest.cursor, first.visited ++ rest.visited⟩
end

/-- Convert a tree with a new cursor: nothing if the limit is exceeded. -/
def convertTree (cursors : Cursors κ) (text : List Char) (limit : Nat) (tree : RangeTree) :
    Option (Except Fault (Harvest κ Node)) :=
  cursors.convertNode text limit (cursors.ofTree tree)

end Cursors

/-! ## Cursors that keep the way down -/

/-- One step of the way down: the node that was left, and the siblings of the child entered. -/
structure Crumb where
  label : Label
  /-- The siblings before, the nearest first. -/
  before : List RangeTree
  /-- The siblings after, in order. -/
  after : List RangeTree

/-- The node that was left, with the child that was entered among its siblings. -/
def Crumb.close (crumb : Crumb) (child : RangeTree) : RangeTree :=
  crumb.label.over (crumb.before.reverse ++ child :: crumb.after)

/-- A node of a tree and the way to it. -/
structure Cursor where
  focus : RangeTree
  /-- The steps of the way, the last one first. -/
  trail : List Crumb

namespace Cursor

/-- A cursor on the root of a tree. -/
def ofTree (tree : RangeTree) : Cursor := ⟨tree, []⟩

/-- Move to the first child, if there is one. -/
def firstChild? (c : Cursor) : Option Cursor :=
  match c.focus.children with
  | [] => none
  | child :: rest => some ⟨child, ⟨c.focus.label, [], rest⟩ :: c.trail⟩

/-- Move to the next sibling, if there is one. -/
def nextSibling? (c : Cursor) : Option Cursor :=
  match c.trail with
  | [] => none
  | crumb :: trail =>
    match crumb.after with
    | [] => none
    | sibling :: rest => some ⟨sibling, ⟨crumb.label, c.focus :: crumb.before, rest⟩ :: trail⟩

/-- Move to the parent, if there is one. -/
def parent? (c : Cursor) : Option Cursor :=
  match c.trail with
  | [] => none
  | crumb :: trail => some ⟨crumb.close c.focus, trail⟩

end Cursor

/-- Cursors that keep the way down. -/
def Cursors.trailed : Cursors Cursor :=
  ⟨Cursor.ofTree, fun c => c.focus.label, Cursor.firstChild?, Cursor.nextSibling?, Cursor.parent?⟩

end TreePanel
