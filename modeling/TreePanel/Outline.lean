import TreePanel.Count
import TreePanel.Footer
import TreePanel.Listing
import TreePanel.RowFlags
import TreePanel.Settings

/-!
# The outline

The outline of a tree has one row for each node that is shown, in pre-order, with the depth of the
node and its flags under the selection, and below the rows the position footer. `Outline.render`
makes the whole outline anew each time. The row to bring into view is the last one with a flag.
-/

namespace TreePanel

/-- One row of an outline. -/
structure Row where
  /-- Position among the rows. -/
  index : Nat
  depth : Nat
  name : String
  span : Span
  flags : RowFlags
deriving DecidableEq

/-- The widest indentation of a text. -/
def Row.widest : Nat := 0xffff

/-- The name of the node, indented by its depth. A wider indentation than the widest is a fault. -/
def Row.text (r : Row) (indentWidth : Nat) : Except Fault String := do
  let width ← Count.mul r.depth indentWidth
  if Row.widest < width then throw .widthOutOfRange
  return String.ofList (List.replicate width ' ') ++ r.name

/-- What the panel shows. -/
structure Outline where
  rows : List Row
  footer : List String
  /-- The last row with a flag. -/
  center : Option Nat
  indentWidth : Nat
deriving DecidableEq

namespace Outline

/-- The row of the given index. -/
def row? (o : Outline) (index : Nat) : Option Row := o.rows[index]?

/-- Number of rows. -/
def length (o : Outline) : Nat := o.rows.length

/-- The texts of the rows, then the footer. -/
def lines (o : Outline) : Except Fault (List String) := do
  return (← o.rows.mapM (·.text o.indentWidth)) ++ o.footer

/-- The nodes that have rows. -/
def shown (settings : Settings) (root : Node) : List (Nat × Node) :=
  if settings.showAnonymous then root.preorder else root.namedPreorder

/-- The rows of the nodes that are shown. -/
def rowsOf (settings : Settings) (root : Node) (selection : Selection) : List Row :=
  (shown settings root).mapIdx fun index (depth, n) =>
    ⟨index, depth, n.name, n.span, .ofSelection n.span selection⟩

/-- The index of the last row with a flag. -/
def centerOf (rows : List Row) : Option Nat :=
  rows.foldl (fun center r => if r.flags.isEmpty then center else some r.index) none

/-- The outline of a tree under a selection. `lineAt` tells the line of an offset; only the footer
asks for it, so nothing can fault where the footer is off. -/
def render (root : Node) (selection : Selection) (lineAt : Nat → Except Fault Line)
    (settings : Settings) : Except Fault Outline := do
  let rows := rowsOf settings root selection
  let footer ← if settings.footer then Footer.ofSelection lineAt selection else pure []
  return ⟨rows, footer, centerOf rows, settings.indentWidth⟩

end Outline

end TreePanel
