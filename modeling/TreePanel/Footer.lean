import TreePanel.Count
import TreePanel.Lines
import TreePanel.Selection

/-!
# The position footer

Under the rows stands one line for each range of the selection. It tells where the head of the
range is: line and column from one, position from zero.
-/

namespace TreePanel.Footer

/-- Where a head stands. -/
structure Place where
  line : Nat
  column : Nat
  position : Nat
deriving DecidableEq, Repr

/-- The place of an offset, by a lookup that tells its line. -/
def placeOf (lineAt : Nat → Except Fault Line) (offset : Nat) : Except Fault Place := do
  let line ← lineAt offset
  let before ← Count.sub offset line.start
  let column ← Count.add before 1
  return ⟨line.number, column, offset⟩

/-- A place as it is shown. -/
def Place.text (p : Place) : String :=
  "line " ++ toString p.line ++ ", col " ++ toString p.column ++ ", pos " ++ toString p.position

/-- The footer line of one range. -/
def lineOf (lineAt : Nat → Except Fault Line) (r : Range) : Except Fault String :=
  return (← placeOf lineAt r.head).text

/-- The footer lines of a selection, in the order of its ranges. -/
def ofSelection (lineAt : Nat → Except Fault Line) (s : Selection) : Except Fault (List String) :=
  s.ranges.mapM (lineOf lineAt)

end TreePanel.Footer
