import TreePanel.Transaction

/-!
# Messages to a panel

A panel hears of three kinds of events: the editor changed, somebody used the pointer or the wheel
on it, or it is time for what was put off. Input at a row is kept apart from input at a point of
the surface, because a point has to be turned into a row first, and only once.
-/

namespace TreePanel

/-- Input that already names the row or the span it is about. -/
inductive RowInput where
  /-- The pointer entered a row. -/
  | hoverRow (index : Nat)
  /-- The pointer entered a node with this span. -/
  | hoverSpan (span : Span)
  /-- The pointer left the rows. -/
  | leave
  /-- A row was clicked. -/
  | clickRow (index : Nat)
  /-- A node with this span was clicked. -/
  | clickSpan (span : Span)
  /-- The wheel was turned, down if the number of lines is positive. -/
  | scroll (lines : Int)
deriving DecidableEq

/-- Input on the panel. -/
inductive Input where
  | atRow (input : RowInput)
  /-- The pointer moved to a point. -/
  | moved (x y : Float32)
  /-- The pointer was pressed at a point. -/
  | pressed (x y : Float32)

/-- A message to a panel. -/
inductive Message where
  | update (update : Update)
  | input (input : Input)
  | tick

end TreePanel
