import TreePanel.Selection

/-!
# Flags of outline rows

A row of the outline shows how its node lies to the selection. Three flags are independent of each
other, and a row carries the union of what the ranges of the selection give it.
-/

namespace TreePanel

/-- How a node lies to the selection. -/
structure RowFlags where
  /-- Some range covers the whole node. -/
  covered : Bool
  /-- Some range has an end strictly inside the node. -/
  cut : Bool
  /-- Some range has its head on the start of the node. -/
  caret : Bool
deriving DecidableEq, Repr

namespace RowFlags

/-- No flag is set. -/
def none : RowFlags := ⟨false, false, false⟩

/-- The flags set in either. -/
def union (a b : RowFlags) : RowFlags :=
  ⟨a.covered || b.covered, a.cut || b.cut, a.caret || b.caret⟩

/-- Whether no flag is set. -/
def isEmpty (f : RowFlags) : Bool := !(f.covered || f.cut || f.caret)

/-- The flags as a number: one for covered, two for cut, four for the caret. -/
def bits (f : RowFlags) : Nat := f.covered.toNat + 2 * f.cut.toNat + 4 * f.caret.toNat

/-- The flags of a number; its higher bits mean nothing. -/
def ofBits (n : Nat) : RowFlags := ⟨n.testBit 0, n.testBit 1, n.testBit 2⟩

/-- The style classes of the set flags. -/
def classNames (f : RowFlags) : List String :=
  (if f.covered then ["selected"] else []) ++ (if f.cut then ["partial"] else [])
    ++ (if f.caret then ["cursor"] else [])

/-- An offset lies strictly inside a span. -/
def inside (span : Span) (offset : Nat) : Bool := span.start < offset && offset < span.stop

/-- What one range gives to a node. -/
def ofRange (span : Span) (r : Range) : RowFlags where
  covered := r.low ≤ span.start && span.stop ≤ r.high
  cut := inside span r.low || inside span r.high
  caret := r.head == span.start

/-- What the ranges of a selection give to a node. -/
def ofSelection (span : Span) (s : Selection) : RowFlags :=
  s.ranges.foldl (fun flags r => flags.union (ofRange span r)) none

end RowFlags

end TreePanel
