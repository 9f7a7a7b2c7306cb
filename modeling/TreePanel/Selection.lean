import TreePanel.Span

/-!
# Selections

A range runs from its anchor, where the selection began, to its head, where the caret stands; the
head may come first. A selection is an ordered list of ranges that is never empty: the first range
is a field of its own.
-/

namespace TreePanel

/-- A selected range, from the fixed anchor to the moving head. -/
structure Range where
  anchor : Nat
  head : Nat
deriving DecidableEq, Repr

namespace Range

/-- The range that selects nothing and has its caret at `offset`. -/
def caret (offset : Nat) : Range := ⟨offset, offset⟩

/-- The smaller end. -/
def low (r : Range) : Nat := min r.anchor r.head

/-- The larger end. -/
def high (r : Range) : Nat := max r.anchor r.head

/-- Nothing is selected. -/
def isEmpty (r : Range) : Bool := r.anchor == r.head

/-- The head comes before the anchor. -/
def isReversed (r : Range) : Bool := r.head < r.anchor

/-- The lower end of a range is at or before the higher one. -/
theorem low_le_high (r : Range) : r.low ≤ r.high := by unfold low high; omega

/-- The characters that the range covers. -/
def span (r : Range) : Span := ⟨r.low, r.high, r.low_le_high⟩

end Range

/-- An ordered, non-empty list of ranges. -/
structure Selection where
  /-- The first range. -/
  primary : Range
  /-- The ranges after the first. -/
  others : List Range
deriving DecidableEq, Repr

namespace Selection

/-- All ranges, in order. -/
def ranges (s : Selection) : List Range := s.primary :: s.others

/-- The selection of exactly one range. -/
def single (r : Range) : Selection := ⟨r, []⟩

/-- A lone caret. -/
def caret (offset : Nat) : Selection := single (.caret offset)

/-- The selection with these ranges in this order; none for the empty list. -/
def ofRanges? : List Range → Option Selection
  | [] => none
  | r :: rest => some ⟨r, rest⟩

/-- The selection with every offset sent through `f`, range by range. -/
def mapOffsets (f : Nat → Except Fault Nat) (s : Selection) : Except Fault Selection := do
  let move (r : Range) : Except Fault Range := do return ⟨← f r.anchor, ← f r.head⟩
  return ⟨← move s.primary, ← s.others.mapM move⟩

instance : Inhabited Selection := ⟨caret 0⟩

/-- A selection is the one with its own ranges. -/
@[simp] theorem ofRanges?_ranges (s : Selection) : ofRanges? s.ranges = some s := rfl

end Selection

end TreePanel
