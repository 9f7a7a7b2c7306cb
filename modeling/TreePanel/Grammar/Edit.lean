import TreePanel.Grammar.RangeTree

/-!
# The edit between two texts

From an old text and a new one `Edit.between?` finds the one range of bytes that was replaced: what
both begin with and what both end with is left out, the ends being compared only after the
beginnings, so that they never overlap. Every end of the range is also given as a point, by row and
column in bytes.
-/

namespace TreePanel

/-- A place of a text by its row and its column in bytes, both from zero. -/
structure Point where
  row : Nat
  column : Nat
deriving DecidableEq, Repr

/-- A replacement of the bytes from `start` to `oldStop` by those that now reach to `newStop`. -/
structure Edit where
  start : Nat
  oldStop : Nat
  newStop : Nat
  startPoint : Point
  oldStopPoint : Point
  newStopPoint : Point
deriving DecidableEq, Repr

namespace Edit

/-- The byte that ends a row. -/
def lineFeed : UInt8 := 10

/-- How many bytes two texts begin with in common. -/
def common : List UInt8 → List UInt8 → Nat
  | a :: as, b :: bs => if a = b then common as bs + 1 else 0
  | _, _ => 0

/-- The point of an offset: the rows before it, and the bytes after the last of them. -/
def pointAt (text : List UInt8) (offset : Nat) : Point :=
  let before := text.take offset
  ⟨before.count lineFeed, (before.reverse.takeWhile (· ≠ lineFeed)).length⟩

/-- The edit that makes one text of bytes into another one, whether they differ or not. -/
def ofBytes (old new : List UInt8) : Edit :=
  let start := common old new
  let atMost := min (old.length - start) (new.length - start)
  let kept := common (old.reverse.take atMost) (new.reverse.take atMost)
  let oldStop := old.length - kept
  let newStop := new.length - kept
  ⟨start, oldStop, newStop, pointAt old start, pointAt old oldStop, pointAt new newStop⟩

/-- The edit that makes one text into another one; none if they are equal. -/
def between? (old new : List Char) : Option Edit :=
  if old = new then none else some (ofBytes (RangeTree.bytes old) (RangeTree.bytes new))

end Edit

end TreePanel
