import TreePanel.Fault

/-!
# Lines of a text

A line ends at a break: LF, CR, CR LF together, U+000B, U+000C, U+0085, U+2028 or U+2029. The
breaks of a text are known by the offsets at which they end. A line has a number, one more than
the breaks that end at or before it, and a start, the end of the last of those breaks. So an
offset between CR and LF is still on the line that the pair ends.
-/

namespace TreePanel

/-- A line of a text. -/
structure Line where
  /-- Lines count from one. -/
  number : Nat
  /-- Offset of the line's first character. -/
  start : Nat
deriving DecidableEq, Repr

namespace Lines

/-- The characters that end a line. -/
def isBreak (c : Char) : Bool :=
  c == '\n' || c == '\r' || c == '\x0b' || c == '\x0c' || c == '\u0085' || c == '\u2028'
    || c == '\u2029'

/-- The offsets at which the breaks of `text` end, when `text` stands at `offset`. -/
def breakEndsFrom (offset : Nat) : List Char → List Nat
  | [] => []
  | '\r' :: '\n' :: rest => (offset + 2) :: breakEndsFrom (offset + 2) rest
  | c :: rest =>
    if isBreak c then (offset + 1) :: breakEndsFrom (offset + 1) rest
    else breakEndsFrom (offset + 1) rest

/-- The offsets at which the breaks of a text end, in order. -/
def breakEnds (text : List Char) : List Nat := breakEndsFrom 0 text

/-- Number of lines; a text without breaks has one. -/
def count (text : List Char) : Nat := (breakEnds text).length + 1

/-- The line that begins at the last of the given breaks. -/
def lineAfter (breaks : List Nat) : Line := ⟨breaks.length + 1, breaks.getLastD 0⟩

/-- The line that holds an offset of the text. -/
def lineOf (text : List Char) (offset : Nat) : Line :=
  lineAfter ((breakEnds text).takeWhile (· ≤ offset))

/-- The line that holds an offset; a fault beyond the end of the text. -/
def lineAt (text : List Char) (offset : Nat) : Except Fault Line :=
  if offset ≤ text.length then .ok (lineOf text offset)
  else .error (.offsetOutside offset text.length)

end Lines

end TreePanel
