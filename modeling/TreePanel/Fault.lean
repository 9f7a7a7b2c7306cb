/-!
# Faults

An operation that is asked for something it must not do stops with a fault: a span whose ends are
reversed, a child outside its parent, an edit or a line lookup beyond the text, a count that leaves
the 64-bit range, or an indentation that leaves the range of widths. A fault is a cause; its wording
is `Fault.message` alone.
-/

namespace TreePanel

/-- Why an operation stopped. -/
inductive Fault where
  /-- A span was given an end before its start. -/
  | spanReversed
  /-- A node named `name` over `[start..stop)` was given a child that reaches outside it. -/
  | childOutside (name : String) (start stop : Nat)
  /-- An edit was given a range that is reversed or ends after the text. -/
  | editOutside
  /-- A line was asked for at an offset after the end of a text of `length` characters. -/
  | offsetOutside (offset length : Nat)
  /-- A sum left the 64-bit range. -/
  | sumOutOfRange
  /-- A difference fell below zero. -/
  | differenceOutOfRange
  /-- A product left the 64-bit range. -/
  | productOutOfRange
  /-- A text was to be indented by more columns than 16 bits count. -/
  | widthOutOfRange
deriving DecidableEq, Repr

namespace Fault

/-- The wording of a fault. -/
def message : Fault → String
  | spanReversed => "assertion failed: from <= to"
  | childOutside name start stop =>
    "children of " ++ name ++ " must nest inside [" ++ toString start ++ ".." ++ toString stop ++
      ")"
  | editOutside => "assertion failed: from <= to && to <= self.buffer.len_chars()"
  | offsetOutside offset length =>
    "called `Result::unwrap()` on an `Err` value: Char index out of bounds: char index "
      ++ toString offset ++ ", Rope/RopeSlice char length " ++ toString length
  | sumOutOfRange => "attempt to add with overflow"
  | differenceOutOfRange => "attempt to subtract with overflow"
  | productOutOfRange => "attempt to multiply with overflow"
  | widthOutOfRange => "Formatting argument out of range"

end Fault

end TreePanel
