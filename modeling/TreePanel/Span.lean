import TreePanel.Fault

/-!
# Spans

A span is a half-open interval `[start..stop)` of character offsets. That its ends are in order
is part of the type, so every later module may rely on it; `Span.between` is the only place where
the order is tested.
-/

namespace TreePanel

/-- A half-open interval of character offsets. -/
structure Span where
  /-- Offset of the first character inside. -/
  start : Nat
  /-- Offset after the last character inside. -/
  stop : Nat
  /-- The ends are in order. -/
  ordered : start ≤ stop := by omega
deriving DecidableEq

namespace Span

/-- The span between two offsets; a fault if they are reversed. -/
def between (start stop : Nat) : Except Fault Span :=
  if h : start ≤ stop then .ok ⟨start, stop, h⟩ else .error .spanReversed

/-- Number of characters inside. -/
def length (s : Span) : Nat := s.stop - s.start

/-- Nothing lies inside a zero-width span. -/
def isEmpty (s : Span) : Bool := s.start == s.stop

/-- `inner` lies entirely inside `s`. -/
def contains (s inner : Span) : Bool := s.start ≤ inner.start && inner.stop ≤ s.stop

/-- Order by start, then by stop. -/
def precedes (s t : Span) : Bool := s.start < t.start || (s.start == t.start && s.stop < t.stop)

/-- A span as it is written for a reader, `[start..stop)`. -/
def text (s : Span) : String := "[" ++ toString s.start ++ ".." ++ toString s.stop ++ ")"

/-- There is a span between two offsets in order. -/
theorem between_eq_ok {a b : Nat} (h : a ≤ b) : between a b = .ok ⟨a, b, h⟩ := dif_pos h

/-- A span contains another exactly if its ends enclose those of the other. -/
theorem contains_iff {s inner : Span} :
    s.contains inner = true ↔ s.start ≤ inner.start ∧ inner.stop ≤ s.stop := by
  simp [contains]

end Span

end TreePanel
