import TreePanel.Fault

/-!
# Counts of the machine

Offsets and row numbers are natural numbers that the machine keeps in 64 bits. A sum or a product
that would not fit, and a difference that would be negative, are faults instead of wrapped results.
-/

namespace TreePanel.Count

/-- The first number that 64 bits cannot hold. -/
def bound : Nat := 0x10000000000000000

/-- The sum of two counts, if 64 bits hold it. -/
def add (a b : Nat) : Except Fault Nat :=
  if a + b < bound then .ok (a + b) else .error .sumOutOfRange

/-- The difference of two counts, if it is not negative. -/
def sub (a b : Nat) : Except Fault Nat :=
  if b ≤ a then .ok (a - b) else .error .differenceOutOfRange

/-- The product of two counts, if 64 bits hold it. -/
def mul (a b : Nat) : Except Fault Nat :=
  if a * b < bound then .ok (a * b) else .error .productOutOfRange

/-- A sum that 64 bits hold is told. -/
theorem add_eq_ok {a b : Nat} (h : a + b < bound) : add a b = .ok (a + b) := if_pos h

/-- A difference that is not negative is told. -/
theorem sub_eq_ok {a b : Nat} (h : b ≤ a) : sub a b = .ok (a - b) := if_pos h

/-- A sum that was told is the sum. -/
theorem eq_of_add {a b c : Nat} (h : add a b = .ok c) : c = a + b := by
  unfold add at h
  split at h
  · exact (Except.ok.inj h).symm
  · cases h

/-- A difference that was told is the difference. -/
theorem eq_of_sub {a b c : Nat} (h : sub a b = .ok c) : c = a - b := by
  unfold sub at h
  split at h
  · exact (Except.ok.inj h).symm
  · cases h

end TreePanel.Count
