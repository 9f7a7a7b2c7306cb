import TreePanel.Transaction

/-!
# Commands

A command is what a panel wants done after it has handled a message. Commands may be batched, and
batches nested; `flatten` lists what there is to do, in order. The list grows on the way through the
batches (`flattenInto`), which puts the lists of their members one after the other
(`flattenInto_eq`, `flattenAll_cons`).
-/

namespace TreePanel

/-- What a panel wants done. -/
inductive Command where
  /-- Nothing. -/
  | none
  /-- Paint the panel again. -/
  | redraw
  /-- Send a transaction to the editor. -/
  | dispatch (transaction : Transaction)
  /-- Show a mark in the editor, or remove it. -/
  | decorate (span : Option Span)
  /-- Bring a row into view at the next tick. -/
  | scrollTo (row : Nat)
  /-- Several commands, one after the other. -/
  | batch (commands : List Command)

namespace Command

instance : Inhabited Command := ⟨none⟩

/-- Whether there is nothing to do, not even an empty batch. -/
def isNone : Command → Bool
  | none => true
  | _ => false

mutual
/-- Whether the panel is to be painted again. A transaction does not count: the update that
answers it will tell. -/
def needsRedraw : Command → Bool
  | redraw => true
  | batch commands => anyNeedsRedraw commands
  | none | dispatch _ | decorate _ | scrollTo _ => false

/-- Whether one of several commands needs the panel painted again. -/
def anyNeedsRedraw : List Command → Bool
  | [] => false
  | c :: rest => c.needsRedraw || anyNeedsRedraw rest
end

mutual
/-- List the commands that do something, in order, behind those that are listed already. -/
def flattenInto : Command → List Command → List Command
  | none, listed => listed
  | batch commands, listed => flattenAllInto commands listed
  | redraw, listed => listed ++ [redraw]
  | dispatch transaction, listed => listed ++ [dispatch transaction]
  | decorate span, listed => listed ++ [decorate span]
  | scrollTo row, listed => listed ++ [scrollTo row]

/-- List the commands of several, one after the other, behind those that are listed already. -/
def flattenAllInto : List Command → List Command → List Command
  | [], listed => listed
  | c :: rest, listed => flattenAllInto rest (c.flattenInto listed)
end

/-- The commands that do something, in order, without batches. -/
def flatten (c : Command) : List Command := c.flattenInto []

/-- The commands of several, one after the other. -/
def flattenAll (commands : List Command) : List Command := flattenAllInto commands []

mutual
/-- Listing behind other commands appends the list to them. -/
theorem flattenInto_eq : (c : Command) → (listed : List Command) →
    c.flattenInto listed = listed ++ c.flatten
  | none, listed => (List.append_nil listed).symm
  | batch commands, listed => flattenAllInto_eq commands listed
  | redraw, _ => rfl
  | dispatch _, _ => rfl
  | decorate _, _ => rfl
  | scrollTo _, _ => rfl

/-- Listing several commands behind others appends their list. -/
theorem flattenAllInto_eq : (commands listed : List Command) →
    flattenAllInto commands listed = listed ++ flattenAll commands
  | [], listed => (List.append_nil listed).symm
  | c :: rest, listed =>
    calc flattenAllInto rest (c.flattenInto listed)
      _ = c.flattenInto listed ++ flattenAll rest := flattenAllInto_eq rest _
      _ = listed ++ (c.flatten ++ flattenAll rest) := by
        rw [flattenInto_eq c listed, List.append_assoc]
      _ = listed ++ flattenAll (c :: rest) :=
        congrArg (listed ++ ·) (flattenAllInto_eq rest c.flatten).symm
end

/-- A batch is listed as its members are. -/
@[simp] theorem flatten_batch (commands : List Command) :
    (batch commands).flatten = flattenAll commands := rfl

/-- Where there are no commands, nothing is listed. -/
@[simp] theorem flattenAll_nil : flattenAll [] = [] := rfl

/-- The list of several commands begins with that of the first one. -/
@[simp] theorem flattenAll_cons (c : Command) (rest : List Command) :
    flattenAll (c :: rest) = c.flatten ++ flattenAll rest :=
  flattenAllInto_eq rest c.flatten

/-- One command for a list: none for the empty list, and a batch only where there are several. -/
def ofList? : List Command → Option Command
  | [] => Option.none
  | [c] => some c
  | commands => some (batch commands)

end Command

end TreePanel
