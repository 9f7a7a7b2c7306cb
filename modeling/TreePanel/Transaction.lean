import TreePanel.Selection
import TreePanel.Snapshot

/-!
# Transactions and updates

A panel never changes an editor by itself. It sends a transaction, and the editor answers with an
update that tells what its state is now and what changed. Both may carry effects on the highlight,
and the tag of whoever caused them.
-/

namespace TreePanel

/-- The tag of a cause. Each panel has one of its own. -/
structure Origin where
  number : Nat
deriving DecidableEq, Repr

/-- An effect on the highlight: a span to show, or none to clear it. -/
abbrev Effect := Option Span

/-- A request to an editor. -/
structure Transaction where
  effects : List Effect
  selection : Option Selection
  origin : Option Origin
deriving DecidableEq

namespace Transaction

/-- Only change the highlight, under nobody's tag. -/
def highlight (effect : Effect) : Transaction := ⟨[effect], none, none⟩

/-- Select, under the tag of the panel. -/
def select (selection : Selection) (origin : Origin) : Transaction :=
  ⟨[], some selection, some origin⟩

end Transaction

/-- What an editor tells after a change. -/
structure Update where
  /-- The tree as it is now; the same snapshot as before if nothing was parsed anew. -/
  tree : Snapshot
  /-- The selection as it is now. -/
  selection : Selection
  selectionChanged : Bool
  textChanged : Bool
  /-- The tag of the transaction that caused the change. -/
  origin : Option Origin
  /-- The effects of that transaction, in order. -/
  effects : List Effect

end TreePanel
