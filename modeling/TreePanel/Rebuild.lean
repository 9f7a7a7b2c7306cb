import TreePanel.Transaction

/-!
# When the outline is made anew

The outline is made anew when an update brings another snapshot than the last one, or changes the
selection. The outline then scrolls to the selection, unless the panel itself caused the update.
-/

namespace TreePanel

/-- What is to be done with the outline. -/
structure Rebuild.Decision where
  rebuild : Bool
  /-- Bring the selection into view; set only where the outline is made anew. -/
  scroll : Bool
deriving DecidableEq, Repr

/-- What the decisions depend on. -/
structure Rebuild where
  /-- The tag of the panel. -/
  origin : Origin
  /-- The snapshot that the outline shows, if there is an outline. -/
  last : Option Snapshot.Id

namespace Rebuild

/-- Leave the outline as it is. -/
def Decision.skip : Decision := ⟨false, false⟩

/-- There is no outline yet. -/
def start (origin : Origin) : Rebuild := ⟨origin, none⟩

/-- The first outline shows `tree`. -/
def prime (r : Rebuild) (tree : Snapshot) : Decision × Rebuild :=
  (⟨true, true⟩, { r with last := some tree.id })

/-- The decision on an update. -/
def decide (r : Rebuild) (u : Update) : Decision × Rebuild :=
  if r.last == some u.tree.id && !u.selectionChanged then (.skip, r)
  else (⟨true, u.origin != some r.origin⟩, { r with last := some u.tree.id })

/-- The decisions on a stream of updates. -/
def decideAll (r : Rebuild) : List Update → List Decision
  | [] => []
  | u :: rest => (r.decide u).1 :: decideAll (r.decide u).2 rest

end Rebuild

end TreePanel
