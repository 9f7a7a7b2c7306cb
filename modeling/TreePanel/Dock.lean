import TreePanel.Geometry

/-!
# Docks

A dock carves a panel out of the surface of an editor, at its left, its right or its lower side.
`Dock.split` gives both parts, over any coordinates. A mounted dock remembers the surface as it
was before, so that the editor can have it back.
-/

namespace TreePanel

/-- The side of the editor at which a panel docks. -/
inductive DockSide where
  | left
  | right
  | bottom
deriving DecidableEq, Repr

/-- The direction in which a dock extends along the editor. -/
inductive Axis where
  | horizontal
  | vertical
deriving DecidableEq, Repr

namespace DockSide

instance : Inhabited DockSide := ⟨right⟩

/-- All sides, in the order in which a reader is told of them. -/
def all : List DockSide := [left, right, bottom]

/-- The name of a side. -/
def name : DockSide → String
  | left => "left"
  | right => "right"
  | bottom => "bottom"

/-- The side with the given name. -/
def ofName? (name : String) : Option DockSide := all.find? fun side => side.name == name

/-- A dock at a side runs from top to bottom, one at the bottom from left to right. -/
def axis : DockSide → Axis
  | left | right => .vertical
  | bottom => .horizontal

end DockSide

namespace Dock

variable {α : Type} [Coordinate α]

open Coordinate

/-- The size of a dock for which `requested` is asked on a surface of the given extent: at least
the smallest dock, but never more than half of the extent, and never negative. -/
def clampSize (requested extent : α) : α :=
  smaller (larger requested smallestDock) (larger (half extent) zero)

/-- The parts of a surface, first the editor's and then the panel's. -/
def split (side : DockSide) (requested : α) (host : Rect α) : Rect α × Rect α :=
  match side with
  | .left =>
    let size := clampSize requested host.width
    (⟨host.x + size, host.y, host.width - size, host.height⟩,
      ⟨host.x, host.y, size, host.height⟩)
  | .right =>
    let size := clampSize requested host.width
    (⟨host.x, host.y, host.width - size, host.height⟩,
      ⟨host.right - size, host.y, size, host.height⟩)
  | .bottom =>
    let size := clampSize requested host.height
    (⟨host.x, host.y, host.width, host.height - size⟩,
      ⟨host.x, host.bottom - size, host.width, size⟩)

end Dock

/-- A mounted dock. -/
structure Dock where
  side : DockSide
  /-- The size that was asked for. -/
  requested : Float32
  /-- The surface before it was split. -/
  whole : Surface
  /-- The part left to the editor. -/
  editor : Surface
  /-- The part given to the panel. -/
  panel : Surface

/-- Split a surface and remember it. -/
def Dock.mount (side : DockSide) (requested : Float32) (host : Surface) : Dock :=
  let (editor, panel) := Dock.split side requested host
  ⟨side, requested, host, editor, panel⟩

end TreePanel
