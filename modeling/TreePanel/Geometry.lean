/-!
# Geometry of surfaces

A surface is a rectangle, half-open on its right and lower side. The rules for rectangles are
stated over any type of coordinates with a `Coordinate` instance, so that one definition serves
the machine's 32-bit floats, which the panel runs on, and the exact rationals, over which its laws
are simple to state.
-/

namespace TreePanel

/-- What a type of coordinates offers. The tests are Boolean because the floats have a value that
is not comparable, and every test that meets it fails. -/
class Coordinate (α : Type) extends Add α, Sub α where
  zero : α
  /-- The smallest size of a dock that has room for it. -/
  smallestDock : α
  /-- One half of a length. -/
  half : α → α
  /-- The larger of two; an incomparable one gives way to the other. -/
  larger : α → α → α
  /-- The smaller of two; an incomparable one gives way to the other. -/
  smaller : α → α → α
  atMost : α → α → Bool
  below : α → α → Bool

namespace Coordinate

/-- The larger of two floats, the second one if they are equal: both zeros are, whatever their
signs. -/
def largerFloat (a b : Float32) : Float32 := if b.isNaN || b < a then a else b

/-- The smaller of two floats, the second one if they are equal. -/
def smallerFloat (a b : Float32) : Float32 := if b.isNaN || a < b then a else b

end Coordinate

/-- The coordinates that a panel computes with. -/
instance : Coordinate Float32 where
  zero := Float32.ofBits 0x00000000
  -- 120
  smallestDock := Float32.ofBits 0x42f00000
  -- times 0.5
  half := fun a => a * Float32.ofBits 0x3f000000
  larger := Coordinate.largerFloat
  smaller := Coordinate.smallerFloat
  atMost := fun a b => a ≤ b
  below := fun a b => a < b

/-- Exact coordinates, in which nothing is rounded. -/
instance : Coordinate Rat where
  add := Rat.add
  sub := Rat.sub
  zero := Rat.ofInt 0
  smallestDock := Rat.ofInt 120
  half := fun a => Rat.div a (Rat.ofInt 2)
  larger := fun a b => if Rat.blt a b then b else a
  smaller := fun a b => if Rat.blt b a then b else a
  atMost := fun a b => !Rat.blt b a
  below := Rat.blt

/-- A rectangle by its upper left corner and its extent. -/
structure Rect (α : Type) where
  x : α
  y : α
  width : α
  height : α

/-- A rectangle of the screen. -/
abbrev Surface := Rect Float32

namespace Rect

variable {α : Type} [Coordinate α]

open Coordinate

/-- The coordinate after the rectangle on its right. -/
def right (r : Rect α) : α := r.x + r.width

/-- The coordinate after the rectangle below it. -/
def bottom (r : Rect α) : α := r.y + r.height

/-- The point `(px, py)` lies inside; the right and the lower side lie outside. -/
def contains (r : Rect α) (px py : α) : Bool :=
  atMost r.x px && below px r.right && atMost r.y py && below py r.bottom

end Rect

end TreePanel
