import TreePanel.Count
import TreePanel.Geometry

/-!
# The viewport of an outline

The panel's surface holds a title bar, then rows, then the lines of the footer, all of one height
but for a little padding under the title. A viewport knows which row is the first one shown, and
turns points of the surface into rows. All lengths are 32-bit floats and are computed in one fixed
order, so that rounding is the same everywhere.
-/

namespace TreePanel

/-- The part of the rows that the panel shows. -/
structure Viewport where
  surface : Surface
  rowHeight : Float32
  /-- Index of the first row shown. -/
  offset : Nat

namespace Viewport

open Coordinate

/-- Space under the text of the title. -/
def titlePadding : Float32 := Float32.ofBits 0x40800000

/-- A count as a length, rounded to the nearest float. -/
def lengthOfCount (n : Nat) : Float32 := (UInt64.ofNat n).toFloat32

/-- How many whole times a length holds another: the quotient without its fraction, zero if it is
negative or no number, and the largest count if it is beyond all counts. -/
def wholeTimes (length unit : Float32) : Nat := (length / unit).toUInt64.toNat

/-- Height of the title bar. -/
def titleHeight (v : Viewport) : Float32 := v.rowHeight + titlePadding

/-- Upper side of the first row. -/
def contentTop (v : Viewport) : Float32 := v.surface.y + v.titleHeight

/-- Number of rows that fit between the title bar and a footer of the given number of lines. -/
def visibleRows (v : Viewport) (footerLines : Nat) : Nat :=
  if v.rowHeight ≤ zero then 0
  else
    let footer := lengthOfCount footerLines * v.rowHeight
    wholeTimes (larger (v.surface.height - v.titleHeight - footer) zero) v.rowHeight

/-- The largest offset at which the last row is still shown. -/
def maxOffset (v : Viewport) (total footerLines : Nat) : Nat := total - v.visibleRows footerLines

/-- Keep the offset within the rows. -/
def clamp (v : Viewport) (total footerLines : Nat) : Viewport :=
  { v with offset := min v.offset (v.maxOffset total footerLines) }

/-- Scroll down by `lines`, or up if that is negative, as far as there are rows. -/
def scrollBy (v : Viewport) (lines : Int) (total footerLines : Nat) : Except Fault Viewport := do
  let offset ← if lines < 0 then pure (v.offset - lines.natAbs) else Count.add v.offset lines.toNat
  return { v with offset := offset }.clamp total footerLines

/-- Put a row in the middle of the rows that are shown, as far as there are rows. -/
def centerOn (v : Viewport) (row total footerLines : Nat) : Viewport :=
  { v with offset := row - v.visibleRows footerLines / 2 }.clamp total footerLines

/-- Whether a row is shown. The sum is formed only for rows that are not above the first one. -/
def isVisible (v : Viewport) (row footerLines : Nat) : Except Fault Bool :=
  if v.offset ≤ row then do
    return row < (← Count.add v.offset (v.visibleRows footerLines))
  else
    return false

/-- How many rows below the first one a height of the surface is. -/
def slotAt (v : Viewport) (y : Float32) : Nat := wholeTimes (y - v.contentTop) v.rowHeight

/-- The row under a point; title bar and footer are not rows. -/
def rowAt (v : Viewport) (x y : Float32) (total footerLines : Nat) : Except Fault (Option Nat) :=
  if !v.surface.contains x y || y < v.contentTop then return none
  else
    let slot := v.slotAt y
    if v.visibleRows footerLines ≤ slot then return none
    else do
      let row ← Count.add v.offset slot
      return if row < total then some row else none

end Viewport

end TreePanel
