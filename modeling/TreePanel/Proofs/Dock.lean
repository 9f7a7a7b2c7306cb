import Mathlib.Algebra.Order.Field.Rat
import Mathlib.Tactic.Linarith
import TreePanel.Dock

/-!
# What a dock makes of a surface

Over exact coordinates, a dock cuts the surface of the editor in two by one line. An extent that is
half-open is cut without a gap or an overlap wherever the cut lies (`Extent.cut`), so the two parts
of a rectangle tile it if they are both as long, or both as wide, as the whole
(`Rect.tiles_columns`, `Rect.tiles_rows`). The three sides differ in the corner that the panel's
part is measured from.

The size of the panel is between zero and half the extent. The smallest dock wins over a smaller
request, and the half over both (`Dock.clampSize_eq`).
-/

namespace TreePanel

/-! ## Exact coordinates -/

namespace Coordinate

/-- The larger of two exact coordinates is their maximum. -/
theorem larger_eq_max (a b : Rat) : larger a b = max a b := by
  show (if a < b then b else a) = max a b
  split
  · next hlt => exact (max_eq_right hlt.le).symm
  · next hle => exact (max_eq_left (not_lt.1 hle)).symm

/-- The smaller of two exact coordinates is their minimum. -/
theorem smaller_eq_min (a b : Rat) : smaller a b = min a b := by
  show (if b < a then b else a) = min a b
  split
  · next hlt => exact (min_eq_right hlt.le).symm
  · next hle => exact (min_eq_left (not_lt.1 hle)).symm

/-- The test of two exact coordinates is their order. -/
theorem atMost_iff (a b : Rat) : atMost a b = true ↔ a ≤ b := by
  show (!Rat.blt b a) = true ↔ Rat.blt b a = false
  rw [Bool.not_eq_true']

end Coordinate

/-- A coordinate lies in the half-open extent of the given length. -/
def Extent (start length p : Rat) : Prop := start ≤ p ∧ p < start + length

/-- An extent that is cut into two lengths goes up to the cut and from there on, and nothing is in
both parts. -/
theorem Extent.cut {start length cut first second : Rat} (hcut : cut = start + first)
    (hlength : length = first + second) (hfirst : 0 ≤ first) (hsecond : 0 ≤ second) (p : Rat) :
    (Extent start length p ↔ Extent start first p ∨ Extent cut second p) ∧
      ¬(Extent start first p ∧ Extent cut second p) := by
  have hstop : start + length = cut + second := by rw [hlength, hcut, add_assoc]
  unfold Extent
  rw [hstop, ← hcut]
  constructor
  · constructor
    · rintro ⟨hstart, hstop⟩
      rcases lt_or_ge p cut with hbefore | hbehind
      · exact .inl ⟨hstart, hbefore⟩
      · exact .inr ⟨hbehind, hstop⟩
    · rintro (⟨hstart, hbefore⟩ | ⟨hbehind, hstop⟩)
      · exact ⟨hstart, by linarith⟩
      · exact ⟨by linarith, hstop⟩
  · rintro ⟨⟨-, hbefore⟩, hbehind, -⟩
    exact absurd hbehind (not_le.2 hbefore)

namespace Rect

/-- A point lies in a rectangle if each of its coordinates lies in the extent of that direction. -/
theorem contains_iff (r : Rect Rat) (px py : Rat) :
    r.contains px py = true ↔ Extent r.x r.width px ∧ Extent r.y r.height py := by
  have hleft : Coordinate.atMost r.x px = true ↔ r.x ≤ px := Coordinate.atMost_iff _ _
  have hupper : Coordinate.atMost r.y py = true ↔ r.y ≤ py := Coordinate.atMost_iff _ _
  have hright : Coordinate.below px r.right = true ↔ px < r.x + r.width := Iff.rfl
  have hlower : Coordinate.below py r.bottom = true ↔ py < r.y + r.height := Iff.rfl
  rw [contains, Bool.and_eq_true, Bool.and_eq_true, Bool.and_eq_true, hleft, hright, hupper, hlower]
  unfold Extent
  tauto

/-- Every point of the whole lies in one of two parts and not in the other, and no other point lies
in either. -/
def Tiles (whole first second : Rect Rat) : Prop :=
  ∀ px py : Rat,
    (whole.contains px py = true → first.contains px py = !second.contains px py) ∧
    (whole.contains px py = false →
      first.contains px py = false ∧ second.contains px py = false)

/-- Two parts tile the whole if a point of the whole is one of either, and none is one of both. -/
theorem tiles_of_iff {whole first second : Rect Rat}
    (h : ∀ px py : Rat, (whole.contains px py = true ↔
      first.contains px py = true ∨ second.contains px py = true) ∧
        ¬(first.contains px py = true ∧ second.contains px py = true)) :
    whole.Tiles first second := by
  intro px py
  obtain ⟨hwhole, hone⟩ := h px py
  cases hfirst : first.contains px py <;> cases hsecond : second.contains px py <;>
    simp_all

/-- It does not matter which of the two parts comes first. -/
theorem Tiles.symm {whole first second : Rect Rat} (h : whole.Tiles first second) :
    whole.Tiles second first := by
  intro px py
  obtain ⟨hin, hout⟩ := h px py
  exact ⟨fun hwhole => by rw [hin hwhole, Bool.not_not], fun hwhole => (hout hwhole).symm⟩

variable {r : Rect Rat} {cut first second : Rat}

/-- A rectangle that is cut from top to bottom is tiled by its left and its right part. -/
theorem tiles_columns (hcut : cut = r.x + first) (hwidth : r.width = first + second)
    (hfirst : 0 ≤ first) (hsecond : 0 ≤ second) :
    r.Tiles ⟨r.x, r.y, first, r.height⟩ ⟨cut, r.y, second, r.height⟩ := by
  refine tiles_of_iff fun px py => ?_
  obtain ⟨hparts, hone⟩ := Extent.cut hcut hwidth hfirst hsecond px
  rw [contains_iff, contains_iff, contains_iff, hparts]
  dsimp only
  tauto

/-- A rectangle that is cut from left to right is tiled by its upper and its lower part. -/
theorem tiles_rows (hcut : cut = r.y + first) (hheight : r.height = first + second)
    (hfirst : 0 ≤ first) (hsecond : 0 ≤ second) :
    r.Tiles ⟨r.x, r.y, r.width, first⟩ ⟨r.x, cut, r.width, second⟩ := by
  refine tiles_of_iff fun px py => ?_
  obtain ⟨hparts, hone⟩ := Extent.cut hcut hheight hfirst hsecond py
  rw [contains_iff, contains_iff, contains_iff, hparts]
  dsimp only
  tauto

end Rect

/-- How far a rectangle extends in the direction in which a dock at a side takes its size. -/
def DockSide.extent {α : Type} (side : DockSide) (r : Rect α) : α :=
  match side with
  | left | right => r.width
  | bottom => r.height

/-- A rectangle whose width and height are not negative has no negative extent at any side. -/
theorem DockSide.extent_nonneg (side : DockSide) {r : Rect Rat} (hwidth : 0 ≤ r.width)
    (hheight : 0 ≤ r.height) : 0 ≤ side.extent r := by
  cases side with
  | left => exact hwidth
  | right => exact hwidth
  | bottom => exact hheight

namespace Dock

/-- The size of a dock on a surface that has an extent. -/
theorem clampSize_eq (requested : Rat) {extent : Rat} (h : 0 ≤ extent) :
    clampSize requested extent = min (max requested 120) (extent / 2) := by
  have hhalf : max (extent / 2) (0 : Rat) = extent / 2 := max_eq_left (by linarith)
  calc clampSize requested extent
      = min (max requested 120) (max (extent / 2) 0) := by
        rw [clampSize, Coordinate.smaller_eq_min, Coordinate.larger_eq_max,
          Coordinate.larger_eq_max]
        rfl
    _ = min (max requested 120) (extent / 2) := by rw [hhalf]

/-- The size of a dock is never negative, and leaves half of the extent at least. -/
theorem clampSize_within (requested : Rat) {extent : Rat} (h : 0 ≤ extent) :
    0 ≤ clampSize requested extent ∧ clampSize requested extent ≤ extent / 2 := by
  rw [clampSize_eq requested h]
  have hsmallest : (0 : Rat) ≤ max requested 120 := le_trans (by norm_num) (le_max_right _ _)
  exact ⟨le_min hsmallest (by linarith), min_le_right _ _⟩

/-- The panel has the size of the dock. -/
theorem extent_split (side : DockSide) (requested : Rat) (host : Rect Rat) :
    side.extent (split side requested host).2 = clampSize requested (side.extent host) := by
  cases side <;> rfl

/-- The parts of the editor and the panel tile the surface, at whatever side. -/
theorem split_tiles (side : DockSide) (requested : Rat) {host : Rect Rat}
    (hwidth : 0 ≤ host.width) (hheight : 0 ≤ host.height) :
    host.Tiles (split side requested host).1 (split side requested host).2 := by
  have hextent : 0 ≤ side.extent host := side.extent_nonneg hwidth hheight
  obtain ⟨hmin, hmax⟩ := clampSize_within requested hextent
  -- What is left to the editor is half of the extent at least.
  have hleft : 0 ≤ side.extent host - clampSize requested (side.extent host) := by linarith
  have hwhole : side.extent host = side.extent host - clampSize requested (side.extent host) +
      clampSize requested (side.extent host) := (sub_add_cancel _ _).symm
  cases side with
  | left => exact (Rect.tiles_columns rfl (hwhole.trans (add_comm _ _)) hmin hleft).symm
  | right => exact Rect.tiles_columns (add_sub_assoc _ _ _) hwhole hleft hmin
  | bottom => exact Rect.tiles_rows (add_sub_assoc _ _ _) hwhole hleft hmin

/-- What a dock makes of a surface with exact coordinates. The panel's extent is at least zero and
at most half of the surface's; it is at least the smallest dock wherever that fits twice; and it is
what was asked for if that is neither below the smallest dock nor above the half. Every point of the
surface lies in exactly one of the two parts, and no other point in either. -/
theorem parts_of_surface (side : DockSide) (requested : Rat) (host : Rect Rat)
    (hwidth : 0 ≤ host.width) (hheight : 0 ≤ host.height) :
    let editor := (split side requested host).1
    let panel := (split side requested host).2
    (0 ≤ side.extent panel ∧ side.extent panel ≤ side.extent host / 2) ∧
    (240 ≤ side.extent host → 120 ≤ side.extent panel) ∧
    (120 ≤ requested → requested ≤ side.extent host / 2 → side.extent panel = requested) ∧
    ∀ px py : Rat,
      (host.contains px py = true → editor.contains px py = !panel.contains px py) ∧
      (host.contains px py = false →
        editor.contains px py = false ∧ panel.contains px py = false) := by
  intro editor panel
  have hextent : 0 ≤ side.extent host := side.extent_nonneg hwidth hheight
  have hpanel : side.extent panel = clampSize requested (side.extent host) :=
    extent_split side requested host
  rw [hpanel]
  refine ⟨clampSize_within requested hextent, fun hroom => ?_, fun hsmallest hhalf => ?_,
    split_tiles side requested hwidth hheight⟩
  · rw [clampSize_eq requested hextent]
    exact le_min (le_max_right _ _) (by linarith)
  · rw [clampSize_eq requested hextent, max_eq_left hsmallest, min_eq_left hhalf]

/-- A panel at the bottom gets the 200 that it asks for of 600, and the point just above the cut is
the editor's. On a surface 200 high it gets the half. On a surface without height it gets nothing,
and there is no point in either part. -/
theorem parts_at_the_bottom :
    (split .bottom 200 (⟨0, 0, 1000, 600⟩ : Rect Rat)).2.height = 200 ∧
    (split .bottom 200 (⟨0, 0, 1000, 600⟩ : Rect Rat)).1.contains 10 399 =
      !(split .bottom 200 (⟨0, 0, 1000, 600⟩ : Rect Rat)).2.contains 10 399 ∧
    (split .bottom 300 (⟨0, 0, 1000, 200⟩ : Rect Rat)).2.height ≤ 200 / 2 ∧
    (split .bottom 300 (⟨5, 7, 1000, 0⟩ : Rect Rat)).1.contains 5 7 = false := by
  obtain ⟨-, -, hrequest, htiles⟩ :=
    parts_of_surface .bottom 200 ⟨0, 0, 1000, 600⟩ (by decide +kernel) (by decide +kernel)
  obtain ⟨⟨-, hhalf⟩, -⟩ :=
    parts_of_surface .bottom 300 ⟨0, 0, 1000, 200⟩ (by decide +kernel) (by decide +kernel)
  obtain ⟨-, -, -, hempty⟩ :=
    parts_of_surface .bottom 300 ⟨5, 7, 1000, 0⟩ (by decide +kernel) (by decide +kernel)
  exact ⟨hrequest (by decide +kernel) (by decide +kernel), (htiles 10 399).1 (by decide +kernel),
    hhalf, ((hempty 5 7).2 (by decide +kernel)).1⟩

end Dock

end TreePanel
