import TreePanel.Outline.Viewport
import TreePanel.Proofs.Fault

/-!
# The offset of a viewport

A viewport is in view of its rows when its offset is at most the largest one (`Viewport.InView`):
no space is left below the last row, unless all rows fit. Every move of a viewport ends by clamping,
so it ends in view. In view, the sums that scrolling and hit-testing form fit the machine, however
the 32-bit floats were rounded: a slot is less than the number of visible rows, and an offset above
zero plus that number is at most the number of rows. Where the sums fit, scrolling and hit-testing
are told without machine arithmetic (`scrollBy_eq`, `rowAt_eq`).

Centering a row is the one move that does not start from the offset before. So of several rows only
the last one counts (`foldl_centerOn_concat`), and it ends up among the visible rows wherever it
stands (`centerOn_within`).
-/

namespace TreePanel.Viewport

variable {v v' : Viewport} {lines : Int} {total footerLines : Nat}

/-- The offset is not beyond the last one at which the rows fill the panel. -/
def InView (v : Viewport) (total footerLines : Nat) : Prop :=
  v.offset ≤ v.maxOffset total footerLines

/-- The number of visible rows fits the machine. -/
theorem visibleRows_lt (v : Viewport) (footerLines : Nat) :
    v.visibleRows footerLines < Count.bound := by
  unfold visibleRows
  split
  · decide
  · exact UInt64.toNat_lt _

/-! ## Moving -/

/-- Clamping ends in view. -/
theorem clamp_inView (v : Viewport) (total footerLines : Nat) :
    (v.clamp total footerLines).InView total footerLines := Nat.min_le_right _ _

/-- Scrolling ends in view. -/
theorem scrollBy_inView (h : v.scrollBy lines total footerLines = .ok v') :
    v'.InView total footerLines := by
  unfold scrollBy at h
  split at h
  · cases h
    exact clamp_inView _ total footerLines
  · obtain ⟨offset, -, hdone⟩ := bind_eq_ok.1 h
    cases hdone
    exact clamp_inView _ total footerLines

/-- Bringing rows to the middle in turn keeps a viewport in view. -/
theorem foldl_centerOn_inView (h : v.InView total footerLines) (rows : List Nat) :
    (rows.foldl (fun v row => v.centerOn row total footerLines) v).InView total footerLines := by
  induction rows generalizing v with
  | nil => exact h
  | cons row rest ih => exact ih (clamp_inView _ total footerLines)

/-- Scrolling changes the offset alone. -/
theorem eq_of_scrollBy (h : v.scrollBy lines total footerLines = .ok v') :
    v' = { v with offset := v'.offset } := by
  unfold scrollBy at h
  split at h
  · cases h
    rfl
  · obtain ⟨offset, -, hdone⟩ := bind_eq_ok.1 h
    cases hdone
    rfl

/-- Scrolling adds without bounds, and then goes back to the first row or to the largest offset. -/
theorem scrollBy_eq (h : v.offset + lines.toNat < Count.bound) :
    v.scrollBy lines total footerLines =
      .ok { v with offset := min (v.offset + lines).toNat (v.maxOffset total footerLines) } := by
  unfold scrollBy
  split
  · next hup =>
    have hoffset : v.offset - lines.natAbs = (v.offset + lines).toNat := by omega
    rw [hoffset]
    rfl
  · next hdown =>
    have hoffset : v.offset + lines.toNat = (v.offset + lines).toNat := by omega
    rw [Count.add_eq_ok h, hoffset]
    rfl

/-! ## Hit-testing -/

/-- A point lies on the panel, below the title bar and above the footer. -/
def OverRows (v : Viewport) (x y : Float32) (footerLines : Nat) : Prop :=
  v.surface.contains x y = true ∧ ¬y < v.contentTop ∧ v.slotAt y < v.visibleRows footerLines

instance (v : Viewport) (x y : Float32) (footerLines : Nat) :
    Decidable (v.OverRows x y footerLines) := inferInstanceAs (Decidable (_ ∧ _ ∧ _))

/-- The row under a point is as many rows below the first one shown as the slot of the point says,
if the point is over the rows and there are so many rows. -/
theorem rowAt_eq {x y : Float32}
    (h : v.slotAt y < v.visibleRows footerLines → v.offset + v.slotAt y < Count.bound) :
    v.rowAt x y total footerLines =
      .ok (if v.OverRows x y footerLines ∧ v.offset + v.slotAt y < total then
        some (v.offset + v.slotAt y) else none) := by
  unfold rowAt OverRows
  split
  · next hbeside =>
    -- Beside the panel, or on its title bar.
    rw [Bool.or_eq_true, Bool.not_eq_true', decide_eq_true_iff] at hbeside
    rw [if_neg]
    · rfl
    · rintro ⟨⟨hcontains, hbelow, -⟩, -⟩
      rcases hbeside with houtside | habove
      · rw [houtside] at hcontains
        cases hcontains
      · exact hbelow habove
  · next hbeside =>
    rw [Bool.or_eq_true, Bool.not_eq_true', decide_eq_true_iff, not_or,
      Bool.not_eq_false] at hbeside
    dsimp only
    split
    · next hfooter =>
      rw [if_neg]
      · rfl
      · exact fun hover => Nat.not_le_of_lt hover.1.2.2 hfooter
    · next hfooter =>
      have hslot := Nat.lt_of_not_le hfooter
      have hover : v.surface.contains x y = true ∧ ¬y < v.contentTop ∧
          v.slotAt y < v.visibleRows footerLines := ⟨hbeside.1, hbeside.2, hslot⟩
      simp only [and_iff_right hover, Count.add_eq_ok (h hslot)]
      rfl

/-! ## Sums that fit -/

/-- A viewport in view can be scrolled as long as rows and lines are few enough. -/
theorem scrollBy_isOk (h : v.InView total footerLines) (hfit : total + lines.toNat < Count.bound) :
    ∃ v', v.scrollBy lines total footerLines = .ok v' := by
  unfold InView maxOffset at h
  -- In view, the offset is at most the number of rows.
  have hsum : v.offset + lines.toNat < Count.bound := by omega
  exact ⟨_, scrollBy_eq hsum⟩

/-- In view, the sum of the offset and a slot above the footer fits the machine. -/
theorem InView.offset_add_lt (h : v.InView total footerLines) (hfit : total ≤ Count.bound)
    {slot : Nat} (hslot : slot < v.visibleRows footerLines) : v.offset + slot < Count.bound := by
  have hvisible := v.visibleRows_lt footerLines
  unfold InView maxOffset at h
  -- Either the offset is zero, or it and the visible rows are no more than all rows.
  omega

/-- In view, the sum of the offset and the number of visible rows fits the machine. -/
theorem InView.offset_add_visibleRows_lt (h : v.InView total footerLines)
    (hfit : total < Count.bound) : v.offset + v.visibleRows footerLines < Count.bound := by
  have hvisible := v.visibleRows_lt footerLines
  unfold InView maxOffset at h
  omega

/-- In view, every row can be asked whether it is shown. -/
theorem isVisible_isOk (h : v.InView total footerLines) (hfit : total < Count.bound) (row : Nat) :
    ∃ shown, v.isVisible row footerLines = .ok shown := by
  unfold isVisible
  split
  · rw [Count.add_eq_ok (h.offset_add_visibleRows_lt hfit)]
    exact ⟨_, rfl⟩
  · exact ⟨false, rfl⟩

/-- In view, every point can be hit-tested. -/
theorem rowAt_isOk (h : v.InView total footerLines) (hfit : total ≤ Count.bound) (x y : Float32) :
    ∃ row?, v.rowAt x y total footerLines = .ok row? :=
  ⟨_, rowAt_eq fun hslot => h.offset_add_lt hfit hslot⟩

/-! ## Centering -/

/-- Where a row is centered does not depend on where the viewport was before. -/
theorem centerOn_congr (v : Viewport) (offset row total footerLines : Nat) :
    Viewport.centerOn { v with offset := offset } row total footerLines =
      v.centerOn row total footerLines := rfl

/-- Centering changes the offset alone. -/
theorem exists_offset_of_foldl_centerOn (v : Viewport) (rows : List Nat)
    (total footerLines : Nat) : ∃ offset,
      rows.foldl (fun v row => v.centerOn row total footerLines) v =
        { v with offset := offset } := by
  induction rows generalizing v with
  | nil => exact ⟨v.offset, rfl⟩
  | cons row rest ih => exact ih (v.centerOn row total footerLines)

/-- Of several rows that are centered in turn, only the last one counts. -/
theorem foldl_centerOn_concat (v : Viewport) (rows : List Nat) (row total footerLines : Nat) :
    (rows ++ [row]).foldl (fun v row => v.centerOn row total footerLines) v =
      v.centerOn row total footerLines := by
  obtain ⟨offset, hrows⟩ := exists_offset_of_foldl_centerOn v rows total footerLines
  rw [List.foldl_append, hrows]
  exact centerOn_congr v offset row total footerLines

/-- Half of the visible rows stand above a centered row, or all rows above it if they are fewer,
unless that would leave space below the last row. -/
theorem centerOn_offset {row : Nat}
    (h : row - v.visibleRows footerLines / 2 ≤ v.maxOffset total footerLines) :
    (v.centerOn row total footerLines).offset = row - v.visibleRows footerLines / 2 :=
  Nat.min_eq_left h

/-- A centered row is among the visible rows, if there is room for one at all. -/
theorem centerOn_within {row : Nat} (hrow : row < total)
    (hroom : 1 ≤ v.visibleRows footerLines) :
    (v.centerOn row total footerLines).offset ≤ row ∧
      row < (v.centerOn row total footerLines).offset + v.visibleRows footerLines := by
  have hmin : (v.centerOn row total footerLines).offset =
      min (row - v.visibleRows footerLines / 2) (total - v.visibleRows footerLines) := rfl
  -- A whole half of the visible rows is less than all of them, so the row stays above the end.
  have hhalf : v.visibleRows footerLines / 2 < v.visibleRows footerLines := by omega
  omega

/-- A row in view that is among the visible rows is shown, as long as the rows can be counted. -/
theorem isVisible_of_within (h : v.InView total footerLines) (hfit : total < Count.bound)
    {row : Nat} (hlow : v.offset ≤ row) (hhigh : row < v.offset + v.visibleRows footerLines) :
    v.isVisible row footerLines = .ok true := by
  unfold isVisible
  rw [if_pos hlow, Count.add_eq_ok (h.offset_add_visibleRows_lt hfit)]
  exact congrArg Except.ok (decide_eq_true hhigh)

/-- A viewport with room for three rows over one line of footer, from the second row on. -/
def threeRows : Viewport :=
  ⟨⟨Float32.ofBits 0, Float32.ofBits 0, Float32.ofBits 0x42c80000, Float32.ofBits 0x43700000⟩,
    Float32.ofBits 0x42200000, 1⟩

end TreePanel.Viewport
