import TreePanel.Proofs.Session.Offset

/-!
# The row under the pointer

A point over the rows has a slot, which counts the rows from the first one shown, and the row under
it is the offset plus the slot (`Viewport.rowAt_eq`). How the 32-bit floats were rounded on the way
to the slot and to the number of visible rows does not matter for what is shown here: a hit is a row
that exists and is shown, and it moves with the offset (`Viewport.rowAt_offset`).

A panel that was reached by messages can hit-test every point, and input at a point on a row is the
same as input at the row (`Panel.row_under_pointer`), because handling a message depends on the
panel's reaction to it alone (`Session.handle_congr`).
-/

namespace TreePanel

namespace Viewport

variable {v : Viewport} {x y : Float32} {total footerLines r : Nat}

/-- A hit is the row that the slot of a point over the rows counts, and the sum was counted. -/
theorem hit_of_rowAt (h : v.rowAt x y total footerLines = .ok (some r)) :
    v.OverRows x y footerLines ∧ r = v.offset + v.slotAt y ∧ r < total := by
  by_cases hsum : v.offset + v.slotAt y < Count.bound
  · rw [rowAt_eq fun _ => hsum] at h
    have hhit := Except.ok.inj h
    split at hhit
    · next hover =>
      obtain rfl := Option.some.inj hhit
      exact ⟨hover.1, rfl, hover.2⟩
    · cases hhit
  · -- A sum that cannot be counted is a fault, or it is not formed.
    have hfault : Count.add v.offset (v.slotAt y) = .error .sumOutOfRange := if_neg hsum
    unfold rowAt at h
    split at h
    · cases h
    · dsimp only at h
      rw [hfault] at h
      split at h
      · cases h
      · cases h

/-- With another offset, the row that was hit moves by as many rows, as long as there is one. -/
theorem rowAt_offset (h : v.rowAt x y total footerLines = .ok (some r)) {offset : Nat}
    (hsum : offset + v.slotAt y < Count.bound) :
    Viewport.rowAt { v with offset := offset } x y total footerLines =
      .ok (if r - v.offset + offset < total then some (r - v.offset + offset) else none) := by
  obtain ⟨hover, hr, -⟩ := hit_of_rowAt h
  obtain ⟨w, hw⟩ : ∃ w : Viewport, w = { v with offset := offset } := ⟨_, rfl⟩
  -- Neither the slot nor what lies over the rows depends on the offset.
  have hslot : w.offset + w.slotAt y = r - v.offset + offset := by
    rw [hr, Nat.add_sub_cancel_left, Nat.add_comm, hw]
    rfl
  have hover' : w.OverRows x y footerLines := by
    rw [hw]
    exact hover
  have hfit : w.offset + w.slotAt y < Count.bound := by
    rw [hw]
    exact hsum
  rw [← hw, rowAt_eq fun _ => hfit, hslot]
  simp only [hover', true_and]

end Viewport

namespace Mounted

variable {m : Mounted} {x y : Float32} {r : Nat}

/-- The pointer moved to a point on a row: it entered the row. -/
theorem onInput_moved (h : m.rowAt x y = .ok (some r)) (origin : Origin) :
    m.onInput origin (.moved x y) = m.onInput origin (.atRow (.hoverRow r)) := by
  have hresolve : m.resolve (.moved x y) = .ok (some (.hoverRow r)) :=
    bind_eq_ok.2 ⟨some r, h, rfl⟩
  unfold onInput
  rw [hresolve]
  rfl

/-- The pointer was pressed at a point on a row: the row was clicked. -/
theorem onInput_pressed (h : m.rowAt x y = .ok (some r)) (origin : Origin) :
    m.onInput origin (.pressed x y) = m.onInput origin (.atRow (.clickRow r)) := by
  have hresolve : m.resolve (.pressed x y) = .ok (some (.clickRow r)) :=
    bind_eq_ok.2 ⟨some r, h, rfl⟩
  unfold onInput
  rw [hresolve]
  rfl

end Mounted

namespace Session

/-- Input is handled in the same way as other input to which the panel reacts in the same way. -/
theorem handle_congr {σ : Type} [EditorHost σ] {s : Session σ} {m : Mounted}
    (hm : s.panel.mounted = some m) {input other : Input}
    (h : m.onInput s.panel.origin input = m.onInput s.panel.origin other) :
    s.handle (.input input) = s.handle (.input other) := by
  have htake : take ⟨s, false, []⟩ (.input input) = take ⟨s, false, []⟩ (.input other) := by
    simp only [take, Panel.react, hm, h]
  unfold handle rounds
  rw [drain, drain]
  simp only [htake]

end Session

/-- The row under a point. However the floats were rounded, a hit is one of the rows and is shown,
and the point lies on the panel and not above the rows; of two hits, the one with the greater slot
is the greater row; and with another offset the hit moves along as long as there is such a row. As
long as the sums can be counted, every point is a hit or none, and they can be in every panel that
is reached. Such a panel deals with a point on a row as with the row itself. -/
theorem Panel.row_under_pointer :
    (∀ (v : Viewport) (x y : Float32) (total footerLines : Nat),
      (v.slotAt y < v.visibleRows footerLines → v.offset + v.slotAt y < Count.bound) →
      (∃ hit, v.rowAt x y total footerLines = .ok hit) ∧
      ∀ r, v.rowAt x y total footerLines = .ok (some r) →
        (r < total ∧ v.offset ≤ r ∧ r < v.offset + v.visibleRows footerLines ∧
          v.surface.contains x y = true ∧ ¬y < v.contentTop) ∧
        (∀ x' y' r', v.rowAt x' y' total footerLines = .ok (some r') →
          (r < r' ↔ v.slotAt y < v.slotAt y') ∧ (r = r' ↔ v.slotAt y = v.slotAt y')) ∧
        ∀ offset, offset + v.slotAt y < Count.bound →
          Viewport.rowAt { v with offset := offset } x y total footerLines =
            .ok (if r - v.offset + offset < total then some (r - v.offset + offset) else none)) ∧
    ∀ (p : Panel) (m : Mounted), p.Reachable → p.mounted = some m →
      m.outline.length ≤ Count.bound → ∀ x y : Float32,
      (m.viewport.slotAt y < m.viewport.visibleRows m.footerLines →
        m.viewport.offset + m.viewport.slotAt y < Count.bound) ∧
      ∀ r, m.rowAt x y = .ok (some r) →
        (∃ row, m.outline.row? r = some row) ∧
        ∀ {σ : Type} [EditorHost σ] (host : σ),
          Session.handle ⟨p, host⟩ (.input (.moved x y)) =
            Session.handle ⟨p, host⟩ (.input (.atRow (.hoverRow r))) ∧
          Session.handle ⟨p, host⟩ (.input (.pressed x y)) =
            Session.handle ⟨p, host⟩ (.input (.atRow (.clickRow r))) := by
  refine ⟨fun v x y total footerLines hfit => ⟨⟨_, Viewport.rowAt_eq hfit⟩, fun r hhit => ?_⟩,
    fun p m hreach hm hrows x y => ⟨fun hslot => ?_, fun r hhit => ⟨?_, fun host => ⟨?_, ?_⟩⟩⟩⟩
  · obtain ⟨⟨hinside, hbelow, hslot⟩, hr, htotal⟩ := Viewport.hit_of_rowAt hhit
    refine ⟨⟨htotal, by omega, by omega, hinside, hbelow⟩, fun x' y' r' hhit' => ?_,
      fun offset hsum => Viewport.rowAt_offset hhit hsum⟩
    obtain ⟨-, hr', -⟩ := Viewport.hit_of_rowAt hhit'
    omega
  · exact (hreach.steady m hm).inView.offset_add_lt hrows hslot
  · obtain ⟨-, -, htotal⟩ := Viewport.hit_of_rowAt hhit
    exact ⟨_, List.getElem?_eq_getElem htotal⟩
  · exact Session.handle_congr (s := ⟨p, host⟩) hm (Mounted.onInput_moved hhit p.origin)
  · exact Session.handle_congr (s := ⟨p, host⟩) hm (Mounted.onInput_pressed hhit p.origin)

/-- Of five rows three are shown, from the second one on. The second of them is hit, after the
first; with the fourth row at the top, the hit is the fifth row, and with the fifth row there, none.
In a panel that was just attached, the pointer hovers and clicks the first word. -/
theorem words_under_pointer :
    let x := Float32.ofBits 0x41200000
    let high := Float32.ofBits 0x42480000
    let low := Float32.ofBits 0x42c80000
    Viewport.threeRows.rowAt x low 5 1 = .ok (some 2) ∧
    (2 < 1 + Viewport.threeRows.visibleRows 1 ∧ ¬low < Viewport.threeRows.contentTop) ∧
    Viewport.threeRows.rowAt x high 5 1 = .ok (some 1) ∧
    Viewport.threeRows.slotAt high < Viewport.threeRows.slotAt low ∧
    Viewport.rowAt { Viewport.threeRows with offset := 3 } x low 5 1 = .ok (some 4) ∧
    Viewport.rowAt { Viewport.threeRows with offset := 4 } x low 5 1 = .ok none ∧
    ∃ s : Session Editor, Session.attach Editor.twoWords {} ⟨1⟩ = .ok s ∧
      (∃ m row, s.panel.mounted = some m ∧
        m.rowAt (Float32.ofBits 0x44898000) high = .ok (some 1) ∧ m.outline.row? 1 = some row) ∧
      s.handle (.input (.moved (Float32.ofBits 0x44898000) high)) =
        s.handle (.input (.atRow (.hoverRow 1))) ∧
      s.handle (.input (.pressed (Float32.ofBits 0x44898000) high)) =
        s.handle (.input (.atRow (.clickRow 1))) := by
  intro x high low
  obtain ⟨hviewport, hpanel⟩ := Panel.row_under_pointer
  have hlow : Viewport.threeRows.rowAt x low 5 1 = .ok (some 2) := by decide +kernel
  have hhigh : Viewport.threeRows.rowAt x high 5 1 = .ok (some 1) := by decide +kernel
  have hslot : Viewport.threeRows.slotAt low = 1 := by decide +kernel
  obtain ⟨-, hhit⟩ := hviewport Viewport.threeRows x low 5 1 (fun _ => by rw [hslot]; decide)
  obtain ⟨⟨-, -, hvisible, -, hbelow⟩, -, hmove⟩ := hhit 2 hlow
  obtain ⟨-, hhit'⟩ := hviewport Viewport.threeRows x high 5 1 (by decide +kernel)
  obtain ⟨-, horder, -⟩ := hhit' 1 hhigh
  refine ⟨hlow, ⟨hvisible, hbelow⟩, hhigh, (horder x low 2 hlow).1.1 (by decide),
    hmove 3 (by rw [hslot]; decide), hmove 4 (by rw [hslot]; decide), ?_⟩
  obtain ⟨s, hattach, hfacts⟩ := ok_of_toOption (show
    (Session.attach Editor.twoWords {} ⟨1⟩).toOption.map (fun s => s.panel.mounted.map fun m =>
      (m.outline.length, (m.rowAt (Float32.ofBits 0x44898000) high).toOption)) =
        some (some (3, some (some 1))) by decide +kernel)
  obtain ⟨m, hm, hcounts⟩ := Option.map_eq_some_iff.1 hfacts
  obtain ⟨hlength, hrow⟩ := Prod.mk.inj hcounts
  have hrow : m.rowAt (Float32.ofBits 0x44898000) high = .ok (some 1) := by
    obtain ⟨_, hrow, hone⟩ := ok_of_toOption (f := id) (by rw [Option.map_id]; exact hrow)
    rw [hrow, ← hone]
    rfl
  obtain ⟨-, hhits⟩ := hpanel s.panel m (.attach hattach) hm (by rw [hlength]; decide)
    (Float32.ofBits 0x44898000) high
  obtain ⟨⟨row, hrow'⟩, hsame⟩ := hhits 1 hrow
  exact ⟨s, hattach, ⟨m, row, hm, hrow, hrow'⟩, (hsame s.host).1, (hsame s.host).2⟩

end TreePanel
