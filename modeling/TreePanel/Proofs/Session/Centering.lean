import TreePanel.Proofs.Rebuild
import TreePanel.Proofs.Session.Offset

/-!
# Changes by others come into view

When somebody else changes the tree or the selection, the last row with a flag is brought into view.
The update puts that row off (`handle_foreign`), and the next tick centers all rows that were put
off, one after the other (`tick_centers`). Centering does not start from the offset before, so
neither that nor the older rows make a difference, and a row that no longer exists does no harm:
what counts is the row put off last, and it belongs to the outline that is shown.

The same goes for the first outline. Attaching a panel puts its row off (`attach_pending`).
-/

namespace TreePanel

/-- A row was brought into view, and no row waits. -/
structure Mounted.Centered (m : Mounted) (row : Nat) : Prop where
  /-- No row waits. -/
  settled : m.pending = []
  /-- The row is among the visible rows, if there is room for one. -/
  within : 1 ≤ m.viewport.visibleRows m.footerLines →
    m.viewport.offset ≤ row ∧ row < m.viewport.offset + m.viewport.visibleRows m.footerLines
  /-- So it is shown, as long as the rows can be counted. -/
  shown : 1 ≤ m.viewport.visibleRows m.footerLines → m.outline.length < Count.bound →
    m.viewport.isVisible row m.footerLines = .ok true
  /-- Half of the visible rows stand above it, unless that would leave space below the last row. -/
  middle : row - m.viewport.visibleRows m.footerLines / 2 ≤
      m.viewport.maxOffset m.outline.length m.footerLines →
    m.viewport.offset = row - m.viewport.visibleRows m.footerLines / 2

/-- The outline is made anew for an update that shows something new. -/
theorem Mounted.rebuild_iff_not_shows {m : Mounted} {u : Update} :
    (m.rebuild.decide u).1.rebuild = true ↔ ¬m.Shows u := by
  rw [Rebuild.rebuild_iff, Mounted.Shows, not_and_or, Bool.not_eq_false, or_comm]

/-- A tick centers the row that was put off last. -/
theorem Mounted.onTick_centered {m : Mounted} {older : List Nat} {row : Nat}
    (hpending : m.pending = older ++ [row]) (hrow : row < m.outline.length) :
    m.onTick.2.Centered row := by
  have htick : m.onTick.2 = { m with
      pending := [], viewport := m.viewport.centerOn row m.outline.length m.footerLines } := by
    rw [onTick_snd, hpending, Viewport.foldl_centerOn_concat]
  rw [htick]
  refine ⟨rfl, fun hroom => Viewport.centerOn_within hrow hroom, fun hroom hfit => ?_,
    Viewport.centerOn_offset⟩
  obtain ⟨hlow, hhigh⟩ := Viewport.centerOn_within hrow hroom
  exact Viewport.isVisible_of_within (Viewport.clamp_inView _ m.outline.length m.footerLines) hfit
    hlow hhigh

namespace Session

variable {σ : Type} [EditorHost σ] {s s' : Session σ} {m : Mounted}

/-- An update by which somebody else shows something new puts off the row to center. -/
theorem handle_foreign (hm : s.panel.mounted = some m) {u : Update} (hnew : ¬m.Shows u)
    (hforeign : u.origin ≠ some m.rebuild.origin) {outline : Outline}
    (hr : Outline.render u.tree.root u.selection (EditorHost.lineAt s.host) s.panel.settings =
      .ok outline) {row : Nat} (hcenter : outline.center = some row) :
    ∃ s' m', s.handle (.update u) = .ok (true, s') ∧ s'.panel.mounted = some m' ∧
      m'.outline = outline ∧ m'.pending = m.pending ++ [row] := by
  have hhandle : s.handle (.update u) = .ok (true, s.settle m (m.renew u outline)) := by
    rw [handle_update hm, if_neg hnew, hr]
    rfl
  have hpending : (m.renew u outline).pending = m.pending ++ [row] := by
    simp [Mounted.renew, hforeign, hcenter]
  exact ⟨_, m.renew u outline, hhandle, rfl, rfl, hpending⟩

/-- A panel that was just attached has put off the row to center of its outline. -/
theorem attach_pending {host : σ} {settings : Settings} {origin : Origin}
    (h : attach host settings origin = .ok s) (hm : s.panel.mounted = some m) :
    Outline.render (EditorHost.tree s.host).root (EditorHost.selection s.host)
        (EditorHost.lineAt s.host) settings = .ok m.outline ∧
      m.pending = m.outline.center.toList := by
  unfold attach at h
  cases hsurface : EditorHost.surface host with
  | none =>
    rw [hsurface] at h
    cases h
    cases hm
  | some surface =>
    rw [hsurface] at h
    obtain ⟨outline, hr, hdone⟩ := bind_eq_ok.1 h
    cases hdone
    cases hm
    exact ⟨hr, rfl⟩

/-- A tick asks for paint and centers the row that was put off last. -/
theorem tick_centers (hm : s.panel.mounted = some m) {older : List Nat} {row : Nat}
    (hpending : m.pending = older ++ [row]) (hrow : row < m.outline.length) :
    ∃ s' m', s.tick = .ok (true, s') ∧ s'.panel.mounted = some m' ∧ m'.outline = m.outline ∧
      m'.Centered row := by
  have htick : s.tick = .ok (true, s.mount m.onTick.2) := by
    have hsome : (!m.pending.isEmpty) = true := by simp [hpending]
    rw [tick, handle_tick hm, hsome]
  have houtline : m.onTick.2.outline = m.outline := by rw [Mounted.onTick_snd]
  exact ⟨_, m.onTick.2, htick, rfl, houtline, Mounted.onTick_centered hpending hrow⟩

/-- Let an update that the panel did not cause make its outline anew, and let the outline have a row
to center. Then this row is put off behind all that wait, and a tick that follows brings it into
view, whatever the offset was and whichever rows waited. The same holds of the row to center of a
panel that was just attached. -/
theorem centered_after_tick :
    (∀ {s : Session σ} {m : Mounted} {u : Update} {outline : Outline} {row : Nat},
      s.panel.Reachable → s.panel.mounted = some m →
      (m.rebuild.decide u).1.rebuild = true → u.origin ≠ some s.panel.origin →
      Outline.render u.tree.root u.selection (EditorHost.lineAt s.host) s.panel.settings =
        .ok outline → outline.center = some row →
        ∃ s₁ m₁, s.handle (.update u) = .ok (true, s₁) ∧ s₁.panel.mounted = some m₁ ∧
          m₁.outline = outline ∧ m₁.pending = m.pending ++ [row] ∧
          ∃ s₂ m₂, s₁.tick = .ok (true, s₂) ∧ s₂.panel.mounted = some m₂ ∧
            m₂.outline = outline ∧ m₂.Centered row) ∧
    ∀ {host : σ} {settings : Settings} {origin : Origin} {s : Session σ} {m : Mounted} {row : Nat},
      attach host settings origin = .ok s → s.panel.mounted = some m →
      m.outline.center = some row →
        m.pending = [row] ∧
        ∃ s₁ m₁, s.tick = .ok (true, s₁) ∧ s₁.panel.mounted = some m₁ ∧
          m₁.outline = m.outline ∧ m₁.Centered row := by
  constructor
  · intro s m u outline row hreach hm hrebuild hforeign hr hcenter
    -- The panel knows its own tag, so the update is compared with the right one.
    rw [← (hreach.steady m hm).tag] at hforeign
    obtain ⟨s₁, m₁, hhandle, hm₁, houtline, hpending⟩ :=
      handle_foreign hm (Mounted.rebuild_iff_not_shows.1 hrebuild) hforeign hr hcenter
    have hrow : row < m₁.outline.length := by
      rw [houtline]
      exact Outline.center_lt_of_render hr hcenter
    obtain ⟨s₂, m₂, htick, hm₂, hsame, hcentered⟩ := tick_centers hm₁ hpending hrow
    exact ⟨s₁, m₁, hhandle, hm₁, houtline, hpending, s₂, m₂, htick, hm₂, hsame.trans houtline,
      hcentered⟩
  · intro host settings origin s m row hattach hm hcenter
    obtain ⟨hr, hpending⟩ := attach_pending hattach hm
    rw [hcenter] at hpending
    have hrow : row < m.outline.length := Outline.center_lt_of_render hr hcenter
    have halone : m.pending = [] ++ [row] := hpending
    exact ⟨hpending, tick_centers hm halone hrow⟩

/-- Eight letters have a row each, and the sixth row waits. Then somebody puts a tree in their place
in which every two letters share a row. The sixth row is gone, and the third one is put off. The
tick brings the third row to the middle of the three that there is room for. -/
theorem centered_after_smaller_tree :
    ∃ (s : Session Editor) (m : Mounted) (u : Update) (outline : Outline),
      s.panel.Reachable ∧ s.panel.mounted = some m ∧ m.pending = [1, 6] ∧
      (m.rebuild.decide u).1.rebuild = true ∧ u.origin ≠ some s.panel.origin ∧
      Outline.render u.tree.root u.selection s.host.lineAt s.panel.settings = .ok outline ∧
      outline.length = 5 ∧ outline.center = some 3 ∧
      ∃ s₁ m₁, s.handle (.update u) = .ok (true, s₁) ∧ s₁.panel.mounted = some m₁ ∧
        m₁.pending = [1, 6, 3] ∧
        ∃ s₂ m₂, s₁.tick = .ok (true, s₂) ∧ s₂.panel.mounted = some m₂ ∧ m₂.Centered 3 ∧
          m₂.viewport.offset = 2 ∧ m₂.viewport.isVisible 3 m₂.footerLines = .ok true := by
  -- A panel 240 high, with rows 40 high.
  let settings : Settings :=
    ⟨.bottom, Float32.ofBits 0x43700000, 2, Float32.ofBits 0x42200000, false, true⟩
  let letters : Node := .mk "Line" ⟨0, 8, by decide⟩ true
    [.leaf "Letter" ⟨0, 1, by decide⟩ true, .leaf "Letter" ⟨1, 2, by decide⟩ true,
      .leaf "Letter" ⟨2, 3, by decide⟩ true, .leaf "Letter" ⟨3, 4, by decide⟩ true,
      .leaf "Letter" ⟨4, 5, by decide⟩ true, .leaf "Letter" ⟨5, 6, by decide⟩ true,
      .leaf "Letter" ⟨6, 7, by decide⟩ true, .leaf "Letter" ⟨7, 8, by decide⟩ true]
  let pairs : Node := .mk "Line" ⟨0, 8, by decide⟩ true
    [.leaf "Pair" ⟨0, 2, by decide⟩ true, .leaf "Pair" ⟨2, 4, by decide⟩ true,
      .leaf "Pair" ⟨4, 6, by decide⟩ true, .leaf "Pair" ⟨6, 8, by decide⟩ true]
  let host : Editor := .withTree ['a', 'b', 'c', 'd', 'e', 'f', 'g', 'h'] ⟨⟨0, 0⟩, letters⟩
  obtain ⟨⟨s, u⟩, hrun, hfacts⟩ := ok_of_toOption (show (Except.toOption (do
      let start ← attach host settings ⟨1⟩
      let s ← start.run [.edit (.select (.caret 5))]
      let edited ← s.host.act (.setTree ⟨⟨0, 1⟩, pairs⟩)
      return (({ s with host := edited.2 } : Session Editor), edited.1))).map (fun r => decide (
        r.1.panel.mounted.map (fun m => (m.pending, (m.rebuild.decide r.2).1.rebuild)) =
          some ([1, 6], true) ∧
        r.2.origin.isNone ∧
        (Outline.render r.2.tree.root r.2.selection r.1.host.lineAt r.1.panel.settings).toOption.map
          (fun outline => (outline.length, outline.center)) = some (5, some 3) ∧
        (r.1.handle (.update r.2) >>= fun told => told.2.tick).toOption.map
          (fun ticked => ticked.2.panel.mounted.map fun m =>
            (m.viewport.offset, m.viewport.visibleRows m.footerLines, m.outline.length)) =
          some (some (2, 3, 5)))) = some true by
    decide +kernel)
  obtain ⟨start, hattach, hbefore⟩ := bind_eq_ok.1 hrun
  obtain ⟨before, hselect, hedit⟩ := bind_eq_ok.1 hbefore
  obtain ⟨edited, hact, hdone⟩ := bind_eq_ok.1 hedit
  cases hdone
  obtain ⟨hmounted, horigin, houtline, hticked⟩ := of_decide_eq_true hfacts
  obtain ⟨m, hm, hm'⟩ := Option.map_eq_some_iff.1 hmounted
  obtain ⟨hpending, hrebuild⟩ := Prod.mk.inj hm'
  obtain ⟨outline, hr, houtline⟩ := ok_of_toOption houtline
  obtain ⟨hlength, hcenter⟩ := Prod.mk.inj houtline
  have hlive : Live host settings ⟨1⟩ before := ⟨start, _, hattach, hselect⟩
  have hreach : before.panel.Reachable := hlive.reachable.panel_reachable
  have hforeign : edited.1.origin ≠ some before.panel.origin := by
    rw [Option.isNone_iff_eq_none.1 horigin]
    exact nofun
  obtain ⟨s₁, m₁, hhandle, hm₁, -, hpending₁, s₂, m₂, htick, hm₂, -, hcentered⟩ :=
    centered_after_tick.1 (s := { before with host := edited.2 }) hreach hm hrebuild
      hforeign hr hcenter
  rw [hhandle] at hticked
  have hticked' : s₁.tick.toOption.map (fun ticked => ticked.2.panel.mounted.map fun m =>
      (m.viewport.offset, m.viewport.visibleRows m.footerLines, m.outline.length)) =
        some (some (2, 3, 5)) := hticked
  rw [htick] at hticked'
  simp only [Except.toOption, Option.map_some, hm₂, Option.some.injEq, Prod.mk.injEq] at hticked'
  obtain ⟨hoffset, hvisible, hrows⟩ := hticked'
  rw [hpending] at hpending₁
  exact ⟨{ before with host := edited.2 }, m, edited.1, outline, hreach, hm, hpending, hrebuild,
    hforeign, hr, hlength, hcenter, s₁, m₁, hhandle, hm₁, hpending₁, s₂, m₂, htick, hm₂,
    hcentered, hoffset, hcentered.shown (by rw [hvisible]; decide) (by rw [hrows]; decide)⟩

end Session

end TreePanel
