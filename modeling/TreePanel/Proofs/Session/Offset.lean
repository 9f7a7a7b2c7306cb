import Mathlib.Algebra.Group.Int.Defs
import Mathlib.Algebra.Group.Nat.Defs
import TreePanel.Proofs.Session.Scrolling

/-!
# The offset of a panel stays in view

The offset of a panel depends on three things that change apart from each other: the number of rows,
the number of lines of the footer, and the offset itself. Rows to bring into view are put off, so
they may belong to a larger outline of the past. Whatever comes in whatever order, the offset leaves
no space below the last row (`offset_le_maxOffset`), because everything that changes one of the
three ends by clamping.

A panel belongs to no editor: each message is handled beside the editor that is given with it. So
what a panel can become is a matter of the panel alone (`Panel.Reachable`), with editors of all
kinds in turn.
-/

namespace TreePanel

/-- What a panel can become that was attached to an editor. Each message may be handled beside
another editor, and of another kind. -/
inductive Panel.Reachable : Panel → Prop where
  /-- The panel was attached just now. -/
  | attach {σ : Type} [EditorHost σ] {host : σ} {settings : Settings} {origin : Origin}
      {s : Session σ} : Session.attach host settings origin = .ok s → Reachable s.panel
  /-- The panel handled a message. -/
  | handle {σ : Type} [EditorHost σ] {host : σ} {p : Panel} {message : Message} {redraw : Bool}
      {s : Session σ} : Reachable p → Session.handle ⟨p, host⟩ message = .ok (redraw, s) →
        Reachable s.panel
  /-- The panel reacted to a message, and its command was not carried out. -/
  | react {p p' : Panel} {lineAt : Nat → Except Fault Line} {message : Message}
      {command : Option Command} : Reachable p → p.react lineAt message = .ok (command, p') →
        Reachable p'
  /-- The panel was detached. -/
  | detach {σ : Type} [EditorHost σ] {host : σ} {p : Panel} : Reachable p →
      Reachable (Session.detach ⟨p, host⟩).panel

/-- What becomes of a session is among what can become of its panel. -/
theorem Session.Reachable.panel_reachable {host : Editor} {settings : Settings} {origin : Origin}
    {s : Session Editor} (h : Session.Reachable host settings origin s) : s.panel.Reachable := by
  induction h with
  | attach hattach => exact .attach hattach
  | edit _ _ ih => exact ih
  | @handle before _ _ _ _ hhandle ih => exact ih.handle (p := before.panel) hhandle
  | @detach before _ ih =>
    show (Session.detach ⟨before.panel, before.host⟩).panel.Reachable
    exact ih.detach

namespace Mounted

variable {m m' : Mounted} {origin : Origin} {command : Option Command}

/-- The reaction to an update keeps a panel steady. -/
theorem Steady.onUpdate (h : m.Steady origin) {settings : Settings}
    {lineAt : Nat → Except Fault Line} {u : Update}
    (hreact : m.onUpdate settings lineAt u = .ok (command, m')) : m'.Steady origin := by
  by_cases hs : m.Shows u
  · rw [onUpdate_of_shows hs] at hreact
    cases hreact
    exact ⟨h.tag, h.inView⟩
  · rw [onUpdate_of_not_shows hs] at hreact
    obtain ⟨outline, -, hdone⟩ := map_eq_ok.1 hreact
    cases hdone
    exact ⟨h.tag, m.viewport.clamp_inView outline.length outline.footer.length⟩

/-- The reaction to input keeps a panel steady. -/
theorem Steady.onInput (h : m.Steady origin) {input : Input}
    (hreact : m.onInput origin input = .ok (command, m')) : m'.Steady origin := by
  cases onInput_answer hreact with
  | ignored => exact h
  | scrolled wheel moved => exact ⟨h.tag, Viewport.scrollBy_inView moved⟩
  | lit hover => exact ⟨h.tag, h.inView⟩
  | selected click clicked => exact h

/-- The reaction to a tick keeps a panel steady. -/
theorem Steady.onTick (h : m.Steady origin) : m.onTick.2.Steady origin := by
  rw [onTick_snd]
  exact ⟨h.tag, Viewport.foldl_centerOn_inView h.inView m.pending⟩

end Mounted

namespace Panel

variable {p p' : Panel} {m m' : Mounted}

/-- A panel that is mounted after it reacted was mounted before, and it stays steady. -/
theorem react_steady {lineAt : Nat → Except Fault Line} {message : Message}
    {command : Option Command} (hsteady : ∀ m, p.mounted = some m → m.Steady p.origin)
    (h : p.react lineAt message = .ok (command, p')) (hm' : p'.mounted = some m') :
    m'.Steady p'.origin := by
  cases reaction_of_react h with
  | unmounted => exact hsteady m' hm'
  | update hm hreact =>
    cases hm'
    exact (hsteady _ hm).onUpdate hreact
  | input hm hreact =>
    cases hm'
    exact (hsteady _ hm).onInput hreact
  | tick hm =>
    cases hm'
    exact (hsteady _ hm).onTick

/-- Every panel that can be reached is steady, if it is mounted. -/
theorem Reachable.steady (h : p.Reachable) : ∀ m, p.mounted = some m → m.Steady p.origin := by
  -- The editor is another one at each step, so it is `Panel.Reachable` that is followed, and the
  -- steps of the session with their own editor are used one at a time.
  induction h with
  | @attach σ _ host settings origin s hattach =>
    intro m hm
    unfold Session.attach at hattach
    cases hsurface : EditorHost.surface host with
    | none =>
      rw [hsurface] at hattach
      cases hattach
      cases hm
    | some surface =>
      rw [hsurface] at hattach
      obtain ⟨outline, -, hdone⟩ := bind_eq_ok.1 hattach
      cases hdone
      cases hm
      exact ⟨rfl, Nat.zero_le _⟩
  | @handle σ _ host p message redraw s _ hhandle ih =>
    intro m' hm'
    cases hm : p.mounted with
    | none =>
      rw [Session.handle_unmounted (s := ⟨p, host⟩) hm] at hhandle
      cases hhandle
      exact ih m' hm'
    | some m =>
      obtain ⟨after, hpanel, hsteady⟩ :=
        (Session.steady_invariant p.settings p.origin).handle (s := ⟨p, host⟩) hm (ih m hm) hhandle
      rw [hpanel] at hm' ⊢
      cases hm'
      exact hsteady
  | react _ hreact ih => exact fun m' hm' => react_steady ih hreact hm'
  | detach _ _ =>
    intro m hm
    rw [Session.detach_panel] at hm
    cases hm

/-- The offset of every panel that can be reached is at most the largest one: it is zero, or the
rows from there on fill the panel; and it is zero if all rows fit. As long as the rows are fewer
than `2 ^ 63`, no sum that the offset is part of leaves the 64 bits, however many rows the panel has
room for: not when the wheel is turned, not when a row is asked whether it is shown, and not when a
point is turned into a row. So there is no input that the panel cannot deal with. -/
theorem offset_le_maxOffset (h : p.Reachable) (hm : p.mounted = some m) :
    m.viewport.offset ≤ m.viewport.maxOffset m.outline.length m.footerLines ∧
    (m.viewport.offset = 0 ∨
      m.viewport.offset + m.viewport.visibleRows m.footerLines ≤ m.outline.length) ∧
    (m.outline.length ≤ m.viewport.visibleRows m.footerLines → m.viewport.offset = 0) ∧
    (m.outline.length < 2 ^ 63 →
      (∀ lines : Int, -2 ^ 31 ≤ lines → lines < 2 ^ 31 →
        m.viewport.offset + lines.toNat < Count.bound ∧
          ∃ v, m.viewport.scrollBy lines m.outline.length m.footerLines = .ok v) ∧
      (m.viewport.offset + m.viewport.visibleRows m.footerLines < Count.bound ∧
        ∀ row, ∃ shown, m.viewport.isVisible row m.footerLines = .ok shown) ∧
      ((∀ slot < m.viewport.visibleRows m.footerLines, m.viewport.offset + slot < Count.bound) ∧
        ∀ x y, ∃ row?, m.rowAt x y = .ok row?) ∧
      ∀ input, (∀ lines, input = .atRow (.scroll lines) → -2 ^ 31 ≤ lines ∧ lines < 2 ^ 31) →
        ∃ reaction, m.onInput p.origin input = .ok reaction) := by
  have hview : m.viewport.InView m.outline.length m.footerLines := (h.steady m hm).inView
  have hle : m.viewport.offset ≤ m.outline.length - m.viewport.visibleRows m.footerLines := hview
  refine ⟨hview, by omega, by omega, fun hrows => ?_⟩
  -- Half of the numbers that can be counted are left above the rows, and a turn of the wheel takes
  -- far less.
  have hfit : m.outline.length < Count.bound := Nat.lt_trans hrows (by decide)
  have hwheel : ∀ lines : Int, lines < 2 ^ 31 → m.outline.length + lines.toNat < Count.bound := by
    intro lines hlines
    unfold Count.bound
    omega
  refine ⟨fun lines _ hlines => ⟨?_, Viewport.scrollBy_isOk hview (hwheel lines hlines)⟩,
    ⟨hview.offset_add_visibleRows_lt hfit, Viewport.isVisible_isOk hview hfit⟩,
    ⟨fun slot hslot => hview.offset_add_lt (Nat.le_of_lt hfit) hslot,
      m.viewport.rowAt_isOk hview (Nat.le_of_lt hfit)⟩, fun input hinput => ?_⟩
  · have hsum := hwheel lines hlines
    omega
  · exact Mounted.onInput_isOk hview (Nat.le_of_lt hfit)
      fun lines heq => hwheel lines (hinput lines heq).2

/-- A panel with rows of the smallest height there is has room for as many rows as can be counted.
The wheel does not move it, and the sum of the offset and the visible rows just fits. -/
theorem offset_with_smallest_rows :
    ∃ p m, Panel.Reachable p ∧ p.mounted = some m ∧ m.outline.length = 3 ∧
      m.viewport.visibleRows m.footerLines = 2 ^ 64 - 1 ∧ m.viewport.offset = 0 ∧
      m.viewport.offset + m.viewport.visibleRows m.footerLines < Count.bound ∧
      (∃ v, m.viewport.scrollBy 2147483647 m.outline.length m.footerLines = .ok v) ∧
      ∀ x y, ∃ row?, m.rowAt x y = .ok row? := by
  let settings : Settings :=
    ⟨.bottom, Float32.ofBits 0x7fc00000, 2, Float32.ofBits 1, false, true⟩
  obtain ⟨s, hrun, hfacts⟩ := ok_of_toOption (show ((Session.attach Editor.twoWords settings ⟨1⟩ >>=
    (Session.handleAll · [.input (.atRow (.scroll 2147483647))])).toOption.map
      fun s => s.panel.mounted.map fun m =>
        (m.outline.length, m.viewport.visibleRows m.footerLines)) = some (some (3, 2 ^ 64 - 1)) by
    decide +kernel)
  obtain ⟨start, hattach, hall⟩ := bind_eq_ok.1 hrun
  obtain ⟨⟨redraw, after⟩, hhandle, hdone⟩ := bind_eq_ok.1 hall
  cases hdone
  obtain ⟨m, hm, hcounts⟩ := Option.map_eq_some_iff.1 hfacts
  obtain ⟨hlength, hvisible⟩ := Prod.mk.inj hcounts
  have hreach : Reachable after.panel := (Reachable.attach hattach).handle hhandle
  obtain ⟨-, -, hzero, hfew⟩ := offset_le_maxOffset hreach hm
  obtain ⟨hscroll, ⟨hsum, -⟩, ⟨-, hpoint⟩, -⟩ := hfew (by rw [hlength]; decide)
  exact ⟨after.panel, m, hreach, hm, hlength, hvisible, hzero (by rw [hlength, hvisible]; decide),
    hsum, (hscroll 2147483647 (by decide) (by decide)).2, hpoint⟩

end Panel

end TreePanel
