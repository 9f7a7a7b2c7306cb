import TreePanel.Proofs.Outline
import TreePanel.Proofs.Session.Run
import TreePanel.Proofs.Viewport

/-!
# Scrolling

What a panel does by itself does not make it scroll. A click selects in the editor, and the editor
answers with an update, but no row is put off to the next tick, and the offset only gives way where
rows have gone (`handle_click`). Hovering leaves rows, offset and waiting rows alone, as long as the
panel was told of all that happened before (`handle_hover`).

A click is safe whatever updates came late or twice, because its transaction carries the tag of the
panel and the update brings the tag back. All that a click needs is that the tag was never lost and
that the offset was never beyond the rows (`Mounted.Steady`). Hovering carries no tag. It is safe
because its update shows nothing new, and for that the panel must know the last tree of the editor
(`Live.last_eq`).
-/

namespace TreePanel

namespace Mounted

/-- The panel has its own tag, and its offset leaves no space below the rows. -/
structure Steady (origin : Origin) (m : Mounted) : Prop where
  /-- Updates are compared with the tag of the panel. -/
  tag : m.rebuild.origin = origin
  /-- The offset is in view. -/
  inView : m.viewport.InView m.outline.length m.footerLines

variable {m : Mounted} {origin : Origin} {input : Input}

/-- In view, all input can be dealt with, but for a turn of the wheel by more lines than can be
added to the rows. -/
theorem onInput_isOk (hview : m.viewport.InView m.outline.length m.footerLines)
    (hrows : m.outline.length ≤ Count.bound)
    (hwheel : ∀ lines, input = .atRow (.scroll lines) →
      m.outline.length + lines.toNat < Count.bound) :
    ∃ reaction, m.onInput origin input = .ok reaction := by
  have hrowAt := m.viewport.rowAt_isOk hview hrows
  cases input with
  | atRow rowInput =>
    cases rowInput with
    | scroll lines =>
      obtain ⟨viewport, hmoved⟩ := Viewport.scrollBy_isOk hview (hwheel lines rfl)
      exact ⟨_, bind_eq_ok.2 ⟨_, rfl, bind_eq_ok.2 ⟨viewport, hmoved, rfl⟩⟩⟩
    | _ => exact ⟨_, rfl⟩
  | moved x y =>
    obtain ⟨row?, hrow⟩ := hrowAt x y
    have hresolve : m.resolve (.moved x y) = .ok (some ((row?.map .hoverRow).getD .leave)) :=
      bind_eq_ok.2 ⟨row?, hrow, rfl⟩
    cases row? with
    | none => exact ⟨_, bind_eq_ok.2 ⟨_, hresolve, rfl⟩⟩
    | some index => exact ⟨_, bind_eq_ok.2 ⟨_, hresolve, rfl⟩⟩
  | pressed x y =>
    obtain ⟨row?, hrow⟩ := hrowAt x y
    have hresolve : m.resolve (.pressed x y) = .ok (row?.map .clickRow) :=
      bind_eq_ok.2 ⟨row?, hrow, rfl⟩
    cases row? with
    | none => exact ⟨_, bind_eq_ok.2 ⟨_, hresolve, rfl⟩⟩
    | some index => exact ⟨_, bind_eq_ok.2 ⟨_, hresolve, rfl⟩⟩

/-- Neither clicking nor hovering turns the wheel. -/
theorem onInput_isOk_of_pointer (hview : m.viewport.InView m.outline.length m.footerLines)
    (hrows : m.outline.length ≤ Count.bound)
    (hinput : input.isClick = true ∨ input.isHover = true) :
    ∃ reaction, m.onInput origin input = .ok reaction := by
  refine onInput_isOk hview hrows fun lines hwheel => ?_
  rw [hwheel] at hinput
  rcases hinput with hclick | hhover
  · cases hclick
  · cases hhover

/-- The panel after the editor has selected for it: the outline is new, and nothing is highlighted
or hovered. -/
def selected (m : Mounted) (tree : Snapshot) (outline : Outline) : Mounted :=
  { m with
    highlight := none
    hovered := none
    rebuild := { m.rebuild with last := some tree.id }
    outline := outline
    viewport := m.viewport.clamp outline.length outline.footer.length }

end Mounted

namespace Session

variable {settings : Settings} {origin : Origin} {host : Editor} {s s' : Session Editor}
  {m : Mounted}

/-! ## What holds whatever the panel was told -/

/-- No single change takes the tag from a panel or its offset out of view, beside any editor. -/
theorem steady_invariant {σ : Type} [EditorHost σ] (settings : Settings) (origin : Origin) :
    Invariant (σ := σ) settings fun _ m => m.Steady origin where
  dispatch _ h := h
  hover _ h := ⟨h.tag, h.inView⟩
  scroll h hmoved := ⟨h.tag, Viewport.scrollBy_inView hmoved⟩
  tick {_ m} h := by
    rw [Mounted.onTick_snd]
    exact ⟨h.tag, Viewport.foldl_centerOn_inView h.inView m.pending⟩
  keep h _ := ⟨h.tag, h.inView⟩
  renew {_ m _ outline} h _ _ :=
    ⟨h.tag, m.viewport.clamp_inView outline.length outline.footer.length⟩

/-- Every panel that can be reached is steady. -/
theorem Reachable.steady (h : Reachable host settings origin s) (hm : s.panel.mounted = some m) :
    m.Steady s.panel.origin := by
  rw [h.panel.2]
  refine h.invariant (steady_invariant settings origin) ?_ ?_ hm
  · intro s m hattach hm
    obtain ⟨surface, outline, -, -, rfl, -⟩ := attach_mounted hattach hm
    exact ⟨rfl, Nat.zero_le _⟩
  · intro e e' action u m hp _
    exact hp

/-- When the panel itself selects, the editor's answer brings another outline, unless it cannot be
made. -/
theorem send_select_eq (hm : s.panel.mounted = some m) (htag : m.rebuild.origin = s.panel.origin)
    (selection : Selection) :
    s.send (.select selection s.panel.origin) =
      (Outline.render s.host.tree.root selection s.host.lineAt s.panel.settings).map fun outline =>
        (true, Session.settle
          { s with host := (s.host.dispatch (.select selection s.panel.origin)).2 } m
          (m.selected s.host.tree outline)) := by
  obtain ⟨u, hu⟩ : ∃ u, u = (s.host.dispatch (.select selection s.panel.origin)).1 := ⟨_, rfl⟩
  obtain ⟨e, he⟩ : ∃ e, e = (s.host.dispatch (.select selection s.panel.origin)).2 := ⟨_, rfl⟩
  -- The update reports another selection and brings back the tag.
  have hnew : ¬m.Shows u := fun h => by rw [hu] at h; exact nomatch h.2
  have hown : u.origin = some m.rebuild.origin := by rw [hu, htag]; rfl
  have hrenew : ∀ outline, m.renew u outline = m.selected s.host.tree outline := by
    intro outline
    rw [Mounted.renew, if_pos hown, List.append_nil, hu]
    rfl
  calc s.send (.select selection s.panel.origin)
      = Session.handle { s with host := e } (.update u) := by rw [hu, he]; rfl
    _ = (Outline.render u.tree.root u.selection e.lineAt s.panel.settings).map fun outline =>
          (true, Session.settle { s with host := e } m (m.renew u outline)) := by
        rw [handle_update (s := { s with host := e }) hm u, if_neg hnew]
        rfl
    _ = (Outline.render s.host.tree.root selection s.host.lineAt s.panel.settings).map
          fun outline =>
            (true, Session.settle { s with host := e } m (m.selected s.host.tree outline)) := by
        simp only [hrenew]
        rw [hu, he]
        rfl
    _ = _ := by rw [he]

/-- When the panel itself selects, and no line is missing for the footer of another outline, no row
is put off to a tick, and the viewport is clamped to the outline. -/
theorem send_select (hm : s.panel.mounted = some m) (htag : m.rebuild.origin = s.panel.origin)
    (hfit : s.host.document.Fits) (selection : Selection) :
    (∃ offset fault, s.host.lineAt offset = .error fault ∧
      s.send (.select selection s.panel.origin) = .error fault) ∨
    ∃ s' m', s.send (.select selection s.panel.origin) = .ok (true, s') ∧
      s'.panel.mounted = some m' ∧ m'.pending = m.pending ∧
      m'.viewport = m.viewport.clamp m'.outline.length m'.footerLines := by
  rw [send_select_eq hm htag]
  cases hr : Outline.render s.host.tree.root selection s.host.lineAt s.panel.settings with
  | error fault =>
    obtain ⟨r, -, hline⟩ := Outline.lineAt_of_render_error hfit hr
    exact .inl ⟨r.head, fault, hline, rfl⟩
  | ok outline => exact .inr ⟨_, m.selected s.host.tree outline, rfl, rfl, rfl, rfl⟩

/-! ## What holds if the panel was told of everything -/

/-- Once it was told of an edit, the panel knows the last tree of the editor. -/
theorem last_eq_of_edit {action : Editor.Action} (h : s.step (.edit action) = .ok s') :
    ∀ m, s'.panel.mounted = some m → m.rebuild.last = some s'.host.tree.id := by
  intro m' hm'
  obtain ⟨u, e, redraw, hact, hhandle⟩ := step_edit_eq_ok.1 h
  have htree : u.tree = e.tree := (Editor.act_update hact).1
  cases hm : s.panel.mounted with
  | none =>
    rw [handle_unmounted (s := { s with host := e }) hm] at hhandle
    cases hhandle
    rw [hm] at hm'
    cases hm'
  | some m =>
    rcases handle_update_cases (s := { s with host := e }) hm hhandle with
      ⟨hshows, rfl⟩ | ⟨-, outline, -, rfl⟩
    · cases hm'
      obtain ⟨mark, hmark⟩ := remark_eq e m.highlight (m.keep u).highlight
      rw [settle, hmark]
      exact hshows.1.trans (by rw [htree])
    · cases hm'
      obtain ⟨mark, hmark⟩ := remark_eq e m.highlight (m.renew u outline).highlight
      rw [settle, hmark]
      exact congrArg (fun t : Snapshot => some t.id) htree

/-- A panel that was just attached knows the last tree of the editor. -/
theorem last_eq_of_attach (h : Session.attach host settings origin = .ok s) :
    ∀ m, s.panel.mounted = some m → m.rebuild.last = some s.host.tree.id := by
  intro m hm
  obtain ⟨surface, outline, -, -, rfl, hhost⟩ := attach_mounted h hm
  rw [hhost]
  rfl

/-- A panel that knows the last tree of the editor does so after every event. -/
theorem last_eq_of_step (hs : ∀ m, s.panel.mounted = some m → m.rebuild.last = some s.host.tree.id)
    {event : Event} (h : s.step event = .ok s') :
    ∀ m, s'.panel.mounted = some m → m.rebuild.last = some s'.host.tree.id := by
  intro m' hm'
  cases hm : s.panel.mounted with
  | none =>
    rw [step_unmounted hm h] at hm'
    cases hm'
  | some m =>
    cases stepped_of_step hm h with
    | edited hedit => exact last_eq_of_edit hedit m' hm'
    | answered hin hsent => exact last_eq_of_edit hsent m' hm'
    | scrolled =>
      cases hm'
      exact hs m hm
    | ticked =>
      cases hm'
      rw [Mounted.onTick_snd]
      exact hs m hm
    | detached =>
      rw [detach_panel] at hm'
      cases hm'

/-- The panel of a live session knows the last tree of the editor. -/
theorem Live.last_eq (h : Live host settings origin s) :
    ∀ m, s.panel.mounted = some m → m.rebuild.last = some s.host.tree.id := by
  obtain ⟨start, events, hattach, hrun⟩ := h
  exact run_preserves (P := fun s => ∀ m, s.panel.mounted = some m →
    m.rebuild.last = some s.host.tree.id) (fun hs hstep => last_eq_of_step hs hstep)
    (last_eq_of_attach hattach) hrun

/-! ## What the panel causes itself -/

/-- Clicking puts no row off, and it moves the offset only as far as rows have gone. -/
theorem handle_click (hm : s.panel.mounted = some m) (hsteady : m.Steady s.panel.origin)
    (hrows : m.outline.length ≤ Count.bound) (hfit : s.host.document.Fits) {input : Input}
    (hclick : input.isClick = true) :
    (∃ offset fault, s.host.lineAt offset = .error fault ∧
      s.handle (.input input) = .error fault) ∨
    ∃ redraw s' m', s.handle (.input input) = .ok (redraw, s') ∧ s'.panel.mounted = some m' ∧
      m'.pending = m.pending ∧
      m'.viewport.offset =
        min m.viewport.offset (m.viewport.maxOffset m'.outline.length m'.footerLines) := by
  obtain ⟨⟨command, m'⟩, hin⟩ : ∃ reaction, m.onInput s.panel.origin input = .ok reaction :=
    Mounted.onInput_isOk_of_pointer hsteady.inView hrows (.inl hclick)
  cases Mounted.onInput_answer hin with
  | ignored =>
    -- The offset is in view already.
    have hsame : m.viewport.offset =
        min m.viewport.offset (m.viewport.maxOffset m.outline.length m.footerLines) :=
      (Nat.min_eq_left hsteady.inView).symm
    exact .inr ⟨_, _, m, handle_input_quiet hm (.inl rfl) hin, rfl, rfl, hsame⟩
  | scrolled wheel _ =>
    rw [wheel] at hclick
    cases hclick
  | lit hover =>
    rw [Input.isHover_of_isClick hclick] at hover
    cases hover
  | @selected span _ _ =>
    rw [handle_input_dispatch hm hin]
    rcases send_select (s := s.mount m) rfl hsteady.tag hfit (.single ⟨span.start, span.stop⟩) with
      hfault | ⟨s', m', hsent, hm', hpending, hviewport⟩
    · exact .inl hfault
    · refine .inr ⟨true, s', m', hsent, hm', hpending, ?_⟩
      rw [hviewport]
      rfl

/-- Changing the highlight brings no outline, if the panel knows the last tree: the update tells the
tree that is there and no selection. -/
theorem send_highlight (hm : s.panel.mounted = some m)
    (hlast : m.rebuild.last = some s.host.tree.id) (effect : Effect) :
    s.send (.highlight effect) =
      .ok (false, Session.settle { s with host := (s.host.dispatch (.highlight effect)).2 } m
        (m.keep (s.host.dispatch (.highlight effect)).1)) := by
  have hshows : m.Shows (s.host.dispatch (.highlight effect)).1 := ⟨hlast, rfl⟩
  have hsent := handle_update (s := { s with host := (s.host.dispatch (.highlight effect)).2 }) hm
    (s.host.dispatch (.highlight effect)).1
  rw [if_pos hshows] at hsent
  exact hsent

/-- Hovering changes nothing but the highlight, if the panel knows the last tree. -/
theorem handle_hover (hm : s.panel.mounted = some m) (hsteady : m.Steady s.panel.origin)
    (hlast : m.rebuild.last = some s.host.tree.id) (hrows : m.outline.length ≤ Count.bound)
    {input : Input} (hhover : input.isHover = true) :
    ∃ redraw s' m', s.handle (.input input) = .ok (redraw, s') ∧ s'.panel.mounted = some m' ∧
      m'.pending = m.pending ∧ m'.viewport = m.viewport ∧ m'.outline = m.outline := by
  obtain ⟨⟨command, m'⟩, hin⟩ : ∃ reaction, m.onInput s.panel.origin input = .ok reaction :=
    Mounted.onInput_isOk_of_pointer hsteady.inView hrows (.inr hhover)
  cases Mounted.onInput_answer hin with
  | ignored => exact ⟨_, _, m, handle_input_quiet hm (.inl rfl) hin, rfl, rfl, rfl, rfl⟩
  | scrolled wheel _ =>
    rw [wheel] at hhover
    cases hhover
  | selected click _ =>
    rw [Input.isHover_of_isClick click] at hhover
    cases hhover
  | @lit effect hovered _ =>
    have hsent := send_highlight (s := s.mount { m with hovered := hovered }) rfl hlast effect
    rw [handle_input_dispatch hm hin]
    exact ⟨false, _, _, hsent, rfl, rfl, rfl, rfl⟩

/-- What a panel causes itself does not make it scroll. Whatever updates it was given, a click
either meets an offset without a line, or leaves the waiting rows as they were and the offset too,
as far as there are rows. If the panel was given every update at once, hovering leaves the waiting
rows, the offset and the outline as they were. -/
theorem pending_and_offset_after_input (hm : s.panel.mounted = some m)
    (hrows : m.outline.length ≤ Count.bound) (hfit : s.host.document.Fits) :
    (Reachable host settings origin s → ∀ input : Input, input.isClick = true →
      (∃ offset fault, s.host.lineAt offset = .error fault ∧
        s.handle (.input input) = .error fault) ∨
      ∃ redraw s' m', s.handle (.input input) = .ok (redraw, s') ∧ s'.panel.mounted = some m' ∧
        m'.pending = m.pending ∧
        m'.viewport.offset =
          min m.viewport.offset (m.viewport.maxOffset m'.outline.length m'.footerLines)) ∧
    (Live host settings origin s → ∀ input : Input, input.isHover = true →
      ∃ redraw s' m', s.handle (.input input) = .ok (redraw, s') ∧ s'.panel.mounted = some m' ∧
        m'.pending = m.pending ∧ m'.viewport = m.viewport ∧ m'.outline = m.outline) := by
  constructor
  · intro hreach input hclick
    exact handle_click hm (hreach.steady hm) hrows hfit hclick
  · intro hlive input hhover
    exact handle_hover hm (hlive.reachable.steady hm) (hlive.last_eq m hm) hrows hhover

/-- Two carets make two lines of footer, and the wheel brings the second of three rows to the top.
The click leaves one caret, so there is room for all three rows again; hovering changes nothing. -/
theorem offset_after_click_on_row :
    ∃ s m, Live .twoWords
        ⟨.bottom, Float32.ofBits 0x43700000, 2, Float32.ofBits 0x42200000, false, true⟩ ⟨1⟩ s ∧
      s.panel.mounted = some m ∧ m.outline.length ≤ Count.bound ∧ s.host.document.Fits ∧
      m.viewport.offset = 1 ∧
      (∃ redraw s' m', s.handle (.input (.atRow (.clickRow 2))) = .ok (redraw, s') ∧
        s'.panel.mounted = some m' ∧ m'.pending = m.pending ∧
        m'.viewport.offset = min 1 (m.viewport.maxOffset m'.outline.length m'.footerLines)) ∧
      ∃ redraw s' m', s.handle (.input (.atRow (.hoverRow 2))) = .ok (redraw, s') ∧
        s'.panel.mounted = some m' ∧ m'.pending = m.pending ∧ m'.viewport = m.viewport ∧
        m'.outline = m.outline := by
  -- A panel 240 high, with rows 40 high.
  let settings : Settings :=
    ⟨.bottom, Float32.ofBits 0x43700000, 2, Float32.ofBits 0x42200000, false, true⟩
  let click : Message := .input (.atRow (.clickRow 2))
  obtain ⟨s, hrun, hfacts⟩ := ok_of_toOption (show ((attach Editor.twoWords settings ⟨1⟩ >>=
    (Session.run · [.edit (.select ⟨.caret 1, [.caret 4]⟩), .tick,
      .input (.atRow (.scroll 5))])).toOption.map
      fun s => (s.panel.outline?.map (·.length), s.panel.scrollOffset, s.host.document.length,
        (s.handle click).toOption.isSome)) = some (some 3, 1, 5, true) by decide +kernel)
  obtain ⟨start, hattach, hlive⟩ := bind_eq_ok.1 hrun
  have hlive : Live .twoWords settings ⟨1⟩ s := ⟨start, _, hattach, hlive⟩
  simp only [Prod.mk.injEq] at hfacts
  obtain ⟨hlength, hoffset, hdocument, hok⟩ := hfacts
  cases hm : s.panel.mounted with
  | none =>
    rw [Panel.outline?, hm] at hlength
    cases hlength
  | some m =>
    rw [Panel.outline?, hm] at hlength
    rw [Panel.scrollOffset, hm] at hoffset
    have hrows : m.outline.length ≤ Count.bound := by
      rw [show m.outline.length = 3 from Option.some.inj hlength]
      decide
    have hfit : s.host.document.Fits := by
      rw [Document.Fits, hdocument]
      decide
    obtain ⟨hclick, hhover⟩ := pending_and_offset_after_input hm hrows hfit
    refine ⟨s, m, hlive, hm, hrows, hfit, hoffset, ?_, hhover hlive _ rfl⟩
    rcases hclick hlive.reachable (.atRow (.clickRow 2)) rfl with
      ⟨offset, fault, -, hfault⟩ | ⟨redraw, s', m', hhandle, hm', hpending, hmin⟩
    · rw [show s.handle click = .error fault from hfault] at hok
      cases hok
    · rw [show m.viewport.offset = 1 from hoffset] at hmin
      exact ⟨redraw, s', m', hhandle, hm', hpending, hmin⟩

end Session

end TreePanel
