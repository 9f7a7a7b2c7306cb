import TreePanel.Proofs.Session.Run
import TreePanel.Proofs.Viewport

/-!
# No missed paint

`Session.handle` tells whether to paint the panel again. If it does not, what the panel shows is
what it showed before: the outline, the offset and the rows that wait for a tick are the same
(`same_of_handle_false`). This holds of any panel, reachable or not, beside any editor, whatever
that answers to the transaction of a click or of hovering.

An outline that is made anew and rows that stop waiting always ask for paint, and the wheel does
when it moves the offset. All that is left to change without paint is the highlight and the row
under the pointer (`Mounted.Recolored`).
-/

namespace TreePanel

/-- At the most the highlight and the row under the pointer have changed. -/
def Mounted.Recolored (m m' : Mounted) : Prop :=
  ∃ highlight hovered, m' = { m with highlight := highlight, hovered := hovered }

namespace Session

variable {σ : Type} [EditorHost σ] {s s' : Session σ} {m : Mounted}

/-- An update that asks for no paint leaves what the panel shows. -/
theorem recolored_of_update (hm : s.panel.mounted = some m) {u : Update}
    (h : s.handle (.update u) = .ok (false, s')) :
    ∃ m', s'.panel.mounted = some m' ∧ m.Recolored m' := by
  rw [handle_update hm] at h
  split at h
  · cases h
    exact ⟨m.keep u, rfl, _, _, rfl⟩
  · -- A new outline asks for paint.
    obtain ⟨outline, -, hdone⟩ := map_eq_ok.1 h
    cases hdone

/-- A tick that asks for no paint leaves what the panel shows. -/
theorem recolored_of_tick (hm : s.panel.mounted = some m) (h : s.handle .tick = .ok (false, s')) :
    ∃ m', s'.panel.mounted = some m' ∧ m.Recolored m' := by
  rw [handle_tick hm] at h
  have hempty : m.pending.isEmpty = true := by
    simpa using congrArg Prod.fst (Except.ok.inj h)
  have hsame : m.onTick.2 = m := by
    unfold Mounted.onTick
    rw [if_pos hempty]
  rw [hempty, hsame] at h
  cases h
  exact ⟨m, rfl, m.highlight, m.hovered, rfl⟩

/-- Input that asks for no paint leaves what the panel shows. -/
theorem recolored_of_input (hm : s.panel.mounted = some m) {input : Input}
    (h : s.handle (.input input) = .ok (false, s')) :
    ∃ m', s'.panel.mounted = some m' ∧ m.Recolored m' := by
  cases hin : m.onInput s.panel.origin input with
  | error fault =>
    rw [handle_input_error hm hin] at h
    cases h
  | ok reaction =>
    obtain ⟨command, m'⟩ := reaction
    cases Mounted.onInput_answer hin with
    | ignored =>
      rw [handle_input_quiet hm (.inl rfl) hin] at h
      cases h
      exact ⟨m, rfl, m.highlight, m.hovered, rfl⟩
    | @scrolled lines viewport wheel moved =>
      split at hin
      · next hoffset =>
        rw [handle_input_quiet hm (.inl rfl) hin] at h
        cases h
        have hviewport : viewport = m.viewport := by
          rw [Viewport.eq_of_scrollBy moved, hoffset]
        exact ⟨_, rfl, m.highlight, m.hovered, by rw [hviewport]⟩
      · -- An offset that moved asks for paint.
        rw [handle_input_quiet hm (.inr rfl) hin] at h
        cases h
    | @lit effect hovered hover =>
      -- The answer of the editor is handled in the same call, and it asked for no paint either.
      rw [handle_input_dispatch hm hin] at h
      obtain ⟨m', hm', highlight, hovered', hsame⟩ := recolored_of_update
        (s := { s.mount { m with hovered := hovered } with
          host := (EditorHost.dispatch s.host (.highlight effect)).2 }) rfl h
      exact ⟨m', hm', highlight, hovered', hsame⟩
    | @selected span click clicked =>
      rw [handle_input_dispatch hm hin] at h
      exact recolored_of_update (s := { s.mount m with
        host := (EditorHost.dispatch s.host
          (.select (.single ⟨span.start, span.stop⟩) s.panel.origin)).2 }) rfl h

/-- A message that asks for no paint leaves what the panel shows. -/
theorem recolored_of_handle (hm : s.panel.mounted = some m) {message : Message}
    (h : s.handle message = .ok (false, s')) :
    ∃ m', s'.panel.mounted = some m' ∧ m.Recolored m' := by
  cases message with
  | update u => exact recolored_of_update hm h
  | input input => exact recolored_of_input hm h
  | tick => exact recolored_of_tick hm h

/-- If a panel was not asked to be painted after it handled a message, it shows what it showed
before: the same rows with the same flags, the same footer and the same row to center, from the same
offset on, and the same rows wait for a tick. -/
theorem same_of_handle_false {message : Message} (h : s.handle message = .ok (false, s')) :
    s'.panel.outline? = s.panel.outline? ∧ s'.panel.scrollOffset = s.panel.scrollOffset ∧
      s'.panel.pending = s.panel.pending := by
  cases hm : s.panel.mounted with
  | none =>
    rw [handle_unmounted hm] at h
    cases h
    exact ⟨rfl, rfl, rfl⟩
  | some m =>
    obtain ⟨m', hm', highlight, hovered, rfl⟩ := recolored_of_handle hm h
    unfold Panel.outline? Panel.scrollOffset Panel.pending
    rw [hm, hm']
    exact ⟨rfl, rfl, rfl⟩

/-- A scrolled panel with a row that waits for a tick hovers a word. The editor marks the word, but
the panel need not be painted: it shows the same rows from the same offset on, and the row waits. -/
theorem same_after_hover :
    ∃ s s', Live .twoWords
        ⟨.bottom, Float32.ofBits 0x43700000, 2, Float32.ofBits 0x42200000, false, true⟩ ⟨1⟩ s ∧
      s.handle (.input (.atRow (.hoverRow 2))) = .ok (false, s') ∧
      s.host.decoration = none ∧ s'.host.decoration = some ⟨3, 5, by decide⟩ ∧
      s'.panel.outline? = s.panel.outline? ∧ s'.panel.scrollOffset = 1 ∧
      s'.panel.pending = [2] := by
  -- A panel 240 high, with rows 40 high.
  let settings : Settings :=
    ⟨.bottom, Float32.ofBits 0x43700000, 2, Float32.ofBits 0x42200000, false, true⟩
  obtain ⟨⟨s, redraw, s'⟩, hrun, hfacts⟩ := ok_of_toOption (show (Except.toOption (do
      let start ← attach Editor.twoWords settings ⟨1⟩
      let s ← start.run [.edit (.select ⟨.caret 1, [.caret 4]⟩), .tick,
        .input (.atRow (.scroll 5)), .edit (.select ⟨.caret 0, [.caret 4]⟩)]
      return (s, ← s.handle (.input (.atRow (.hoverRow 2)))))).map
        (fun r => (r.2.1, r.1.host.decoration, r.2.2.host.decoration, r.1.panel.scrollOffset,
          r.1.panel.pending)) =
        some (false, none, some ⟨3, 5, by decide⟩, 1, [2]) by decide +kernel)
  obtain ⟨start, hattach, hrun⟩ := bind_eq_ok.1 hrun
  obtain ⟨_, hevents, hrun⟩ := bind_eq_ok.1 hrun
  obtain ⟨⟨_, _⟩, hhandle, hdone⟩ := bind_eq_ok.1 hrun
  cases hdone
  simp only [Prod.mk.injEq] at hfacts
  obtain ⟨rfl, hbefore, hafter, hoffset, hpending⟩ := hfacts
  obtain ⟨houtline, hsame, hwaiting⟩ := same_of_handle_false hhandle
  exact ⟨s, s', ⟨start, _, hattach, hevents⟩, hhandle, hbefore, hafter, houtline,
    hsame.trans hoffset, hwaiting.trans hpending⟩

end Session

end TreePanel
