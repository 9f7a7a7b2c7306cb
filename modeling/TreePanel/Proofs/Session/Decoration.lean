import TreePanel.Proofs.Highlight
import TreePanel.Proofs.Session.Run

/-!
# The mark in the editor

The panel stores its highlight, and the editor shows a mark for it. The two never come apart:
whatever messages the panel handles, the mark is the highlight, it always has width, and a detached
panel leaves no mark behind.

Only an update changes the highlight (`Mounted.keep`, `Mounted.renew`), and the editor is marked
again in the same step exactly if it did, so the equality is an `Invariant` of single changes.
-/

namespace TreePanel

/-- The editor's mark is the highlight of the panel, and it has width. -/
def Mounted.Marked (e : Editor) (m : Mounted) : Prop :=
  e.decoration = m.highlight ∧ ∀ span, m.highlight = some span → span.isEmpty = false

namespace Session

variable {settings : Settings} {origin : Origin} {host : Editor} {s : Session Editor}

/-- A mark that was the highlight before is the highlight afterwards. -/
theorem remark_decoration {e : Editor} {before after : Option Span} (h : e.decoration = before) :
    (remark e before after).decoration = after := by
  unfold remark
  split
  · next hsame => rw [h, hsame]
  · rfl

/-- No single change takes the mark off the highlight. -/
theorem marked_invariant (settings : Settings) :
    Invariant (σ := Editor) settings Mounted.Marked where
  dispatch _ h := h
  hover _ h := h
  scroll h _ := h
  tick h := by
    rw [Mounted.onTick_snd]
    exact h
  keep h _ := ⟨remark_decoration h.1, fun _ => Highlight.next_hasWidth h.2⟩
  renew h _ _ := ⟨remark_decoration h.1, fun _ => Highlight.next_hasWidth h.2⟩

/-- In every session that can be reached the mark is the highlight. -/
theorem Reachable.marked (hnone : host.decoration = none) (h : Reachable host settings origin s)
    {m : Mounted} (hm : s.panel.mounted = some m) : m.Marked s.host := by
  refine h.invariant (marked_invariant settings) ?_ ?_ hm
  · intro s m hattach hm
    obtain ⟨surface, outline, -, -, rfl, hhost⟩ := attach_mounted hattach hm
    rw [hhost]
    exact ⟨hnone, nofun⟩
  · intro e e' action u m hp hact
    exact ⟨(Editor.act_decoration hact).trans hp.1, hp.2⟩

/-- Detaching a panel removes the mark of its highlight. -/
theorem detach_decoration (hmarked : ∀ m, s.panel.mounted = some m → m.Marked s.host)
    (hnone : s.panel.mounted = none → s.host.decoration = none) :
    s.detach.host.decoration = none := by
  unfold detach
  split
  · next hm => exact hnone hm
  · next m hm =>
    have hmark := (hmarked m hm).1
    cases hl : m.highlight with
    | none =>
      simp only [Option.isSome_none, Bool.false_eq_true, if_false]
      exact hmark.trans hl
    | some span =>
      simp only [Option.isSome_some, if_true]
      rfl

/-- An editor without a mark has none while no panel is mounted. -/
theorem Reachable.unmarked (hnone : host.decoration = none)
    (h : Reachable host settings origin s) (hm : s.panel.mounted = none) :
    s.host.decoration = none := by
  induction h with
  | attach hattach =>
    obtain ⟨-, -, surface, hhost⟩ := attach_panel hattach
    rw [hhost]
    exact hnone
  | edit _ hact ih => exact (Editor.act_decoration hact).trans (ih hm)
  | @handle s s' message redraw _ hhandle ih =>
    obtain ⟨mounted, hpanel, hsome⟩ := handle_panel hhandle
    rw [hpanel] at hm
    cases hm
    -- A message mounts no panel, so there was none before.
    have hbefore : s.panel.mounted = none :=
      Option.not_isSome_iff_eq_none.1 (by rw [← hsome]; decide)
    rw [handle_unmounted hbefore] at hhandle
    cases hhandle
    exact ih hbefore
  | detach hreach ih => exact detach_decoration (fun m => hreach.marked hnone) ih

/-- Whatever messages a panel handles that was attached to an editor without a mark, in whatever
order, the editor's mark is the panel's highlight, that is never a span without width, and detaching
the panel removes the mark. -/
theorem decoration_eq_highlight (hnone : host.decoration = none)
    (h : Reachable host settings origin s) :
    s.host.decoration = s.panel.highlight ∧
      (∀ span, s.panel.highlight = some span → span.isEmpty = false) ∧
      s.detach.host.decoration = none := by
  have hdetach := detach_decoration (fun m => h.marked hnone) (h.unmarked hnone)
  cases hm : s.panel.mounted with
  | none =>
    have hhighlight : s.panel.highlight = none := by rw [Panel.highlight, hm]; rfl
    rw [hhighlight]
    exact ⟨h.unmarked hnone hm, nofun, hdetach⟩
  | some m =>
    have hhighlight : s.panel.highlight = m.highlight := by rw [Panel.highlight, hm]; rfl
    obtain ⟨hmark, hwidth⟩ := h.marked hnone hm
    rw [hhighlight]
    exact ⟨hmark, hwidth, hdetach⟩

/-- A row is hovered, and then an update comes from nowhere that clears the highlight and sets it
again. -/
theorem decoration_after_hover_and_update :
    ∃ s, Reachable .twoWords {} ⟨1⟩ s ∧ s.host.decoration = some ⟨0, 2, by decide⟩ ∧
      s.host.decoration = s.panel.highlight ∧ s.detach.host.decoration = none := by
  let stray : Update := ⟨⟨⟨9, 9⟩, Editor.twoWords.tree.root⟩, .caret 1, true, false, none,
    [some ⟨1, 2, by decide⟩, none, some ⟨0, 2, by decide⟩]⟩
  obtain ⟨s, hrun, hmark⟩ := ok_of_toOption (show ((attach Editor.twoWords {} ⟨1⟩ >>=
    (handleAll · [.input (.atRow (.hoverRow 2)), .update stray])).toOption.map
      (·.host.decoration)) = some (some ⟨0, 2, by decide⟩) by decide +kernel)
  obtain ⟨start, hattach, hall⟩ := bind_eq_ok.1 hrun
  have hreach : Reachable .twoWords {} ⟨1⟩ s := (Reachable.attach hattach).handleAll hall
  obtain ⟨hsame, -, hdetach⟩ := decoration_eq_highlight rfl hreach
  exact ⟨s, hreach, hmark, hsame, hdetach⟩

end Session

end TreePanel
