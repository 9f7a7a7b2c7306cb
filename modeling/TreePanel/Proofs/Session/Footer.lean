import TreePanel.Proofs.Session.Safety

/-!
# The footer after a replacement

The footer is made together with the rows, so it is made anew only where they are. A replacement in
an editor whose tree was built by hand leaves the tree as it is. Then all depends on whether the
selection moved. If it did, the footer is that of the new text. If it did not, the panel is left as
it was (`exists_step_replace`), and the footer tells the old lines and columns, although the text
before the selection may have other lines now (`footer_after_line_break`).

So the footer is current all along a run exactly if every replacement that leaves the selection
where it is leaves its heads on their lines and in their columns as well (`footer_after_replace`).
The step is `footerCurrent_edit`: nothing else that happens to an editor makes a difference.
-/

namespace TreePanel

/-- An update that neither touches the selection nor has effects leaves a panel that shows it
already as it is. -/
theorem Mounted.keep_eq_self {m : Mounted} {u : Update} (hstill : u.selectionChanged = false)
    (hquiet : u.effects = []) : m.keep u = m := by
  refine keep_eq_self_of_next ?_
  rw [hstill, hquiet]
  rfl

namespace Editor

variable {e e' : Editor} {u : Update} {start stop : Nat} {text : List Char}

/-- Without a parser, a replacement in the text can be carried out. -/
theorem exists_replace (hparser : e.parser = none)
    (hselection : e.selection.Within e.document.length)
    (hrange : start ≤ stop ∧ stop ≤ e.document.length)
    (hfit : e.document.length - (stop - start) + text.length < Count.bound) :
    ∃ u e', e.replace start stop text = .ok (u, e') ∧
      e.document.replace start stop text = .ok e'.document ∧
      e'.selection.Within e'.document.length ∧
      u.selectionChanged = (e'.selection != e.selection) ∧ u.effects = [] := by
  obtain ⟨document, hdocument⟩ : ∃ document, e.document.replace start stop text = .ok document :=
    ⟨_, Document.replace_eq_ok.2 ⟨hrange, rfl⟩⟩
  obtain ⟨selection, hmoved, hwithin⟩ := hselection.moved hrange hfit
  rw [← Document.length_replace hdocument] at hwithin
  exact ⟨_, _, replace_eq_ok.2 ⟨document, e.tree, none, selection, hdocument,
    .inl ⟨hparser, rfl, rfl⟩, hmoved, rfl, rfl⟩, hdocument, hwithin, rfl, rfl⟩

end Editor

namespace Session

variable {host : Editor} {settings : Settings} {origin : Origin} {s s' : Session Editor}
  {m : Mounted}

/-- The footer tells the lines and columns that the heads of the selection have in the text. -/
def FooterCurrent (s : Session Editor) : Prop :=
  ∀ m ∈ s.panel.mounted,
    Footer.ofSelection s.host.lineAt s.host.selection = .ok m.outline.footer

/-- The heads of the selection are on the same lines and in the same columns in another editor. -/
def SamePlaces (s : Session Editor) (e : Editor) : Prop :=
  s.panel.isAttached = true →
    Footer.ofSelection e.lineAt e.selection = Footer.ofSelection s.host.lineAt s.host.selection

instance (s : Session Editor) (e : Editor) : Decidable (s.SamePlaces e) :=
  inferInstanceAs (Decidable (_ = true → _ = _))

/-- No event gives a parser to an editor that has none. -/
theorem Reachable.parser_eq_none (h : Reachable host settings origin s) (hhost : host.parser = none)
    (hm : s.panel.mounted = some m) : s.host.parser = none := by
  have hremark : ∀ {e : Editor} {before after : Option Span}, e.parser = none →
      (remark e before after).parser = none := by
    intro e before after hnone
    obtain ⟨mark, hmark⟩ := remark_eq e before after
    rw [hmark]
    exact hnone
  have hinvariant : Invariant settings fun (e : Editor) (_ : Mounted) => e.parser = none :=
    { dispatch := fun _ hnone => hnone
      hover := fun _ hnone => hnone
      scroll := fun hnone _ => hnone
      tick := fun hnone => hnone
      keep := fun hnone _ => hremark hnone
      renew := fun hnone _ _ => hremark hnone }
  refine h.invariant hinvariant ?_ ?_ hm
  · intro s m hattach _
    obtain ⟨-, -, surface, hsame⟩ := attach_panel hattach
    rw [hsame]
    exact hhost
  · intro e e' action u _ hnone hact
    cases action with
    | replace start stop text => exact (Editor.tree_of_replace hnone hact).1
    | _ =>
      cases hact
      exact hnone

/-- A replacement without a parser shows the panel nothing new but the selection. -/
theorem shows_of_replace {u : Update} {e : Editor} {start stop : Nat} {text : List Char}
    (hparser : s.host.parser = none) (hlast : m.rebuild.last = some s.host.tree.id)
    (hreplace : s.host.replace start stop text = .ok (u, e)) :
    m.Shows u ↔ u.selectionChanged = false := by
  have hact : s.host.act (.replace start stop text) = .ok (u, e) := hreplace
  refine ⟨fun hshows => hshows.2, fun hstill => ⟨?_, hstill⟩⟩
  rw [hlast, (Editor.act_update hact).1, (Editor.tree_of_replace hparser hreplace).2]

/-- An update that brings another outline makes the footer current. -/
theorem footerCurrent_of_new (hm : s.panel.mounted = some m)
    (hfooter : s.panel.settings.footer = true) {action : Editor.Action} {u : Update} {e : Editor}
    (hact : s.host.act action = .ok (u, e)) (hnew : ¬m.Shows u) {redraw : Bool}
    (hhandle : Session.handle { s with host := e } (.update u) = .ok (redraw, s')) :
    s'.FooterCurrent := by
  obtain ⟨-, hselection, -⟩ := Editor.act_update hact
  obtain ⟨mark, hhost⟩ := handle_update_host hhandle
  rcases handle_update_cases (s := { s with host := e }) hm hhandle with
    ⟨hshows, -⟩ | ⟨-, outline, hr, rfl⟩
  · exact absurd hshows hnew
  · have hmade := Outline.footer_of_render hr hfooter
    rw [hselection] at hmade
    intro m' hm'
    cases hm'
    rw [hhost]
    exact hmade

/-- An update that leaves the outline alone leaves the footer current exactly if the heads are where
they were. -/
theorem footerCurrent_of_shows (hcurrent : s.FooterCurrent) (hm : s.panel.mounted = some m)
    {u : Update} {e : Editor} (hshows : m.Shows u) {redraw : Bool}
    (hhandle : Session.handle { s with host := e } (.update u) = .ok (redraw, s')) :
    s'.FooterCurrent ↔ s.SamePlaces e := by
  obtain ⟨mark, hhost⟩ := handle_update_host hhandle
  have hattached : s.panel.isAttached = true := by rw [Panel.isAttached, hm]; rfl
  rcases handle_update_cases (s := { s with host := e }) hm hhandle with
    ⟨-, rfl⟩ | ⟨hnew, -⟩
  · rw [FooterCurrent, SamePlaces, hhost, hcurrent m hm]
    constructor
    · intro h _
      exact h (m.keep u) rfl
    · intro h m' hm'
      cases hm'
      exact h hattached
  · exact absurd hshows hnew

/-- An action and its update keep the footer current, unless the action is a replacement that leaves
the selection where it is but moves its heads to other lines or columns. -/
theorem footerCurrent_edit (hcurrent : s.FooterCurrent) (hm : s.panel.mounted = some m)
    (hfooter : s.panel.settings.footer = true) (hparser : s.host.parser = none)
    (hlast : m.rebuild.last = some s.host.tree.id) {action : Editor.Action}
    (hstep : s.step (.edit action) = .ok s') :
    s'.FooterCurrent ↔ s.IfStill SamePlaces (.edit action) := by
  obtain ⟨u, e, redraw, hact, hhandle⟩ := step_edit_eq_ok.1 hstep
  have hupdated : s'.FooterCurrent ↔ (m.Shows u → s.SamePlaces e) := by
    by_cases hshows : m.Shows u
    · rw [footerCurrent_of_shows hcurrent hm hshows hhandle]
      exact ⟨fun h _ => h, fun h => h hshows⟩
    · exact ⟨fun _ h => absurd h hshows,
        fun _ => footerCurrent_of_new hm hfooter hact hshows hhandle⟩
  rw [hupdated]
  -- Other actions than replacements leave the text alone, so heads that stay keep their places.
  have hother : e.lineAt = s.host.lineAt → m.Shows u → s.SamePlaces e := by
    intro hlines hshows _
    rw [hlines, (Editor.act_update hact).2.2 hshows.2]
  cases action with
  | replace start stop text =>
    have hreplace : s.host.replace start stop text = .ok (u, e) := hact
    rw [shows_of_replace hparser hlast hreplace, IfStill, hreplace]
    exact ⟨fun h edited hedited hstill => by cases hedited; exact h hstill, fun h => h (u, e) rfl⟩
  | select selection => cases hact; exact ⟨fun _ => trivial, fun _ => hother rfl⟩
  | setTree tree => cases hact; exact ⟨fun _ => trivial, fun _ => hother rfl⟩
  | dispatch t => cases hact; exact ⟨fun _ => trivial, fun _ => hother rfl⟩
  | idle => cases hact; exact ⟨fun _ => trivial, fun _ => hother rfl⟩

/-- A change of the panel that leaves the outline alone makes no difference to the footer. -/
theorem FooterCurrent.mount (h : s.FooterCurrent) (hm : s.panel.mounted = some m) {m' : Mounted}
    (houtline : m'.outline = m.outline) : (s.mount m').FooterCurrent := by
  intro after hafter
  cases hafter
  rw [houtline]
  exact h m hm

/-- Every event keeps the footer current, but for a replacement that leaves the selection where it
is and moves its heads to other lines or columns. -/
theorem footerCurrent_step (hcurrent : s.FooterCurrent) (hfooter : s.panel.settings.footer = true)
    (hparser : ∀ m, s.panel.mounted = some m → s.host.parser = none)
    (hlast : ∀ m, s.panel.mounted = some m → m.rebuild.last = some s.host.tree.id) {event : Event}
    (hstep : s.step event = .ok s') : s'.FooterCurrent ↔ s.IfStill SamePlaces event := by
  cases hm : s.panel.mounted with
  | none =>
    -- Without a panel there is no footer.
    have hgone : s'.FooterCurrent := by
      intro m' hm'
      rw [step_unmounted hm hstep] at hm'
      cases hm'
    refine ⟨fun _ => ifStill_of_forall (fun e hattached => ?_) event, fun _ => hgone⟩
    rw [Panel.isAttached, hm] at hattached
    cases hattached
  | some m =>
    cases stepped_of_step hm hstep with
    | edited hedit => exact footerCurrent_edit hcurrent hm hfooter (hparser m hm) (hlast m hm) hedit
    | @answered input hovered t _ _ hsent =>
      have hcurrent' : (s.mount { m with hovered := hovered }).FooterCurrent :=
        hcurrent.mount hm rfl
      have hiff := footerCurrent_edit hcurrent' rfl hfooter (hparser m hm) (hlast m hm) hsent
      exact ⟨fun _ => trivial, fun _ => hiff.2 trivial⟩
    | scrolled => exact ⟨fun _ => trivial, fun _ => hcurrent.mount hm rfl⟩
    | ticked =>
      exact ⟨fun _ => trivial, fun _ => hcurrent.mount hm (by rw [Mounted.onTick_snd])⟩
    | detached =>
      refine ⟨fun _ => trivial, fun _ m' hm' => ?_⟩
      rw [detach_panel] at hm'
      cases hm'

/-- The footer of a panel that was just attached is current. -/
theorem footerCurrent_attach (hattach : attach host settings origin = .ok s)
    (hfooter : settings.footer = true) : s.FooterCurrent := by
  intro m hm
  obtain ⟨surface, outline, -, hr, rfl, hsame⟩ := attach_mounted hattach hm
  rw [hsame]
  exact Outline.footer_of_render hr hfooter

/-- A replacement in the text can be carried out, and the panel can handle its update. It makes the
footer current if it moves the selection, and leaves the panel as it is if it does not. -/
theorem exists_step_replace (hm : s.panel.mounted = some m) (hparser : s.host.parser = none)
    (hlast : m.rebuild.last = some s.host.tree.id) (hfooter : s.panel.settings.footer = true)
    (hselection : s.host.selection.Within s.host.document.length) {start stop : Nat}
    {text : List Char} (hrange : start ≤ stop ∧ stop ≤ s.host.document.length)
    (hfit : s.host.document.length - (stop - start) + text.length + 1 < Count.bound) :
    ∃ s' m', s.step (.edit (.replace start stop text)) = .ok s' ∧ s'.panel.mounted = some m' ∧
      s.host.document.replace start stop text = .ok s'.host.document ∧
      (s'.host.selection ≠ s.host.selection → s'.FooterCurrent) ∧
      (s'.host.selection = s.host.selection → m' = m) := by
  obtain ⟨u, e, hreplace, hdocument, hwithin, hmoved, hquiet⟩ :=
    Editor.exists_replace hparser hselection hrange (Nat.lt_of_succ_lt hfit)
  have hact : s.host.act (.replace start stop text) = .ok (u, e) := hreplace
  have hshows := shows_of_replace hparser hlast hreplace
  obtain ⟨redraw, s', hhandle⟩ : ∃ redraw s',
      Session.handle { s with host := e } (.update u) = .ok (redraw, s') := by
    -- The heads moved along, so they lie in the new text and its lines can be told.
    have hfits : e.document.Fits := by
      rw [Document.Fits, Document.length_replace hdocument]
      exact hfit
    apply handle_update_isOk
    rw [(Editor.act_update hact).2.1]
    exact Outline.render_isOk hfits fun _ r hr => (hwithin r hr).2
  obtain ⟨mark, hhost⟩ := handle_update_host hhandle
  have hstep := step_edit_eq_ok.2 ⟨u, e, redraw, hact, hhandle⟩
  have hdocument' : s.host.document.replace start stop text = .ok s'.host.document := by
    rw [hhost]
    exact hdocument
  have hstill : s'.host.selection = s.host.selection ↔ m.Shows u := by
    rw [hshows, hmoved, hhost]
    simp
  rcases handle_update_cases (s := { s with host := e }) hm hhandle with
    ⟨hkept, rfl⟩ | ⟨hnew, outline, -, rfl⟩
  · refine ⟨_, m.keep u, hstep, rfl, hdocument', fun hne => absurd (hstill.2 hkept) hne,
      fun _ => ?_⟩
    exact Mounted.keep_eq_self hkept.2 hquiet
  · exact ⟨_, m.renew u outline, hstep, rfl, hdocument',
      fun _ => footerCurrent_of_new hm hfooter hact hnew hhandle,
      fun heq => absurd (hstill.1 heq) hnew⟩

/-- Beside an editor whose tree was built by hand, the footer is current all along a run exactly if
each replacement that leaves the selection where it is leaves its heads on their lines and in their
columns. Let the run go on with a replacement in the text, while the selection lies in the text. The
replacement and its update succeed. If the selection moved, the footer is that of the new text; if
not, the panel is the one from before, footer included. -/
theorem footer_after_replace (hhost : host.parser = none) (hfooter : settings.footer = true)
    {start : Session Editor} (hattach : attach host settings origin = .ok start)
    {events : List Event} (hrun : start.run events = .ok s) :
    (start.Always FooterCurrent events ↔ start.Throughout (IfStill SamePlaces) events) ∧
    ∀ m, s.panel.mounted = some m → s.host.selection.Within s.host.document.length →
      ∀ (first last : Nat) (text : List Char), first ≤ last ∧ last ≤ s.host.document.length →
        s.host.document.length - (last - first) + text.length + 1 < Count.bound →
          ∃ s' m', s.step (.edit (.replace first last text)) = .ok s' ∧
            s'.panel.mounted = some m' ∧
            s.host.document.replace first last text = .ok s'.host.document ∧
            (s'.host.selection ≠ s.host.selection → s'.FooterCurrent) ∧
            (s'.host.selection = s.host.selection → m' = m) := by
  have hlive : Live host settings origin s := ⟨start, events, hattach, hrun⟩
  constructor
  · -- The panel of a live session knows the last tree, so only the selection brings a new outline.
    refine always_iff_throughout (I := fun s _ => Reachable host settings origin s ∧
      ∀ m, s.panel.mounted = some m → m.rebuild.last = some s.host.tree.id) ?_
      ⟨.attach hattach, last_eq_of_attach hattach⟩ (footerCurrent_attach hattach hfooter) hrun
    rintro s event rest s' ⟨hreach, hlast⟩ hcurrent hstep
    have hshown : s.panel.settings.footer = true := by rw [hreach.panel.1]; exact hfooter
    exact ⟨⟨hreach.step hstep, last_eq_of_step hlast hstep⟩,
      footerCurrent_step hcurrent hshown (fun _ hm => hreach.parser_eq_none hhost hm) hlast hstep⟩
  · intro m hm hselection first last text hrange hfit
    have hreach := hlive.reachable
    have hshown : s.panel.settings.footer = true := by rw [hreach.panel.1]; exact hfooter
    exact exists_step_replace hm (hreach.parser_eq_none hhost hm) (hlive.last_eq m hm) hshown
      hselection hrange hfit

/-- A letter before the caret is replaced by another one, which leaves the caret in its column, and
then a letter is put in, which moves it. Both leave the footer current, and so does taking a letter
away again. -/
theorem footer_after_letters :
    ∃ start s s', attach { Editor.twoWords with selection := .caret 4 } {} ⟨1⟩ = .ok start ∧
      start.run [.edit (.replace 0 1 ['x']), .edit (.replace 1 1 ['y'])] = .ok s ∧
      start.Always FooterCurrent [.edit (.replace 0 1 ['x']), .edit (.replace 1 1 ['y'])] ∧
      s.step (.edit (.replace 0 1 [])) = .ok s' ∧ s'.panel.isAttached = true ∧
      s'.FooterCurrent := by
  let events : List Event := [.edit (.replace 0 1 ['x']), .edit (.replace 1 1 ['y'])]
  obtain ⟨⟨start, s⟩, hruns, hfacts⟩ := ok_of_toOption (show (Except.toOption (do
      let start ← attach { Editor.twoWords with selection := .caret 4 } {} ⟨1⟩
      let s ← start.run events
      return (start, s))).map (fun r => decide (r.2.panel.isAttached = true ∧
        r.1.Throughout (IfStill SamePlaces) events ∧ r.2.host.document.length = 6 ∧
        r.2.host.selection = .caret 5 ∧
        (r.2.step (.edit (.replace 0 1 []))).toOption.map (·.host.selection) =
          some (.caret 4))) = some true by decide +kernel)
  obtain ⟨start, hattach, hrest⟩ := bind_eq_ok.1 hruns
  obtain ⟨s, hrun, hdone⟩ := bind_eq_ok.1 hrest
  cases hdone
  obtain ⟨hattached, hthroughout, hlength, hcaret, hmoved⟩ := of_decide_eq_true hfacts
  obtain ⟨m, hm⟩ := Option.isSome_iff_exists.1 hattached
  obtain ⟨hiff, hreplace⟩ := footer_after_replace rfl rfl hattach hrun
  have hselection : s.host.selection.Within s.host.document.length := by
    rw [hcaret, hlength]
    decide
  obtain ⟨s', m', hstep, hm', -, hcurrent, -⟩ := hreplace m hm hselection 0 1 []
    (by rw [hlength]; decide) (by rw [hlength]; decide)
  rw [hstep] at hmoved
  have hcaret' : s'.host.selection = .caret 4 := Option.some.inj hmoved
  refine ⟨start, s, s', hattach, hrun, hiff.2 hthroughout, hstep, ?_, hcurrent ?_⟩
  · rw [Panel.isAttached, hm']
    rfl
  · rw [hcaret', hcaret]
    decide

/-- The blank between two words becomes a line break. The caret in the second word stays at its
offset, which is on the second line now. But the panel is left as it was, and its footer tells the
line and the column of the old text. -/
theorem footer_after_line_break :
    ∃ s s' m', attach { Editor.twoWords with selection := .caret 4 } {} ⟨1⟩ = .ok s ∧
      s.host.selection.Within s.host.document.length ∧
      s.step (.edit (.replace 2 3 ['\n'])) = .ok s' ∧ s'.panel.mounted = some m' ∧
      m'.outline.footer = ["line 1, col 5, pos 4"] ∧
      Footer.ofSelection s'.host.lineAt s'.host.selection = .ok ["line 2, col 2, pos 4"] := by
  obtain ⟨⟨s, s'⟩, hruns, hfacts⟩ := ok_of_toOption (show (Except.toOption (do
      let s ← attach { Editor.twoWords with selection := .caret 4 } {} ⟨1⟩
      let s' ← s.step (.edit (.replace 2 3 ['\n']))
      return (s, s'))).map (fun r => decide (
        r.1.host.selection.Within r.1.host.document.length ∧
        r.2.panel.mounted.map (·.outline.footer) = some ["line 1, col 5, pos 4"] ∧
        Footer.ofSelection r.2.host.lineAt r.2.host.selection =
          .ok ["line 2, col 2, pos 4"])) = some true by decide +kernel)
  obtain ⟨s, hattach, hrest⟩ := bind_eq_ok.1 hruns
  obtain ⟨s', hstep, hdone⟩ := bind_eq_ok.1 hrest
  cases hdone
  obtain ⟨hselection, hshown, hplaces⟩ := of_decide_eq_true hfacts
  obtain ⟨m', hm', hfooter⟩ := Option.map_eq_some_iff.1 hshown
  exact ⟨s, s', m', hattach, hselection, hstep, hm', hfooter, hplaces⟩

end Session

end TreePanel
