import TreePanel.Proofs.Session.Decoration
import TreePanel.Proofs.Session.Scrolling

/-!
# Hovering a row

The panel remembers the row under the pointer and does not light it again. So hovering shows the row
exactly if the highlight still is the row's whenever the row is remembered
(`highlight_after_hoverRow`). A row is forgotten when the highlight is cleared and when the outline
is made anew, but not when somebody else highlights another span. After that the row stays dark
however often it is hovered (`dark_row_after_foreign_highlight`), until the pointer has been
elsewhere.

Nothing else can part the two: as long as nobody else highlights, the highlight is that of the
remembered row (`Mounted.Lit`), which every event preserves (`lit_of_step`).
-/

namespace TreePanel

namespace Mounted

variable {m m' : Mounted} {u : Update} {origin : Origin} {effect : Effect}

/-- The highlight is what the row shows that is remembered as hovered. -/
def Lit (m : Mounted) : Prop :=
  ∀ index row, m.hovered = some index → m.outline.row? index = some row →
    m.highlight = Highlight.ofEffect (some row.span)

/-- A panel that remembers no row is lit. -/
theorem lit_of_hovered (h : m.hovered = none) : m.Lit := by
  intro index row hhovered _
  rw [h] at hhovered
  cases hhovered

/-- An update that brings an outline forgets the row. -/
theorem renew_lit (m : Mounted) (u : Update) (outline : Outline) : (m.renew u outline).Lit :=
  lit_of_hovered rfl

/-- A row that an update leaves remembered was remembered before, and the highlight was not just
cleared. -/
theorem hovered_of_keep {index : Nat} (h : (m.keep u).hovered = some index) :
    m.hovered = some index ∧ ((m.keep u).highlight = none → m.highlight = none) := by
  have hkeep : (m.keep u).hovered =
      if m.highlight ≠ (m.keep u).highlight ∧ (m.keep u).highlight = none then none
      else m.hovered := rfl
  rw [hkeep] at h
  split at h
  · cases h
  · next hkept =>
    refine ⟨h, fun hnone => ?_⟩
    by_contra hsome
    rw [hnone] at hkept
    exact hkept ⟨hsome, rfl⟩

/-- An update that leaves the highlight as it is or clears it keeps the panel lit. -/
theorem Lit.keep (h : m.Lit)
    (hquiet : (m.keep u).highlight = m.highlight ∨ (m.keep u).highlight = none) :
    (m.keep u).Lit := by
  intro index row hhovered hrow
  obtain ⟨hbefore, hcleared⟩ := hovered_of_keep hhovered
  have hsame : (m.keep u).highlight = m.highlight := by
    rcases hquiet with hsame | hnone
    · exact hsame
    · rw [hnone, hcleared hnone]
  rw [hsame]
  exact h index row hbefore hrow

/-- An effect lights the row, if any, that is remembered from then on. -/
def Lights (m : Mounted) (effect : Effect) (hovered : Option Nat) : Prop :=
  ∀ index row, hovered = some index → m.outline.row? index = some row → effect = some row.span

/-- Entering a row lights it. -/
theorem hoverRow_lights {index : Nat}
    (h : m.hoverRow index = (some (.dispatch (.highlight effect)), m')) :
    m.Lights effect m'.hovered := by
  unfold hoverRow at h
  split at h
  · cases h
  · cases hrow : m.outline.row? index with
    | none =>
      rw [hrow] at h
      cases h
    | some row =>
      rw [hrow] at h
      cases h
      intro index' row' hindex hrow'
      cases hindex
      rw [hrow] at hrow'
      cases hrow'
      rfl

/-- Leaving the rows remembers none. -/
theorem leave_lights {command : Option Command} (h : m.leave = (command, m')) (effect : Effect) :
    m.Lights effect m'.hovered := by
  cases h
  exact nofun

/-- Clicking a row highlights nothing. -/
theorem clickRow_ne (index : Nat) :
    m.clickRow origin index ≠ some (.dispatch (.highlight effect)) := by
  intro h
  obtain ⟨row, -, hselect⟩ := Option.map_eq_some_iff.1 h
  cases hselect

/-- Input that changes the highlight lights the row that it leaves remembered. -/
theorem lights_of_onInput {input : Input}
    (h : m.onInput origin input = .ok (some (.dispatch (.highlight effect)), m')) :
    m.Lights effect m'.hovered := by
  obtain ⟨resolved, hresolve, hreact⟩ := bind_eq_ok.1 h
  cases input with
  | atRow rowInput =>
    cases hresolve
    cases rowInput with
    | hoverRow index => exact hoverRow_lights (Except.ok.inj hreact)
    | hoverSpan span =>
      cases hreact
      exact nofun
    | leave => exact leave_lights (Except.ok.inj hreact) effect
    | clickRow index => exact absurd (congrArg Prod.fst (Except.ok.inj hreact)) (clickRow_ne index)
    | clickSpan span => cases hreact
    | scroll lines =>
      obtain ⟨viewport, -, hdone⟩ := bind_eq_ok.1 hreact
      have hcommand := congrArg Prod.fst (Except.ok.inj hdone)
      dsimp only at hcommand
      split at hcommand <;> cases hcommand
  | moved x y =>
    obtain ⟨row?, -, hrow⟩ := bind_eq_ok.1 hresolve
    cases hrow
    cases row? with
    | none => exact leave_lights (Except.ok.inj hreact) effect
    | some index => exact hoverRow_lights (Except.ok.inj hreact)
  | pressed x y =>
    obtain ⟨row?, -, hrow⟩ := bind_eq_ok.1 hresolve
    cases hrow
    cases row? with
    | none => cases hreact
    | some index => exact absurd (congrArg Prod.fst (Except.ok.inj hreact)) (clickRow_ne index)

end Mounted

namespace Editor

/-- An action that highlights nothing by itself. A transaction may clear the highlight, and it may
set one if it selects as well. -/
def Action.Unlit : Action → Prop
  | .dispatch t => t.selection = none → Highlight.next none false t.effects = none
  | _ => True

/-- The update of an action that highlights nothing would leave no highlight where there was
none. -/
theorem next_of_unlit {e e' : Editor} {action : Action} {u : Update}
    (h : e.act action = .ok (u, e')) (hunlit : action.Unlit) (hflag : u.selectionChanged = false) :
    Highlight.next none false u.effects = none := by
  cases action with
  | replace start stop text =>
    obtain ⟨document, tree, parser, selection, -, -, -, -, rfl⟩ := replace_eq_ok.1 h
    rfl
  | dispatch t =>
    cases h
    exact hunlit (Option.isSome_eq_false_iff.1 hflag |> Option.isNone_iff_eq_none.1)
  | _ =>
    cases h
    rfl

end Editor

namespace Session

variable {settings : Settings} {origin : Origin} {host : Editor} {s s' : Session Editor}
  {m : Mounted}

/-- An event in which nobody else highlights. -/
def Event.Unlit : Event → Prop
  | .edit action => action.Unlit
  | _ => True

/-! ## What keeps a panel lit -/

/-- An action in which nobody highlights keeps the panel lit. -/
theorem lit_of_edit {action : Editor.Action} (hlit : ∀ m, s.panel.mounted = some m → m.Lit)
    (hunlit : action.Unlit) (h : s.step (.edit action) = .ok s') :
    ∀ m, s'.panel.mounted = some m → m.Lit := by
  intro m' hm'
  obtain ⟨u, e, redraw, hact, hhandle⟩ := step_edit_eq_ok.1 h
  cases hm : s.panel.mounted with
  | none =>
    rw [handle_unmounted (s := { s with host := e }) hm] at hhandle
    cases hhandle
    exact hlit m' hm'
  | some m =>
    rcases handle_update_cases (s := { s with host := e }) hm hhandle with
      ⟨hshows, rfl⟩ | ⟨-, outline, -, rfl⟩
    · cases hm'
      have hnext := Highlight.next_eq_or_eq_none (Editor.next_of_unlit hact hunlit hshows.2)
        m.highlight
      rw [← hshows.2] at hnext
      exact (hlit m hm).keep hnext
    · cases hm'
      exact m.renew_lit u outline

/-- Input keeps the panel lit: what it highlights is the row that it remembers, and when it selects,
the outline is made anew. -/
theorem lit_of_input (hm : s.panel.mounted = some m)
    (hlast : m.rebuild.last = some s.host.tree.id) (hlit : m.Lit) {input : Input} {redraw : Bool}
    (h : s.handle (.input input) = .ok (redraw, s')) :
    ∀ m, s'.panel.mounted = some m → m.Lit := by
  intro after hafter
  cases hin : m.onInput s.panel.origin input with
  | error fault =>
    rw [handle_input_error hm hin] at h
    cases h
  | ok reaction =>
    obtain ⟨command, m'⟩ := reaction
    cases Mounted.onInput_answer hin with
    | ignored =>
      rw [handle_input_quiet hm (.inl rfl) hin] at h
      cases h
      cases hafter
      exact hlit
    | scrolled wheel hmoved =>
      split at hin
      · rw [handle_input_quiet hm (.inl rfl) hin] at h
        cases h
        cases hafter
        exact hlit
      · rw [handle_input_quiet hm (.inr rfl) hin] at h
        cases h
        cases hafter
        exact hlit
    | @lit effect hovered hover =>
      have hsent := send_highlight (s := s.mount { m with hovered := hovered }) rfl hlast effect
      rw [handle_input_dispatch hm hin, hsent] at h
      cases h
      cases hafter
      intro index row hremembered hrow
      have hlights := Mounted.lights_of_onInput hin index row
        (Mounted.hovered_of_keep hremembered).1 hrow
      rw [hlights]
      rfl
    | @selected span click clicked =>
      rw [handle_input_dispatch hm hin] at h
      have hsent : (s.mount m).step (.edit (.dispatch (.select (.single ⟨span.start, span.stop⟩)
          s.panel.origin))) = .ok s' := by
        rw [step_dispatch]
        exact map_eq_ok.2 ⟨_, h, rfl⟩
      have hbefore : ∀ m', (s.mount m).panel.mounted = some m' → m'.Lit := by
        intro m' hm'
        cases hm'
        exact hlit
      have hselects : Editor.Action.Unlit
          (.dispatch (.select (.single ⟨span.start, span.stop⟩) s.panel.origin)) :=
        fun hnone => nomatch hnone
      exact lit_of_edit hbefore hselects hsent after hafter

/-- As long as nobody else highlights, every event keeps the panel lit. -/
theorem lit_of_step (hlast : ∀ m, s.panel.mounted = some m → m.rebuild.last = some s.host.tree.id)
    (hlit : ∀ m, s.panel.mounted = some m → m.Lit) {event : Event} (hunlit : event.Unlit)
    (h : s.step event = .ok s') : ∀ m, s'.panel.mounted = some m → m.Lit := by
  cases hm : s.panel.mounted with
  | none =>
    intro m' hm'
    rw [step_unmounted hm h] at hm'
    cases hm'
  | some m =>
    cases event with
    | edit action => exact lit_of_edit hlit hunlit h
    | input input =>
      obtain ⟨redraw, hhandle⟩ := step_input_eq_ok.1 h
      exact lit_of_input hm (hlast m hm) (hlit m hm) hhandle
    | tick =>
      obtain ⟨redraw, hhandle⟩ := step_tick_eq_ok.1 h
      rw [handle_tick hm, Mounted.onTick_snd] at hhandle
      cases hhandle
      intro m' hm'
      cases hm'
      exact hlit m hm
    | detach =>
      cases h
      intro m' hm'
      rw [detach_panel] at hm'
      cases hm'

/-- After a run in which nobody else highlighted, the panel is lit. -/
theorem lit_of_run (hlast : ∀ m, s.panel.mounted = some m → m.rebuild.last = some s.host.tree.id)
    (hlit : ∀ m, s.panel.mounted = some m → m.Lit) {events : List Event}
    (hunlit : ∀ event ∈ events, event.Unlit) (h : s.run events = .ok s') :
    ∀ m, s'.panel.mounted = some m → m.Lit := by
  induction events generalizing s with
  | nil =>
    cases h
    exact hlit
  | cons event rest ih =>
    obtain ⟨hfirst, hrest⟩ := List.forall_mem_cons.1 hunlit
    obtain ⟨middle, hmiddle, hrun⟩ := bind_eq_ok.1 h
    exact ih (last_eq_of_step hlast hmiddle) (lit_of_step hlast hlit hfirst hmiddle) hrest hrun

/-! ## Hovering -/

/-- Hovering a row that is remembered changes nothing at all. -/
theorem handle_hoverRow_again (hm : s.panel.mounted = some m) {index : Nat}
    (hhovered : m.hovered = some index) :
    s.handle (.input (.atRow (.hoverRow index))) = .ok (false, s) := by
  refine handle_input_ignored hm (congrArg Except.ok ?_)
  simp [Mounted.hoverRow, hhovered]

/-- Hovering any other row sends its span, and the answer brings no outline. -/
theorem handle_hoverRow_new (hm : s.panel.mounted = some m)
    (hlast : m.rebuild.last = some s.host.tree.id) {index : Nat} {row : Row}
    (hrow : m.outline.row? index = some row) (hhovered : m.hovered ≠ some index) :
    s.handle (.input (.atRow (.hoverRow index))) =
      .ok (false, Session.settle
        { s with host := (s.host.dispatch (.highlight (some row.span))).2 } m
        (Mounted.keep { m with hovered := some index }
          (s.host.dispatch (.highlight (some row.span))).1)) := by
  have hin : m.onInput s.panel.origin (.atRow (.hoverRow index)) =
      .ok (some (.dispatch (.highlight (some row.span))), { m with hovered := some index }) := by
    refine congrArg Except.ok ?_
    simp [Mounted.hoverRow, hhovered, hrow, Mounted.highlightCommand]
  rw [handle_input_dispatch hm hin]
  exact send_highlight (s := s.mount { m with hovered := some index }) rfl hlast (some row.span)

/-- Hovering a row that is remembered changes nothing at all, and hovering any other row of the
outline makes the highlight what the row shows. -/
theorem handle_hoverRow (hm : s.panel.mounted = some m)
    (hlast : m.rebuild.last = some s.host.tree.id) {index : Nat} {row : Row}
    (hrow : m.outline.row? index = some row) :
    ∃ s', s.handle (.input (.atRow (.hoverRow index))) = .ok (false, s') ∧
      (m.hovered = some index → s' = s) ∧
      (m.hovered ≠ some index → s'.panel.highlight = Highlight.ofEffect (some row.span)) := by
  by_cases hhovered : m.hovered = some index
  · exact ⟨s, handle_hoverRow_again hm hhovered, fun _ => rfl, absurd hhovered⟩
  · exact ⟨_, handle_hoverRow_new hm hlast hrow hhovered, fun h => absurd h hhovered, fun _ => rfl⟩

/-- Hovering a row of the outline makes the highlight the row's span, or clears it if the span has
no width, unless the row is remembered as hovered while something else is highlighted; then the
highlight stays as it is. That cannot be as long as nobody else highlights. If the editor had no
mark when the panel was attached, its mark is the highlight in any case. -/
theorem highlight_after_hoverRow {start : Session Editor} {events : List Event}
    (hattach : attach host settings origin = .ok start) (hrun : start.run events = .ok s)
    (hm : s.panel.mounted = some m) {index : Nat} {row : Row}
    (hrow : m.outline.row? index = some row) :
    ∃ redraw s', s.handle (.input (.atRow (.hoverRow index))) = .ok (redraw, s') ∧
      (s'.panel.highlight = (if row.span.isEmpty then none else some row.span) ↔
        (m.hovered = some index → m.highlight = if row.span.isEmpty then none else some row.span)) ∧
      ((∀ event ∈ events, event.Unlit) →
        s'.panel.highlight = if row.span.isEmpty then none else some row.span) ∧
      (host.decoration = none → s'.host.decoration = s'.panel.highlight) := by
  have hlive : Live host settings origin s := ⟨start, events, hattach, hrun⟩
  obtain ⟨s', hhandle, hagain, hnew⟩ := handle_hoverRow hm (hlive.last_eq m hm) hrow
  have hiff : s'.panel.highlight = Highlight.ofEffect (some row.span) ↔
      (m.hovered = some index → m.highlight = Highlight.ofEffect (some row.span)) := by
    by_cases hhovered : m.hovered = some index
    · have hsame : s'.panel.highlight = m.highlight := by
        rw [hagain hhovered, Panel.highlight, hm]
        rfl
      rw [hsame]
      exact ⟨fun h _ => h, fun h => h hhovered⟩
    · exact ⟨fun _ h => absurd h hhovered, fun _ => hnew hhovered⟩
  refine ⟨false, s', hhandle, hiff, fun hunlit => hiff.2 fun hhovered => ?_, fun hnone => ?_⟩
  · -- The panel remembers no row when it is attached.
    have hlit : ∀ m, start.panel.mounted = some m → m.Lit := by
      intro m hm
      obtain ⟨surface, outline, -, -, rfl, -⟩ := attach_mounted hattach hm
      exact Mounted.lit_of_hovered rfl
    exact lit_of_run (last_eq_of_attach hattach) hlit hunlit hrun m hm index row hhovered hrow
  · have hreach := hlive.reachable.handle hhandle
    obtain ⟨mounted, hpanel, hsome⟩ := handle_panel hhandle
    rw [hm] at hsome
    obtain ⟨m', hm'⟩ := Option.isSome_iff_exists.1 hsome
    have hmounted : s'.panel.mounted = some m' := by rw [hpanel, hm']
    rw [(hreach.marked hnone hmounted).1, Panel.highlight, hmounted]
    rfl

/-- A word is hovered and somebody else clears the highlight. Hovering the word again shows it. -/
theorem highlight_after_clear :
    ∃ start s m row, attach Editor.twoWords {} ⟨1⟩ = .ok start ∧
      start.run [.input (.atRow (.hoverRow 1)), .edit (.dispatch (.highlight none))] = .ok s ∧
      s.panel.mounted = some m ∧ m.outline.row? 1 = some row ∧
      row.span = ⟨0, 2, by decide⟩ ∧ s.panel.highlight = none ∧
      ∃ redraw s', s.handle (.input (.atRow (.hoverRow 1))) = .ok (redraw, s') ∧
        s'.panel.highlight = some ⟨0, 2, by decide⟩ ∧
        s'.host.decoration = some ⟨0, 2, by decide⟩ := by
  obtain ⟨s, hrun, hfacts⟩ := ok_of_toOption (show ((attach Editor.twoWords {} ⟨1⟩ >>=
    (Session.run · [.input (.atRow (.hoverRow 1)),
      .edit (.dispatch (.highlight none))])).toOption.map
      fun s => (s.panel.highlight, (s.panel.outline?.bind (·.row? 1)).map (·.span))) =
        some (none, some ⟨0, 2, by decide⟩) by decide +kernel)
  obtain ⟨start, hattach, hrun⟩ := bind_eq_ok.1 hrun
  obtain ⟨hdark, hspan⟩ := Prod.mk.inj hfacts
  obtain ⟨row, hrow, hspan⟩ := Option.map_eq_some_iff.1 hspan
  cases hm : s.panel.mounted with
  | none =>
    rw [Panel.outline?, hm] at hrow
    cases hrow
  | some m =>
    rw [Panel.outline?, hm] at hrow
    obtain ⟨redraw, s', hhandle, -, hshown, hmark⟩ := highlight_after_hoverRow hattach hrun hm hrow
    have hlit : s'.panel.highlight = some ⟨0, 2, by decide⟩ := by
      rw [hshown (by simp [Event.Unlit, Editor.Action.Unlit, Transaction.highlight,
        Highlight.next, Highlight.ofEffect]), hspan]
      rfl
    exact ⟨start, s, m, row, hattach, hrun, hm, hrow, hspan, hdark, redraw, s', hhandle, hlit,
      (hmark rfl).trans hlit⟩

/-- A word is hovered and somebody else highlights another one. Hovering the word again does not
show it: the other one stays highlighted. -/
theorem dark_row_after_foreign_highlight :
    ∃ s m row redraw s', Live .twoWords {} ⟨1⟩ s ∧ Editor.twoWords.decoration = none ∧
      s.panel.mounted = some m ∧ m.outline.row? 1 = some row ∧ row.span = ⟨0, 2, by decide⟩ ∧
      s.handle (.input (.atRow (.hoverRow 1))) = .ok (redraw, s') ∧
      s'.panel.highlight = some ⟨3, 5, by decide⟩ ∧
      s'.host.decoration = some ⟨3, 5, by decide⟩ := by
  obtain ⟨⟨s, redraw, s'⟩, hrun, hfacts⟩ := ok_of_toOption (show (Except.toOption (do
      let start ← attach Editor.twoWords {} ⟨1⟩
      let s ← start.run [.input (.atRow (.hoverRow 1)),
        .edit (.dispatch (.highlight (some ⟨3, 5, by decide⟩)))]
      return (s, ← s.handle (.input (.atRow (.hoverRow 1)))))).map
        (fun r => ((r.1.panel.outline?.bind (·.row? 1)).map (·.span), r.2.2.panel.highlight,
          r.2.2.host.decoration)) =
        some (some ⟨0, 2, by decide⟩, some ⟨3, 5, by decide⟩, some ⟨3, 5, by decide⟩) by
    decide +kernel)
  obtain ⟨start, hattach, hrun⟩ := bind_eq_ok.1 hrun
  obtain ⟨_, hevents, hrun⟩ := bind_eq_ok.1 hrun
  obtain ⟨⟨_, _⟩, hhandle, hdone⟩ := bind_eq_ok.1 hrun
  cases hdone
  simp only [Prod.mk.injEq] at hfacts
  obtain ⟨hspan, hlit, hmark⟩ := hfacts
  obtain ⟨row, hrow, hspan⟩ := Option.map_eq_some_iff.1 hspan
  cases hm : s.panel.mounted with
  | none =>
    rw [Panel.outline?, hm] at hrow
    cases hrow
  | some m =>
    rw [Panel.outline?, hm] at hrow
    exact ⟨s, m, row, redraw, s', ⟨start, _, hattach, hevents⟩, rfl, hm, hrow, hspan, hhandle, hlit,
      hmark⟩

end Session

end TreePanel
