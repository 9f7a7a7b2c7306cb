import TreePanel.Proofs.Outline.Nesting
import TreePanel.Proofs.Session.Decoration
import TreePanel.Proofs.Session.Feed
import TreePanel.Proofs.Session.Scrolling

/-!
# Clicking a row

A click on a row selects the span of the row in the editor, and the update that answers it brings an
outline of the same nodes with the flags of that one range (`click_row`). Two things are put
together here. One is the way of the message, down to the state of panel and editor afterwards
(`handle_clickRow`). A second click finds the panel as it would leave it
(`Mounted.selected_selected`), and so nothing changes any more. The other are the flags of the rows
below the selected row and above it, which follow from how the tree is nested
(`Outline.covered_of_selected`, `Outline.flags_above_selected`).

A panel removes the mark of its own highlight only. A mark that the editor had when the panel was
attached, such as that of another panel, is left there by a click (`mark_after_click_beside`).

The rows that are clicked are those of the editor's tree only if the panel was told of all changes
of the tree. In a `Prompt` session it is told of each as soon as it is made.
-/

namespace TreePanel

/-- Clamping a second time changes nothing. -/
theorem Viewport.clamp_clamp (v : Viewport) (total footerLines : Nat) :
    (v.clamp total footerLines).clamp total footerLines = v.clamp total footerLines :=
  congrArg (fun offset => { v with offset := offset }) (Nat.min_eq_left (Nat.min_le_right _ _))

namespace Outline

variable {root : Node} {settings : Settings} {selection selection' : Selection} {i j : Nat}
  {row inner outer : Row}

/-- What a row says whatever is selected. -/
def unflagged (row : Row) : Nat × Nat × String × Span := (row.index, row.depth, row.name, row.span)

/-- A selection changes the flags of rows and nothing else. -/
theorem map_unflagged_rowsOf (settings : Settings) (root : Node)
    (selection selection' : Selection) :
    (rowsOf settings root selection).map unflagged =
      (rowsOf settings root selection').map unflagged := by
  refine List.ext_getElem? fun i => ?_
  rw [rowsOf_eq, rowsOf_eq, List.getElem?_map, List.getElem?_map, List.getElem?_mapIdx,
    List.getElem?_mapIdx]
  cases (root.kept !settings.showAnonymous)[i]? with
  | none => rfl
  | some e => rfl

/-- The flags of a row are those of its span. -/
theorem flags_of_row (hrow : (rowsOf settings root selection)[i]? = some row) :
    row.flags = .ofSelection row.span selection := by
  obtain ⟨place, n, -, -, rfl⟩ := row_eq_ofNode hrow
  rfl

/-- A row has its span whatever is selected. -/
theorem exists_row_of_row (hrow : (rowsOf settings root selection)[i]? = some row)
    (selection' : Selection) :
    ∃ row', (rowsOf settings root selection')[i]? = some row' ∧ row'.span = row.span := by
  obtain ⟨place, n, hkept, -, rfl⟩ := row_eq_ofNode hrow
  exact ⟨_, row_of_kept hkept, rfl⟩

/-- Where a row is selected, it is covered, and so are the rows of all nodes below. -/
theorem covered_of_selected (hnested : root.Nested)
    (hrow : (rowsOf settings root selection)[i]? = some row)
    (hinner : (rowsOf settings root (.single ⟨row.span.start, row.span.stop⟩))[j]? = some inner)
    (hbelow : j = i ∨ Below settings root i j) : inner.flags.covered = true := by
  rw [flags_of_row hinner, RowFlags.covered_selected_iff]
  rcases hbelow with rfl | hbelow
  · obtain ⟨row', hrow', hspan⟩ := exists_row_of_row hrow (.single ⟨row.span.start, row.span.stop⟩)
    obtain rfl : row' = inner := Option.some.inj (hrow'.symm.trans hinner)
    rw [hspan, Span.contains_iff]
    exact ⟨Nat.le_refl _, Nat.le_refl _⟩
  · exact contains_of_below hnested hrow hinner hbelow

/-- Where a row with width is selected, the rows of the nodes above are covered if they are no
wider, and else they are cut. -/
theorem flags_above_selected (hnested : root.Nested)
    (hrow : (rowsOf settings root selection)[i]? = some row) (hwidth : row.span.isEmpty = false)
    (houter : (rowsOf settings root (.single ⟨row.span.start, row.span.stop⟩))[j]? = some outer)
    (habove : Below settings root j i) :
    (outer.flags.covered = true ↔ outer.span = row.span) ∧
      (outer.flags.cut = true ↔ outer.span ≠ row.span) := by
  rw [flags_of_row houter]
  exact RowFlags.flags_around_selected (contains_of_below hnested houter hrow habove) hwidth

end Outline

namespace Mounted

/-- The same selection once more makes no difference to the panel. -/
theorem selected_selected (m : Mounted) (tree : Snapshot) (outline : Outline) :
    (m.selected tree outline).selected tree outline = m.selected tree outline := by
  unfold selected
  rw [Viewport.clamp_clamp]

end Mounted

namespace Session

variable {host : Editor} {settings : Settings} {origin : Origin} {held : List Snapshot}
  {s s' : Session Editor} {m : Mounted} {i : Nat} {row : Row} {outline : Outline}

/-! ## The way of a click -/

/-- Where the highlight goes out, its mark is removed. Without a highlight the editor keeps the mark
that it has. -/
theorem remark_none_decoration (e : Editor) (before : Option Span) :
    (remark e before none).decoration = if before.isSome then none else e.decoration := by
  cases before with
  | none => rfl
  | some span => rfl

/-- A click on a row selects the span of the row, and the panel shows what there is then. -/
theorem handle_clickRow (hm : s.panel.mounted = some m) (htag : m.rebuild.origin = s.panel.origin)
    (hrow : m.outline.row? i = some row)
    (hr : Outline.render s.host.tree.root (.single ⟨row.span.start, row.span.stop⟩) s.host.lineAt
      s.panel.settings = .ok outline) :
    ∃ s', s.handle (.input (.atRow (.clickRow i))) = .ok (true, s') ∧
      s'.panel = (s.mount (m.selected s.host.tree outline)).panel ∧
      s'.host.selection = .single ⟨row.span.start, row.span.stop⟩ ∧
      s'.host.tree = s.host.tree ∧ s'.host.document = s.host.document ∧
      s'.host.decoration = if m.highlight.isSome then none else s.host.decoration := by
  obtain ⟨e, he⟩ : ∃ e, e = (s.host.dispatch
    (.select (.single ⟨row.span.start, row.span.stop⟩) s.panel.origin)).2 := ⟨_, rfl⟩
  have hin : m.onInput s.panel.origin (.atRow (.clickRow i)) =
      .ok (some (Mounted.selectCommand row.span s.panel.origin), m) := by
    refine congrArg Except.ok ?_
    rw [Mounted.clickRow, hrow]
    rfl
  have hhandle : s.handle (.input (.atRow (.clickRow i))) =
      .ok (true, Session.settle { s with host := e } m (m.selected s.host.tree outline)) := by
    have hsent := send_select_eq (s := s.mount m) rfl htag
      (.single ⟨row.span.start, row.span.stop⟩)
    rw [handle_input_dispatch hm hin, he]
    exact hsent.trans (congrArg (Except.map _) hr)
  have hdecoration := remark_none_decoration e m.highlight
  rw [he] at hdecoration
  -- The mark is the one thing of the editor that the highlight changes.
  obtain ⟨mark, hmark⟩ := remark_eq e m.highlight (m.selected s.host.tree outline).highlight
  refine ⟨_, hhandle, rfl, ?_, ?_, ?_, he ▸ hdecoration⟩
  all_goals
    rw [settle, hmark, he]
    rfl

/-- A second click on the row finds the panel as it would leave it. -/
theorem handle_clickRow_again (htag : m.rebuild.origin = s.panel.origin)
    (hr : Outline.render s.host.tree.root (.single ⟨row.span.start, row.span.stop⟩) s.host.lineAt
      s.panel.settings = .ok outline)
    (hpanel : s'.panel = (s.mount (m.selected s.host.tree outline)).panel)
    (hselection : s'.host.selection = .single ⟨row.span.start, row.span.stop⟩)
    (htree : s'.host.tree = s.host.tree) (hdocument : s'.host.document = s.host.document)
    {row' : Row} (hrow : outline.row? i = some row') (hspan : row'.span = row.span) :
    ∃ s'', s'.handle (.input (.atRow (.clickRow i))) = .ok (true, s'') ∧
      s''.host.selection = s'.host.selection ∧ s''.panel = s'.panel := by
  have hm : s'.panel.mounted = some (m.selected s.host.tree outline) := by rw [hpanel]; rfl
  have htag' : (m.selected s.host.tree outline).rebuild.origin = s'.panel.origin := by
    rw [hpanel]
    exact htag
  have hr' : Outline.render s'.host.tree.root (.single ⟨row'.span.start, row'.span.stop⟩)
      s'.host.lineAt s'.panel.settings = .ok outline := by
    rw [hspan, htree, Editor.lineAt_congr (congrArg Document.text hdocument), hpanel]
    exact hr
  obtain ⟨s'', hhandle, hpanel', hselection', -, -, -⟩ := handle_clickRow hm htag' hrow hr'
  refine ⟨s'', hhandle, ?_, ?_⟩
  · rw [hselection', hselection, hspan]
  · rw [hpanel', htree, Mounted.selected_selected, mount, ← hm]

/-! ## Sessions that are told of everything at once -/

/-- What a session can become when every update is handled as soon as the editor gives it. The
snapshots that the editor has held are followed, so that nobody puts in a tree under the identity of
another one. -/
inductive Prompt (host : Editor) (settings : Settings) (origin : Origin) :
    List Snapshot → Session Editor → Prop where
  /-- The panel was attached just now. -/
  | attach {held : List Snapshot} {s : Session Editor} :
      host.Opened held → Session.attach host settings origin = .ok s →
        Prompt host settings origin held s
  /-- Somebody acted on the editor, and the panel handled the update. -/
  | edit {held : List Snapshot} {s s' : Session Editor} {action : Editor.Action} {u : Update}
      {e : Editor} {redraw : Bool} :
      Prompt host settings origin held s → s.host.Possible held action →
        s.host.act action = .ok (u, e) →
          Session.handle { s with host := e } (.update u) = .ok (redraw, s') →
            Prompt host settings origin (e.tree :: held) s'
  /-- Somebody used the panel. -/
  | input {held : List Snapshot} {s s' : Session Editor} {input : Input} {redraw : Bool} :
      Prompt host settings origin held s → s.handle (.input input) = .ok (redraw, s') →
        Prompt host settings origin held s'
  /-- A tick came. -/
  | tick {held : List Snapshot} {s s' : Session Editor} {redraw : Bool} :
      Prompt host settings origin held s → s.handle .tick = .ok (redraw, s') →
        Prompt host settings origin held s'
  /-- The panel was detached. -/
  | detach {held : List Snapshot} {s : Session Editor} :
      Prompt host settings origin held s → Prompt host settings origin held s.detach

/-- Whoever handles every update at once handles messages. -/
theorem Prompt.reachable (h : Prompt host settings origin held s) :
    Reachable host settings origin s := by
  induction h with
  | attach _ hattach => exact .attach hattach
  | edit _ _ hact hhandle ih => exact (ih.edit hact).handle hhandle
  | input _ hhandle ih => exact ih.handle hhandle
  | tick _ hhandle ih => exact ih.handle hhandle
  | detach _ ih => exact ih.detach

/-- A panel that is told of everything at once is in step with the editor. -/
theorem Prompt.synced (h : Prompt host settings origin held s) :
    Feed.Synced settings ⟨s, [], held⟩ := by
  induction h with
  | attach hopened hattach => exact Feed.synced_attach hopened hattach
  | edit _ hpossible hact hhandle ih => exact (ih.act hpossible hact).deliver hhandle
  | input _ hhandle ih => exact ih.input (.inl rfl) hhandle
  | tick _ hhandle ih => exact ih.tick hhandle
  | detach _ ih => exact ih.detach

/-- A panel that is told of everything at once shows the rows of the editor's tree and selection. -/
theorem Prompt.rows_eq (h : Prompt host settings origin held s) (hm : s.panel.mounted = some m) :
    m.outline.rows = Outline.rowsOf settings s.host.tree.root s.host.selection := by
  obtain ⟨tree, selection, htracks⟩ := h.synced.tracks m hm
  obtain ⟨htree, hselection⟩ := htracks.leads
  rw [htracks.drawn, htree, hselection]
  rfl

/-! ## What a click leads to -/

/-- What a click on row `i` makes of a session, if the rows are those of a nested tree. -/
structure Clicked (s : Session Editor) (m : Mounted) (i : Nat) (row : Row) (s' : Session Editor)
    (m' : Mounted) : Prop where
  /-- The span of the row is selected from its start to its end, and nothing else is. -/
  selection : s'.host.selection = .single ⟨row.span.start, row.span.stop⟩
  /-- Nothing is highlighted. -/
  highlight : m'.highlight = none
  /-- The mark of a highlight is removed; without a highlight the editor's mark stays as it is. -/
  decoration : s'.host.decoration = if m.highlight.isSome then none else s.host.decoration
  /-- No row is hovered. -/
  hovered : m'.hovered = none
  /-- The rows are the ones from before, with other flags. -/
  rows : m'.outline.rows.map Outline.unflagged = m.outline.rows.map Outline.unflagged
  /-- They stand for the nodes of the tree at their places. -/
  placed : m'.outline.rows = (s.host.tree.root.kept !s.panel.settings.showAnonymous).mapIdx
    (Row.ofNode s'.host.selection)
  /-- The row and those of all nodes below are covered. -/
  covered : ∀ j inner, m'.outline.rows[j]? = some inner →
    j = i ∨ Outline.Below s.panel.settings s.host.tree.root i j → inner.flags.covered = true
  /-- If the row has width, the rows of all nodes above are covered if they are no wider, and else
  they are cut. -/
  above : row.span.isEmpty = false → ∀ j outer, m'.outline.rows[j]? = some outer →
    Outline.Below s.panel.settings s.host.tree.root j i →
      (outer.flags.covered = true ↔ outer.span = row.span) ∧
        (outer.flags.cut = true ↔ outer.span ≠ row.span)

/-- Click a row whose span lies in the text, while the tree is nested and the panel was told of
everything. The click is handled and asks for a paint, the editor selects the span, highlight and
hovered row are gone, and the same rows are shown with the flags of the new selection. The mark is
gone as well if the editor had none when the panel was attached. A second click on the row changes
neither the selection nor anything in the panel. -/
theorem click_row (hprompt : Prompt host settings origin held s)
    (hm : s.panel.mounted = some m) (hnested : s.host.tree.root.Nested)
    (hfit : s.host.document.Fits) (hrow : m.outline.row? i = some row)
    (hin : row.span.stop ≤ s.host.document.length) :
    ∃ s' m', s.handle (.input (.atRow (.clickRow i))) = .ok (true, s') ∧
      s'.panel.mounted = some m' ∧ Clicked s m i row s' m' ∧
      (host.decoration = none → s'.host.decoration = none) ∧
      ∃ s'', s'.handle (.input (.atRow (.clickRow i))) = .ok (true, s'') ∧
        s''.host.selection = s'.host.selection ∧ s''.panel = s'.panel := by
  have hsettings : s.panel.settings = settings := hprompt.reachable.panel.1
  have htag : m.rebuild.origin = s.panel.origin := (hprompt.reachable.steady hm).tag
  have hrows : m.outline.rows =
      Outline.rowsOf s.panel.settings s.host.tree.root s.host.selection := by
    rw [hsettings]
    exact hprompt.rows_eq hm
  have hold : (Outline.rowsOf s.panel.settings s.host.tree.root s.host.selection)[i]? =
      some row := hrows ▸ hrow
  -- The head of what is selected is the end of the span, so the footer finds its line.
  obtain ⟨outline, hr⟩ : ∃ outline, Outline.render s.host.tree.root
      (.single ⟨row.span.start, row.span.stop⟩) s.host.lineAt s.panel.settings = .ok outline :=
    Outline.render_isOk hfit fun _ r hr => by
      rw [Selection.ranges_single, List.mem_singleton] at hr
      rw [hr]
      exact hin
  obtain ⟨s', hhandle, hpanel, hselection, htree, hdocument, hdecoration⟩ :=
    handle_clickRow hm htag hrow hr
  have hm' : s'.panel.mounted = some (m.selected s.host.tree outline) := by rw [hpanel]; rfl
  have hrows' : outline.rows = Outline.rowsOf s.panel.settings s.host.tree.root
      (.single ⟨row.span.start, row.span.stop⟩) := Outline.rows_of_render hr
  refine ⟨s', m.selected s.host.tree outline, hhandle, hm', ?_, fun hnone => ?_, ?_⟩
  · refine ⟨hselection, rfl, hdecoration, rfl, ?_, ?_, fun j inner hinner => ?_,
      fun hwidth j outer houter => ?_⟩
    · rw [hrows]
      exact (congrArg (List.map Outline.unflagged) hrows').trans
        (Outline.map_unflagged_rowsOf _ _ _ _)
    · rw [hselection, ← Outline.rowsOf_eq]
      exact hrows'
    · exact Outline.covered_of_selected hnested hold (hrows' ▸ hinner)
    · exact Outline.flags_above_selected hnested hold hwidth (hrows' ▸ houter)
  · -- The mark of an editor that had none is the panel's highlight.
    exact ((hprompt.reachable.handle hhandle).marked hnone hm').1
  · -- The row has the same span as before, so the second click makes the same outline.
    obtain ⟨row', hrow', hspan⟩ :=
      Outline.exists_row_of_row hold (.single ⟨row.span.start, row.span.stop⟩)
    rw [← hrows'] at hrow'
    exact handle_clickRow_again htag hr hpanel hselection htree hdocument hrow' hspan

/-- The second of two words is hovered, and then the first one is clicked, twice. The line around it
is cut, and the second word, which was highlighted, is neither highlighted nor selected. -/
theorem clicked_word_after_hover :
    ∃ held s m row s' m' s'', Prompt .twoWords {} ⟨1⟩ held s ∧ s.panel.mounted = some m ∧
      m.outline.row? 1 = some row ∧ row.span = ⟨0, 2, by decide⟩ ∧
      s.panel.highlight = some ⟨3, 5, by decide⟩ ∧
      s.handle (.input (.atRow (.clickRow 1))) = .ok (true, s') ∧ s'.panel.mounted = some m' ∧
      Clicked s m 1 row s' m' ∧ s'.host.decoration = none ∧
      s'.host.selection = .single ⟨0, 2⟩ ∧
      m'.outline.rows.map (·.flags) =
        [⟨false, true, false⟩, ⟨true, false, false⟩, ⟨false, false, false⟩] ∧
      s'.handle (.input (.atRow (.clickRow 1))) = .ok (true, s'') ∧ s''.panel = s'.panel := by
  let click : Message := .input (.atRow (.clickRow 1))
  obtain ⟨_, hrun, hfacts⟩ := ok_of_toOption (show (Except.toOption (do
      let start ← attach Editor.twoWords {} ⟨1⟩
      let hovered ← start.handle (.input (.atRow (.hoverRow 2)))
      return (hovered.2, (← hovered.2.handle click).2))).map
        (fun r => (((r.1.panel.outline?.bind (·.row? 1)).map (·.span), r.1.panel.highlight),
          (r.1.host.document.length, decide (r.1.host.tree.root = Editor.twoWords.tree.root)),
          r.2.panel.outline?.map (·.rows.map (·.flags)))) =
        some ((some ⟨0, 2, by decide⟩, some ⟨3, 5, by decide⟩), (5, true),
          some [⟨false, true, false⟩, ⟨true, false, false⟩, ⟨false, false, false⟩]) by
    decide +kernel)
  obtain ⟨start, hattach, hrun⟩ := bind_eq_ok.1 hrun
  obtain ⟨⟨redraw, s⟩, hhover, hrun⟩ := bind_eq_ok.1 hrun
  obtain ⟨⟨redraw', s'⟩, hclick, hdone⟩ := bind_eq_ok.1 hrun
  cases hdone
  have hprompt : Prompt .twoWords {} ⟨1⟩ [Editor.twoWords.tree] s :=
    .input (.attach (.built rfl) hattach) hhover
  simp only [Prod.mk.injEq] at hfacts
  obtain ⟨⟨hspan, hlit⟩, ⟨hlength, hroot⟩, hflags⟩ := hfacts
  obtain ⟨row, hrow, hspan⟩ := Option.map_eq_some_iff.1 hspan
  obtain ⟨outline, houtline, hrow⟩ := Option.bind_eq_some_iff.1 hrow
  obtain ⟨m, hm, rfl⟩ := Option.map_eq_some_iff.1 houtline
  have hnested : s.host.tree.root.Nested := of_decide_eq_true hroot ▸ Editor.twoWords_nested
  have hfit : s.host.document.Fits := by
    rw [Document.Fits, hlength]
    decide
  have hin : row.span.stop ≤ s.host.document.length := by
    rw [hspan, hlength]
    decide
  obtain ⟨_, m', hhandle, hm', hclicked, hdecoration, s'', hagain, -, hpanel⟩ :=
    click_row hprompt hm hnested hfit hrow hin
  cases hclick.symm.trans hhandle
  have hselection : s'.host.selection = .single ⟨0, 2⟩ := by rw [hclicked.selection, hspan]
  rw [Panel.outline?, hm'] at hflags
  exact ⟨_, s, m, row, s', m', s'', hprompt, hm, hrow, hspan, hlit, hhandle, hm', hclicked,
    hdecoration rfl, hselection, Option.some.inj hflags, hagain, hpanel⟩

/-- A panel highlights the second of two words, and another panel is attached to the same editor.
Its first word is clicked, which highlights nothing and selects the word, but the mark at the second
word stays. -/
theorem mark_after_click_beside :
    ∃ held first held' s m row s' m', Prompt .twoWords {} ⟨1⟩ held first ∧
      first.panel.highlight = some ⟨3, 5, by decide⟩ ∧ Prompt first.host {} ⟨2⟩ held' s ∧
      s.panel.mounted = some m ∧ s.host.tree.root.Nested ∧ m.outline.row? 1 = some row ∧
      row.span = ⟨0, 2, by decide⟩ ∧ row.span.stop ≤ s.host.document.length ∧
      s.handle (.input (.atRow (.clickRow 1))) = .ok (true, s') ∧ s'.panel.mounted = some m' ∧
      m'.highlight = none ∧ s'.host.selection = .single ⟨0, 2⟩ ∧
      s'.host.decoration = some ⟨3, 5, by decide⟩ := by
  let second : Span := ⟨3, 5, by decide⟩
  obtain ⟨_, hrun, hfacts⟩ := ok_of_toOption (show (Except.toOption (do
      let start ← attach Editor.twoWords {} ⟨1⟩
      let hovered ← start.handle (.input (.atRow (.hoverRow 2)))
      let beside ← attach hovered.2.host {} ⟨2⟩
      return (hovered.2, beside, ← beside.handle (.input (.atRow (.clickRow 1)))))).map (fun r =>
        ((decide (r.1.panel.highlight = some second ∧ r.1.host.parser.isNone = true ∧
            r.2.1.host.tree.root = Editor.twoWords.tree.root ∧ r.2.1.host.document.length = 5),
          (r.2.1.panel.outline?.bind (·.row? 1)).map (·.span)),
          decide (r.2.2.1 = true ∧ r.2.2.2.host.selection = .single ⟨0, 2⟩ ∧
            r.2.2.2.host.decoration = some second),
          r.2.2.2.panel.mounted.map (·.highlight))) =
      some ((true, some ⟨0, 2, by decide⟩), true, some none) by decide +kernel)
  obtain ⟨start, hattach, hrun⟩ := bind_eq_ok.1 hrun
  obtain ⟨⟨_, first⟩, hhover, hrun⟩ := bind_eq_ok.1 hrun
  obtain ⟨s, hattach', hrun⟩ := bind_eq_ok.1 hrun
  obtain ⟨⟨redraw, s'⟩, hclick, hdone⟩ := bind_eq_ok.1 hrun
  cases hdone
  simp only [Prod.mk.injEq, decide_eq_true_eq] at hfacts
  obtain ⟨⟨⟨hlit, hbuilt, hroot, hlength⟩, hspan⟩, ⟨rfl, hselection, hmark⟩, hdark⟩ := hfacts
  obtain ⟨m', hm', hdark⟩ := Option.map_eq_some_iff.1 hdark
  obtain ⟨row, hrow, hspan⟩ := Option.map_eq_some_iff.1 hspan
  obtain ⟨outline, houtline, hrow⟩ := Option.bind_eq_some_iff.1 hrow
  obtain ⟨m, hm, rfl⟩ := Option.map_eq_some_iff.1 houtline
  have hfirst : Prompt .twoWords {} ⟨1⟩ [Editor.twoWords.tree] first :=
    .input (.attach (.built rfl) hattach) hhover
  have hbeside : Prompt first.host {} ⟨2⟩ [first.host.tree] s :=
    .attach (.built (Option.isNone_iff_eq_none.1 hbuilt)) hattach'
  have hnested : s.host.tree.root.Nested := hroot ▸ Editor.twoWords_nested
  have hin : row.span.stop ≤ s.host.document.length := by
    rw [hspan, hlength]
    decide
  exact ⟨_, first, _, s, m, row, s', m', hfirst, hlit, hbeside, hm, hnested, hrow, hspan, hin,
    hclick, hm', hdark, hselection, hmark⟩

end Session

end TreePanel
