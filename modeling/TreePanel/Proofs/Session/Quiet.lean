import TreePanel.Proofs.Session.Hover

/-!
# The pointer, a second time

The pointer tells a panel the same thing many times over, and the second time should be silent. It
is after leaving the rows: whatever the panel remembered and whatever was highlighted, both are gone
after the one answer of the editor, and then there is nothing left to clear (`leave_clears`).

It is not always so after entering a row. The panel remembers the row before it sends the row's
span, and the answer of the editor makes it forget the row again if the highlight has just gone out.
That was meant for somebody who takes the row's highlight away. But a row without width puts out, by
its own hover, what another row had lit (`Mounted.PutsOut`). Then the second hover is sent as well,
to no effect, and the third is the first one to be silent (`hoverRow_twice`). In all other cases the
second hover finds the row remembered.
-/

namespace TreePanel

namespace Mounted

/-- Hovering the row puts the highlight out: the row is not remembered and has no width, and
something is highlighted. -/
def PutsOut (m : Mounted) (index : Nat) (row : Row) : Prop :=
  m.hovered ≠ some index ∧ row.span.isEmpty = true ∧ m.highlight.isSome = true

instance (m : Mounted) (index : Nat) (row : Row) : Decidable (m.PutsOut index row) :=
  inferInstanceAs (Decidable (_ ∧ _ ∧ _))

variable {m : Mounted} {index : Nat} {row : Row} {u : Update}

/-- A row that is hovered is remembered after the answer of the editor, unless it put the highlight
out. -/
theorem hovered_of_enter (heffects : u.effects = [some row.span]) (hnew : m.hovered ≠ some index) :
    (Mounted.keep { m with hovered := some index } u).hovered =
      if m.PutsOut index row then none else some index := by
  have hnext : Highlight.next m.highlight u.selectionChanged u.effects =
      Highlight.ofEffect (some row.span) := by
    rw [heffects]
    rfl
  have hout : (m.highlight ≠ Highlight.ofEffect (some row.span) ∧
      Highlight.ofEffect (some row.span) = none) ↔ m.PutsOut index row := by
    unfold PutsOut Highlight.ofEffect
    cases hwidth : row.span.isEmpty <;> simp [hwidth, hnew, Option.ne_none_iff_isSome]
  unfold keep
  dsimp only
  rw [hnext]
  simp only [hout]

/-- The panel remembers no row, and nothing is highlighted. -/
def Idle (m : Mounted) : Prop :=
  m.hovered = none ∧ m.highlight = none

instance (m : Mounted) : Decidable m.Idle := inferInstanceAs (Decidable (_ ∧ _))

/-- Leaving the rows is nothing to an idle panel. -/
theorem leave_of_idle (h : m.Idle) : m.leave = (none, m) := by
  -- No row is hovered, so there is none to forget.
  have hself : { m with hovered := none } = m := by rw [← h.1]
  rw [leave, hself, h.1, h.2]
  rfl

/-- Leaving the rows makes a panel that is not idle clear the highlight. -/
theorem leave_of_not_idle (h : ¬m.Idle) :
    m.leave = (some (.dispatch (.highlight none)), { m with hovered := none }) := by
  have hsome : m.hovered.isSome || m.highlight.isSome := by
    by_contra hidle
    rw [Bool.not_eq_true, Bool.or_eq_false_iff] at hidle
    exact h ⟨by simpa using hidle.1, by simpa using hidle.2⟩
  rw [leave, if_pos hsome]

/-- A panel that remembers no row is idle once the highlight was cleared, whether or not the same
update brings an outline. -/
theorem idle_of_cleared (heffects : u.effects = [none]) (hnone : m.hovered = none)
    (outline : Outline) : (m.keep u).Idle ∧ (m.renew u outline).Idle := by
  have hnext : Highlight.next m.highlight u.selectionChanged u.effects = none := by
    rw [heffects]
    rfl
  have hforgot : (m.keep u).hovered = none := by simp [keep, hnone]
  exact ⟨⟨hforgot, hnext⟩, rfl, hnext⟩

/-- The pointer leaves the rows by this input: it left them, or it moved to a point on no row. -/
def Leaves (m : Mounted) : Input → Prop
  | .atRow .leave => True
  | .moved x y => m.rowAt x y = .ok none
  | .atRow (.hoverRow _) | .atRow (.hoverSpan _) | .atRow (.clickRow _) | .atRow (.clickSpan _)
  | .atRow (.scroll _) | .pressed _ _ => False

/-- All input by which the pointer leaves the rows is dealt with alike. -/
theorem onInput_of_leaves {input : Input} (h : m.Leaves input) (origin : Origin) :
    m.onInput origin input = .ok m.leave := by
  cases input with
  | atRow rowInput =>
    cases rowInput with
    | leave => rfl
    | _ => cases h
  | moved x y =>
    have hresolve : m.resolve (.moved x y) = .ok (some .leave) := bind_eq_ok.2 ⟨none, h, rfl⟩
    unfold onInput
    rw [hresolve]
    rfl
  | pressed x y => cases h

end Mounted

/-- An editor with a word and, behind it, a node without width. -/
def Editor.wordAndGap : Editor :=
  .withTree ['a', 'b', 'c'] ⟨⟨0, 0⟩, .mk "Line" ⟨0, 3, by decide⟩ true
    [.leaf "Word" ⟨0, 3, by decide⟩ true, .leaf "Gap" ⟨3, 3, by decide⟩ true]⟩

namespace Session

variable {settings : Settings} {origin : Origin} {host : Editor} {s : Session Editor} {m : Mounted}

/-! ## Entering a row -/

/-- What entering a row leaves, that was not remembered. -/
structure Entered (s : Session Editor) (m : Mounted) (index : Nat) (row : Row)
    (s' : Session Editor) (m' : Mounted) : Prop where
  mounted : s'.panel.mounted = some m'
  outline : m'.outline = m.outline
  /-- The panel still knows the last tree of the editor. -/
  last : m'.rebuild.last = some s'.host.tree.id
  highlight : m'.highlight = Highlight.ofEffect (some row.span)
  /-- The row is forgotten if it put the highlight out. -/
  hovered : m'.hovered = if m.PutsOut index row then none else some index
  sent : s'.host.sent = s.host.sent ++ [.highlight (some row.span)]

/-- Entering a row that is not remembered. -/
theorem handle_enter (hm : s.panel.mounted = some m) (hlast : m.rebuild.last = some s.host.tree.id)
    {index : Nat} {row : Row} (hrow : m.outline.row? index = some row)
    (hnew : m.hovered ≠ some index) :
    ∃ s' m', s.handle (.input (.atRow (.hoverRow index))) = .ok (false, s') ∧
      Entered s m index row s' m' := by
  obtain ⟨e, he⟩ : ∃ e, e = (s.host.dispatch (.highlight (some row.span))).2 := ⟨_, rfl⟩
  obtain ⟨m', hm'⟩ : ∃ m', m' = Mounted.keep { m with hovered := some index }
    (s.host.dispatch (.highlight (some row.span))).1 := ⟨_, rfl⟩
  have hhandle := handle_hoverRow_new hm hlast hrow hnew
  rw [← he, ← hm'] at hhandle
  -- The mark is all that the highlight changes of the editor.
  obtain ⟨mark, hmark⟩ := remark_eq e m.highlight m'.highlight
  refine ⟨_, m', hhandle, ?_⟩
  constructor
  · rfl
  · rw [hm']
    rfl
  · rw [settle, hmark, he, hm']
    exact hlast
  · rw [hm']
    rfl
  · rw [hm']
    exact Mounted.hovered_of_enter rfl hnew
  · rw [settle, hmark, he]
    rfl

/-- Entering a row without width while nothing is highlighted: the transaction has no effect, and
the row is remembered. -/
theorem handle_enter_dark (hm : s.panel.mounted = some m)
    (hlast : m.rebuild.last = some s.host.tree.id) {index : Nat} {row : Row}
    (hrow : m.outline.row? index = some row) (hnew : m.hovered ≠ some index)
    (hwidth : row.span.isEmpty = true) (hdark : m.highlight = none) :
    s.handle (.input (.atRow (.hoverRow index))) =
      .ok (false, { s.mount { m with hovered := some index } with
        host := { s.host with sent := s.host.sent ++ [.highlight (some row.span)] } }) := by
  have hnone : Highlight.ofEffect (some row.span) = none := if_pos hwidth
  have hkeep : Mounted.keep { m with hovered := some index }
      (s.host.dispatch (.highlight (some row.span))).1 = { m with hovered := some index } :=
    Mounted.keep_eq_self_of_next (hnone.trans hdark.symm)
  rw [handle_hoverRow_new hm hlast hrow hnew, hkeep, settle, remark, if_pos rfl]
  rfl

/-- Hovering a row twice. If the row does not put the highlight out, the second time sends nothing
and changes nothing, so at the most one transaction is sent. If it does, both times send the span;
the second one only makes the panel remember the row, and then a third one is silent. -/
theorem hoverRow_twice (hlive : Live host settings origin s) (hm : s.panel.mounted = some m)
    {index : Nat} {row : Row} (hrow : m.outline.row? index = some row) :
    ∃ s' s'', s.handle (.input (.atRow (.hoverRow index))) = .ok (false, s') ∧
      s'.handle (.input (.atRow (.hoverRow index))) = .ok (false, s'') ∧
      (¬m.PutsOut index row → s'' = s' ∧
        (s'.host.sent = s.host.sent ∨
          s'.host.sent = s.host.sent ++ [.highlight (some row.span)])) ∧
      (m.PutsOut index row →
        s'.host.sent = s.host.sent ++ [.highlight (some row.span)] ∧
        (∃ m', s'.panel.mounted = some m' ∧ m'.highlight = none ∧ m'.hovered = none ∧
          s'' = { s'.mount { m' with hovered := some index } with
            host := { s'.host with sent := s'.host.sent ++ [.highlight (some row.span)] } }) ∧
        s''.handle (.input (.atRow (.hoverRow index))) = .ok (false, s'')) := by
  by_cases hhovered : m.hovered = some index
  · have hagain := handle_hoverRow_again hm hhovered
    exact ⟨s, s, hagain, hagain, fun _ => ⟨rfl, .inl rfl⟩, fun hout => absurd hhovered hout.1⟩
  · obtain ⟨s', m', hhandle, hentered⟩ := handle_enter hm (hlive.last_eq m hm) hrow hhovered
    have hrow' : m'.outline.row? index = some row := by rw [hentered.outline, hrow]
    by_cases hout : m.PutsOut index row
    · have hforgot : m'.hovered = none := by rw [hentered.hovered, if_pos hout]
      have hdark : m'.highlight = none := by
        rw [hentered.highlight]
        exact if_pos hout.2.1
      have hsecond := handle_enter_dark hentered.mounted hentered.last hrow'
        (by rw [hforgot]; exact nofun) hout.2.1 hdark
      refine ⟨s', _, hhandle, hsecond, fun h => absurd hout h, fun _ => ⟨hentered.sent,
        ⟨m', hentered.mounted, hdark, hforgot, rfl⟩, ?_⟩⟩
      exact handle_hoverRow_again (m := { m' with hovered := some index }) rfl rfl
    · have hkept : m'.hovered = some index := by rw [hentered.hovered, if_neg hout]
      exact ⟨s', s', hhandle, handle_hoverRow_again hentered.mounted hkept,
        fun _ => ⟨rfl, .inr hentered.sent⟩, fun h => absurd h hout⟩

/-- The gap is hovered twice. While nothing is highlighted, the second time changes nothing. While
the word is highlighted, the second time sends one more transaction, and the third time changes
nothing. -/
theorem gap_hovered_twice :
    ∃ start s start' s' s'', attach Editor.wordAndGap {} ⟨1⟩ = .ok start ∧
      start.run [.input (.atRow (.hoverRow 1))] = .ok s ∧
      (start.handle (.input (.atRow (.hoverRow 2))) = .ok (false, start') ∧
        start'.handle (.input (.atRow (.hoverRow 2))) = .ok (false, start')) ∧
      s.handle (.input (.atRow (.hoverRow 2))) = .ok (false, s') ∧
      s'.handle (.input (.atRow (.hoverRow 2))) = .ok (false, s'') ∧
      s''.host.sent = s'.host.sent ++ [.highlight (some ⟨3, 3, by decide⟩)] ∧
      s''.handle (.input (.atRow (.hoverRow 2))) = .ok (false, s'') := by
  obtain ⟨⟨start, s⟩, hrun, hfacts⟩ := ok_of_toOption (show (Except.toOption (do
      let start ← attach Editor.wordAndGap {} ⟨1⟩
      return (start, ← start.run [.input (.atRow (.hoverRow 1))]))).map
        (fun r => ((r.1.panel.outline?.bind (·.row? 2)).map (·.span),
          (r.2.panel.outline?.bind (·.row? 2)).map (·.span), r.2.panel.highlight,
          r.2.panel.mounted.bind (·.hovered))) =
      some (some ⟨3, 3, by decide⟩, some ⟨3, 3, by decide⟩, some ⟨0, 3, by decide⟩, some 1) by
    decide +kernel)
  obtain ⟨_, hattach, hrun⟩ := bind_eq_ok.1 hrun
  obtain ⟨_, hevents, hdone⟩ := bind_eq_ok.1 hrun
  cases hdone
  simp only [Prod.mk.injEq] at hfacts
  obtain ⟨hbefore, hafter, hlit, hhovered⟩ := hfacts
  obtain ⟨m, row, hm, hrow, hspan⟩ := Panel.exists_row_of_span hbefore
  obtain ⟨n, row', hn, hrow', hspan'⟩ := Panel.exists_row_of_span hafter
  have hlit : n.highlight = some ⟨0, 3, by decide⟩ := by rwa [Panel.highlight, hn] at hlit
  have hhovered : n.hovered = some 1 := by rwa [hn] at hhovered
  obtain ⟨start', again, hfirst, hsecond, hsilent, -⟩ :=
    hoverRow_twice ⟨start, [], hattach, rfl⟩ hm hrow
  obtain ⟨s', s'', hthird, hfourth, -, hout⟩ := hoverRow_twice ⟨start, _, hattach, hevents⟩ hn hrow'
  -- Nothing is highlighted in a panel that was just attached, so the gap puts nothing out.
  obtain ⟨surface, outline, -, -, hfresh, -⟩ := attach_mounted hattach hm
  obtain ⟨rfl, -⟩ := hsilent fun h => by
    rw [hfresh] at h
    exact absurd h.2.2 Bool.false_ne_true
  have hputs : n.PutsOut 2 row' :=
    ⟨by rw [hhovered]; decide, by rw [hspan']; rfl, by rw [hlit]; rfl⟩
  obtain ⟨hsent, ⟨m', -, -, -, rfl⟩, hfifth⟩ := hout hputs
  refine ⟨start, s, again, s', _, hattach, hevents, ⟨hfirst, hsecond⟩, hthird, hfourth, ?_, hfifth⟩
  rw [hspan']

/-- The word is highlighted and then the gap is hovered twice in a row. Both times a transaction is
sent, and the second time changes both the panel and the editor. -/
theorem two_transactions_for_gap :
    ∃ s m row s' s'', Live .wordAndGap {} ⟨1⟩ s ∧ s.panel.mounted = some m ∧
      m.outline.row? 2 = some row ∧ row.span = ⟨3, 3, by decide⟩ ∧
      s.handle (.input (.atRow (.hoverRow 2))) = .ok (false, s') ∧
      s'.handle (.input (.atRow (.hoverRow 2))) = .ok (false, s'') ∧
      s''.host.sent.length = s.host.sent.length + 2 ∧ s''.host.sent ≠ s'.host.sent ∧
      s''.panel.mounted.bind (·.hovered) ≠ s'.panel.mounted.bind (·.hovered) := by
  obtain ⟨⟨s, ⟨_, s'⟩, _, s''⟩, hrun, hfacts⟩ := ok_of_toOption (show (Except.toOption (do
      let start ← attach Editor.wordAndGap {} ⟨1⟩
      let s ← start.run [.input (.atRow (.hoverRow 1))]
      let first ← s.handle (.input (.atRow (.hoverRow 2)))
      return (s, first, ← first.2.handle (.input (.atRow (.hoverRow 2)))))).map
        (fun r => ((r.1.panel.outline?.bind (·.row? 2)).map (·.span), [r.2.1.1, r.2.2.1],
          [r.1.host.sent.length, r.2.1.2.host.sent.length, r.2.2.2.host.sent.length],
          [r.2.1.2.panel.mounted.bind (·.hovered), r.2.2.2.panel.mounted.bind (·.hovered)])) =
      some (some ⟨3, 3, by decide⟩, [false, false], [1, 2, 3], [none, some 2]) by decide +kernel)
  obtain ⟨start, hattach, hrun⟩ := bind_eq_ok.1 hrun
  obtain ⟨_, hevents, hrun⟩ := bind_eq_ok.1 hrun
  obtain ⟨⟨_, _⟩, hfirst, hrun⟩ := bind_eq_ok.1 hrun
  obtain ⟨⟨_, _⟩, hsecond, hdone⟩ := bind_eq_ok.1 hrun
  cases hdone
  simp only [Prod.mk.injEq, List.cons.injEq, and_true] at hfacts
  obtain ⟨hspan, ⟨rfl, rfl⟩, ⟨hone, htwo, hthree⟩, hforgot, hremembered⟩ := hfacts
  obtain ⟨m, row, hm, hrow, hspan⟩ := Panel.exists_row_of_span hspan
  refine ⟨s, m, row, s', s'', ⟨start, _, hattach, hevents⟩, hm, hrow, hspan, hfirst, hsecond,
    by rw [hone, hthree], fun h => ?_, ?_⟩
  · have hlength := congrArg List.length h
    rw [htwo, hthree] at hlength
    cases hlength
  · rw [hforgot, hremembered]
    exact Option.some_ne_none 2

/-! ## Leaving the rows -/

/-- Leaving the rows while the panel is idle changes nothing at all. -/
theorem handle_leaves_of_idle (hm : s.panel.mounted = some m) (hidle : m.Idle) {input : Input}
    (hoff : m.Leaves input) : s.handle (.input input) = .ok (false, s) := by
  refine handle_input_ignored hm ?_
  rw [Mounted.onInput_of_leaves hoff, Mounted.leave_of_idle hidle]

/-- Once the panel has forgotten the row and cleared the highlight, it is idle. The editor's answer
may bring an outline too, and then a line can be missing for the footer. -/
theorem send_clear (hm : s.panel.mounted = some m) (hforgot : m.hovered = none)
    (hfit : s.host.document.Fits) :
    (∃ r ∈ s.host.selection.ranges, ∃ fault, s.host.lineAt r.head = .error fault ∧
      s.send (.highlight none) = .error fault) ∨
    ∃ redraw s' m', s.send (.highlight none) = .ok (redraw, s') ∧ s'.panel.mounted = some m' ∧
      m'.Idle ∧ s'.host.sent = s.host.sent ++ [.highlight none] := by
  obtain ⟨u, hu⟩ : ∃ u, u = (s.host.dispatch (.highlight none)).1 := ⟨_, rfl⟩
  obtain ⟨e, he⟩ : ∃ e, e = (s.host.dispatch (.highlight none)).2 := ⟨_, rfl⟩
  have hsend : s.send (.highlight none) = Session.handle { s with host := e } (.update u) := by
    rw [hu, he]
    rfl
  have heffects : u.effects = [none] := by rw [hu]; rfl
  -- Marking the editor sends nothing.
  have hsent : ∀ m', (Session.settle { s with host := e } m m').host.sent =
      s.host.sent ++ [.highlight none] := fun m' => by
    obtain ⟨mark, hmark⟩ := remark_eq e m.highlight m'.highlight
    rw [settle, hmark, he]
    rfl
  rw [hsend, handle_update (s := { s with host := e }) hm u]
  split
  · exact .inr ⟨_, _, m.keep u, rfl, rfl, (Mounted.idle_of_cleared heffects hforgot m.outline).1,
      hsent _⟩
  · cases hr : Outline.render u.tree.root u.selection (EditorHost.lineAt e) s.panel.settings with
    | error fault =>
      have hfit' : e.document.Fits := by rw [he]; exact hfit
      obtain ⟨r, hmem, hline⟩ := Outline.lineAt_of_render_error hfit' hr
      rw [he] at hline
      exact .inl ⟨r, by rw [hu] at hmem; exact hmem, fault, hline, rfl⟩
    | ok outline =>
      exact .inr ⟨_, _, m.renew u outline, rfl, rfl,
        (Mounted.idle_of_cleared heffects hforgot outline).2, hsent _⟩

/-- What leaves the rows, whatever messages came before: unless a line is missing for the footer of
another outline, nothing is hovered or highlighted any more and the editor has no mark, for which at
the most one transaction was sent. Whatever leaves the rows after that changes nothing. -/
theorem leave_clears (hnone : host.decoration = none) (h : Reachable host settings origin s)
    (hm : s.panel.mounted = some m) (hfit : s.host.document.Fits) {input : Input}
    (hoff : m.Leaves input) :
    (∃ r ∈ s.host.selection.ranges, ∃ fault, s.host.lineAt r.head = .error fault ∧
      s.handle (.input input) = .error fault) ∨
    ∃ redraw s' m', s.handle (.input input) = .ok (redraw, s') ∧ s'.panel.mounted = some m' ∧
      m'.hovered = none ∧ s'.panel.highlight = none ∧ s'.host.decoration = none ∧
      s'.host.sent = s.host.sent ++ (if m.Idle then [] else [.highlight none]) ∧
      ∀ again, m'.Leaves again → s'.handle (.input again) = .ok (false, s') := by
  have hcleared : (∃ r ∈ s.host.selection.ranges, ∃ fault, s.host.lineAt r.head = .error fault ∧
      s.handle (.input input) = .error fault) ∨
      ∃ redraw s' m', s.handle (.input input) = .ok (redraw, s') ∧ s'.panel.mounted = some m' ∧
        m'.Idle ∧ s'.host.sent = s.host.sent ++ (if m.Idle then [] else [.highlight none]) := by
    by_cases hidle : m.Idle
    · rw [if_pos hidle, List.append_nil]
      exact .inr ⟨_, s, m, handle_leaves_of_idle hm hidle hoff, hm, hidle, rfl⟩
    · have hin : m.onInput s.panel.origin input =
          .ok (some (.dispatch (.highlight none)), { m with hovered := none }) := by
        rw [Mounted.onInput_of_leaves hoff, Mounted.leave_of_not_idle hidle]
      rw [if_neg hidle, handle_input_dispatch hm hin]
      exact send_clear (s := s.mount { m with hovered := none }) rfl rfl hfit
  rcases hcleared with hfault | ⟨redraw, s', m', hhandle, hm', hidle, hsent⟩
  · exact .inl hfault
  · have hdark : s'.panel.highlight = none := by
      rw [Panel.highlight, hm']
      exact hidle.2
    have hmark : s'.host.decoration = none :=
      ((h.handle hhandle).marked hnone hm').1.trans hidle.2
    exact .inr ⟨redraw, s', m', hhandle, hm', hidle.1, hdark, hmark, hsent,
      fun again => handle_leaves_of_idle hm' hidle⟩

/-- A word is hovered, and then the editor is given another tree of which the panel is not told. The
pointer moves to the title, the panel clears the highlight and is told of the tree by the answer.
When the pointer then leaves the panel too, nothing changes. -/
theorem left_after_hidden_tree :
    ∃ s m, Reachable .twoWords {} ⟨1⟩ s ∧ s.panel.mounted = some m ∧ m.hovered = some 1 ∧
      s.panel.highlight = some ⟨0, 2, by decide⟩ ∧ s.host.decoration = some ⟨0, 2, by decide⟩ ∧
      m.Leaves (.moved (Float32.ofBits 0x44898000) (Float32.ofBits 0x40a00000)) ∧
      ∃ s', s.handle (.input (.moved (Float32.ofBits 0x44898000) (Float32.ofBits 0x40a00000))) =
          .ok (true, s') ∧
        s'.panel.highlight = none ∧ s'.host.decoration = none ∧
        s'.host.sent = s.host.sent ++ [.highlight none] ∧
        s'.handle (.input (.atRow .leave)) = .ok (false, s') := by
  let x := Float32.ofBits 0x44898000
  let y := Float32.ofBits 0x40a00000
  let tree : Snapshot := ⟨⟨7, 7⟩, Editor.twoWords.tree.root⟩
  obtain ⟨⟨s, redraw, s'⟩, hrun, hfacts⟩ := ok_of_toOption (show (Except.toOption (do
      let start ← attach Editor.twoWords {} ⟨1⟩
      let hovered ← start.run [.input (.atRow (.hoverRow 1))]
      let edited ← hovered.host.act (.setTree tree)
      let s : Session Editor := { hovered with host := edited.2 }
      return (s, ← s.handle (.input (.moved x y))))).map
        (fun r => (r.1.panel.mounted.map fun m => (m.hovered, (m.rowAt x y).toOption),
          [r.1.panel.highlight, r.1.host.decoration], r.2.1, r.1.host.document.length)) =
      some (some (some 1, some none), [some ⟨0, 2, by decide⟩, some ⟨0, 2, by decide⟩], true, 5) by
    decide +kernel)
  obtain ⟨start, hattach, hrun⟩ := bind_eq_ok.1 hrun
  obtain ⟨hovered, hhover, hrun⟩ := bind_eq_ok.1 hrun
  obtain ⟨⟨u, e⟩, hact, hrun⟩ := bind_eq_ok.1 hrun
  obtain ⟨⟨_, _⟩, hmoved, hdone⟩ := bind_eq_ok.1 hrun
  cases hdone
  simp only [Prod.mk.injEq, List.cons.injEq, and_true] at hfacts
  obtain ⟨hpanel, ⟨hlit, hmark⟩, rfl, hlength⟩ := hfacts
  obtain ⟨m, hm, hpanel⟩ := Option.map_eq_some_iff.1 hpanel
  obtain ⟨hremembered, hpoint⟩ := Prod.mk.inj hpanel
  have hreach : Reachable .twoWords {} ⟨1⟩ { hovered with host := e } :=
    (Live.reachable ⟨start, _, hattach, hhover⟩).edit hact
  have hoff : m.Leaves (.moved x y) := by
    obtain ⟨_, hrow, hone⟩ := ok_of_toOption (f := id) (by rw [Option.map_id]; exact hpoint)
    rw [Mounted.Leaves, hrow, ← hone]
    rfl
  have hfit : e.document.Fits := by
    rw [Document.Fits, show e.document.length = 5 from hlength]
    decide
  rcases leave_clears rfl hreach hm hfit hoff with
    ⟨r, -, fault, -, hfault⟩ | ⟨redraw, _, m', hhandle, -, -, hdark, hnone, hsent, hsilent⟩
  · rw [hfault] at hmoved
    cases hmoved
  · rw [hhandle] at hmoved
    cases hmoved
    have hbusy : ¬m.Idle := fun hidle =>
      Option.some_ne_none 1 (hremembered.symm.trans hidle.1)
    rw [if_neg hbusy] at hsent
    exact ⟨_, m, hreach, hm, hremembered, hlit, hmark, hoff, s', hhandle, hdark, hnone, hsent,
      hsilent (.atRow .leave) trivial⟩

end Session

end TreePanel
