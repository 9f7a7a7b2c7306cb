import TreePanel.Proofs.Session.Decoration
import TreePanel.Proofs.Session.Safety

/-!
# The highlight and the end of the text

The highlight is a store of its own. It changes when the selection moves and when an update has
effects, and a replacement does not move it along. So a replacement that leaves the selection where
it is may leave the highlight behind the end of the text (`highlight_after_deletion`).

Nothing else can. Let everybody highlight only what lies in the text (`Session.Aims`). Then the
highlight and the mark of the editor lie in the text all along a run exactly if every replacement
that leaves the selection where it is also leaves a text that reaches to the end of the highlight
(`highlight_within_iff`). The step is `highlightFits_step`.

Most input does aim at the text by itself. As long as nobody puts in a tree from outside, all rows
stand for nodes in the text (`Session.Parsed`), so hovering them highlights nothing beyond.
-/

namespace TreePanel

namespace Mounted

variable {m m' : Mounted} {origin : Origin} {t : Transaction}

/-- Input at a row highlights the node that it names, or a row. -/
theorem effect_of_onRowInput {input : RowInput}
    (h : m.onRowInput origin input = .ok (some (.dispatch t), m')) :
    ∀ effect ∈ t.effects, ∀ span ∈ effect,
      input = .hoverSpan span ∨ ∃ row ∈ m.outline.rows, row.span = span := by
  intro effect heffect span hspan
  cases input with
  | hoverRow index =>
    have hover : m.hoverRow index = (some (.dispatch t), m') := Except.ok.inj h
    unfold hoverRow Outline.row? at hover
    split at hover
    · cases hover
    · cases hrow : m.outline.rows[index]? with
      | none =>
        rw [hrow] at hover
        cases hover
      | some row =>
        rw [hrow] at hover
        cases hover
        cases List.mem_singleton.1 heffect
        cases hspan
        exact .inr ⟨row, List.mem_of_getElem? hrow, rfl⟩
  | hoverSpan node =>
    cases h
    cases List.mem_singleton.1 heffect
    cases hspan
    exact .inl rfl
  | leave =>
    have hleave : m.leave = (some (.dispatch t), m') := Except.ok.inj h
    unfold leave at hleave
    split at hleave
    · cases hleave
      cases List.mem_singleton.1 heffect
      cases hspan
    · cases hleave
  | clickRow index =>
    have hclick : m.clickRow origin index = some (.dispatch t) :=
      congrArg Prod.fst (Except.ok.inj h)
    obtain ⟨row, -, hselect⟩ := Option.map_eq_some_iff.1 hclick
    cases hselect
    cases heffect
  | clickSpan node =>
    cases h
    cases heffect
  | scroll lines =>
    obtain ⟨viewport, -, hdone⟩ := bind_eq_ok.1 h
    have hcommand := congrArg Prod.fst (Except.ok.inj hdone)
    dsimp only at hcommand
    split at hcommand <;> cases hcommand

/-- Input highlights the node that it names, or a row. -/
theorem effect_of_onInput {input : Input}
    (h : m.onInput origin input = .ok (some (.dispatch t), m')) :
    ∀ effect ∈ t.effects, ∀ span ∈ effect,
      input = .atRow (.hoverSpan span) ∨ ∃ row ∈ m.outline.rows, row.span = span := by
  intro effect heffect span hspan
  obtain ⟨resolved, hresolve, hreact⟩ := bind_eq_ok.1 h
  cases resolved with
  | none => cases hreact
  | some rowInput =>
    rcases effect_of_onRowInput hreact effect heffect span hspan with rfl | hrow
    · -- A point stands for a row, or for none, and never for a node.
      cases input with
      | atRow rowInput =>
        cases hresolve
        exact .inl rfl
      | moved x y =>
        obtain ⟨row?, -, hrow⟩ := bind_eq_ok.1 hresolve
        cases row? <;> cases hrow
      | pressed x y =>
        obtain ⟨row?, -, hrow⟩ := bind_eq_ok.1 hresolve
        cases row? <;> cases hrow
    · exact .inr hrow

end Mounted

/-- The tree of an editor is the one that its parser has for the text. -/
def Editor.Parsed (e : Editor) : Prop :=
  ∃ p, e.parser = some p ∧ p.Has e.document.text e.tree

/-- The tree is left to the parser by everything but a tree from outside. -/
theorem Editor.Parsed.act {e e' : Editor} (h : e.Parsed) {action : Editor.Action} {u : Update}
    (hinside : ∀ tree, action ≠ .setTree tree) (hact : e.act action = .ok (u, e')) : e'.Parsed := by
  cases action with
  | setTree tree => exact absurd rfl (hinside tree)
  | replace start stop text =>
    obtain ⟨p, hp, hhas⟩ := h
    obtain ⟨document, tree, parser, selection, -, hparsed, -, rfl, -⟩ := Editor.replace_eq_ok.1 hact
    rcases hparsed with ⟨hnone, -, -⟩ | ⟨q, q', hq, hparse, rfl⟩
    · rw [hp] at hnone
      cases hnone
    · cases hp.symm.trans hq
      obtain ⟨tree', p', hparse', hhas'⟩ := hhas.parse document.text
      cases hparse.symm.trans hparse'
      exact ⟨q', rfl, hhas'⟩
  | _ =>
    cases hact
    exact h

namespace Session

variable {host : Editor} {settings : Settings} {origin : Origin} {s s' : Session Editor}
  {m : Mounted}

/-! ## What is highlighted -/

/-- What is highlighted lies in the text, in the panel and in the editor. -/
structure HighlightWithin (s : Session Editor) : Prop where
  /-- The highlight of the panel lies in the text. -/
  panel : ∀ span ∈ s.panel.highlight, span.stop ≤ s.host.document.length
  /-- The mark of the editor lies in the text. -/
  mark : ∀ span ∈ s.host.decoration, span.stop ≤ s.host.document.length

/-- What the panel highlights would lie in the text of an editor. -/
def HighlightFits (s : Session Editor) (e : Editor) : Prop :=
  ∀ span ∈ s.panel.highlight, span.stop ≤ e.document.length

instance (s : Session Editor) (e : Editor) : Decidable (s.HighlightFits e) :=
  inferInstanceAs (Decidable (∀ span ∈ s.panel.highlight, _ ≤ _))

/-- The transactions that an event sends to the editor, by the panel or by somebody else. -/
def transactions (s : Session Editor) : Event → List Transaction
  | .edit (.dispatch t) => [t]
  | .input input =>
    ((s.panel.react s.host.lineAt (.input input)).toOption.map fun answer =>
      Command.transactionsAll answer.1.toList).getD []
  | .edit (.select _) | .edit (.setTree _) | .edit (.replace _ _ _) | .edit .idle | .tick
  | .detach => []

/-- Every span that an event asks to highlight lies in the text at that time. -/
def Aims (s : Session Editor) (event : Event) : Prop :=
  ∀ t ∈ s.transactions event, ∀ effect ∈ t.effects, ∀ span ∈ effect,
    span.stop ≤ s.host.document.length

instance (s : Session Editor) (event : Event) : Decidable (s.Aims event) :=
  inferInstanceAs (Decidable (∀ t ∈ s.transactions event, ∀ effect ∈ t.effects, ∀ span ∈ effect,
    span.stop ≤ s.host.document.length))

/-- The transactions of input are those by which a mounted panel answers it. -/
theorem mem_transactions_input {input : Input} {t : Transaction} :
    t ∈ s.transactions (.input input) ↔ ∃ m m', s.panel.mounted = some m ∧
      m.onInput s.panel.origin input = .ok (some (.dispatch t), m') := by
  constructor
  · intro ht
    rw [transactions] at ht
    cases hreact : s.panel.react s.host.lineAt (.input input) with
    | error fault =>
      rw [hreact] at ht
      cases ht
    | ok answer =>
      obtain ⟨command, p'⟩ := answer
      rw [hreact] at ht
      have hsent : t ∈ Command.transactionsAll command.toList := ht
      cases Panel.reaction_of_react hreact with
      | unmounted hm => cases hsent
      | @input m m' _ _ hm hin =>
        refine ⟨m, m', hm, ?_⟩
        cases Mounted.onInput_answer hin with
        | ignored => cases hsent
        | scrolled wheel moved =>
          split at hsent
          · cases hsent
          · cases hsent
        | lit hover =>
          rw [List.mem_singleton.1 hsent]
          exact hin
        | selected click clicked =>
          rw [List.mem_singleton.1 hsent]
          exact hin
  · rintro ⟨m, m', hm, hin⟩
    have hreact : s.panel.react s.host.lineAt (.input input) =
        .ok (some (.dispatch t), { s.panel with mounted := some m' }) := by
      simp [Panel.react, hm, hin, bind, Except.bind, pure, Except.pure]
    rw [transactions, hreact]
    exact List.mem_singleton_self t

/-- The mark of an editor that had none when the panel was attached is the highlight. -/
theorem Reachable.mark_eq (hnone : host.decoration = none)
    (h : Reachable host settings origin s) : s.host.decoration = s.panel.highlight := by
  rw [Panel.highlight]
  cases hm : s.panel.mounted with
  | none => exact h.unmarked hnone hm
  | some m => exact (h.marked hnone hm).1

/-- So it lies in the text with the highlight. -/
theorem highlightWithin_iff (hmark : s.host.decoration = s.panel.highlight) :
    s.HighlightWithin ↔ s.HighlightFits s.host := by
  refine ⟨fun h => h.panel, fun h => ⟨h, ?_⟩⟩
  rw [hmark]
  exact h

/-! ## One event -/

/-- An update changes the highlight as it says and leaves the text alone. -/
theorem highlight_of_update {e : Editor} {u : Update} {redraw : Bool}
    (hm : s.panel.mounted = some m)
    (h : Session.handle { s with host := e } (.update u) = .ok (redraw, s')) :
    s'.panel.highlight = Highlight.next s.panel.highlight u.selectionChanged u.effects ∧
      s'.host.document = e.document := by
  obtain ⟨mark, hhost⟩ := handle_update_host h
  have hbefore : s.panel.highlight = m.highlight := by rw [Panel.highlight, hm]; rfl
  rw [hbefore]
  refine ⟨?_, by rw [hhost]⟩
  rcases handle_update_cases (s := { s with host := e }) hm h with ⟨-, rfl⟩ | ⟨-, outline, -, rfl⟩
  · rfl
  · rfl

/-- An action and its update keep the highlight in the text, unless the action is a replacement that
leaves the selection where it is and cuts the text off before the end of the highlight. -/
theorem highlightFits_edit (hm : s.panel.mounted = some m) (hfits : s.HighlightFits s.host)
    {action : Editor.Action} (haims : s.Aims (.edit action))
    (hstep : s.step (.edit action) = .ok s') :
    s'.HighlightFits s'.host ↔ s.IfStill HighlightFits (.edit action) := by
  obtain ⟨u, e, redraw, hact, hhandle⟩ := step_edit_eq_ok.1 hstep
  obtain ⟨hhighlight, hdocument⟩ := highlight_of_update hm hhandle
  -- An action that leaves the text alone highlights only what its effects say.
  have hother : e.document = s.host.document →
      (∀ effect ∈ u.effects, ∀ span ∈ effect, span.stop ≤ s.host.document.length) →
        s'.HighlightFits s'.host := by
    intro hsame heffects span hspan
    rw [hhighlight] at hspan
    rw [hdocument, hsame]
    rcases Highlight.set_or_kept_of_next hspan with ⟨hset, -⟩ | ⟨-, hkept⟩
    · exact heffects _ hset span rfl
    · exact hfits span hkept
  cases action with
  | replace start stop text =>
    have hreplace : s.host.replace start stop text = .ok (u, e) := hact
    have hquiet : u.effects = [] := by
      obtain ⟨_, _, _, _, -, -, -, -, rfl⟩ := Editor.replace_eq_ok.1 hreplace
      rfl
    rw [IfStill, hreplace, HighlightFits, hhighlight, hdocument, hquiet]
    constructor
    · intro h edited hedited hstill
      cases hedited
      rw [hstill] at h
      exact h
    · intro h
      cases hstill : u.selectionChanged with
      | true => exact nofun
      | false => exact h (u, e) rfl hstill
  | select selection => cases hact; exact ⟨fun _ => trivial, fun _ => hother rfl nofun⟩
  | setTree tree => cases hact; exact ⟨fun _ => trivial, fun _ => hother rfl nofun⟩
  | dispatch t =>
    cases hact
    exact ⟨fun _ => trivial, fun _ => hother rfl (haims t (List.mem_singleton_self t))⟩
  | idle => cases hact; exact ⟨fun _ => trivial, fun _ => hother rfl nofun⟩

/-- Every event that aims at the text keeps the highlight in it, but for a replacement that leaves
the selection where it is and cuts the text off before the end of the highlight. -/
theorem highlightFits_step (hfits : s.HighlightFits s.host) {event : Event} (haims : s.Aims event)
    (hstep : s.step event = .ok s') :
    s'.HighlightFits s'.host ↔ s.IfStill HighlightFits event := by
  cases hm : s.panel.mounted with
  | none =>
    -- A panel that is not mounted highlights nothing.
    have hdark : ∀ {s : Session Editor}, s.panel.mounted = none → ∀ e, s.HighlightFits e := by
      intro s hnone e span hspan
      rw [Panel.highlight, hnone] at hspan
      cases hspan
    exact ⟨fun _ => ifStill_of_forall (hdark hm) event,
      fun _ => hdark (step_unmounted hm hstep) s'.host⟩
  | some m =>
    have hmount : ∀ {m' : Mounted}, m'.highlight = m.highlight →
        (s.mount m').HighlightFits s.host := by
      intro m' hsame span hspan
      have hkept : s.panel.highlight = m'.highlight := by
        rw [Panel.highlight, hm, hsame]
        rfl
      exact hfits span (hkept.trans hspan)
    cases stepped_of_step hm hstep with
    | edited hedit => exact highlightFits_edit hm hfits haims hedit
    | @answered input hovered t _ hin hsent =>
      have hsends : (s.mount { m with hovered := hovered }).Aims (.edit (.dispatch t)) := by
        intro t' ht'
        rw [List.mem_singleton.1 ht']
        exact haims t (mem_transactions_input.2 ⟨m, _, hm, hin⟩)
      have hfits' : (s.mount { m with hovered := hovered }).HighlightFits s.host := hmount rfl
      exact ⟨fun _ => trivial, fun _ => (highlightFits_edit rfl hfits' hsends hsent).2 trivial⟩
    | scrolled => exact ⟨fun _ => trivial, fun _ => hmount rfl⟩
    | ticked => exact ⟨fun _ => trivial, fun _ => hmount (by rw [Mounted.onTick_snd])⟩
    | detached =>
      refine ⟨fun _ => trivial, fun _ span hspan => ?_⟩
      rw [Panel.highlight, detach_panel] at hspan
      cases hspan

/-- A panel that was just attached highlights nothing. -/
theorem highlightFits_attach (hattach : attach host settings origin = .ok s) :
    s.HighlightFits s.host := by
  intro span hspan
  cases hm : s.panel.mounted with
  | none =>
    rw [Panel.highlight, hm] at hspan
    cases hspan
  | some m =>
    obtain ⟨_, _, -, -, rfl, -⟩ := attach_mounted hattach hm
    rw [Panel.highlight, hm] at hspan
    cases hspan

/-! ## Input that aims by itself -/

/-- Beside a mounted panel, every event but a tree from outside leaves the tree to the parser. -/
theorem parsed_step (h : ∀ m, s.panel.mounted = some m → s.host.Parsed) {event : Event}
    (hinside : ∀ tree, event ≠ .edit (.setTree tree)) (hstep : s.step event = .ok s') :
    ∀ m, s'.panel.mounted = some m → s'.host.Parsed := by
  have hedit : ∀ {s : Session Editor} {action : Editor.Action}, s.host.Parsed →
      (∀ tree, action ≠ .setTree tree) → s.step (.edit action) = .ok s' → s'.host.Parsed := by
    intro s action hparsed haction hstep
    obtain ⟨u, e, redraw, hact, hhandle⟩ := step_edit_eq_ok.1 hstep
    obtain ⟨mark, hhost⟩ := handle_update_host hhandle
    have hparsed' : e.Parsed := hparsed.act haction hact
    rw [hhost]
    exact hparsed'
  intro m' hm'
  cases hm : s.panel.mounted with
  | none =>
    rw [step_unmounted hm hstep] at hm'
    cases hm'
  | some m =>
    have hparsed := h m hm
    cases stepped_of_step hm hstep with
    | edited hacted => exact hedit hparsed (fun tree heq => hinside tree (by rw [heq])) hacted
    | @answered input hovered t _ _ hsent =>
      have hsend : ∀ tree, Editor.Action.dispatch t ≠ .setTree tree := fun tree heq => by cases heq
      exact hedit (s := s.mount { m with hovered := hovered }) hparsed hsend hsent
    | scrolled => exact hparsed
    | ticked => exact hparsed
    | detached =>
      rw [detach_panel] at hm'
      cases hm'

/-- Input at rows in the text asks to highlight nothing beyond the text. -/
theorem aims_of_rows (hrows : ∀ m, s.panel.mounted = some m →
      ∀ row ∈ m.outline.rows, row.span.stop ≤ s.host.document.length)
    {input : Input} (hnode : ∀ span, input ≠ .atRow (.hoverSpan span)) :
    s.Aims (.input input) := by
  intro t ht effect heffect span hspan
  obtain ⟨m, m', hm, hin⟩ := mem_transactions_input.1 ht
  rcases Mounted.effect_of_onInput hin effect heffect span hspan with hinput | ⟨row, hrow, rfl⟩
  · exact absurd hinput (hnode span)
  · exact hrows m hm row hrow

/-- As long as nobody puts in a tree from outside, all input but the highlighting of a given node
asks to highlight nothing beyond the text. -/
theorem always_aims {held : List Snapshot} (hparsed : ∀ m, s.panel.mounted = some m → s.host.Parsed)
    (hsynced : Feed.Synced settings ⟨s, [], held⟩) {events : List Event}
    (hinside : ∀ event ∈ events, ∀ tree, event ≠ .edit (.setTree tree)) :
    s.Always (fun s => ∀ input, (∀ span, input ≠ .atRow (.hoverSpan span)) →
      s.Aims (.input input)) events := by
  have hkept : s.Always (fun s => (∀ m, s.panel.mounted = some m → s.host.Parsed) ∧
      ∃ held, Feed.Synced settings ⟨s, [], held⟩) events := by
    refine always_of_step (fun hs hevent hstep => ?_) ⟨hparsed, held, hsynced⟩ hinside
    obtain ⟨hparsed, held, hsynced⟩ := hs
    refine ⟨parsed_step hparsed hevent hstep, hsynced.live (fun action heq => ?_) hstep⟩
    cases action with
    | setTree tree => exact absurd heq (hevent tree)
    | _ => trivial
  intro done hdone s' hafter input hnode
  obtain ⟨hparsed', held', hsynced'⟩ := hkept done hdone s' hafter
  refine aims_of_rows (fun m hm => ?_) hnode
  obtain ⟨p, -, hhas⟩ := hparsed' m hm
  exact row_stop_le_of_synced hsynced' hhas.fits hm

/-! ## Runs -/

/-- Attach a panel to an editor for a plain text or a JSON text. As long as everybody highlights
only what lies in the text at that time, the highlight and the mark lie in the text all along a run
exactly if each replacement that leaves the selection where it is leaves a text that reaches to the
end of the highlight. And as long as nobody puts in a tree from outside, all input but the
highlighting of a given node does so by itself. A JSON text that is not correct counts as a text
without a tree. -/
theorem highlight_within_iff {text : List Char} {language : Language}
    (hlanguage : language = .plain ∨ language = .json) {maker : Nat} {e : Editor}
    (hopen : Editor.ofText text language maker = .ok e) {selection : Selection}
    {surface : Option Surface} {start : Session Editor}
    (hattach : attach { e with selection := selection, surface := surface } settings origin =
      .ok start) {events : List Event} (hrun : start.run events = .ok s) :
    (start.Throughout Aims events →
      (start.Always HighlightWithin events ↔ start.Throughout (IfStill HighlightFits) events)) ∧
    ((∀ event ∈ events, ∀ tree, event ≠ .edit (.setTree tree)) →
      start.Always (fun s => ∀ input, (∀ span, input ≠ .atRow (.hoverSpan span)) →
        s.Aims (.input input)) events) := by
  obtain ⟨e', hopen', hdocument, hnone, p, hp, hhas⟩ := exists_ofText hlanguage text maker
  cases hopen.symm.trans hopen'
  obtain ⟨host, hhost⟩ :
      ∃ host : Editor, host = { e with selection := selection, surface := surface } := ⟨_, rfl⟩
  have hunmarked : host.decoration = none := by rw [hhost]; exact hnone
  rw [← hhost] at hattach
  constructor
  · intro haims
    have hmark : ∀ {s}, Reachable host settings origin s →
        (s.HighlightWithin ↔ s.HighlightFits s.host) := fun hreach =>
      highlightWithin_iff (hreach.mark_eq hunmarked)
    have hdark := (hmark (.attach hattach)).2 (highlightFits_attach hattach)
    refine always_iff_throughout (I := fun s rest => Reachable host settings origin s ∧
      s.Throughout Aims rest) ?_ ⟨.attach hattach, haims⟩ hdark hrun
    rintro s event rest s' ⟨hreach, hnow, hlater⟩ hwithin hstep
    have hreach' := hreach.step hstep
    refine ⟨⟨hreach', hlater s' (by rw [hstep]; rfl)⟩, ?_⟩
    rw [hmark hreach']
    exact highlightFits_step ((hmark hreach).1 hwithin) hnow hstep
  · intro hinside
    have hparsed : start.host.Parsed := by
      obtain ⟨-, -, surface, hsame⟩ := attach_panel hattach
      rw [hsame, hhost]
      refine ⟨p, hp, ?_⟩
      rw [show e.document.text = text by rw [hdocument]; rfl]
      exact hhas
    have hsynced : Feed.Synced settings ⟨start, [], [e.tree, e.tree]⟩ := by
      have hpossible : e.Possible [e.tree] (.select selection) := trivial
      have hopened :=
        ((Editor.Opened.ofDocument hopen).act hpossible rfl).dress surface e.decoration
      rw [hhost] at hattach
      exact Feed.synced_attach hopened hattach
    exact always_aims (fun _ _ => hparsed) hsynced hinside

/-- A list is hovered, and a line break is put after it. The caret stays before the list, so the
list stays highlighted, in a text that is longer by one. Rows can be hovered without care. -/
theorem highlight_after_insertion :
    ∃ e start s, Editor.ofText ['[', '1', ']'] .json 0 = .ok e ∧
      attach { e with selection := .caret 0, surface := some Editor.defaultSurface } {} ⟨1⟩ =
        .ok start ∧
      start.run [.input (.atRow (.hoverRow 1)), .edit (.replace 3 3 ['\n'])] = .ok s ∧
      s.panel.highlight = some ⟨0, 3, by decide⟩ ∧ s.host.document.length = 4 ∧
      start.Always HighlightWithin
        [.input (.atRow (.hoverRow 1)), .edit (.replace 3 3 ['\n'])] ∧
      s.Aims (.input (.atRow (.hoverRow 2))) := by
  let events : List Event := [.input (.atRow (.hoverRow 1)), .edit (.replace 3 3 ['\n'])]
  let list : Span := ⟨0, 3, by decide⟩
  obtain ⟨⟨e, start, s⟩, hruns, hfacts⟩ := ok_of_toOption (show (Except.toOption (do
      let e ← Editor.ofText ['[', '1', ']'] .json 0
      let start ←
        attach { e with selection := .caret 0, surface := some Editor.defaultSurface } {} ⟨1⟩
      let s ← start.run events
      return (e, start, s))).map (fun r => decide (
        r.2.2.panel.highlight = some list ∧ r.2.2.host.document.length = 4 ∧
        r.2.1.Throughout Aims events ∧
        r.2.1.Throughout (IfStill HighlightFits) events)) = some true by decide +kernel)
  obtain ⟨e, hopen, hrest⟩ := bind_eq_ok.1 hruns
  obtain ⟨start, hattach, hrest⟩ := bind_eq_ok.1 hrest
  obtain ⟨s, hrun, hdone⟩ := bind_eq_ok.1 hrest
  cases hdone
  obtain ⟨hlit, hlength, haims, hfits⟩ := of_decide_eq_true hfacts
  obtain ⟨hiff, hrows⟩ := highlight_within_iff (.inr rfl) hopen hattach hrun
  have hinside : ∀ event ∈ events, ∀ tree, event ≠ .edit (.setTree tree) := by
    simp [events]
  exact ⟨e, start, s, hopen, hattach, hrun, hlit, hlength, (hiff haims).2 hfits,
    hrows hinside events (List.prefix_refl events) s hrun _ (by simp)⟩

/-- All of a text is hovered, and then all but its first letter is deleted. The caret stays before
the first letter, so the highlight stays as well, and ends three characters behind the text. -/
theorem highlight_after_deletion :
    ∃ e start s, Editor.ofText ['a', 'b', 'c', 'd'] .plain 0 = .ok e ∧
      attach e {} ⟨1⟩ = .ok start ∧
      start.Throughout Aims [.input (.atRow (.hoverRow 0)), .edit (.replace 1 4 [])] ∧
      start.run [.input (.atRow (.hoverRow 0)), .edit (.replace 1 4 [])] = .ok s ∧
      s.host.selection = .caret 0 ∧ s.panel.highlight = some ⟨0, 4, by decide⟩ ∧
      s.host.decoration = some ⟨0, 4, by decide⟩ ∧ s.host.document.length = 1 := by
  let events : List Event := [.input (.atRow (.hoverRow 0)), .edit (.replace 1 4 [])]
  let whole : Span := ⟨0, 4, by decide⟩
  obtain ⟨⟨e, start, s⟩, hruns, hfacts⟩ := ok_of_toOption (show (Except.toOption (do
      let e ← Editor.ofText ['a', 'b', 'c', 'd'] .plain 0
      let start ← attach e {} ⟨1⟩
      let s ← start.run events
      return (e, start, s))).map (fun r => decide (r.2.1.Throughout Aims events ∧
        r.2.2.host.selection = .caret 0 ∧ r.2.2.panel.highlight = some whole ∧
        r.2.2.host.decoration = some whole ∧ r.2.2.host.document.length = 1)) =
          some true by decide +kernel)
  obtain ⟨e, hopen, hrest⟩ := bind_eq_ok.1 hruns
  obtain ⟨start, hattach, hrest⟩ := bind_eq_ok.1 hrest
  obtain ⟨s, hrun, hdone⟩ := bind_eq_ok.1 hrest
  cases hdone
  obtain ⟨haims, hcaret, hlit, hmark, hlength⟩ := of_decide_eq_true hfacts
  exact ⟨e, start, s, hopen, hattach, haims, hrun, hcaret, hlit, hmark, hlength⟩

end Session

end TreePanel
