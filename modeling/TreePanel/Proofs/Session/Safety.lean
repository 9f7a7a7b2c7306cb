import Mathlib.Algebra.Group.Int.Defs
import Mathlib.Algebra.Group.Nat.Defs
import TreePanel.Proofs.Grammar.Nesting
import TreePanel.Proofs.Session.Feed
import TreePanel.Proofs.Session.Footprint
import TreePanel.Proofs.Session.Scrolling

/-!
# Sessions without faults

A panel beside an editor of plain text or JSON never faults, as long as nobody asks for what is not
there (`Safe.step`, `Safe.run`). Selections, replaced ranges and clicked spans lie in the text, and
neither the text nor the rows come near the numbers that the machine can count to
(`Session.Admits`). Nothing is asked of the settings of the panel, of the points at which it is
clicked, or of its surface, so its lengths may be any 32-bit floats.

The invariant joins both sides. In the editor, tree and selection lie in the text, and the parser
has that tree for that text (`Editor.Safe`). Of the panel it is known that it is in step with the
editor and in view of its rows (`Feed.Synced`, `Mounted.Steady`). So its rows stand for nodes of the
editor's own tree, and what a click selects lies in the text.
-/

namespace TreePanel

namespace Editor

/-- Texts have fewer characters than this, and outlines fewer rows. -/
def limit : Nat := 2 ^ 62

/-- What may be done to an editor: offsets lie in the text, and a replacement leaves it small
enough. No tree is put in from outside. -/
def Allows (e : Editor) : Action → Prop
  | .select selection => selection.Within e.document.length
  | .setTree _ => False
  | .replace start stop text =>
    (start ≤ stop ∧ stop ≤ e.document.length) ∧
      e.document.length - (stop - start) + text.length < limit
  | .dispatch t => ∀ selection ∈ t.selection, selection.Within e.document.length
  | .idle => True

instance (e : Editor) : (action : Action) → Decidable (e.Allows action)
  | .select selection => inferInstanceAs (Decidable (selection.Within e.document.length))
  | .setTree _ => inferInstanceAs (Decidable False)
  | .replace _ _ _ => inferInstanceAs (Decidable ((_ ∧ _) ∧ _ < limit))
  | .dispatch t => inferInstanceAs (Decidable (∀ selection ∈ t.selection, selection.Within _))
  | .idle => inferInstanceAs (Decidable True)

/-- The text is small enough, the selection lies in it, and the parser has the tree for it. -/
structure Safe (e : Editor) : Prop where
  /-- The text is small enough. -/
  small : e.document.length < limit
  /-- The selection lies in the text. -/
  selected : e.selection.Within e.document.length
  /-- The parser has the tree for the text. -/
  parsed : ∃ p, e.parser = some p ∧ p.Has e.document.text e.tree

namespace Safe

variable {e : Editor} {action : Action}

/-- The columns of a safe editor can be told. -/
theorem fits (h : e.Safe) : e.document.Fits := by
  have hsmall := h.small
  unfold limit at hsmall
  unfold Document.Fits Count.bound
  omega

/-- The tree of a safe editor lies in the text. -/
theorem tree (h : e.Safe) : e.tree.root.FitsIn e.document.length := by
  obtain ⟨p, -, hhas⟩ := h.parsed
  exact hhas.fits

/-- A safe editor stays so under another mark and on another surface. -/
theorem dress (h : e.Safe) (surface : Option Surface) (mark : Option Span) :
    Editor.Safe { e with surface := surface, decoration := mark } :=
  ⟨h.small, h.selected, h.parsed⟩

/-- A replacement that is allowed can be carried out, and the editor stays safe. -/
theorem replace {start stop : Nat} {text : List Char} (h : e.Safe)
    (hallowed : e.Allows (.replace start stop text)) :
    ∃ u e', e.act (.replace start stop text) = .ok (u, e') ∧ e'.Safe := by
  obtain ⟨hrange, hlimit⟩ := hallowed
  obtain ⟨p, hp, hhas⟩ := h.parsed
  obtain ⟨document, hdocument⟩ : ∃ document, e.document.replace start stop text = .ok document :=
    ⟨_, Document.replace_eq_ok.2 ⟨hrange, rfl⟩⟩
  have hlength := Document.length_replace hdocument
  have hfit : e.document.length - (stop - start) + text.length < Count.bound := by
    unfold limit at hlimit
    unfold Count.bound
    omega
  obtain ⟨tree, p', hparse, hhas'⟩ := hhas.parse document.text
  obtain ⟨selection, hselection, hwithin⟩ := h.selected.moved hrange hfit
  rw [← hlength] at hlimit hwithin
  exact ⟨_, _, replace_eq_ok.2 ⟨document, tree, some p', selection, hdocument,
    .inr ⟨p, p', hp, hparse, rfl⟩, hselection, rfl, rfl⟩, hlimit, hwithin, p', rfl, hhas'⟩

/-- What is allowed can be done, and the editor stays safe. -/
theorem act (h : e.Safe) (hallowed : e.Allows action) :
    ∃ u e', e.act action = .ok (u, e') ∧ e'.Safe := by
  cases action with
  | select selection => exact ⟨_, _, rfl, h.small, hallowed, h.parsed⟩
  | setTree tree => exact hallowed.elim
  | replace start stop text => exact h.replace hallowed
  | dispatch t =>
    refine ⟨_, _, rfl, h.small, ?_, h.parsed⟩
    cases hselection : t.selection with
    | none => simpa [dispatch, hselection] using h.selected
    | some selection => simpa [dispatch, hselection] using hallowed selection hselection
  | idle => exact ⟨_, _, rfl, h⟩

/-- What is allowed puts no other tree in the place of the old one. -/
theorem possible (hallowed : e.Allows action) (held : List Snapshot) : e.Possible held action := by
  cases action with
  | setTree tree => exact hallowed.elim
  | _ => trivial

end Safe

end Editor

namespace Session

variable {settings : Settings} {origin : Origin} {s s' : Session Editor} {m : Mounted}

/-- The rows of the panel can be counted. -/
def Small (s : Session Editor) : Prop := ∀ m ∈ s.panel.mounted, m.outline.length < Editor.limit

instance (s : Session Editor) : Decidable s.Small :=
  inferInstanceAs (Decidable (∀ m ∈ s.panel.mounted, _ < Editor.limit))

/-- What may be done to the panel of a session: a clicked span lies in the text, and the wheel turns
by as many lines as 32 bits count. -/
def AllowsInput (s : Session Editor) : Input → Prop
  | .atRow (.clickSpan span) => span.stop ≤ s.host.document.length
  | .atRow (.scroll lines) => -2 ^ 31 ≤ lines ∧ lines < 2 ^ 31
  | _ => True

instance (s : Session Editor) : (input : Input) → Decidable (s.AllowsInput input)
  | .atRow (.clickSpan span) => inferInstanceAs (Decidable (span.stop ≤ s.host.document.length))
  | .atRow (.scroll lines) => inferInstanceAs (Decidable (-2 ^ 31 ≤ lines ∧ lines < 2 ^ 31))
  | .atRow (.hoverRow _) | .atRow (.hoverSpan _) | .atRow .leave | .atRow (.clickRow _)
  | .moved _ _ | .pressed _ _ => inferInstanceAs (Decidable True)

/-- What may happen to a session. -/
def Allows (s : Session Editor) : Event → Prop
  | .edit action => s.host.Allows action
  | .input input => s.AllowsInput input
  | .tick | .detach => True

instance (s : Session Editor) : (event : Event) → Decidable (s.Allows event)
  | .edit action => inferInstanceAs (Decidable (s.host.Allows action))
  | .input input => inferInstanceAs (Decidable (s.AllowsInput input))
  | .tick | .detach => inferInstanceAs (Decidable True)

/-- What may happen to a session one after the other: each event is allowed when it comes, and the
rows can be counted until then. -/
def Admits (s : Session Editor) : List Event → Prop
  | [] => True
  | event :: rest => s.Small ∧ s.Allows event ∧ ∀ s' ∈ (s.step event).toOption, s'.Admits rest

/-- Whether a session admits a run is decided by going through it. -/
instance decidableAdmits (s : Session Editor) : (events : List Event) → Decidable (s.Admits events)
  | [] => inferInstanceAs (Decidable True)
  | event :: rest =>
    have : DecidablePred fun s' : Session Editor => s'.Admits rest :=
      fun s' => decidableAdmits s' rest
    inferInstanceAs (Decidable (s.Small ∧ s.Allows event ∧
      ∀ s' ∈ (s.step event).toOption, s'.Admits rest))

/-- The editor is safe, and the panel beside it is in step and was reached by handling messages. -/
structure Safe (settings : Settings) (origin : Origin) (s : Session Editor) : Prop where
  /-- The editor is safe. -/
  editor : s.host.Safe
  /-- The panel is in step. -/
  synced : ∃ held, Feed.Synced settings ⟨s, [], held⟩
  /-- The panel handled messages since it was attached. -/
  reached : ∃ host, Reachable host settings origin s

/-- An outline of an editor's tree and selection can be made if the editor is safe. -/
theorem render_isOk_of_safe {e : Editor} (h : e.Safe) (settings : Settings) :
    ∃ outline, Outline.render e.tree.root e.selection e.lineAt settings = .ok outline :=
  Outline.render_isOk h.fits fun _ r hr => (h.selected r hr).2

/-- Whatever is allowed to be done to a safe editor can be done, and the panel can handle it. -/
theorem edit_isOk (h : s.host.Safe) {action : Editor.Action} (hallowed : s.host.Allows action) :
    ∃ s', s.step (.edit action) = .ok s' ∧ s'.host.Safe := by
  obtain ⟨u, e, hact, hsafe⟩ := h.act hallowed
  obtain ⟨htree, hselection, -⟩ := Editor.act_update hact
  obtain ⟨redraw, s', hhandle⟩ : ∃ redraw s',
      Session.handle { s with host := e } (.update u) = .ok (redraw, s') := by
    apply handle_update_isOk
    rw [htree, hselection]
    exact render_isOk_of_safe hsafe s.panel.settings
  obtain ⟨mark, hhost⟩ := handle_update_host hhandle
  refine ⟨s', step_edit_eq_ok.2 ⟨u, e, redraw, hact, hhandle⟩, ?_⟩
  rw [hhost]
  exact hsafe.dress e.surface mark

/-- The rows of a panel in step lie in the text if the tree does. -/
theorem row_stop_le_of_synced {held : List Snapshot} (hsynced : Feed.Synced settings ⟨s, [], held⟩)
    (htree : s.host.tree.root.FitsIn s.host.document.length) (hm : s.panel.mounted = some m) :
    ∀ row ∈ m.outline.rows, row.span.stop ≤ s.host.document.length := by
  obtain ⟨tree, selection, htracks⟩ := hsynced.tracks m hm
  -- Every row stands for a node of the editor's tree, and all of them lie in the root.
  have hchild : ∀ n : Node, n.FitsIn s.host.document.length →
      ∀ child ∈ n.children, child.FitsIn s.host.document.length := by
    rintro n ⟨⟨hin, hnested⟩, hstop⟩ child hc
    exact ⟨hnested child hc, Nat.le_trans (Span.contains_iff.1 (hin child hc)).2 hstop⟩
  intro row hrow
  rw [htracks.drawn, ← htracks.leads.1] at hrow
  obtain ⟨n, hn, hspan⟩ := Outline.exists_node_of_mem htree hchild row hrow
  rw [hspan]
  exact hn.2

/-- The rows of a safe session lie in the text. -/
theorem Safe.row_stop_le (h : Safe settings origin s) (hm : s.panel.mounted = some m) :
    ∀ row ∈ m.outline.rows, row.span.stop ≤ s.host.document.length := by
  obtain ⟨held, hsynced⟩ := h.synced
  exact row_stop_le_of_synced hsynced h.editor.tree hm

/-- Whatever input is allowed can be handled. -/
theorem input_isOk (h : Safe settings origin s) (hsmall : s.Small) {input : Input}
    (hallowed : s.Allows (.input input)) :
    ∃ s', s.step (.input input) = .ok s' ∧ s'.host.Safe := by
  obtain ⟨redraw, s', hhandle, hsafe⟩ : ∃ redraw s', s.handle (.input input) = .ok (redraw, s') ∧
      s'.host.Safe := by
    cases hm : s.panel.mounted with
    | none => exact ⟨_, _, handle_unmounted hm _, h.editor⟩
    | some m =>
      obtain ⟨host, hreached⟩ := h.reached
      have hrows := hsmall m hm
      unfold Editor.limit at hrows
      have hwheel : ∀ lines, input = .atRow (.scroll lines) →
          m.outline.length + lines.toNat < Count.bound := by
        rintro lines rfl
        have hlines : lines < 2 ^ 31 := hallowed.2
        unfold Count.bound
        omega
      obtain ⟨⟨command, m'⟩, hin⟩ : ∃ reaction, m.onInput s.panel.origin input = .ok reaction :=
        Mounted.onInput_isOk (hreached.steady hm).inView
          (Nat.le_of_lt (Nat.lt_trans hrows (by decide))) hwheel
      -- A transaction is an action of its own, so its answer is handled as any update is.
      have hsend : ∀ m' t, s.host.Allows (.dispatch t) →
          ∃ redraw s', (s.mount m').send t = .ok (redraw, s') ∧ s'.host.Safe := by
        intro m' t ht
        obtain ⟨s', hstep, hsafe⟩ := edit_isOk (s := s.mount m') h.editor ht
        rw [step_dispatch] at hstep
        obtain ⟨⟨redraw, _⟩, hsent, rfl⟩ := map_eq_ok.1 hstep
        exact ⟨redraw, _, hsent, hsafe⟩
      cases Mounted.onInput_answer hin with
      | ignored => exact ⟨_, _, handle_input_quiet hm (.inl rfl) hin, h.editor⟩
      | scrolled wheel hmoved =>
        split at hin
        · exact ⟨_, _, handle_input_quiet hm (.inl rfl) hin, h.editor⟩
        · exact ⟨_, _, handle_input_quiet hm (.inr rfl) hin, h.editor⟩
      | lit hover =>
        rw [handle_input_dispatch hm hin]
        exact hsend _ _ fun selection hselection => nomatch hselection
      | @selected span click clicked =>
        -- A clicked row lies in the text, and a clicked node was asked to.
        have hstop : span.stop ≤ s.host.document.length := by
          rcases clicked with rfl | ⟨row, hrow, rfl⟩
          · exact hallowed
          · exact h.row_stop_le hm row hrow
        rw [handle_input_dispatch hm hin]
        refine hsend _ _ fun selection hselection r hr => ?_
        cases hselection
        rw [List.mem_singleton.1 hr]
        exact ⟨Nat.le_trans span.ordered hstop, hstop⟩
  exact ⟨s', step_input_eq_ok.2 ⟨redraw, hhandle⟩, hsafe⟩

/-- Whatever may happen to a safe session can happen, and the session stays safe. -/
theorem Safe.step (h : Safe settings origin s) (hsmall : s.Small) {event : Event}
    (hallowed : s.Allows event) : ∃ s', s.step event = .ok s' ∧ Safe settings origin s' := by
  obtain ⟨s', hstep, hsafe⟩ : ∃ s', s.step event = .ok s' ∧ s'.host.Safe := by
    cases event with
    | edit action => exact edit_isOk h.editor hallowed
    | input input => exact input_isOk h hsmall hallowed
    | tick =>
      cases hm : s.panel.mounted with
      | none => exact ⟨_, step_tick_eq_ok.2 ⟨_, handle_unmounted hm _⟩, h.editor⟩
      | some m => exact ⟨_, step_tick_eq_ok.2 ⟨_, handle_tick hm⟩, h.editor⟩
    | detach =>
      obtain ⟨surface, mark, hhost⟩ := detach_host s
      refine ⟨s.detach, rfl, ?_⟩
      rw [hhost]
      exact h.editor.dress surface mark
  obtain ⟨held, hsynced⟩ := h.synced
  obtain ⟨host, hreached⟩ := h.reached
  refine ⟨s', hstep, hsafe, hsynced.live (fun action heq => ?_) hstep, host, hreached.step hstep⟩
  subst heq
  exact Editor.Safe.possible hallowed held

/-- A safe session goes through all that it admits. -/
theorem Safe.run (h : Safe settings origin s) {events : List Event} (hadmits : s.Admits events) :
    ∃ s', s.run events = .ok s' := by
  induction events generalizing s with
  | nil => exact ⟨s, rfl⟩
  | cons event rest ih =>
    obtain ⟨hsmall, hallowed, hrest⟩ := hadmits
    obtain ⟨next, hstep, hsafe⟩ := h.step hsmall hallowed
    obtain ⟨s', hrun⟩ := ih hsafe (hrest next (by rw [hstep]; rfl))
    exact ⟨s', bind_eq_ok.2 ⟨next, hstep, hrun⟩⟩

/-! ## Opening and attaching -/

/-- A text can be opened as plain text or as JSON. The editor has a parser with the tree for the
text, and no mark. -/
theorem exists_ofText {language : Language} (hlanguage : language = .plain ∨ language = .json)
    (text : List Char) (maker : Nat) :
    ∃ e, Editor.ofText text language maker = .ok e ∧ e.document = .ofText text language ∧
      e.decoration = none ∧ ∃ p, e.parser = some p ∧ p.Has text e.tree := by
  have hnests : ∀ g, (Parser.new language maker).grammar = some g → g.Nests := by
    rintro g hg
    rcases hlanguage with rfl | rfl
    · cases hg
    · cases hg
      exact Grammar.json_nests
  obtain ⟨tree, p, hparse, hhas⟩ : ∃ tree p, (Parser.new language maker).parse text =
      .ok (tree, p) ∧ p.Has text tree := Parser.parse_isOk hnests rfl
  exact ⟨_, bind_eq_ok.2 ⟨_, hparse, rfl⟩, rfl, rfl, p, rfl, hhas⟩

/-- An editor for a text is safe with a selection in the text. -/
theorem ofText_isOk {text : List Char} {language : Language}
    (hlanguage : language = .plain ∨ language = .json) (hsmall : text.length < Editor.limit)
    (maker : Nat) {selection : Selection} (hselection : selection.Within text.length) :
    ∃ e, Editor.ofText text language maker = .ok e ∧
      Editor.Safe { e with selection := selection } := by
  obtain ⟨e, hopen, hdocument, -, p, hp, hhas⟩ := exists_ofText hlanguage text maker
  have htext : e.document.text = text := by rw [hdocument]; rfl
  have hlength : e.document.length = text.length := congrArg List.length htext
  rw [← hlength] at hsmall hselection
  rw [← htext] at hhas
  exact ⟨e, hopen, hsmall, hselection, p, hp, hhas⟩

/-- A panel can be attached to a safe editor, and the session is safe. -/
theorem attach_isOk {e : Editor} (h : e.Safe) {held : List Snapshot} (hopened : e.Opened held)
    (settings : Settings) (origin : Origin) :
    ∃ s, attach e settings origin = .ok s ∧ Safe settings origin s := by
  obtain ⟨s, hattach⟩ : ∃ s, attach e settings origin = .ok s := by
    unfold attach
    split
    · exact ⟨_, rfl⟩
    · obtain ⟨outline, hr⟩ := render_isOk_of_safe h settings
      exact ⟨_, bind_eq_ok.2 ⟨outline, hr, rfl⟩⟩
  obtain ⟨-, -, surface, hhost⟩ := attach_panel hattach
  refine ⟨s, hattach, ?_, ⟨held, Feed.synced_attach hopened hattach⟩, e, .attach hattach⟩
  rw [hhost]
  exact h.dress surface e.decoration

/-- Open a plain text or a JSON text and attach a panel to it, with any settings and on any surface.
Neither faults, and neither does anything that may happen to the session afterwards. -/
theorem run_isOk {text : List Char} {language : Language}
    (hlanguage : language = .plain ∨ language = .json) (hsmall : text.length < Editor.limit)
    {selection : Selection} (hselection : selection.Within text.length) (maker : Nat)
    (surface : Option Surface) (settings : Settings) (origin : Origin) :
    ∃ e s, Editor.ofText text language maker = .ok e ∧
      attach { e with selection := selection, surface := surface } settings origin = .ok s ∧
      ∀ events, s.Admits events → ∃ s', s.run events = .ok s' := by
  obtain ⟨e, hopen, hsafe⟩ := ofText_isOk hlanguage hsmall maker hselection
  have hpossible : e.Possible [e.tree] (.select selection) := trivial
  have hopened := ((Editor.Opened.ofDocument hopen).act hpossible rfl).dress surface e.decoration
  obtain ⟨s, hattach, hs⟩ :=
    attach_isOk (hsafe.dress surface e.decoration) hopened settings origin
  exact ⟨e, s, hopen, hattach, fun events hadmits => hs.run hadmits⟩

/-- A list is edited and used with rows of the smallest height there is, in a panel whose size is no
number. -/
theorem run_with_smallest_rows :
    ∃ e s, Editor.ofText ['[', '1', ']'] .json 0 = .ok e ∧
      attach { e with selection := .caret 3, surface := some Editor.defaultSurface }
        ⟨.bottom, Float32.ofBits 0x7fc00000, 2, Float32.ofBits 1, true, true⟩ ⟨1⟩ = .ok s ∧
      ∃ s', s.run [.edit (.replace 2 2 [',', '\n', '2']), .input (.atRow (.clickRow 3)),
        .input (.pressed (Float32.ofBits 0) (Float32.ofBits 0x44440000)),
        .input (.atRow (.scroll 2147483647)), .edit (.select ⟨.caret 6, [⟨2, 0⟩]⟩), .tick,
        .detach] = .ok s' := by
  let settings : Settings :=
    ⟨.bottom, Float32.ofBits 0x7fc00000, 2, Float32.ofBits 1, true, true⟩
  let events : List Event := [.edit (.replace 2 2 [',', '\n', '2']),
    .input (.atRow (.clickRow 3)), .input (.pressed (Float32.ofBits 0) (Float32.ofBits 0x44440000)),
    .input (.atRow (.scroll 2147483647)), .edit (.select ⟨.caret 6, [⟨2, 0⟩]⟩), .tick, .detach]
  obtain ⟨e, s, hopen, hattach, hrun⟩ := run_isOk (.inr rfl) (by decide)
    (show (Selection.caret 3).Within ['[', '1', ']'].length by decide) 0
    (some Editor.defaultSurface) settings ⟨1⟩
  refine ⟨e, s, hopen, hattach, hrun events ?_⟩
  obtain ⟨s', hsame, hadmits⟩ := ok_of_toOption (show (Except.toOption (do
      let e ← Editor.ofText ['[', '1', ']'] .json 0
      attach { e with selection := .caret 3, surface := some Editor.defaultSurface } settings
        ⟨1⟩)).map (fun s => decide (s.Admits events)) = some true by decide +kernel)
  rw [hopen] at hsame
  cases hattach.symm.trans hsame
  exact of_decide_eq_true hadmits

end Session

end TreePanel
