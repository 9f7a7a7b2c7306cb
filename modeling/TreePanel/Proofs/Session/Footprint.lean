import TreePanel.Proofs.Session.Loop
import TreePanel.Proofs.Session.Run

/-!
# What a panel does to its editor

A panel has two ways to change its editor: it sends transactions, and it lets the mark follow the
highlight. What it sends is either the selection of a span that was clicked, under its own tag and
without effects, or one effect on the highlight and nothing else (`Panel.Sends`). The first is sent
exactly when a span was clicked (`Panel.clicked?`): a row that exists, a node, or a point that lies
on a row. Updates and ticks move the mark alone.

`Session.Footprint` says what one message does to the editor. `handle_footprint` is the step, and
`footprint_of_handleAll` follows the messages of a whole run. A message that ends in a fault may
have sent its transaction before; `Loop.sends` covers that as well, and beside any editor.
-/

namespace TreePanel

namespace Mounted

variable {m m' : Mounted} {origin : Origin} {input : Input} {command : Option Command}

/-! ## What was clicked -/

/-- The span of a row, if there is such a row. -/
def spanOf? (m : Mounted) (index : Nat) : Option Span := (m.outline.row? index).map (·.span)

/-- The span that input clicks on, if any. -/
def clicked? (m : Mounted) : Input → Option Span
  | .atRow (.clickRow index) => m.spanOf? index
  | .atRow (.clickSpan span) => some span
  | .pressed x y => (m.rowAt x y).toOption.join.bind m.spanOf?
  | .atRow (.hoverRow _) | .atRow (.hoverSpan _) | .atRow .leave | .atRow (.scroll _)
  | .moved _ _ => none

/-- Clicking a row selects its span. -/
theorem clickRow_eq (m : Mounted) (origin : Origin) (index : Nat) :
    m.clickRow origin index = (m.spanOf? index).map (selectCommand · origin) := by
  rw [clickRow, spanOf?, Option.map_map]
  rfl

/-- A click is answered by selecting the span that was clicked, if any, and by nothing else. -/
theorem command_of_isClick (h : m.onInput origin input = .ok (command, m'))
    (hclick : input.isClick = true) :
    command = (m.clicked? input).map (selectCommand · origin) := by
  cases input with
  | atRow rowInput =>
    cases rowInput with
    | clickRow index =>
      have hcommand : m.clickRow origin index = command := congrArg Prod.fst (Except.ok.inj h)
      rw [← hcommand, clickRow_eq]
      rfl
    | clickSpan span => exact (congrArg Prod.fst (Except.ok.inj h)).symm
    | _ => cases hclick
  | moved x y => cases hclick
  | pressed x y =>
    -- Pressing starts over with a click on the row under the point.
    obtain ⟨resolved, hresolve, hreact⟩ := bind_eq_ok.1 h
    obtain ⟨row?, hat, hrow⟩ := bind_eq_ok.1 hresolve
    cases hrow
    rw [clicked?, hat]
    cases row? with
    | none => exact (congrArg Prod.fst (Except.ok.inj hreact)).symm
    | some index =>
      have hcommand : m.clickRow origin index = command :=
        congrArg Prod.fst (Except.ok.inj hreact)
      rw [← hcommand, clickRow_eq]
      rfl

/-- Nothing is clicked by other input than clicks. -/
theorem clicked?_of_not_isClick (m : Mounted) (h : input.isClick = false) :
    m.clicked? input = none := by
  cases input with
  | atRow rowInput =>
    cases rowInput with
    | clickRow index => cases h
    | clickSpan span => cases h
    | _ => rfl
  | moved x y => rfl
  | pressed x y => cases h

/-- Nothing is clicked by input that the panel cannot deal with. -/
theorem clicked?_of_error {fault : Fault} (h : m.onInput origin input = .error fault) :
    m.clicked? input = none := by
  cases input with
  | atRow rowInput =>
    cases rowInput with
    | clickRow index => cases h
    | clickSpan span => cases h
    | _ => rfl
  | moved x y => rfl
  | pressed x y =>
    -- Only the point can be at fault: once the row is known, a click succeeds.
    have hat : m.rowAt x y = .error fault := by
      cases hat : m.rowAt x y with
      | error other =>
        simpa [onInput, resolve, hat, bind, Except.bind] using h
      | ok row? =>
        cases row? <;>
          simp [onInput, resolve, hat, onRowInput, bind, Except.bind, pure, Except.pure] at h
    rw [clicked?, hat]
    rfl

/-- Input is answered by selecting what was clicked, if anything was. If nothing was, the answer may
also be a paint or one effect on the highlight. -/
theorem command_of_onInput (h : m.onInput origin input = .ok (command, m')) :
    command = (m.clicked? input).map (selectCommand · origin) ∨
      m.clicked? input = none ∧
        (command = some .redraw ∨ ∃ effect, command = some (.dispatch (.highlight effect))) := by
  cases hclick : input.isClick with
  | true => exact .inl (command_of_isClick h hclick)
  | false =>
    have hnone := m.clicked?_of_not_isClick hclick
    rw [hnone]
    cases onInput_answer h with
    | ignored => exact .inl rfl
    | @scrolled lines viewport wheel moved =>
      by_cases hoffset : viewport.offset = m.viewport.offset
      · exact .inl (if_pos hoffset)
      · exact .inr ⟨rfl, .inl (if_neg hoffset)⟩
    | @lit effect hovered hover => exact .inr ⟨rfl, .inr ⟨effect, rfl⟩⟩
    | selected click clicked =>
      rw [hclick] at click
      cases click

end Mounted

/-! ## What is sent -/

/-- A transaction as a panel with the given tag sends it: it selects a span from its start to its
end under the tag of the panel, or has one effect on the highlight, and does nothing else. -/
def Transaction.OfPanel (origin : Origin) (t : Transaction) : Prop :=
  (∃ span : Span, t = ⟨[], some (.single ⟨span.start, span.stop⟩), some origin⟩) ∨
    ∃ effect, t = ⟨[effect], none, none⟩

namespace Panel

variable {p p' : Panel} {lineAt : Nat → Except Fault Line} {message : Message} {t : Transaction}
  {sent : List Transaction}

/-- The span that a message clicks on, if any. -/
def clicked? (p : Panel) : Message → Option Span
  | .input input => p.mounted.bind (·.clicked? input)
  | .update _ | .tick => none

/-- Nothing is clicked on a panel that is not mounted. -/
theorem clicked?_of_unmounted (hm : p.mounted = none) (message : Message) :
    p.clicked? message = none := by
  cases message with
  | input input => rw [clicked?, hm]; rfl
  | update u => rfl
  | tick => rfl

/-- Input on a mounted panel clicks on what it clicks on there. -/
theorem clicked?_of_mounted {m : Mounted} (hm : p.mounted = some m) (input : Input) :
    p.clicked? (.input input) = m.clicked? input := by
  rw [clicked?, hm]
  rfl

/-- What a panel sends when it is given a message. -/
inductive Sends (p : Panel) (message : Message) : List Transaction → Prop where
  /-- The selection of the span that was clicked, under the tag of the panel. -/
  | select (span : Span) : p.clicked? message = some span →
      Sends p message [⟨[], some (.single ⟨span.start, span.stop⟩), some p.origin⟩]
  /-- One effect on the highlight. -/
  | highlight (effect : Effect) :
      p.clicked? message = none → Sends p message [⟨[effect], none, none⟩]
  /-- Nothing. -/
  | nothing : p.clicked? message = none → Sends p message []

/-- All that a panel sends is of its own two kinds. -/
theorem Sends.ofPanel (h : p.Sends message sent) : ∀ t ∈ sent, t.OfPanel p.origin := by
  intro t ht
  cases h with
  | select span => exact .inl ⟨span, List.mem_singleton.1 ht⟩
  | highlight effect => exact .inr ⟨effect, List.mem_singleton.1 ht⟩
  | nothing => cases ht

/-- The one transaction that a panel sends selects what was clicked, and nothing if nothing was. -/
theorem Sends.selection (h : p.Sends message [t]) :
    t.selection = (p.clicked? message).map fun span => .single ⟨span.start, span.stop⟩ := by
  cases h with
  | select span hclicked => rw [hclicked]; rfl
  | highlight effect hclicked => rw [hclicked]; rfl

/-- The command of a reaction sends what a panel sends. -/
theorem react_sends {command : Option Command}
    (h : p.react lineAt message = .ok (command, p')) :
    p.Sends message (Command.transactionsAll command.toList) := by
  cases reaction_of_react h with
  | unmounted hm => exact .nothing (clicked?_of_unmounted hm message)
  | update hm hreact =>
    rw [Mounted.onUpdate_transactions hreact]
    exact .nothing rfl
  | tick hm =>
    rw [Mounted.onTick_transactions]
    exact .nothing rfl
  | @input m m' input _ hm hreact =>
    have hclicked := clicked?_of_mounted hm input
    rcases Mounted.command_of_onInput hreact with rfl | ⟨hnone, rfl | ⟨effect, rfl⟩⟩
    · cases hspan : m.clicked? input with
      | none => exact .nothing (hclicked.trans hspan)
      | some span => exact .select span (hclicked.trans hspan)
    · exact .nothing (hclicked.trans hnone)
    · exact .highlight effect (hclicked.trans hnone)

/-- Nothing is clicked by a message that the panel cannot deal with. -/
theorem clicked?_of_error {fault : Fault} (h : p.react lineAt message = .error fault) :
    p.clicked? message = none := by
  cases hm : p.mounted with
  | none => exact clicked?_of_unmounted hm message
  | some m =>
    cases message with
    | input input =>
      rw [clicked?_of_mounted hm]
      unfold react at h
      rw [hm] at h
      rcases bind_eq_error.1 h with hreaction | ⟨_, -, hdone⟩
      · exact Mounted.clicked?_of_error hreaction
      · cases hdone
    | update u => rfl
    | tick => rfl

end Panel

namespace Session

/-- Handling a message sends what a panel sends, beside any editor, and also if it ends in a
fault. -/
theorem Loop.sends {σ : Type} [EditorHost σ] {s : Session σ} {message : Message} {turns : List Turn}
    {result : Except Fault (Outcome σ)} (h : Loop ⟨s, false, [message]⟩ turns result) :
    s.panel.Sends message (turns.flatMap Turn.transactions) := by
  cases h with
  | empty hinbox => cases hinbox
  | fault hinbox htake =>
    cases hinbox
    -- A command that was found is carried out without fault.
    rcases bind_eq_error.1 htake with hreact | ⟨⟨command, panel⟩, -, hperform⟩
    · exact .nothing (Panel.clicked?_of_error hreact)
    · cases command <;> cases hperform
  | @turn _ o' _ _ command panel rest _ hinbox hreact htake hrest =>
    cases hinbox
    obtain ⟨_, _, updates, -, hupdates, -⟩ := inbox_take htake
    -- Only updates are left to be taken, and they grant nothing.
    have hnone : rest.flatMap Turn.transactions = [] := by
      have hle := hrest.length_transactions_le
      rw [hupdates, granted_append_updates] at hle
      exact List.eq_nil_of_length_eq_zero (Nat.le_zero.1 hle)
    rw [List.flatMap_cons, hnone, List.append_nil]
    exact Panel.react_sends hreact

variable {s s' : Session Editor} {message : Message} {redraw : Bool} {t : Transaction}

/-! ## One message -/

/-- What handling a message does to an editor. -/
structure Footprint (s : Session Editor) (message : Message) (s' : Session Editor) : Prop where
  /-- The document stays, with its text and its revision. -/
  document : s'.host.document = s.host.document
  /-- The tree stays the same snapshot. -/
  tree : s'.host.tree = s.host.tree
  /-- The surface stays. -/
  surface : s'.host.surface = s.host.surface
  /-- The selection becomes the span that was clicked, and stays if none was. -/
  selection : s'.host.selection =
    ((s.panel.clicked? message).map fun span => .single ⟨span.start, span.stop⟩).getD
      s.host.selection
  /-- The editor is sent what a panel sends. -/
  sent : ∃ sent, s'.host.sent = s.host.sent ++ sent ∧ s.panel.Sends message sent
  /-- Without input, nothing changes but the mark. -/
  quiet : (∀ input, message ≠ .input input) → ∃ mark, s'.host = { s.host with decoration := mark }

/-- A message that moves the mark alone, and clicks on nothing. -/
theorem Footprint.of_mark (hclicked : s.panel.clicked? message = none)
    (h : ∃ mark, s'.host = { s.host with decoration := mark }) : Footprint s message s' := by
  obtain ⟨mark, hhost⟩ := h
  exact {
    document := by rw [hhost]
    tree := by rw [hhost]
    surface := by rw [hhost]
    selection := by rw [hhost, hclicked]; rfl
    sent := ⟨[], by rw [hhost, List.append_nil], .nothing hclicked⟩
    quiet := fun _ => ⟨mark, hhost⟩ }

/-- Input that sends a transaction and then moves the mark. -/
theorem Footprint.of_dispatch {input : Input} (hsends : s.panel.Sends (.input input) [t])
    (h : ∃ mark, s'.host = { (s.host.dispatch t).2 with decoration := mark }) :
    Footprint s (.input input) s' := by
  obtain ⟨mark, hhost⟩ := h
  exact {
    document := by rw [hhost]; rfl
    tree := by rw [hhost]; rfl
    surface := by rw [hhost]; rfl
    selection := by
      rw [hhost, ← hsends.selection]
      rfl
    sent := ⟨[t], by rw [hhost]; rfl, hsends⟩
    quiet := fun hquiet => absurd rfl (hquiet input) }

/-- An update moves the mark alone. -/
theorem handle_update_host {u : Update} (h : s.handle (.update u) = .ok (redraw, s')) :
    ∃ mark, s'.host = { s.host with decoration := mark } := by
  cases hm : s.panel.mounted with
  | none =>
    rw [handle_unmounted hm] at h
    cases h
    exact ⟨s.host.decoration, rfl⟩
  | some m =>
    rcases handle_update_cases hm h with ⟨-, rfl⟩ | ⟨-, outline, -, rfl⟩
    · exact remark_eq s.host m.highlight (m.keep u).highlight
    · exact remark_eq s.host m.highlight (m.renew u outline).highlight

/-- What input does to an editor. -/
theorem handle_input_footprint {m : Mounted} (hm : s.panel.mounted = some m) {input : Input}
    (h : s.handle (.input input) = .ok (redraw, s')) : Footprint s (.input input) s' := by
  have hclicked := Panel.clicked?_of_mounted hm input
  cases hin : m.onInput s.panel.origin input with
  | error fault =>
    rw [handle_input_error hm hin] at h
    cases h
  | ok reaction =>
    obtain ⟨command, m'⟩ := reaction
    have hquiet : command = none ∨ command = some .redraw → m.clicked? input = none →
        Footprint s (.input input) s' := by
      intro hquiet hnone
      rw [handle_input_quiet hm hquiet hin] at h
      cases h
      exact Footprint.of_mark (hclicked.trans hnone) ⟨s.host.decoration, rfl⟩
    have hsent : ∀ t, command = some (.dispatch t) → s.panel.Sends (.input input) [t] →
        Footprint s (.input input) s' := by
      rintro t rfl hsends
      rw [handle_input_dispatch hm hin] at h
      -- The editor answers with an update, and the panel takes it before it is done.
      exact Footprint.of_dispatch hsends
        (handle_update_host (s := { s.mount m' with host := (s.host.dispatch t).2 }) h)
    rcases Mounted.command_of_onInput hin with rfl | ⟨hnone, hredraw | ⟨effect, hlit⟩⟩
    · cases hspan : m.clicked? input with
      | none => exact hquiet (.inl (by rw [hspan]; rfl)) hspan
      | some span => exact hsent _ (by rw [hspan]; rfl) (.select span (hclicked.trans hspan))
    · exact hquiet (.inr hredraw) hnone
    · exact hsent _ hlit (.highlight effect (hclicked.trans hnone))

/-- What a message does to an editor. -/
theorem handle_footprint (h : s.handle message = .ok (redraw, s')) : Footprint s message s' := by
  cases hm : s.panel.mounted with
  | none =>
    rw [handle_unmounted hm] at h
    cases h
    exact Footprint.of_mark (Panel.clicked?_of_unmounted hm message) ⟨s.host.decoration, rfl⟩
  | some m =>
    cases message with
    | update u => exact Footprint.of_mark rfl (handle_update_host h)
    | input input => exact handle_input_footprint hm h
    | tick =>
      rw [handle_tick hm] at h
      cases h
      exact Footprint.of_mark rfl ⟨s.host.decoration, rfl⟩

/-! ## A run -/

/-- Messages are handled one after the other, so a run may be interrupted anywhere. -/
theorem handleAll_append {before after : List Message} :
    s.handleAll (before ++ after) = .ok s' ↔
      ∃ middle, s.handleAll before = .ok middle ∧ middle.handleAll after = .ok s' := by
  induction before generalizing s with
  | nil => exact ⟨fun h => ⟨s, rfl, h⟩, fun ⟨_, hsame, h⟩ => by cases hsame; exact h⟩
  | cons message rest ih =>
    rw [List.cons_append, handleAll, handleAll, bind_eq_ok]
    constructor
    · rintro ⟨answer, hmessage, hrest⟩
      obtain ⟨middle, hmiddle, hafter⟩ := ih.1 hrest
      exact ⟨middle, bind_eq_ok.2 ⟨answer, hmessage, hmiddle⟩, hafter⟩
    · rintro ⟨middle, hbefore, hafter⟩
      obtain ⟨answer, hmessage, hmiddle⟩ := bind_eq_ok.1 hbefore
      exact ⟨answer, hmessage, ih.2 ⟨middle, hmiddle, hafter⟩⟩

/-- What a run of messages leaves of an editor, and what it sends. -/
theorem kept_of_handleAll {messages : List Message} (h : s.handleAll messages = .ok s') :
    s'.host.document = s.host.document ∧ s'.host.tree = s.host.tree ∧
      s'.host.surface = s.host.surface ∧
      ∃ sent, s'.host.sent = s.host.sent ++ sent ∧ ∀ t ∈ sent, t.OfPanel s.panel.origin := by
  induction messages generalizing s with
  | nil =>
    cases h
    exact ⟨rfl, rfl, rfl, [], (List.append_nil _).symm, nofun⟩
  | cons message rest ih =>
    obtain ⟨⟨redraw, middle⟩, hmessage, hrest⟩ := bind_eq_ok.1 h
    have hstep := handle_footprint hmessage
    obtain ⟨first, hfirst, hsends⟩ := hstep.sent
    obtain ⟨hdocument, htree, hsurface, others, hothers, hkinds⟩ := ih hrest
    -- The panel keeps its tag.
    obtain ⟨mounted, hpanel, -⟩ := handle_panel hmessage
    rw [hpanel] at hkinds
    refine ⟨hdocument.trans hstep.document, htree.trans hstep.tree,
      hsurface.trans hstep.surface, first ++ others, ?_, ?_⟩
    · rw [hothers, hfirst, List.append_assoc]
    · exact List.forall_mem_append.2 ⟨hsends.ofPanel, hkinds⟩

/-- Whatever messages a panel is given, in whatever order, all that it sends to its editor is of two
kinds: the selection of a single span from its start to its end under the panel's own tag and
without effects, or one effect on the highlight without a selection and without a tag. The
document, the tree and the surface of the editor stay as they are. Every message of the run leaves
the footprint of one message: the selection changes only by a click on a row, a node or a point on a
row, and then to what was clicked; and an update or a tick changes nothing but the mark. A message
that ends in a fault after the run sends nothing else either. -/
theorem footprint_of_handleAll {messages : List Message} (h : s.handleAll messages = .ok s') :
    s'.host.document = s.host.document ∧ s'.host.tree = s.host.tree ∧
    s'.host.surface = s.host.surface ∧
    (∃ sent, s'.host.sent = s.host.sent ++ sent ∧ ∀ t ∈ sent, t.OfPanel s.panel.origin) ∧
    (∀ before message after, messages = before ++ message :: after →
      ∃ s₁ redraw s₂, s.handleAll before = .ok s₁ ∧ s₁.handle message = .ok (redraw, s₂) ∧
        s₂.handleAll after = .ok s' ∧ Footprint s₁ message s₂) ∧
    ∀ message turns result, Loop ⟨s', false, [message]⟩ turns result →
      s'.panel.Sends message (turns.flatMap Turn.transactions) := by
  obtain ⟨hdocument, htree, hsurface, hsent⟩ := kept_of_handleAll h
  refine ⟨hdocument, htree, hsurface, hsent, ?_, fun _ _ _ => Loop.sends⟩
  rintro before message after rfl
  obtain ⟨s₁, hbefore, hrest⟩ := handleAll_append.1 h
  obtain ⟨⟨redraw, s₂⟩, hmessage, hafter⟩ := bind_eq_ok.1 hrest
  exact ⟨s₁, redraw, s₂, hbefore, hmessage, hafter, handle_footprint hmessage⟩

/-- A word is hovered, the other one is clicked, and an update comes from nowhere that tells of
another tree and another selection. The editor was sent an effect and a selection; its text is the
same, and it selects the word that was clicked. -/
theorem footprint_of_hover_and_click :
    ∃ start s', attach Editor.twoWords {} ⟨1⟩ = .ok start ∧
      start.handleAll [.input (.atRow (.hoverRow 1)), .input (.atRow (.clickRow 2)),
        .update ⟨⟨⟨9, 9⟩, Editor.twoWords.tree.root⟩, .caret 1, true, true, none,
          [some ⟨1, 2, by decide⟩]⟩, .tick] = .ok s' ∧
      s'.host.document = start.host.document ∧ s'.host.tree = start.host.tree ∧
      s'.host.sent = [⟨[some ⟨0, 2, by decide⟩], none, none⟩,
        ⟨[], some (.single ⟨3, 5⟩), some ⟨1⟩⟩] ∧
      (∀ t ∈ s'.host.sent, t.OfPanel ⟨1⟩) ∧ s'.host.selection = .single ⟨3, 5⟩ ∧
      s'.host.decoration = some ⟨1, 2, by decide⟩ ∧
      ∃ s₁ redraw s₂, start.handleAll [.input (.atRow (.hoverRow 1))] = .ok s₁ ∧
        s₁.handle (.input (.atRow (.clickRow 2))) = .ok (redraw, s₂) ∧
        Footprint s₁ (.input (.atRow (.clickRow 2))) s₂ := by
  let stray : Update := ⟨⟨⟨9, 9⟩, Editor.twoWords.tree.root⟩, .caret 1, true, true, none,
    [some ⟨1, 2, by decide⟩]⟩
  obtain ⟨⟨start, s'⟩, hrun, hfacts⟩ := ok_of_toOption (show (Except.toOption (do
      let start ← attach Editor.twoWords {} ⟨1⟩
      return (start, ← start.handleAll [.input (.atRow (.hoverRow 1)),
        .input (.atRow (.clickRow 2)), .update stray, .tick]))).map
        (fun r => (r.2.host.sent, r.2.host.selection, r.2.host.decoration)) =
        some ([⟨[some ⟨0, 2, by decide⟩], none, none⟩,
          ⟨[], some (.single ⟨3, 5⟩), some ⟨1⟩⟩], .single ⟨3, 5⟩, some ⟨1, 2, by decide⟩) by
    decide +kernel)
  obtain ⟨_, hattach, hrun⟩ := bind_eq_ok.1 hrun
  obtain ⟨_, hall, hdone⟩ := bind_eq_ok.1 hrun
  cases hdone
  simp only [Prod.mk.injEq] at hfacts
  obtain ⟨hsent, hselection, hmark⟩ := hfacts
  obtain ⟨hdocument, htree, -, ⟨sent, happend, hkinds⟩, hsteps, -⟩ := footprint_of_handleAll hall
  obtain ⟨-, horigin, surface, hhost⟩ := attach_panel hattach
  obtain ⟨s₁, redraw, s₂, hbefore, hclick, -, hfoot⟩ := hsteps
    [.input (.atRow (.hoverRow 1))] (.input (.atRow (.clickRow 2))) [.update stray, .tick] rfl
  have hnone : start.host.sent = [] := by rw [hhost]; rfl
  have hall' : ∀ t ∈ s'.host.sent, t.OfPanel ⟨1⟩ := by
    rw [happend, hnone, ← horigin]
    exact hkinds
  exact ⟨start, s', hattach, hall, hdocument, htree, hsent, hall', hselection, hmark,
    s₁, redraw, s₂, hbefore, hclick, hfoot⟩

end Session

end TreePanel
