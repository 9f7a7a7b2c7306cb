import TreePanel.Panel.Session
import TreePanel.Proofs.Fault

/-!
# What one message does

`Session.handle` runs a loop over an inbox, and the panel's reactions go through commands that may
be batched. Here both are resolved once. `handle_update`, `handle_tick` and three lemmas on input
(`handle_input_error`, `handle_input_quiet`, `handle_input_dispatch`) say what the session is
afterwards, without inbox and commands, and every later proof about sessions starts from them.

An update either leaves the outline alone (`Mounted.keep`) or brings another one
(`Mounted.renew`); in both cases the editor's mark follows the highlight. Input is ignored, scrolls,
or sends one transaction (`Mounted.Answer`), and the update that answers the transaction is taken
at once (`Session.send`). What a panel does that is not in a session is in `Panel.Reaction`.
-/

namespace TreePanel

namespace Input

/-- Somebody clicked, at a row, at a node or at a point. -/
def isClick : Input → Bool
  | atRow (.clickRow _) | atRow (.clickSpan _) | pressed _ _ => true
  | _ => false

/-- The pointer moved, onto a row or a node, to a point or away. -/
def isHover : Input → Bool
  | atRow (.hoverRow _) | atRow (.hoverSpan _) | atRow .leave | moved _ _ => true
  | _ => false

/-- A click is no move of the pointer. -/
theorem isHover_of_isClick {input : Input} (h : input.isClick = true) : input.isHover = false := by
  match input with
  | atRow (.clickRow _) | atRow (.clickSpan _) | pressed _ _ => rfl

end Input

namespace Mounted

/-! ## The panel after an update -/

/-- The panel after an update that leaves the outline as it is. -/
def keep (m : Mounted) (u : Update) : Mounted :=
  let highlight := Highlight.next m.highlight u.selectionChanged u.effects
  { m with
    highlight := highlight
    hovered := if m.highlight ≠ highlight ∧ highlight = none then none else m.hovered }

/-- An update that leaves the outline and the highlight as they are leaves all of the panel. -/
theorem keep_eq_self_of_next {m : Mounted} {u : Update}
    (h : Highlight.next m.highlight u.selectionChanged u.effects = m.highlight) : m.keep u = m := by
  simp [keep, h]

/-- The panel after an update that brings the given outline. Only what the panel did not cause
itself is to be scrolled into view. -/
def renew (m : Mounted) (u : Update) (outline : Outline) : Mounted :=
  { m with
    highlight := Highlight.next m.highlight u.selectionChanged u.effects
    hovered := none
    rebuild := { m.rebuild with last := some u.tree.id }
    outline := outline
    viewport := m.viewport.clamp outline.length outline.footer.length
    pending := m.pending ++ if u.origin = some m.rebuild.origin then [] else outline.center.toList }

/-- An update shows nothing that the outline does not show: the snapshot is the last one, and the
selection stayed. -/
def Shows (m : Mounted) (u : Update) : Prop :=
  m.rebuild.last = some u.tree.id ∧ u.selectionChanged = false

instance (m : Mounted) (u : Update) : Decidable (m.Shows u) := inferInstanceAs (Decidable (_ ∧ _))

/-! ## The answers to input -/

/-- What input makes of a panel, with the command it leads to. -/
inductive Answer (m : Mounted) (origin : Origin) (input : Input) : Option Command → Mounted → Prop
  /-- There was nothing to do. -/
  | ignored : Answer m origin input none m
  /-- The wheel was turned. -/
  | scrolled {lines : Int} {viewport : Viewport} (wheel : input = .atRow (.scroll lines))
      (moved : m.viewport.scrollBy lines m.outline.length m.footerLines = .ok viewport) :
      Answer m origin input
        (if viewport.offset = m.viewport.offset then none else some .redraw)
        { m with viewport := viewport }
  /-- The highlight is to change. -/
  | lit {effect : Effect} {hovered : Option Nat} (hover : input.isHover = true) :
      Answer m origin input (some (.dispatch (.highlight effect))) { m with hovered := hovered }
  /-- A span is to be selected: the one that was clicked, or that of a row. -/
  | selected {span : Span} (click : input.isClick = true)
      (clicked : input = .atRow (.clickSpan span) ∨ ∃ row ∈ m.outline.rows, row.span = span) :
      Answer m origin input (some (selectCommand span origin)) m

/-! ## The reactions -/

/-- The command that lets the mark in the editor follow the highlight. -/
def decorations (m : Mounted) (u : Update) : List Command :=
  let highlight := Highlight.next m.highlight u.selectionChanged u.effects
  if m.highlight = highlight then [] else [.decorate highlight]

/-- The reaction to an update that shows nothing new. -/
theorem onUpdate_of_shows {m : Mounted} {u : Update} (h : m.Shows u) (settings : Settings)
    (lineAt : Nat → Except Fault Line) :
    m.onUpdate settings lineAt u = .ok (Command.ofList? (m.decorations u), m.keep u) := by
  have hskip : m.rebuild.decide u = (.skip, m.rebuild) := by
    simp [Rebuild.decide, h.1, h.2]
  simp [onUpdate, Highlight.apply, hskip, Rebuild.Decision.skip, decorations, keep, pure,
    Except.pure]

/-- The reaction to an update that shows something new. -/
theorem onUpdate_of_not_shows {m : Mounted} {u : Update} (h : ¬m.Shows u) (settings : Settings)
    (lineAt : Nat → Except Fault Line) :
    m.onUpdate settings lineAt u =
      (Outline.render u.tree.root u.selection lineAt settings).map fun outline =>
        (Command.ofList? (m.decorations u ++ .redraw ::
            (if u.origin = some m.rebuild.origin then [] else outline.center.toList.map .scrollTo)),
          { m.renew u outline with pending := m.pending }) := by
  -- The outline is made whoever caused the update, but only others make it scroll.
  have hrenew : m.rebuild.decide u =
      (⟨true, u.origin != some m.rebuild.origin⟩, { m.rebuild with last := some u.tree.id }) := by
    unfold Rebuild.decide
    rw [if_neg]
    simpa [Shows] using h
  cases hr : Outline.render u.tree.root u.selection lineAt settings with
  | error fault => simp [onUpdate, hrenew, hr, bind, Except.bind, Except.map]
  | ok outline =>
    by_cases hown : u.origin = some m.rebuild.origin
    · simp [onUpdate, Highlight.apply, hrenew, hr, hown, decorations, renew, bind, Except.bind,
        Except.map, pure, Except.pure]
    · have hforeign : (u.origin != some m.rebuild.origin) = true := by simpa using hown
      rw [hforeign] at hrenew
      cases hc : outline.center <;>
        simp [onUpdate, Highlight.apply, hrenew, hr, hown, hc, decorations, renew, bind,
          Except.bind, Except.map, pure, Except.pure]

/-- A tick takes all rows that wait, and moves nothing but the viewport. -/
theorem onTick_snd (m : Mounted) :
    m.onTick.2 =
      { m with
        pending := []
        viewport := m.pending.foldl
          (fun viewport row => viewport.centerOn row m.outline.length m.footerLines)
          m.viewport } := by
  unfold onTick
  split
  · next h =>
    rw [List.isEmpty_iff] at h
    simp only [h, List.foldl_nil]
    rw [← h]
  · rfl

variable {m m' : Mounted} {origin : Origin} {input : Input} {command : Option Command}

/-- Entering a row is ignored or lights the row. -/
theorem hoverRow_answer {index : Nat} (h : m.hoverRow index = (command, m'))
    (hover : input.isHover = true) : Answer m origin input command m' := by
  unfold hoverRow at h
  split at h
  · cases h
    exact .ignored
  · split at h
    · cases h
      exact .ignored
    · cases h
      exact .lit hover

/-- Leaving the rows is ignored or clears the highlight. -/
theorem leave_answer (h : m.leave = (command, m')) (hover : input.isHover = true) :
    Answer m origin input command m' := by
  unfold leave at h
  split at h
  · cases h
    exact .lit hover
  · next hidle =>
    -- No row is hovered, so there is none to forget.
    rw [Bool.not_eq_true, Bool.or_eq_false_iff] at hidle
    have hnone : m.hovered = none :=
      Option.isNone_iff_eq_none.1 (Option.isSome_eq_false_iff.1 hidle.1)
    have hself : { m with hovered := none } = m := by rw [← hnone]
    rw [hself] at h
    cases h
    exact .ignored

/-- Clicking a row is ignored or selects the row's span. -/
theorem clickRow_answer {index : Nat} (click : input.isClick = true) :
    Answer m origin input (m.clickRow origin index) m := by
  unfold clickRow Outline.row?
  cases hrow : m.outline.rows[index]? with
  | none => exact .ignored
  | some row => exact .selected click (.inr ⟨row, List.mem_of_getElem? hrow, rfl⟩)

/-- Every reaction to input is one of the answers. -/
theorem onInput_answer (h : m.onInput origin input = .ok (command, m')) :
    Answer m origin input command m' := by
  obtain ⟨resolved, hresolve, hreact⟩ := bind_eq_ok.1 h
  cases input with
  | atRow rowInput =>
    cases hresolve
    cases rowInput with
    | hoverRow index => exact hoverRow_answer (Except.ok.inj hreact) rfl
    | hoverSpan span => cases hreact; exact .lit rfl
    | leave => exact leave_answer (Except.ok.inj hreact) rfl
    | clickRow index => cases hreact; exact clickRow_answer rfl
    | clickSpan span => cases hreact; exact .selected rfl (.inl rfl)
    | scroll lines =>
      obtain ⟨viewport, hmoved, hdone⟩ := bind_eq_ok.1 hreact
      cases hdone
      exact .scrolled rfl hmoved
  | moved x y =>
    obtain ⟨row?, -, hrow⟩ := bind_eq_ok.1 hresolve
    cases hrow
    cases row? with
    | none => exact leave_answer (Except.ok.inj hreact) rfl
    | some index => exact hoverRow_answer (Except.ok.inj hreact) rfl
  | pressed x y =>
    obtain ⟨row?, -, hrow⟩ := bind_eq_ok.1 hresolve
    cases hrow
    cases row? with
    | none => cases hreact; exact .ignored
    | some index => cases hreact; exact clickRow_answer rfl

end Mounted

namespace Panel

/-- A row that a panel shows is one of the mounted panel. -/
theorem exists_row_of_span {p : Panel} {i : Nat} {span : Span}
    (h : (p.outline?.bind (·.row? i)).map (·.span) = some span) :
    ∃ m row, p.mounted = some m ∧ m.outline.row? i = some row ∧ row.span = span := by
  obtain ⟨row, hrow, hspan⟩ := Option.map_eq_some_iff.1 h
  obtain ⟨outline, houtline, hrow⟩ := Option.bind_eq_some_iff.1 hrow
  obtain ⟨m, hm, rfl⟩ := Option.map_eq_some_iff.1 houtline
  exact ⟨m, row, hm, hrow, hspan⟩

/-- What a message makes of a panel, with the command it leads to. -/
inductive Reaction (p : Panel) (lineAt : Nat → Except Fault Line) :
    Message → Option Command → Panel → Prop
  /-- The panel is not mounted. -/
  | unmounted {message : Message} (hm : p.mounted = none) : Reaction p lineAt message none p
  /-- A mounted panel was given an update. -/
  | update {m m' : Mounted} {u : Update} {command : Option Command} (hm : p.mounted = some m)
      (h : m.onUpdate p.settings lineAt u = .ok (command, m')) :
      Reaction p lineAt (.update u) command { p with mounted := some m' }
  /-- A mounted panel was given input. -/
  | input {m m' : Mounted} {input : Input} {command : Option Command} (hm : p.mounted = some m)
      (h : m.onInput p.origin input = .ok (command, m')) :
      Reaction p lineAt (.input input) command { p with mounted := some m' }
  /-- A mounted panel was given a tick. -/
  | tick {m : Mounted} (hm : p.mounted = some m) :
      Reaction p lineAt .tick m.onTick.1 { p with mounted := some m.onTick.2 }

/-- A panel reacts in one of these ways. -/
theorem reaction_of_react {p p' : Panel} {lineAt : Nat → Except Fault Line} {message : Message}
    {command : Option Command} (h : p.react lineAt message = .ok (command, p')) :
    p.Reaction lineAt message command p' := by
  unfold react at h
  cases hm : p.mounted with
  | none =>
    rw [hm] at h
    cases h
    exact .unmounted hm
  | some m =>
    rw [hm] at h
    cases message with
    | update u =>
      obtain ⟨_, hreaction, hdone⟩ := bind_eq_ok.1 h
      cases hdone
      exact .update hm hreaction
    | input input =>
      obtain ⟨_, hreaction, hdone⟩ := bind_eq_ok.1 h
      cases hdone
      exact .input hm hreaction
    | tick =>
      cases h
      exact .tick hm

end Panel

namespace Session

variable {σ : Type} [EditorHost σ] {s : Session σ} {m : Mounted}

/-- The session with the panel in another state. -/
def mount (s : Session σ) (m : Mounted) : Session σ :=
  { s with panel := { s.panel with mounted := some m } }

/-- The editor with a mark for the highlight, if that changed. -/
def remark (host : σ) (before after : Option Span) : σ :=
  if before = after then host else EditorHost.decorate host after

/-- The session after an update that brings the panel from `m` to `m'`. -/
def settle (s : Session σ) (m m' : Mounted) : Session σ :=
  { s.mount m' with host := remark s.host m.highlight m'.highlight }

/-- Send a transaction and take the update that answers it. -/
def send (s : Session σ) (t : Transaction) : Except Fault (Bool × Session σ) :=
  let (u, host) := EditorHost.dispatch s.host t
  { s with host := host }.handle (.update u)

/-- A panel that is not mounted takes every message without effect. -/
theorem handle_unmounted (h : s.panel.mounted = none) (message : Message) :
    s.handle message = .ok (false, s) := by
  simp [handle, rounds, drain, take, Panel.react, h]
  rfl

/-- Carry out several commands, one after the other. -/
def carryOut (o : Outcome σ) (commands : List Command) : Outcome σ :=
  (Command.flattenAll commands).foldl perform
    { o with redraw := o.redraw || Command.anyNeedsRedraw commands }

/-- A message is taken by carrying out the commands of the reaction, batched or not. -/
theorem take_eq {o : Outcome σ} {message : Message} {commands : List Command} {panel : Panel}
    (h : o.session.panel.react (EditorHost.lineAt o.session.host) message =
      .ok (Command.ofList? commands, panel)) :
    take o message =
      .ok (carryOut { o with session := { o.session with panel := panel } } commands) := by
  unfold take
  rw [h]
  -- No command, one that is not batched, and a batch.
  match commands with
  | [] =>
    simp [Command.ofList?, carryOut, Command.anyNeedsRedraw, bind, Except.bind, pure, Except.pure]
  | [c] =>
    simp [Command.ofList?, carryOut, Command.anyNeedsRedraw, bind, Except.bind, pure, Except.pure]
  | c :: d :: rest =>
    simp [Command.ofList?, carryOut, Command.needsRedraw, bind, Except.bind, pure, Except.pure]

variable {o : Outcome σ}

/-- Carrying out no commands changes nothing. -/
@[simp] theorem carryOut_nil : carryOut o [] = o := by
  simp [carryOut, Command.anyNeedsRedraw]

/-- A repaint is remembered, and the other commands are carried out. -/
@[simp] theorem carryOut_redraw (rest : List Command) :
    carryOut o (.redraw :: rest) = carryOut { o with redraw := true } rest := by
  simp [carryOut, Command.flatten, Command.flattenInto, Command.anyNeedsRedraw,
    Command.needsRedraw, perform]

/-- A row to bring into view is put off, and the other commands are carried out. -/
@[simp] theorem carryOut_scrollTo (row : Nat) (rest : List Command) :
    carryOut o (.scrollTo row :: rest) =
      carryOut { o with session := { o.session with panel := o.session.panel.putOff row } }
        rest := by
  simp [carryOut, Command.flatten, Command.flattenInto, Command.anyNeedsRedraw,
    Command.needsRedraw, perform]

/-- The editor's mark follows the highlight. -/
@[simp] theorem carryOut_decorations (m : Mounted) (u : Update) (rest : List Command) :
    carryOut o (m.decorations u ++ rest) =
      carryOut { o with session := { o.session with
        host := remark o.session.host m.highlight (m.keep u).highlight } } rest := by
  by_cases hl : m.highlight = (m.keep u).highlight
  · have hnone : m.decorations u = [] := if_pos hl
    simp [hnone, remark, hl]
  · have hone : m.decorations u = [.decorate (m.keep u).highlight] := if_neg hl
    simp [hone, remark, hl, carryOut, Command.flatten, Command.flattenInto,
      Command.anyNeedsRedraw, Command.needsRedraw, perform]

/-- An update that shows nothing new changes the highlight alone. -/
theorem take_update_of_shows (hm : s.panel.mounted = some m) {u : Update} (h : m.Shows u) :
    take ⟨s, false, []⟩ (.update u) =
      .ok ⟨s.settle m (m.keep u), false, []⟩ := by
  have hreact : s.panel.react (EditorHost.lineAt s.host) (.update u) =
      .ok (Command.ofList? (m.decorations u ++ []),
        { s.panel with mounted := some (m.keep u) }) := by
    simp [Panel.react, hm, Mounted.onUpdate_of_shows h, bind, Except.bind, pure, Except.pure]
  rw [take_eq hreact, carryOut_decorations, carryOut_nil]
  rfl

/-- An update that shows something new brings an outline, unless the outline cannot be made. -/
theorem take_update_of_not_shows (hm : s.panel.mounted = some m) {u : Update} (h : ¬m.Shows u) :
    take ⟨s, false, []⟩ (.update u) =
      (Outline.render u.tree.root u.selection (EditorHost.lineAt s.host) s.panel.settings).map
        fun outline => ⟨s.settle m (m.renew u outline), true, []⟩ := by
  have hupdate := m.onUpdate_of_not_shows h s.panel.settings (EditorHost.lineAt s.host)
  cases hr : Outline.render u.tree.root u.selection (EditorHost.lineAt s.host) s.panel.settings with
  | error fault => simp [take, Panel.react, hm, hupdate, hr, bind, Except.bind, Except.map]
  | ok outline =>
    have hreact : s.panel.react (EditorHost.lineAt s.host) (.update u) =
        .ok (Command.ofList? (m.decorations u ++ .redraw ::
            (if u.origin = some m.rebuild.origin then [] else outline.center.toList.map .scrollTo)),
          { s.panel with mounted := some { m.renew u outline with pending := m.pending } }) := by
      simp [Panel.react, hm, hupdate, hr, bind, Except.bind, Except.map, pure, Except.pure]
    rw [take_eq hreact, carryOut_decorations, carryOut_redraw]
    -- What is left is the row to scroll to, if there is one.
    split
    · next hown => simp [Except.map, Mounted.renew, Mounted.keep, hown, settle, mount]
    · next hforeign =>
      cases hc : outline.center <;>
        simp [Except.map, Mounted.renew, Mounted.keep, hforeign, hc, Panel.putOff, settle, mount]

/-- A message that leaves nothing to be taken. -/
theorem handle_of_take {message : Message} {redraw : Bool} {s' : Session σ}
    (h : take ⟨s, false, []⟩ message = .ok ⟨s', redraw, []⟩) :
    s.handle message = .ok (redraw, s') := by
  simp [handle, rounds, drain, h, bind, Except.bind, pure, Except.pure]

/-- A message that cannot be taken. -/
theorem handle_of_take_error {message : Message} {fault : Fault}
    (h : take ⟨s, false, []⟩ message = .error fault) : s.handle message = .error fault := by
  simp [handle, rounds, drain, h, bind, Except.bind]

/-- What an update makes of a session. -/
theorem handle_update (hm : s.panel.mounted = some m) (u : Update) :
    s.handle (.update u) =
      if m.Shows u then
        .ok (false, s.settle m (m.keep u))
      else
        (Outline.render u.tree.root u.selection (EditorHost.lineAt s.host) s.panel.settings).map
          fun outline => (true, s.settle m (m.renew u outline)) := by
  split
  · next h => exact handle_of_take (take_update_of_shows hm h)
  · next h =>
    have htake := take_update_of_not_shows hm h
    cases hr : Outline.render u.tree.root u.selection (EditorHost.lineAt s.host)
        s.panel.settings with
    | error fault =>
      rw [hr] at htake
      exact handle_of_take_error htake
    | ok outline =>
      rw [hr] at htake
      exact handle_of_take htake

/-- The two ways in which an update is handled. -/
theorem handle_update_cases (hm : s.panel.mounted = some m) {u : Update} {redraw : Bool}
    {s' : Session σ} (h : s.handle (.update u) = .ok (redraw, s')) :
    m.Shows u ∧ s' = s.settle m (m.keep u) ∨
      ¬m.Shows u ∧ ∃ outline,
        Outline.render u.tree.root u.selection (EditorHost.lineAt s.host) s.panel.settings =
          .ok outline ∧ s' = s.settle m (m.renew u outline) := by
  rw [handle_update hm] at h
  split at h
  · next hs =>
    cases h
    exact .inl ⟨hs, rfl⟩
  · next hs =>
    obtain ⟨outline, hr, hdone⟩ := map_eq_ok.1 h
    cases hdone
    exact .inr ⟨hs, outline, hr, rfl⟩

/-- An update can be handled if the outline that it may bring can be made. -/
theorem handle_update_isOk {u : Update}
    (h : ∃ outline, Outline.render u.tree.root u.selection (EditorHost.lineAt s.host)
      s.panel.settings = .ok outline) : ∃ redraw s', s.handle (.update u) = .ok (redraw, s') := by
  cases hm : s.panel.mounted with
  | none => exact ⟨_, _, handle_unmounted hm _⟩
  | some m =>
    obtain ⟨outline, hr⟩ := h
    rw [handle_update hm, hr]
    split
    · exact ⟨_, _, rfl⟩
    · exact ⟨_, _, rfl⟩

/-- Taking an update leaves nothing to be taken. -/
theorem drain_update (hm : s.panel.mounted = some m) (u : Update) :
    drain 1 ⟨s, false, [.update u]⟩ = drain rounds ⟨s, false, [.update u]⟩ := by
  by_cases h : m.Shows u
  · simp [rounds, drain, take_update_of_shows hm h, bind, Except.bind]
  · cases hr : Outline.render u.tree.root u.selection (EditorHost.lineAt s.host)
        s.panel.settings <;>
      simp [rounds, drain, take_update_of_not_shows hm h, hr, bind, Except.bind, Except.map]

/-- Input that cannot be dealt with. -/
theorem handle_input_error (hm : s.panel.mounted = some m) {input : Input} {fault : Fault}
    (h : m.onInput s.panel.origin input = .error fault) :
    s.handle (.input input) = .error fault := by
  apply handle_of_take_error
  simp [take, Panel.react, hm, h, bind, Except.bind]

/-- Input that leads to no transaction. -/
theorem handle_input_quiet (hm : s.panel.mounted = some m) {input : Input} {m' : Mounted}
    {command : Option Command} (hc : command = none ∨ command = some .redraw)
    (h : m.onInput s.panel.origin input = .ok (command, m')) :
    s.handle (.input input) = .ok (command.isSome, s.mount m') := by
  have hreact : s.panel.react (EditorHost.lineAt s.host) (.input input) =
      .ok (command, { s.panel with mounted := some m' }) := by
    simp [Panel.react, hm, h, bind, Except.bind, pure, Except.pure]
  apply handle_of_take
  rcases hc with rfl | rfl
  · rw [take_eq (o := ⟨s, false, []⟩) (show _ = Except.ok (Command.ofList? [], _) from hreact),
      carryOut_nil]
    rfl
  · rw [take_eq (o := ⟨s, false, []⟩)
      (show _ = Except.ok (Command.ofList? [.redraw], _) from hreact), carryOut_redraw,
      carryOut_nil]
    rfl

/-- Input that is ignored changes nothing at all. -/
theorem handle_input_ignored (hm : s.panel.mounted = some m) {input : Input}
    (h : m.onInput s.panel.origin input = .ok (none, m)) :
    s.handle (.input input) = .ok (false, s) := by
  have hsame : s.mount m = s := by rw [mount, ← hm]
  rw [handle_input_quiet hm (.inl rfl) h, hsame]
  rfl

/-- Input that leads to a transaction: it is sent, and the update that answers it is taken. -/
theorem handle_input_dispatch (hm : s.panel.mounted = some m) {input : Input} {m' : Mounted}
    {t : Transaction} (h : m.onInput s.panel.origin input = .ok (some (.dispatch t), m')) :
    s.handle (.input input) = (s.mount m').send t := by
  have hreact : s.panel.react (EditorHost.lineAt s.host) (.input input) =
      .ok (Command.ofList? [.dispatch t], { s.panel with mounted := some m' }) := by
    simp [Panel.react, hm, h, Command.ofList?, bind, Except.bind, pure, Except.pure]
  have htake : take ⟨s, false, []⟩ (.input input) =
      .ok ⟨⟨(s.mount m').panel, (EditorHost.dispatch s.host t).2⟩, false,
        [.update (EditorHost.dispatch s.host t).1]⟩ := by
    rw [take_eq (o := ⟨s, false, []⟩) hreact]
    simp [carryOut, Command.flatten, Command.flattenInto, Command.anyNeedsRedraw,
      Command.needsRedraw, perform, mount]
  rw [handle, rounds, drain]
  simp only [htake, bind, Except.bind]
  -- The one round that is left is enough for the answer.
  rw [drain_update (m := m') rfl]
  rfl

/-- A tick centers every row that waits. -/
theorem handle_tick (hm : s.panel.mounted = some m) :
    s.handle .tick = .ok (!m.pending.isEmpty, s.mount m.onTick.2) := by
  have hreact : s.panel.react (EditorHost.lineAt s.host) .tick =
      .ok (m.onTick.1, { s.panel with mounted := some m.onTick.2 }) := by
    simp [Panel.react, hm, bind, Except.bind, pure, Except.pure]
  apply handle_of_take
  cases hempty : m.pending.isEmpty with
  | true =>
    have hnone : m.onTick.1 = Command.ofList? [] := by
      simp [Mounted.onTick, hempty, Command.ofList?]
    rw [hnone] at hreact
    rw [take_eq (o := ⟨s, false, []⟩) hreact, carryOut_nil]
    rfl
  | false =>
    have hredraw : m.onTick.1 = Command.ofList? [.redraw] := by
      simp [Mounted.onTick, hempty, Command.ofList?]
    rw [hredraw] at hreact
    rw [take_eq (o := ⟨s, false, []⟩) hreact, carryOut_redraw, carryOut_nil]
    rfl

/-! ## Invariants -/

/-- A property of an editor and of the panel beside it that no single change breaks, for a panel
with the given settings. -/
structure Invariant (settings : Settings) (P : σ → Mounted → Prop) : Prop where
  /-- The editor carries out a transaction. -/
  dispatch : ∀ {host m} (t : Transaction), P host m → P (EditorHost.dispatch host t).2 m
  /-- The pointer enters a row or leaves it. -/
  hover : ∀ {host m} (hovered : Option Nat), P host m → P host { m with hovered := hovered }
  /-- The wheel is turned. -/
  scroll : ∀ {host m lines viewport}, P host m →
    m.viewport.scrollBy lines m.outline.length m.footerLines = .ok viewport →
      P host { m with viewport := viewport }
  /-- A tick comes. -/
  tick : ∀ {host m}, P host m → P host m.onTick.2
  /-- An update shows nothing new. -/
  keep : ∀ {host m u}, P host m → m.Shows u →
    P (remark host m.highlight (m.keep u).highlight) (m.keep u)
  /-- An update brings an outline. -/
  renew : ∀ {host m u outline}, P host m → ¬m.Shows u →
    Outline.render u.tree.root u.selection (EditorHost.lineAt host) settings = .ok outline →
      P (remark host m.highlight (m.renew u outline).highlight) (m.renew u outline)

namespace Invariant

variable {P : σ → Mounted → Prop} {s' : Session σ} {redraw : Bool}

/-- An invariant holds after an update. -/
theorem update (hP : Invariant s.panel.settings P) (hm : s.panel.mounted = some m)
    (hp : P s.host m) {u : Update} (h : s.handle (.update u) = .ok (redraw, s')) :
    ∃ m', s'.panel = (s.mount m').panel ∧ P s'.host m' := by
  rcases handle_update_cases hm h with ⟨hs, rfl⟩ | ⟨hs, outline, hr, rfl⟩
  · exact ⟨m.keep u, rfl, hP.keep hp hs⟩
  · exact ⟨m.renew u outline, rfl, hP.renew hp hs hr⟩

/-- An invariant holds after a transaction and the update that answers it. -/
theorem send (hP : Invariant s.panel.settings P) (hm : s.panel.mounted = some m)
    (hp : P s.host m) {t : Transaction} (h : s.send t = .ok (redraw, s')) :
    ∃ m', s'.panel = (s.mount m').panel ∧ P s'.host m' :=
  update (s := { s with host := (EditorHost.dispatch s.host t).2 }) hP hm (hP.dispatch t hp) h

/-- An invariant holds after every message. -/
theorem handle (hP : Invariant s.panel.settings P) (hm : s.panel.mounted = some m)
    (hp : P s.host m) {message : Message} (h : s.handle message = .ok (redraw, s')) :
    ∃ m', s'.panel = (s.mount m').panel ∧ P s'.host m' := by
  cases message with
  | update u => exact hP.update hm hp h
  | tick =>
    rw [handle_tick hm] at h
    cases h
    exact ⟨m.onTick.2, rfl, hP.tick hp⟩
  | input input =>
    cases hin : m.onInput s.panel.origin input with
    | error fault =>
      rw [handle_input_error hm hin] at h
      cases h
    | ok reaction =>
      obtain ⟨command, m'⟩ := reaction
      cases Mounted.onInput_answer hin with
      | ignored =>
        rw [handle_input_quiet hm (.inl rfl) hin] at h
        cases h
        exact ⟨m, rfl, hp⟩
      | scrolled wheel hmoved =>
        have hp' := hP.scroll hp hmoved
        split at hin
        · rw [handle_input_quiet hm (.inl rfl) hin] at h
          cases h
          exact ⟨_, rfl, hp'⟩
        · rw [handle_input_quiet hm (.inr rfl) hin] at h
          cases h
          exact ⟨_, rfl, hp'⟩
      | lit hover =>
        rw [handle_input_dispatch hm hin] at h
        exact hP.send (s := s.mount _) rfl (hP.hover _ hp) h
      | selected click clicked =>
        rw [handle_input_dispatch hm hin] at h
        exact hP.send (s := s.mount m) rfl hp h

end Invariant

end Session
end TreePanel
