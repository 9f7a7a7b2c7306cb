import TreePanel.Proofs.Editor
import TreePanel.Proofs.Session.Handle

/-!
# Runs of a session

What can happen to a panel beside an editor without a window. Somebody else acts on the editor
(`Editor.Action`), and the editor tells of it by an update; the panel is given messages; the panel
is detached. There are two kinds of runs. In a live one every update is handled as soon as the
editor gives it (`Session.run`). In the widest one (`Session.Reachable`) the panel handles any
messages at all, so updates may come late, again, out of order, or from nowhere.

`Reachable.invariant` carries an `Invariant` of single changes to everything that is reachable. What
one event makes of a live session is in `Stepped`, and `always_iff_throughout` carries a condition
on single events, one that says exactly when a property is kept, to a whole run.
-/

namespace TreePanel

/-- A panel as it is right after it was mounted. -/
def Mounted.fresh (settings : Settings) (origin : Origin) (surface : Surface) (tree : Snapshot)
    (outline : Outline) : Mounted :=
  let dock := Dock.mount settings.dock settings.panelSize surface
  { dock := dock
    rebuild := ⟨origin, some tree.id⟩
    highlight := none
    outline := outline
    viewport := ⟨dock.panel, settings.rowHeight, 0⟩
    hovered := none
    pending := outline.center.toList }

namespace Session

variable {e : Editor} {settings : Settings} {origin : Origin} {s s' : Session Editor} {m : Mounted}

/-! ## Attaching and detaching -/

/-- A panel that was just attached shows the outline of the editor's tree and selection. -/
theorem attach_mounted (h : attach e settings origin = .ok s) (hm : s.panel.mounted = some m) :
    ∃ surface outline, e.surface = some surface ∧
      Outline.render e.tree.root e.selection e.lineAt settings = .ok outline ∧
      m = .fresh settings origin surface e.tree outline ∧
      s.host = { e with surface := some m.dock.editor } := by
  unfold attach at h
  cases hsurface : e.surface with
  | none =>
    rw [show EditorHost.surface e = none from hsurface] at h
    cases h
    cases hm
  | some surface =>
    rw [show EditorHost.surface e = some surface from hsurface] at h
    obtain ⟨outline, hr, hdone⟩ := bind_eq_ok.1 h
    cases hdone
    cases hm
    exact ⟨surface, outline, rfl, hr, rfl, rfl⟩

/-- Attaching gives the panel its settings and its tag, and changes no more than the surface of the
editor. -/
theorem attach_panel (h : attach e settings origin = .ok s) :
    s.panel.settings = settings ∧ s.panel.origin = origin ∧
      ∃ surface, s.host = { e with surface := surface } := by
  unfold attach at h
  cases hsurface : EditorHost.surface e with
  | none =>
    rw [hsurface] at h
    cases h
    exact ⟨rfl, rfl, e.surface, rfl⟩
  | some surface =>
    rw [hsurface] at h
    obtain ⟨outline, -, hdone⟩ := bind_eq_ok.1 h
    cases hdone
    exact ⟨rfl, rfl, _, rfl⟩

/-- A detached panel keeps its settings and its tag. -/
theorem detach_panel {σ : Type} [EditorHost σ] (s : Session σ) :
    s.detach.panel = { s.panel with mounted := none } := by
  unfold detach
  split
  · next h => rw [← h]
  · rfl

/-- Detaching a panel changes no more of the editor than its surface and its mark. -/
theorem detach_host (s : Session Editor) : ∃ surface mark,
    s.detach.host = { s.host with surface := surface, decoration := mark } := by
  unfold detach
  split
  · exact ⟨s.host.surface, s.host.decoration, rfl⟩
  · dsimp only
    split
    · exact ⟨_, none, rfl⟩
    · exact ⟨_, s.host.decoration, rfl⟩

/-- No message changes the settings of a panel or its tag, and none mounts or unmounts it. -/
theorem handle_panel {message : Message} {redraw : Bool} (h : s.handle message = .ok (redraw, s')) :
    ∃ mounted, s'.panel = { s.panel with mounted := mounted } ∧
      mounted.isSome = s.panel.mounted.isSome := by
  cases hm : s.panel.mounted with
  | none =>
    rw [handle_unmounted hm] at h
    cases h
    exact ⟨none, by rw [← hm], rfl⟩
  | some m =>
    have htrivial : Invariant (σ := Editor) s.panel.settings fun _ _ => True := by
      constructor <;> intros <;> trivial
    obtain ⟨m', hpanel, -⟩ := htrivial.handle hm trivial h
    exact ⟨some m', hpanel, rfl⟩

/-- Marking an editor changes nothing but its mark. -/
theorem remark_eq (e : Editor) (before after : Option Span) :
    ∃ mark, remark e before after = { e with decoration := mark } := by
  unfold remark
  split
  · exact ⟨e.decoration, rfl⟩
  · exact ⟨after, rfl⟩

/-! ## Live sessions -/

/-- What happens to a live session. -/
inductive Event where
  /-- Somebody acts on the editor, and the panel handles the update. -/
  | edit (action : Editor.Action)
  /-- Somebody uses the panel. -/
  | input (input : Input)
  /-- A tick comes. -/
  | tick
  /-- The panel is detached. -/
  | detach

/-- One event of a live session. -/
def step (s : Session Editor) : Event → Except Fault (Session Editor)
  | .edit action => do
    let (u, host) ← s.host.act action
    return (← { s with host := host }.handle (.update u)).2
  | .input input => return (← s.handle (.input input)).2
  | .tick => return (← s.handle .tick).2
  | .detach => return s.detach

/-- The events of a live session, one after the other. -/
def run (s : Session Editor) : List Event → Except Fault (Session Editor)
  | [] => return s
  | event :: rest => do (← s.step event).run rest

/-- An action is followed by its update. -/
theorem step_edit_eq_ok {action : Editor.Action} :
    s.step (.edit action) = .ok s' ↔ ∃ u e redraw, s.host.act action = .ok (u, e) ∧
      Session.handle { s with host := e } (.update u) = .ok (redraw, s') := by
  constructor
  · intro h
    obtain ⟨⟨u, e⟩, hact, hstep⟩ := bind_eq_ok.1 h
    obtain ⟨⟨redraw, _⟩, hhandle, hdone⟩ := bind_eq_ok.1 hstep
    cases hdone
    exact ⟨u, e, redraw, hact, hhandle⟩
  · rintro ⟨u, e, redraw, hact, hhandle⟩
    exact bind_eq_ok.2 ⟨(u, e), hact, bind_eq_ok.2 ⟨(redraw, s'), hhandle, rfl⟩⟩

/-- Input is handled. -/
theorem step_input_eq_ok {input : Input} :
    s.step (.input input) = .ok s' ↔ ∃ redraw, s.handle (.input input) = .ok (redraw, s') := by
  constructor
  · intro h
    obtain ⟨⟨redraw, _⟩, hhandle, hdone⟩ := bind_eq_ok.1 h
    cases hdone
    exact ⟨redraw, hhandle⟩
  · rintro ⟨redraw, hhandle⟩
    exact bind_eq_ok.2 ⟨(redraw, s'), hhandle, rfl⟩

/-- A tick is handled. -/
theorem step_tick_eq_ok :
    s.step .tick = .ok s' ↔ ∃ redraw, s.handle .tick = .ok (redraw, s') := by
  constructor
  · intro h
    obtain ⟨⟨redraw, _⟩, hhandle, hdone⟩ := bind_eq_ok.1 h
    cases hdone
    exact ⟨redraw, hhandle⟩
  · rintro ⟨redraw, hhandle⟩
    exact bind_eq_ok.2 ⟨(redraw, s'), hhandle, rfl⟩

/-- A property that no event breaks holds after a run. -/
theorem run_preserves {P : Session Editor → Prop}
    (hstep : ∀ {s event s'}, P s → s.step event = .ok s' → P s') {s s' : Session Editor}
    (hs : P s) {events : List Event} (h : s.run events = .ok s') : P s' := by
  induction events generalizing s with
  | nil =>
    cases h
    exact hs
  | cons event rest ih =>
    obtain ⟨middle, hmiddle, hrest⟩ := bind_eq_ok.1 h
    exact ih (hstep hs hmiddle) hrest

/-! ## What holds all along a run -/

/-- Every event of a run finds the session as it should be. -/
def Throughout (Q : Session Editor → Event → Prop) (s : Session Editor) : List Event → Prop
  | [] => True
  | event :: rest => Q s event ∧ ∀ s' ∈ (s.step event).toOption, s'.Throughout Q rest

/-- What can be decided at each event can be decided throughout a run, by going through it. -/
instance decidableThroughout {Q : Session Editor → Event → Prop} [∀ s event, Decidable (Q s event)]
    (s : Session Editor) : (events : List Event) → Decidable (s.Throughout Q events)
  | [] => inferInstanceAs (Decidable True)
  | event :: rest =>
    have : DecidablePred fun s' : Session Editor => s'.Throughout Q rest :=
      fun s' => decidableThroughout s' rest
    inferInstanceAs (Decidable (Q s event ∧ ∀ s' ∈ (s.step event).toOption, s'.Throughout Q rest))

/-- A property holds at the beginning of a run and after each of its events. -/
def Always (P : Session Editor → Prop) (s : Session Editor) (events : List Event) : Prop :=
  ∀ done, done <+: events → ∀ s', s.run done = .ok s' → P s'

/-- A property holds all along a run if no event of the run breaks it. -/
theorem always_of_step {P : Session Editor → Prop} {Q : Event → Prop}
    (hstep : ∀ {s event s'}, P s → Q event → s.step event = .ok s' → P s') {s : Session Editor}
    (hs : P s) {events : List Event} (hQ : ∀ event ∈ events, Q event) : s.Always P events := by
  intro done hdone s' h
  have hdoneQ : ∀ event ∈ done, Q event := fun event hevent => hQ event (hdone.subset hevent)
  clear hdone hQ
  induction done generalizing s with
  | nil =>
    cases h
    exact hs
  | cons event rest ih =>
    obtain ⟨middle, hmiddle, hrest⟩ := bind_eq_ok.1 h
    obtain ⟨hevent, hothers⟩ := List.forall_mem_cons.1 hdoneQ
    exact ih (hstep hs hevent hmiddle) hrest hothers

/-- What holds before the first event and after all that follow it. -/
theorem always_cons {P : Session Editor → Prop} {event : Event} {rest : List Event}
    (hstep : s.step event = .ok s') :
    s.Always P (event :: rest) ↔ P s ∧ s'.Always P rest := by
  have hrun : ∀ done, s.run (event :: done) = s'.run done := fun done => by
    rw [run, hstep]
    rfl
  constructor
  · intro h
    refine ⟨h [] List.nil_prefix s rfl, fun done hdone after hafter => ?_⟩
    exact h (event :: done) (List.cons_prefix_cons.2 ⟨rfl, hdone⟩) after ((hrun done).trans hafter)
  · rintro ⟨hs, hrest⟩ done hdone after hafter
    rcases List.prefix_cons_iff.1 hdone with rfl | ⟨others, rfl, hothers⟩
    · cases hafter
      exact hs
    · exact hrest others hothers after ((hrun others).symm.trans hafter)

/-- Suppose that an event keeps a property exactly if it finds the session as it should be. Then the
property holds all along a run exactly if all events of the run do. The invariant may speak of the
events that are still to come. -/
theorem always_iff_throughout {I : Session Editor → List Event → Prop} {P : Session Editor → Prop}
    {Q : Session Editor → Event → Prop}
    (hkeeps : ∀ {s event rest s'}, I s (event :: rest) → P s → s.step event = .ok s' →
      I s' rest ∧ (P s' ↔ Q s event))
    {s s' : Session Editor} {events : List Event} (hi : I s events) (hp : P s)
    (hrun : s.run events = .ok s') : s.Always P events ↔ s.Throughout Q events := by
  induction events generalizing s with
  | nil =>
    refine ⟨fun _ => trivial, fun _ done hdone after hafter => ?_⟩
    rw [List.prefix_nil.1 hdone] at hafter
    cases hafter
    exact hp
  | cons event rest ih =>
    obtain ⟨next, hnext, hrest⟩ := bind_eq_ok.1 hrun
    obtain ⟨hi', hiff⟩ := hkeeps hi hp hnext
    rw [always_cons hnext, Throughout, hnext]
    constructor
    · rintro ⟨-, hnow⟩
      have hp' : P next := hnow [] List.nil_prefix next rfl
      refine ⟨hiff.1 hp', fun after hafter => ?_⟩
      cases hafter
      exact (ih hi' hp' hrest).1 hnow
    · rintro ⟨hq, hlater⟩
      exact ⟨hp, (ih hi' (hiff.2 hq) hrest).2 (hlater next rfl)⟩

/-- What is asked of the editor after a replacement that leaves the selection where it is. Nothing
is asked of other events. -/
def IfStill (P : Session Editor → Editor → Prop) (s : Session Editor) : Event → Prop
  | .edit (.replace start stop text) => ∀ edited ∈ (s.host.replace start stop text).toOption,
      edited.1.selectionChanged = false → P s edited.2
  | .edit (.select _) | .edit (.setTree _) | .edit (.dispatch _) | .edit .idle | .input _ | .tick
  | .detach => True

instance {P : Session Editor → Editor → Prop} [∀ s e, Decidable (P s e)] (s : Session Editor) :
    (event : Event) → Decidable (s.IfStill P event)
  | .edit (.replace start stop text) => inferInstanceAs (Decidable
      (∀ edited ∈ (s.host.replace start stop text).toOption,
        edited.1.selectionChanged = false → P s edited.2))
  | .edit (.select _) | .edit (.setTree _) | .edit (.dispatch _) | .edit .idle | .input _ | .tick
  | .detach => inferInstanceAs (Decidable True)

/-- What any editor meets is met after every replacement. -/
theorem ifStill_of_forall {P : Session Editor → Editor → Prop} (h : ∀ e, P s e) (event : Event) :
    s.IfStill P event := by
  cases event with
  | edit action =>
    cases action with
    | replace start stop text => exact fun edited _ _ => h edited.2
    | _ => trivial
  | _ => trivial

/-- A session that was live since its panel was attached to `host`. -/
def Live (host : Editor) (settings : Settings) (origin : Origin) (s : Session Editor) : Prop :=
  ∃ start events, Session.attach host settings origin = .ok start ∧ start.run events = .ok s

/-- A panel that is not mounted stays so. -/
theorem step_unmounted (hm : s.panel.mounted = none) {event : Event} (h : s.step event = .ok s') :
    s'.panel.mounted = none := by
  cases event with
  | edit action =>
    obtain ⟨u, e, redraw, -, hhandle⟩ := step_edit_eq_ok.1 h
    rw [handle_unmounted (s := { s with host := e }) hm] at hhandle
    cases hhandle
    exact hm
  | input input =>
    obtain ⟨redraw, hhandle⟩ := step_input_eq_ok.1 h
    rw [handle_unmounted hm] at hhandle
    cases hhandle
    exact hm
  | tick =>
    obtain ⟨redraw, hhandle⟩ := step_tick_eq_ok.1 h
    rw [handle_unmounted hm] at hhandle
    cases hhandle
    exact hm
  | detach =>
    cases h
    rw [detach_panel]

/-- Sending a transaction is one of the actions on an editor. -/
theorem step_dispatch (s : Session Editor) (t : Transaction) :
    s.step (.edit (.dispatch t)) = (s.send t).map (·.2) := by
  show (s.send t >>= fun answer => pure answer.2) = _
  cases s.send t <;> rfl

/-- Input either changes no more than the viewport, or acts on the editor by a transaction. -/
theorem handle_input_cases (hm : s.panel.mounted = some m) {input : Input} {redraw : Bool}
    (h : s.handle (.input input) = .ok (redraw, s')) :
    (∃ viewport, s' = s.mount { m with viewport := viewport }) ∨
      (input.isClick = true ∨ input.isHover = true) ∧ ∃ hovered t,
        m.onInput s.panel.origin input = .ok (some (.dispatch t), { m with hovered := hovered }) ∧
          (s.mount { m with hovered := hovered }).step (.edit (.dispatch t)) = .ok s' := by
  cases hin : m.onInput s.panel.origin input with
  | error fault =>
    rw [handle_input_error hm hin] at h
    cases h
  | ok reaction =>
    obtain ⟨command, m'⟩ := reaction
    cases Mounted.onInput_answer hin with
    | ignored =>
      rw [handle_input_quiet hm (.inl rfl) hin] at h
      cases h
      exact .inl ⟨m.viewport, rfl⟩
    | @scrolled lines viewport wheel hmoved =>
      refine .inl ⟨viewport, ?_⟩
      split at hin
      · rw [handle_input_quiet hm (.inl rfl) hin] at h
        cases h
        rfl
      · rw [handle_input_quiet hm (.inr rfl) hin] at h
        cases h
        rfl
    | @lit effect hovered hover =>
      rw [handle_input_dispatch hm hin] at h
      refine .inr ⟨.inr hover, hovered, _, rfl, ?_⟩
      rw [step_dispatch]
      exact map_eq_ok.2 ⟨_, h, rfl⟩
    | @selected span click clicked =>
      rw [handle_input_dispatch hm hin] at h
      refine .inr ⟨.inl click, m.hovered, _, rfl, ?_⟩
      rw [step_dispatch]
      exact map_eq_ok.2 ⟨_, h, rfl⟩

/-- What an event makes of a session with a mounted panel. -/
inductive Stepped (s : Session Editor) (m : Mounted) : Event → Session Editor → Prop where
  /-- Somebody acted on the editor, and the panel handled the update. -/
  | edited {action : Editor.Action} {s' : Session Editor} (h : s.step (.edit action) = .ok s') :
      Stepped s m (.edit action) s'
  /-- The panel answered input by a transaction, and handled the update. -/
  | answered {input : Input} {hovered : Option Nat} {t : Transaction} {s' : Session Editor}
      (hin : m.onInput s.panel.origin input =
        .ok (some (.dispatch t), { m with hovered := hovered }))
      (h : (s.mount { m with hovered := hovered }).step (.edit (.dispatch t)) = .ok s') :
      Stepped s m (.input input) s'
  /-- Input turned the wheel, or did nothing. -/
  | scrolled {input : Input} {viewport : Viewport} :
      Stepped s m (.input input) (s.mount { m with viewport := viewport })
  /-- The rows that waited were centered. -/
  | ticked : Stepped s m .tick (s.mount m.onTick.2)
  /-- The panel was detached. -/
  | detached : Stepped s m .detach s.detach

/-- Every event is one of these. -/
theorem stepped_of_step (hm : s.panel.mounted = some m) {event : Event}
    (h : s.step event = .ok s') : Stepped s m event s' := by
  cases event with
  | edit action => exact .edited h
  | input input =>
    obtain ⟨redraw, hhandle⟩ := step_input_eq_ok.1 h
    rcases handle_input_cases hm hhandle with ⟨viewport, rfl⟩ | ⟨-, hovered, t, hin, hsent⟩
    · exact .scrolled
    · exact .answered hin hsent
  | tick =>
    obtain ⟨redraw, hhandle⟩ := step_tick_eq_ok.1 h
    rw [handle_tick hm] at hhandle
    cases hhandle
    exact .ticked
  | detach =>
    cases h
    exact .detached

/-! ## Sessions with any messages -/

/-- What a session can become when a panel is attached to `host` and then handles messages of any
kind in any order. -/
inductive Reachable (host : Editor) (settings : Settings) (origin : Origin) :
    Session Editor → Prop where
  /-- The panel was attached just now. -/
  | attach {s : Session Editor} : Session.attach host settings origin = .ok s →
      Reachable host settings origin s
  /-- Somebody acted on the editor. Its update may be handled at any time, or never. -/
  | edit {s : Session Editor} {action : Editor.Action} {u : Update} {e : Editor} :
      Reachable host settings origin s → s.host.act action = .ok (u, e) →
        Reachable host settings origin { s with host := e }
  /-- The panel handled a message. -/
  | handle {s s' : Session Editor} {message : Message} {redraw : Bool} :
      Reachable host settings origin s → s.handle message = .ok (redraw, s') →
        Reachable host settings origin s'
  /-- The panel was detached. -/
  | detach {s : Session Editor} : Reachable host settings origin s →
      Reachable host settings origin s.detach

namespace Reachable

variable {host : Editor}

/-- The panel keeps the settings and the tag with which it was attached. -/
theorem panel (h : Reachable host settings origin s) :
    s.panel.settings = settings ∧ s.panel.origin = origin := by
  induction h with
  | attach hattach => exact ⟨(attach_panel hattach).1, (attach_panel hattach).2.1⟩
  | edit _ _ ih => exact ih
  | handle _ hhandle ih =>
    obtain ⟨mounted, hpanel, -⟩ := handle_panel hhandle
    rw [hpanel]
    exact ih
  | detach _ ih =>
    rw [detach_panel]
    exact ih

/-- An invariant that attaching establishes, and that no action on the editor breaks, holds in every
session that can be reached. -/
theorem invariant {P : Editor → Mounted → Prop} (hP : Invariant settings P)
    (hattach : ∀ {s m}, Session.attach host settings origin = .ok s → s.panel.mounted = some m →
      P s.host m)
    (hact : ∀ {e e' action u m}, P e m → e.act action = .ok (u, e') → P e' m)
    (h : Reachable host settings origin s) (hm : s.panel.mounted = some m) : P s.host m := by
  induction h generalizing m with
  | attach hs => exact hattach hs hm
  | edit _ hedit ih => exact hact (ih hm) hedit
  | @handle s s' message redraw hreach hhandle ih =>
    -- A panel that is mounted afterwards was mounted before.
    cases hbefore : s.panel.mounted with
    | none =>
      rw [handle_unmounted hbefore] at hhandle
      cases hhandle
      rw [hbefore] at hm
      cases hm
    | some before =>
      rw [← hreach.panel.1] at hP
      obtain ⟨m', hpanel, hp⟩ := hP.handle hbefore (ih hbefore) hhandle
      rw [hpanel] at hm
      cases hm
      exact hp
  | detach _ _ =>
    rw [detach_panel] at hm
    cases hm

end Reachable

/-- What is reachable stays so in a live session. -/
theorem Reachable.step {host : Editor} {event : Event} (h : Reachable host settings origin s)
    (hstep : s.step event = .ok s') : Reachable host settings origin s' := by
  cases event with
  | edit action =>
    obtain ⟨u, e, redraw, hact, hhandle⟩ := step_edit_eq_ok.1 hstep
    exact (h.edit hact).handle hhandle
  | input input =>
    obtain ⟨redraw, hhandle⟩ := step_input_eq_ok.1 hstep
    exact h.handle hhandle
  | tick =>
    obtain ⟨redraw, hhandle⟩ := step_tick_eq_ok.1 hstep
    exact h.handle hhandle
  | detach =>
    cases hstep
    exact h.detach

/-- A session that was live since its panel was attached is reachable. -/
theorem Live.reachable {host : Editor} (h : Live host settings origin s) :
    Reachable host settings origin s := by
  obtain ⟨start, events, hattach, hrun⟩ := h
  exact run_preserves (P := Reachable host settings origin) (fun h hstep => h.step hstep)
    (.attach hattach) hrun

/-- Messages, handled one after the other. -/
def handleAll (s : Session Editor) : List Message → Except Fault (Session Editor)
  | [] => return s
  | message :: rest => do (← s.handle message).2.handleAll rest

/-- What is reachable stays so while messages are handled. -/
theorem Reachable.handleAll {host : Editor} {messages : List Message}
    (h : Reachable host settings origin s) (hrun : s.handleAll messages = .ok s') :
    Reachable host settings origin s' := by
  induction messages generalizing s with
  | nil =>
    cases hrun
    exact h
  | cons message rest ih =>
    obtain ⟨_, hmessage, hrest⟩ := bind_eq_ok.1 hrun
    exact ih (h.handle hmessage) hrest

end Session

/-- An editor with two words and a tree built by hand. -/
def Editor.twoWords : Editor :=
  .withTree ['a', 'b', ' ', 'c', 'd'] ⟨⟨0, 0⟩, .mk "Line" ⟨0, 5, by decide⟩ true
    [.leaf "Word" ⟨0, 2, by decide⟩ true, .leaf "Word" ⟨3, 5, by decide⟩ true]⟩

/-- Both words lie in the line. -/
theorem Editor.twoWords_nested : Editor.twoWords.tree.root.Nested := .mk (by decide) (by simp)

end TreePanel
