import TreePanel.Proofs.History
import TreePanel.Proofs.Outline
import TreePanel.Proofs.Session.Run

/-!
# Updates in a queue

The updates of an editor need not reach the panel at once. In a `Feed` they wait in a queue, and the
panel is given them in their order, however many actions were made in between. It skips most of
them, and it looks up the lines of the footer in the text as it is when the update comes, not as it
was when the update was made. Still the panel shows what the editor has, as soon as nothing waits.

What carries the proof is that the waiting updates lead from the tree and the selection that are
shown to those of the editor (`Update.Leads`). A skipped update carries no change, because an
identity stands for one snapshot and because a selection that was changed is reported. And where the
footer is older than the text, the snapshot of the text still waits, and it will not be skipped
(`Mounted.Tracks`).
-/

namespace TreePanel

namespace Update

/-- The updates lead from a tree and a selection to others: each tells a tree and a selection, and a
selection that it does not report as changed is the one before. -/
def Leads (tree : Snapshot) (selection : Selection) : List Update → Snapshot → Selection → Prop
  | [], tree', selection' => tree' = tree ∧ selection' = selection
  | u :: rest, tree', selection' =>
    (u.selectionChanged = false → u.selection = selection) ∧
      Leads u.tree u.selection rest tree' selection'

variable {tree tree' : Snapshot} {selection selection' : Selection} {queue : List Update}

/-- Updates lead on by one more. -/
theorem Leads.append (h : Leads tree selection queue tree' selection') {u : Update}
    (hu : u.selectionChanged = false → u.selection = selection') :
    Leads tree selection (queue ++ [u]) u.tree u.selection := by
  induction queue generalizing tree selection with
  | nil =>
    obtain ⟨rfl, rfl⟩ := h
    exact ⟨hu, rfl, rfl⟩
  | cons first rest ih => exact ⟨h.1, ih h.2⟩

/-- Updates that report no selection as changed lead to the selection from before. -/
theorem Leads.selection_eq (h : Leads tree selection queue tree' selection')
    (hquiet : ∀ u ∈ queue, u.selectionChanged = false) : selection' = selection := by
  induction queue generalizing tree selection with
  | nil => exact h.2
  | cons first rest ih =>
    rw [ih h.2 fun u hu => hquiet u (List.mem_cons_of_mem first hu)]
    exact h.1 (hquiet first List.mem_cons_self)

end Update

/-- A panel shows a tree and a selection, and the updates in the queue tell how the editor went on
from there. -/
structure Mounted.Tracks (settings : Settings) (held : List Snapshot) (e : Editor)
    (queue : List Update) (m : Mounted) (tree : Snapshot) (selection : Selection) : Prop where
  /-- The tree is known to be shown. -/
  last : m.rebuild.last = some tree.id
  /-- The editor has held the tree. -/
  shown : tree ∈ held
  /-- The editor has held the trees that wait. -/
  waiting : ∀ u ∈ queue, u.tree ∈ held
  /-- All but the footer is made of the tree and the selection. -/
  drawn : m.outline = .drawn settings tree.root selection m.outline.footer
  /-- The queue leads on to the tree and the selection of the editor. -/
  leads : Update.Leads tree selection queue e.tree e.selection
  /-- Under a footer, the heads of the editor lie in its text, or another selection waits. -/
  heads : settings.footer = true →
    (∃ u ∈ queue, u.selectionChanged = true) ∨
      ∀ r ∈ e.selection.ranges, r.head ≤ e.document.length
  /-- The footer is that of the text, or the snapshot of the text waits. -/
  footer : ∀ p last, e.parser = some p → p.last = some last →
    Outline.render tree.root selection e.lineAt settings = .ok m.outline ∨
      tree.id ≠ last.snapshot.id ∧ ∃ u ∈ queue, u.tree.id = last.snapshot.id

namespace Mounted.Tracks

variable {settings : Settings} {held : List Snapshot} {e e' : Editor} {queue : List Update}
  {m : Mounted} {tree : Snapshot} {selection : Selection} {u : Update} {action : Editor.Action}

/-- An action on the editor adds an update to the queue. -/
theorem act (h : m.Tracks settings held e queue tree selection) (hkept : e.Kept held)
    (hpossible : e.Possible held action) (hact : e.act action = .ok (u, e')) :
    m.Tracks settings (e'.tree :: held) e' (queue ++ [u]) tree selection := by
  obtain ⟨htree, hselection, hquiet⟩ := Editor.act_update hact
  refine ⟨h.last, List.mem_cons_of_mem _ h.shown, ?_, h.drawn, ?_, ?_, ?_⟩
  · intro v hv
    rcases List.mem_append.1 hv with hv | hv
    · exact List.mem_cons_of_mem _ (h.waiting v hv)
    · rw [List.mem_singleton.1 hv, htree]
      exact List.mem_cons_self
  · have hleads := h.leads.append (u := u) fun hflag => by rw [hselection, hquiet hflag]
    rwa [htree, hselection] at hleads
  · intro hfooter
    cases hflag : u.selectionChanged with
    | true => exact .inl ⟨u, List.mem_append_right _ List.mem_cons_self, hflag⟩
    | false =>
      -- A replacement may move heads without moving them out of the text.
      rcases h.heads hfooter with ⟨v, hv, hchanged⟩ | hin
      · exact .inl ⟨v, List.mem_append_left _ hv, hchanged⟩
      · exact .inr (Editor.act_heads hact hflag hin)
  · intro p' last' hp' hlast'
    rcases hkept.act_cases hpossible hact with ⟨hparser, htext, -⟩ | ⟨p, range, hp, hid, hnext⟩
    · have hp : e.parser = some p' := by rw [← hparser, hp']
      rcases h.footer p' last' hp hlast' with hrender | ⟨hne, v, hv, hwaits⟩
      · left
        rw [Editor.lineAt_congr (htext (by rw [hp]; rfl))]
        exact hrender
      · exact .inr ⟨hne, v, List.mem_append_left _ hv, hwaits⟩
    · -- The text was parsed anew, and nobody has seen its snapshot yet.
      rw [hnext] at hp'
      cases hp'
      cases hlast'
      refine .inr ⟨?_, u, List.mem_append_right _ List.mem_cons_self, by rw [htree]⟩
      rw [hid]
      exact hkept.id_ne_next hp h.shown

/-- An update that shows nothing new is about the tree and the selection that are shown. -/
theorem keep (h : m.Tracks settings held e (u :: queue) tree selection) (hkept : e.Kept held)
    (hshows : m.Shows u) : (m.keep u).Tracks settings held e queue tree selection := by
  obtain ⟨hlast, hflag⟩ := hshows
  -- The identity is that of the tree that is shown, so it is the same tree.
  have hid : u.tree.id = tree.id := Option.some.inj (hlast.symm.trans h.last)
  have htree : u.tree = tree :=
    hkept.distinct _ (h.waiting u List.mem_cons_self) _ h.shown hid
  have hselection : u.selection = selection := h.leads.1 hflag
  refine ⟨h.last, h.shown, fun v hv => h.waiting v (List.mem_cons_of_mem u hv), h.drawn, ?_, ?_, ?_⟩
  · have hleads := h.leads.2
    rwa [htree, hselection] at hleads
  · intro hfooter
    rcases h.heads hfooter with ⟨v, hv, hchanged⟩ | hin
    · rcases List.mem_cons.1 hv with rfl | hv
      · rw [hflag] at hchanged
        cases hchanged
      · exact .inl ⟨v, hv, hchanged⟩
    · exact .inr hin
  · intro p last hp hlast
    rcases h.footer p last hp hlast with hrender | ⟨hne, v, hv, hwaits⟩
    · exact .inl hrender
    · -- What waits for the footer is another snapshot, so it is not the one just skipped.
      rcases List.mem_cons.1 hv with rfl | hv
      · rw [hid] at hwaits
        exact absurd hwaits hne
      · exact .inr ⟨hne, v, hv, hwaits⟩

/-- An update that brings an outline is what is shown from then on, with a footer of the text as it
is by now. -/
theorem renew (h : m.Tracks settings held e (u :: queue) tree selection) {outline : Outline}
    (hr : Outline.render u.tree.root u.selection e.document.lineAt settings = .ok outline) :
    (m.renew u outline).Tracks settings held e queue u.tree u.selection := by
  refine ⟨rfl, h.waiting u List.mem_cons_self, fun v hv => h.waiting v (List.mem_cons_of_mem u hv),
    Outline.eq_drawn_of_render hr, h.leads.2, ?_, fun _ _ _ _ => .inl hr⟩
  intro hfooter
  by_cases hchanged : ∃ v ∈ queue, v.selectionChanged = true
  · exact .inl hchanged
  · -- Nothing that waits changes the selection, so it is the editor's own.
    have hquiet : ∀ v ∈ queue, v.selectionChanged = false := by
      intro v hv
      by_contra hflag
      exact hchanged ⟨v, hv, by simpa using hflag⟩
    rw [h.leads.2.selection_eq hquiet]
    exact .inr (Outline.head_le_of_render hr hfooter)

end Mounted.Tracks

/-- A session whose updates wait in a queue. -/
structure Feed where
  session : Session Editor
  /-- The updates that the panel was not given yet, the oldest first. -/
  queue : List Update
  /-- The snapshots that the editor has held. -/
  held : List Snapshot

namespace Feed

/-- What can happen next. -/
inductive Step : Feed → Feed → Prop where
  /-- Somebody acts on the editor, and the update waits. -/
  | edit {s : Session Editor} {queue : List Update} {held : List Snapshot} {action : Editor.Action}
      {u : Update} {e : Editor} :
      s.host.Possible held action → s.host.act action = .ok (u, e) →
        Step ⟨s, queue, held⟩ ⟨{ s with host := e }, queue ++ [u], e.tree :: held⟩
  /-- The panel is given the update that has waited longest. -/
  | deliver {s s' : Session Editor} {u : Update} {queue : List Update} {held : List Snapshot}
      {redraw : Bool} :
      s.handle (.update u) = .ok (redraw, s') → Step ⟨s, u :: queue, held⟩ ⟨s', queue, held⟩
  /-- Somebody uses the panel while nothing waits. -/
  | input {s s' : Session Editor} {held : List Snapshot} {input : Input} {redraw : Bool} :
      s.handle (.input input) = .ok (redraw, s') → Step ⟨s, [], held⟩ ⟨s', [], held⟩
  /-- Somebody turns the wheel. -/
  | scroll {s s' : Session Editor} {queue : List Update} {held : List Snapshot} {lines : Int}
      {redraw : Bool} :
      s.handle (.input (.atRow (.scroll lines))) = .ok (redraw, s') →
        Step ⟨s, queue, held⟩ ⟨s', queue, held⟩
  /-- A tick comes. -/
  | tick {s s' : Session Editor} {queue : List Update} {held : List Snapshot} {redraw : Bool} :
      s.handle .tick = .ok (redraw, s') → Step ⟨s, queue, held⟩ ⟨s', queue, held⟩

/-- What a session can become after a panel was attached to an editor that was opened. -/
inductive Reachable (settings : Settings) (origin : Origin) : Feed → Prop where
  /-- The panel was attached just now. -/
  | attach {e : Editor} {held : List Snapshot} {s : Session Editor} :
      e.Opened held → Session.attach e settings origin = .ok s →
        Reachable settings origin ⟨s, [], held⟩
  /-- Something more happened. -/
  | step {f f' : Feed} : Reachable settings origin f → Step f f' → Reachable settings origin f'

/-- The panel, if it is mounted, shows a tree and a selection from which the queue leads to those of
the editor. -/
structure Synced (settings : Settings) (f : Feed) : Prop where
  /-- The panel has its settings. -/
  chosen : f.session.panel.settings = settings
  /-- The snapshots are known. -/
  kept : f.session.host.Kept f.held
  /-- The panel can be followed. -/
  tracks : ∀ m, f.session.panel.mounted = some m → ∃ tree selection,
    m.Tracks settings f.held f.session.host f.queue tree selection

variable {settings : Settings} {origin : Origin} {f f' : Feed} {s s' : Session Editor}
  {queue : List Update} {held : List Snapshot} {u : Update} {redraw : Bool}

/-- A panel that was just attached shows what the editor has. -/
theorem synced_attach {e : Editor} (hopened : e.Opened held)
    (h : Session.attach e settings origin = .ok s) : Synced settings ⟨s, [], held⟩ := by
  obtain ⟨hsettings, -, surface, hhost⟩ := Session.attach_panel h
  have hkept := hopened.kept
  refine ⟨hsettings, ?_, fun m hm => ?_⟩
  · rw [hhost]
    exact hkept.dress surface e.decoration
  · obtain ⟨-, outline, -, hr, rfl, -⟩ := Session.attach_mounted h hm
    refine ⟨e.tree, e.selection, rfl, hkept.current, nofun, Outline.eq_drawn_of_render hr, ?_, ?_,
      ?_⟩
    · rw [hhost]
      exact ⟨rfl, rfl⟩
    · intro hfooter
      rw [hhost]
      exact .inr (Outline.head_le_of_render (d := e.document) hr hfooter)
    · rw [hhost]
      exact fun _ _ _ _ => .inl hr

/-- A panel that can be followed makes a session in step, whatever the mark of the editor is. -/
theorem synced_of_tracks {m m' : Mounted} {tree : Snapshot} {selection : Selection}
    (hsettings : s.panel.settings = settings) (hkept : s.host.Kept held)
    (h : m'.Tracks settings held s.host queue tree selection) :
    Synced settings ⟨s.settle m m', queue, held⟩ := by
  obtain ⟨mark, hmark⟩ := Session.remark_eq s.host m.highlight m'.highlight
  refine ⟨hsettings, ?_, fun mounted hm => ⟨tree, selection, ?_⟩⟩
  · rw [Session.settle, hmark]
    exact hkept.dress s.host.surface mark
  · cases hm
    rw [Session.settle, hmark]
    exact ⟨h.last, h.shown, h.waiting, h.drawn, h.leads, h.heads, h.footer⟩

/-- An update that the panel is given is taken from the front of the queue. -/
theorem Synced.deliver (h : Synced settings ⟨s, u :: queue, held⟩)
    (hhandle : s.handle (.update u) = .ok (redraw, s')) : Synced settings ⟨s', queue, held⟩ := by
  obtain ⟨hsettings, hkept, htracks⟩ := h
  cases hm : s.panel.mounted with
  | none =>
    rw [Session.handle_unmounted hm] at hhandle
    cases hhandle
    refine ⟨hsettings, hkept, fun m hm' => ?_⟩
    rw [hm] at hm'
    cases hm'
  | some m =>
    obtain ⟨tree, selection, hm'⟩ := htracks m hm
    rcases Session.handle_update_cases hm hhandle with ⟨hshows, rfl⟩ | ⟨-, outline, hr, rfl⟩
    · exact synced_of_tracks hsettings hkept (hm'.keep hkept hshows)
    · rw [hsettings] at hr
      exact synced_of_tracks hsettings hkept (hm'.renew hr)

/-- An update of an action goes to the end of the queue. -/
theorem Synced.act (h : Synced settings ⟨s, queue, held⟩) {action : Editor.Action} {e : Editor}
    (hpossible : s.host.Possible held action) (hact : s.host.act action = .ok (u, e)) :
    Synced settings ⟨{ s with host := e }, queue ++ [u], e.tree :: held⟩ := by
  refine ⟨h.chosen, h.kept.act hpossible hact, fun m hm => ?_⟩
  obtain ⟨tree, selection, hm⟩ := h.tracks m hm
  exact ⟨tree, selection, hm.act h.kept hpossible hact⟩

/-- Noting a snapshot again says nothing new. -/
theorem Synced.of_cons {t : Snapshot} (h : Synced settings ⟨s, queue, t :: held⟩) (ht : t ∈ held) :
    Synced settings ⟨s, queue, held⟩ := by
  have hmem : ∀ a ∈ t :: held, a ∈ held := List.forall_mem_cons.2 ⟨ht, fun _ => id⟩
  obtain ⟨hsettings, hkept, htracks⟩ := h
  refine ⟨hsettings, ⟨hmem _ hkept.current, ?_, ?_, ?_⟩, fun m hm => ?_⟩
  · exact fun a ha b hb =>
      hkept.distinct a (List.mem_cons_of_mem t ha) b (List.mem_cons_of_mem t hb)
  · intro p hp
    obtain ⟨last, hlast, htext, hin⟩ := hkept.last p hp
    exact ⟨last, hlast, htext, hmem _ hin⟩
  · exact fun p hp a ha => hkept.serial p hp a (List.mem_cons_of_mem t ha)
  · obtain ⟨tree, selection, hm⟩ := htracks m hm
    exact ⟨tree, selection, hm.last, hmem _ hm.shown, fun u hu => hmem _ (hm.waiting u hu),
      hm.drawn, hm.leads, hm.heads, hm.footer⟩

/-- What a panel keeps besides its outline does not matter. -/
theorem Synced.mount (h : Synced settings ⟨s, queue, held⟩) {m m' : Mounted}
    (hm : s.panel.mounted = some m) (hrebuild : m'.rebuild = m.rebuild)
    (houtline : m'.outline = m.outline) : Synced settings ⟨s.mount m', queue, held⟩ := by
  obtain ⟨tree, selection, htracks⟩ := h.tracks m hm
  refine ⟨h.chosen, h.kept, fun mounted hmounted => ⟨tree, selection, ?_⟩⟩
  cases hmounted
  refine ⟨?_, htracks.shown, htracks.waiting, ?_, htracks.leads, htracks.heads, ?_⟩
  · rw [hrebuild]
    exact htracks.last
  · rw [houtline]
    exact htracks.drawn
  · rw [houtline]
    exact htracks.footer

/-- Input changes what cannot be seen of the tree, or it is an action whose update is delivered at
once. -/
theorem Synced.input (h : Synced settings ⟨s, queue, held⟩) {input : Input}
    (hquiet : queue = [] ∨ ∃ lines, input = .atRow (.scroll lines))
    (hhandle : s.handle (.input input) = .ok (redraw, s')) :
    Synced settings ⟨s', queue, held⟩ := by
  cases hm : s.panel.mounted with
  | none =>
    rw [Session.handle_unmounted hm] at hhandle
    cases hhandle
    exact h
  | some m =>
    rcases Session.handle_input_cases hm hhandle with
      ⟨viewport, rfl⟩ | ⟨hpointer, hovered, t, -, hsent⟩
    · exact h.mount hm rfl rfl
    · have hempty : queue = [] := by
        rcases hquiet with hempty | ⟨lines, rfl⟩
        · exact hempty
        · rcases hpointer with hclick | hhover
          · cases hclick
          · cases hhover
      subst hempty
      have hhovered : Synced settings ⟨s.mount { m with hovered := hovered }, [], held⟩ :=
        h.mount hm rfl rfl
      obtain ⟨u, e, redraw, hact, htold⟩ := Session.step_edit_eq_ok.1 hsent
      have hpossible : s.host.Possible held (.dispatch t) := trivial
      have hsynced := (hhovered.act hpossible hact).deliver htold
      -- The transaction leaves the tree as it is.
      cases hact
      exact hsynced.of_cons h.kept.current

/-- A tick changes nothing but the viewport. -/
theorem Synced.tick (h : Synced settings ⟨s, queue, held⟩)
    (hhandle : s.handle .tick = .ok (redraw, s')) : Synced settings ⟨s', queue, held⟩ := by
  cases hm : s.panel.mounted with
  | none =>
    rw [Session.handle_unmounted hm] at hhandle
    cases hhandle
    exact h
  | some m =>
    rw [Session.handle_tick hm, Mounted.onTick_snd] at hhandle
    cases hhandle
    exact h.mount hm rfl rfl

/-- Nothing that can happen takes a panel out of step. -/
theorem Synced.step (h : Synced settings f) (hstep : Step f f') : Synced settings f' := by
  cases hstep with
  | edit hpossible hact => exact h.act hpossible hact
  | deliver hhandle => exact h.deliver hhandle
  | input hhandle => exact h.input (.inl rfl) hhandle
  | @scroll _ _ _ _ lines _ hhandle => exact h.input (.inr ⟨lines, rfl⟩) hhandle
  | tick hhandle => exact h.tick hhandle

/-- A detached panel shows nothing that could be out of step. -/
theorem Synced.detach (h : Synced settings ⟨s, queue, held⟩) :
    Synced settings ⟨s.detach, queue, held⟩ := by
  obtain ⟨surface, mark, hhost⟩ := Session.detach_host s
  refine ⟨?_, ?_, fun m hm => ?_⟩
  · rw [Session.detach_panel]
    exact h.chosen
  · rw [hhost]
    exact h.kept.dress surface mark
  · rw [Session.detach_panel] at hm
    cases hm

/-- A panel that is given every update at once stays in step. -/
theorem Synced.live {event : Session.Event} (h : Synced settings ⟨s, [], held⟩)
    (hpossible : ∀ action, event = .edit action → s.host.Possible held action)
    (hstep : s.step event = .ok s') : ∃ held, Synced settings ⟨s', [], held⟩ := by
  cases event with
  | edit action =>
    obtain ⟨u, e, redraw, hact, hhandle⟩ := Session.step_edit_eq_ok.1 hstep
    exact ⟨_, (h.act (hpossible action rfl) hact).deliver hhandle⟩
  | input input =>
    obtain ⟨redraw, hhandle⟩ := Session.step_input_eq_ok.1 hstep
    exact ⟨held, h.input (.inl rfl) hhandle⟩
  | tick =>
    obtain ⟨redraw, hhandle⟩ := Session.step_tick_eq_ok.1 hstep
    exact ⟨held, h.tick hhandle⟩
  | detach =>
    cases hstep
    exact ⟨held, h.detach⟩

/-- A panel is in step whatever happened since it was attached. -/
theorem Reachable.synced (h : Reachable settings origin f) : Synced settings f := by
  induction h with
  | attach hopened hattach => exact synced_attach hopened hattach
  | step _ hstep ih => exact ih.step hstep

/-- Whenever no update waits, the outline that would be made of the editor's tree and selection can
be made, and the panel shows its rows, its center and its indentation. If the editor has a parser,
the panel shows that very outline, footer included. -/
theorem outline_eq_render (h : Reachable settings origin f) (hempty : f.queue = []) {m : Mounted}
    (hm : f.session.panel.mounted = some m) (hfit : f.session.host.document.Fits) :
    ∃ outline,
      Outline.render f.session.host.tree.root f.session.host.selection f.session.host.lineAt
        settings = .ok outline ∧
      m.outline.rows = outline.rows ∧ m.outline.center = outline.center ∧
      m.outline.indentWidth = outline.indentWidth ∧
      (f.session.host.parser.isSome → m.outline = outline) := by
  obtain ⟨-, hkept, htracks⟩ := h.synced
  obtain ⟨tree, selection, hm⟩ := htracks m hm
  rw [hempty] at hm
  obtain ⟨htree, hselection⟩ := hm.leads
  rw [← htree, ← hselection] at hm
  have hheads : settings.footer = true →
      ∀ r ∈ f.session.host.selection.ranges, r.head ≤ f.session.host.document.length := by
    intro hfooter
    rcases hm.heads hfooter with ⟨u, hu, -⟩ | hin
    · cases hu
    · exact hin
  obtain ⟨outline, hr⟩ : ∃ outline, Outline.render f.session.host.tree.root
      f.session.host.selection f.session.host.lineAt settings = .ok outline :=
    Outline.render_isOk hfit hheads
  refine ⟨outline, hr, ?_, ?_, ?_, fun hsome => ?_⟩
  · rw [hm.drawn, Outline.eq_drawn_of_render hr]
    rfl
  · rw [hm.drawn, Outline.eq_drawn_of_render hr]
    rfl
  · rw [hm.drawn, Outline.eq_drawn_of_render hr]
    rfl
  · obtain ⟨p, hp⟩ := Option.isSome_iff_exists.1 hsome
    obtain ⟨last, hlast, -, -⟩ := hkept.last p hp
    rcases hm.footer p last hp hlast with hrender | ⟨-, u, hu, -⟩
    · exact Except.ok.inj (hrender.symm.trans hr)
    · cases hu

/-- A number is added to a list and then selected, before the panel is given the two updates. -/
theorem outline_after_replacement_and_selection :
    ∃ f m, Reachable {} ⟨1⟩ f ∧ f.queue = [] ∧ f.session.panel.mounted = some m ∧
      f.session.host.document.Fits ∧ f.session.host.parser.isSome ∧ m.outline.length = 4 ∧
      m.outline.footer = ["line 2, col 2, pos 5"] ∧
      Outline.render f.session.host.tree.root f.session.host.selection f.session.host.lineAt {} =
        .ok m.outline := by
  let typed : Editor.Action := .replace 2 2 [',', '\n', '2']
  let selected : Editor.Action := .select (.single ⟨4, 5⟩)
  obtain ⟨s, hrun, hfacts⟩ := ok_of_toOption (show (Except.toOption (do
      let e ← Editor.ofText ['[', '1', ']'] .json 0
      let s ← Session.attach e {} ⟨1⟩
      let typing ← s.host.act typed
      let selecting ← typing.2.act selected
      let told ← Session.handle { s with host := selecting.2 } (.update typing.1)
      let told ← told.2.handle (.update selecting.1)
      return told.2)).map
        (fun s => (s.panel.outline?.map fun o => (o.length, o.footer), s.host.document.length,
          s.host.parser.isSome)) = some (some (4, ["line 2, col 2, pos 5"]), 6, true) by
    decide +kernel)
  obtain ⟨e, hopen, hrun⟩ := bind_eq_ok.1 hrun
  obtain ⟨start, hattach, hrun⟩ := bind_eq_ok.1 hrun
  obtain ⟨⟨u, e₁⟩, htyped, hrun⟩ := bind_eq_ok.1 hrun
  obtain ⟨⟨v, e₂⟩, hselected, hrun⟩ := bind_eq_ok.1 hrun
  obtain ⟨⟨redraw₁, s₁⟩, hfirst, hrun⟩ := bind_eq_ok.1 hrun
  obtain ⟨⟨redraw₂, s₂⟩, hsecond, hdone⟩ := bind_eq_ok.1 hrun
  cases hdone
  have hpossible : start.host.Possible [e.tree] typed := trivial
  have hpossible' : e₁.Possible [e₁.tree, e.tree] selected := trivial
  have hreach : Reachable {} ⟨1⟩ ⟨s₂, [], [e₂.tree, e₁.tree, e.tree]⟩ :=
    ((((Reachable.attach (.ofDocument hopen) hattach).step (.edit hpossible htyped)).step
      (.edit hpossible' hselected)).step (.deliver hfirst)).step (.deliver hsecond)
  simp only [Prod.mk.injEq] at hfacts
  obtain ⟨hview, hlength, hparser⟩ := hfacts
  cases hm : s₂.panel.mounted with
  | none =>
    rw [Panel.outline?, hm] at hview
    cases hview
  | some m =>
    rw [Panel.outline?, hm] at hview
    obtain ⟨hrows, hfooter⟩ := Prod.mk.inj (Option.some.inj hview)
    have hfit : s₂.host.document.Fits := by
      rw [Document.Fits, hlength]
      decide
    obtain ⟨outline, hr, -, -, -, hsame⟩ := outline_eq_render hreach rfl hm hfit
    refine ⟨_, m, hreach, rfl, hm, hfit, hparser, hrows, hfooter, ?_⟩
    rw [hsame hparser]
    exact hr

end Feed

end TreePanel
