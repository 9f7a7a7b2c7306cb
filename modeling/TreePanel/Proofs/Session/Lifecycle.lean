import TreePanel.Proofs.Session.Decoration

/-!
# Mounting and detaching

A panel borrows the surface of its editor. Attaching carves the dock out of it, and detaching gives
it back as it was, whatever the panel did in between, whatever was done to the editor, and whatever
surface the editor was given by others (`detach_restores`). The mark of the highlight goes as well.

The dock remembers the surface, and no single change of a mounted panel touches the dock
(`whole_invariant`); nor does any touch the surface of the editor (`surface_invariant`). That the
mark goes rests on `marked_invariant`: detaching removes it only if there is a highlight. Afterwards
the panel is inert, and so is one that was attached to an editor without a surface.
-/

namespace TreePanel

/-- Nothing comes of the panel any more: beside whatever editor, it changes nothing when it is given
a message, asks for no paint, and changes nothing when it is detached. -/
def Panel.Inert (p : Panel) : Prop :=
  ∀ (e : Editor) (message : Message),
    Session.handle ⟨p, e⟩ message = .ok (false, ⟨p, e⟩) ∧ Session.detach ⟨p, e⟩ = ⟨p, e⟩

/-- A panel that is not mounted is inert. -/
theorem Panel.inert_of_unmounted {p : Panel} (h : p.mounted = none) : p.Inert := by
  intro e message
  refine ⟨Session.handle_unmounted (s := ⟨p, e⟩) h message, ?_⟩
  unfold Session.detach
  rw [h]

namespace Session

variable {settings : Settings} {origin : Origin} {host : Editor} {s s' : Session Editor}
  {m : Mounted}

/-! ## What a mounted panel leaves alone -/

/-- No single change gives the editor another surface. -/
theorem surface_invariant (settings : Settings) (surface : Option Surface) :
    Invariant (σ := Editor) settings fun e _ => e.surface = surface := by
  have hremark : ∀ {e : Editor} {before after : Option Span}, e.surface = surface →
      (remark e before after).surface = surface := by
    intro e before after h
    obtain ⟨mark, hmark⟩ := remark_eq e before after
    rw [hmark]
    exact h
  exact
    { dispatch := fun _ h => h
      hover := fun _ h => h
      scroll := fun h _ => h
      tick := fun h => h
      keep := fun h _ => hremark h
      renew := fun h _ _ => hremark h }

/-- No single change makes the dock forget the surface that it was carved out of. -/
theorem whole_invariant (settings : Settings) (surface : Surface) :
    Invariant (σ := Editor) settings fun _ m => m.dock.whole = surface where
  dispatch _ h := h
  hover _ h := h
  scroll h _ := h
  tick h := by
    rw [Mounted.onTick_snd]
    exact h
  keep h _ := h
  renew h _ _ := h

/-- No message gives the editor another surface. -/
theorem handle_surface {message : Message} {redraw : Bool}
    (h : s.handle message = .ok (redraw, s')) : s'.host.surface = s.host.surface := by
  cases hm : s.panel.mounted with
  | none =>
    rw [handle_unmounted hm] at h
    cases h
    rfl
  | some m =>
    obtain ⟨-, -, hsurface⟩ :=
      (surface_invariant s.panel.settings s.host.surface).handle hm rfl h
    exact hsurface

/-! ## Between attaching and detaching -/

/-- What a session can become between attaching and detaching. The panel handles messages of any
kind in any order, and others act on the editor and give it other surfaces. -/
inductive Between (host : Editor) (settings : Settings) (origin : Origin) :
    Session Editor → Prop where
  /-- The panel was attached just now. -/
  | attach {s : Session Editor} : Session.attach host settings origin = .ok s →
      Between host settings origin s
  /-- Somebody acted on the editor. Its update may be handled at any time, or never. -/
  | edit {s : Session Editor} {action : Editor.Action} {u : Update} {e : Editor} :
      Between host settings origin s → s.host.act action = .ok (u, e) →
        Between host settings origin { s with host := e }
  /-- Somebody else gave the editor another surface. -/
  | resize {s : Session Editor} (surface : Option Surface) : Between host settings origin s →
      Between host settings origin { s with host := { s.host with surface := surface } }
  /-- The panel handled a message. -/
  | handle {s s' : Session Editor} {message : Message} {redraw : Bool} :
      Between host settings origin s → s.handle message = .ok (redraw, s') →
        Between host settings origin s'

/-- Attaching mounts a panel on an editor with a surface, and on no other. -/
theorem attach_isSome (h : attach host settings origin = .ok s) :
    s.panel.mounted.isSome = host.surface.isSome := by
  unfold attach at h
  cases hsurface : host.surface with
  | none =>
    rw [show EditorHost.surface host = none from hsurface] at h
    cases h
    rfl
  | some surface =>
    rw [show EditorHost.surface host = some surface from hsurface] at h
    obtain ⟨outline, -, hdone⟩ := bind_eq_ok.1 h
    cases hdone
    rfl

namespace Between

/-- Until it is detached, a panel stays mounted or unmounted as it was attached. -/
theorem isSome (h : Between host settings origin s) :
    s.panel.mounted.isSome = host.surface.isSome := by
  induction h with
  | attach hattach => exact attach_isSome hattach
  | edit _ _ ih => exact ih
  | resize _ _ ih => exact ih
  | handle _ hhandle ih =>
    obtain ⟨mounted, hpanel, hsome⟩ := handle_panel hhandle
    rw [hpanel]
    exact hsome.trans ih

/-- An editor without a mark has the mark of the panel's highlight, and the dock of the panel
remembers the surface of the editor as it was when the panel was attached. -/
theorem kept (hnone : host.decoration = none) {surface : Surface}
    (hsurface : host.surface = some surface) (h : Between host settings origin s)
    (hm : s.panel.mounted = some m) : m.Marked s.host ∧ m.dock.whole = surface := by
  induction h generalizing m with
  | attach hattach =>
    obtain ⟨whole, outline, hwhole, -, rfl, hhost⟩ := attach_mounted hattach hm
    rw [hsurface] at hwhole
    cases hwhole
    rw [hhost]
    exact ⟨⟨hnone, nofun⟩, rfl⟩
  | edit _ hact ih =>
    obtain ⟨hmarked, hwhole⟩ := ih hm
    exact ⟨⟨(Editor.act_decoration hact).trans hmarked.1, hmarked.2⟩, hwhole⟩
  | resize _ _ ih => exact ih hm
  | @handle s s' message redraw hbetween hhandle ih =>
    -- The panel was mounted when it was given the message.
    obtain ⟨before, hbefore⟩ : ∃ before, s.panel.mounted = some before := by
      rw [← Option.isSome_iff_exists, hbetween.isSome, hsurface]
      rfl
    obtain ⟨hmarked, hwhole⟩ := ih hbefore
    obtain ⟨m₁, hpanel, hmarked'⟩ :=
      (marked_invariant s.panel.settings).handle hbefore hmarked hhandle
    obtain ⟨m₂, hpanel', hwhole'⟩ :=
      (whole_invariant s.panel.settings surface).handle hbefore hwhole hhandle
    rw [hpanel] at hm
    cases hm
    rw [hpanel] at hpanel'
    cases hpanel'
    exact ⟨hmarked', hwhole'⟩

end Between

/-- Detaching a mounted panel gives the editor the surface that the dock was carved out of. -/
theorem detach_surface (hm : s.panel.mounted = some m) :
    s.detach.host.surface = some m.dock.whole := by
  unfold detach
  rw [hm]
  rfl

/-- A panel never changes the surface of its editor between attaching and detaching. Detaching it
gives the editor back the surface it had, whatever its surface became meanwhile, leaves no mark, and
unmounts the panel. From then on the panel is inert. A panel that is attached to an editor without a
surface is inert from the start, and leaves the editor as it is. -/
theorem detach_restores (hnone : host.decoration = none) (h : Between host settings origin s) :
    (∀ message redraw s', s.handle message = .ok (redraw, s') →
      s'.host.surface = s.host.surface) ∧
    (∀ surface, host.surface = some surface →
      s.panel.isAttached = true ∧ s.detach.host.surface = some surface ∧
        s.detach.host.decoration = none ∧ s.detach.panel.isAttached = false ∧
        s.detach.panel.Inert) ∧
    (host.surface = none →
      attach host settings origin = .ok ⟨⟨settings, origin, none⟩, host⟩ ∧ s.panel.Inert) := by
  refine ⟨fun _ _ _ hhandle => handle_surface hhandle, fun surface hsurface => ?_,
    fun hsurface => ?_⟩
  · obtain ⟨m, hm⟩ : ∃ m, s.panel.mounted = some m := by
      rw [← Option.isSome_iff_exists, h.isSome, hsurface]
      rfl
    have hattached : s.panel.isAttached = true := by rw [Panel.isAttached, hm]; rfl
    have hunmounted : s.detach.panel.mounted = none := by rw [detach_panel]
    have hdetached : s.detach.panel.isAttached = false := by rw [Panel.isAttached, hunmounted]; rfl
    obtain ⟨hmarked, hwhole⟩ := h.kept hnone hsurface hm
    refine ⟨hattached, ?_, ?_, hdetached, Panel.inert_of_unmounted hunmounted⟩
    · rw [detach_surface hm, hwhole]
    · refine detach_decoration (fun m' hm' => ?_) fun hunmounted => ?_
      · rw [hm] at hm'
        cases hm'
        exact hmarked
      · rw [hm] at hunmounted
        cases hunmounted
  · constructor
    · unfold attach
      rw [show EditorHost.surface host = none from hsurface]
      rfl
    · refine Panel.inert_of_unmounted (Option.not_isSome_iff_eq_none.1 ?_)
      rw [h.isSome, hsurface]
      decide

/-- A word is hovered, and then somebody takes the surface from the editor. Detaching the panel
gives back the surface from the beginning. -/
theorem detach_after_hover_and_resize :
    ∃ s, Between .twoWords {} ⟨1⟩ s ∧ s.host.surface = none ∧
      s.host.decoration = some ⟨0, 2, by decide⟩ ∧
      s.detach.host.surface = some Editor.defaultSurface ∧ s.detach.host.decoration = none ∧
      s.detach.panel.Inert := by
  obtain ⟨s, hrun, hmark⟩ := ok_of_toOption (show ((attach Editor.twoWords {} ⟨1⟩ >>=
    (handleAll · [.input (.atRow (.hoverRow 1))])).toOption.map (·.host.decoration)) =
      some (some ⟨0, 2, by decide⟩) by decide +kernel)
  obtain ⟨start, hattach, hall⟩ := bind_eq_ok.1 hrun
  obtain ⟨⟨redraw, after⟩, hhandle, hdone⟩ := bind_eq_ok.1 hall
  cases hdone
  have hbetween : Between .twoWords {} ⟨1⟩
      { after with host := { after.host with surface := none } } :=
    .resize none ((Between.attach hattach).handle hhandle)
  obtain ⟨-, hrestored, -⟩ := detach_restores rfl hbetween
  obtain ⟨-, hsurface, hunmarked, -, hinert⟩ := hrestored Editor.defaultSurface rfl
  exact ⟨_, hbetween, rfl, hmark, hsurface, hunmarked, hinert⟩

end Session

end TreePanel
