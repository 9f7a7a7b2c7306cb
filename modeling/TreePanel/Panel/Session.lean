import TreePanel.EditorHost
import TreePanel.Panel

/-!
# A panel beside its editor

A session holds a panel and the editor it is attached to. Attaching carves the panel out of the
editor's surface and makes the first outline; detaching gives the surface back.

`Session.handle` takes one message. The panel reacts, its command is performed on the editor, and
every update by which the editor answers a transaction is a message that is taken next, until none
is left. Only input makes a panel send a transaction, and then only one, and an update never makes
it send any. So a message is followed by one more at the most, and two rounds are enough.
-/

namespace TreePanel

/-- A panel and the editor it is attached to. -/
structure Session (σ : Type) where
  panel : Panel
  host : σ

/-- What a message led to. -/
structure Session.Outcome (σ : Type) where
  session : Session σ
  /-- The panel is to be painted again. -/
  redraw : Bool
  /-- Messages that are still to be taken, the oldest first. -/
  inbox : List Message

namespace Session

variable {σ : Type} [EditorHost σ]

/-- Attach a new panel with the given tag. On an editor without a surface it stays unmounted. -/
def attach (host : σ) (settings : Settings) (origin : Origin) : Except Fault (Session σ) :=
  match EditorHost.surface host with
  | none => return ⟨⟨settings, origin, none⟩, host⟩
  | some surface => do
    let dock := Dock.mount settings.dock settings.panelSize surface
    let host := EditorHost.resize host dock.editor
    let tree := EditorHost.tree host
    let (decision, rebuild) := (Rebuild.start origin).prime tree
    let outline ← Outline.render tree.root (EditorHost.selection host) (EditorHost.lineAt host)
      settings
    let mounted : Mounted :=
      { dock := dock
        rebuild := rebuild
        highlight := none
        outline := outline
        viewport := ⟨dock.panel, settings.rowHeight, 0⟩
        hovered := none
        pending := if decision.scroll then outline.center.toList else [] }
    return ⟨⟨settings, origin, some mounted⟩, host⟩

/-- Unmount the panel: remove the mark of its highlight, if one is shown, and give the editor its
surface back. -/
def detach (s : Session σ) : Session σ :=
  match s.panel.mounted with
  | none => s
  | some m =>
    let host := if m.highlight.isSome then EditorHost.decorate s.host none else s.host
    ⟨{ s.panel with mounted := none }, EditorHost.resize host m.dock.whole⟩

/-- Perform one command that is no batch. An update that answers it goes to the inbox. -/
def perform (o : Outcome σ) : Command → Outcome σ
  | .dispatch transaction =>
    let (update, host) := EditorHost.dispatch o.session.host transaction
    { o with session := { o.session with host := host }, inbox := o.inbox ++ [.update update] }
  | .decorate span =>
    { o with session := { o.session with host := EditorHost.decorate o.session.host span } }
  | .scrollTo row => { o with session := { o.session with panel := o.session.panel.putOff row } }
  | .none | .redraw | .batch _ => o

/-- Take one message: react, then perform the command. -/
def take (o : Outcome σ) (message : Message) : Except Fault (Outcome σ) := do
  let (command, panel) ← o.session.panel.react (EditorHost.lineAt o.session.host) message
  let o := { o with session := { o.session with panel := panel } }
  match command with
  | none => return o
  | some command =>
    return command.flatten.foldl perform { o with redraw := o.redraw || command.needsRedraw }

/-- Take messages from the inbox, as many rounds as given. -/
def drain : Nat → Outcome σ → Except Fault (Outcome σ)
  | 0, o => return o
  | rounds + 1, o =>
    match o.inbox with
    | [] => return o
    | message :: rest => do drain rounds (← take { o with inbox := rest } message)

/-- How many rounds settle any message. -/
def rounds : Nat := 2

/-- Take a message and all that follow from it. Tells whether to paint the panel again. -/
def handle (s : Session σ) (message : Message) : Except Fault (Bool × Session σ) := do
  let o ← drain rounds ⟨s, false, [message]⟩
  return (o.redraw, o.session)

/-- Do what was put off. -/
def tick (s : Session σ) : Except Fault (Bool × Session σ) := s.handle .tick

end Session

end TreePanel
