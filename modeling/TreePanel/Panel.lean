import TreePanel.Command
import TreePanel.Highlight
import TreePanel.Message
import TreePanel.Outline
import TreePanel.Outline.Viewport
import TreePanel.Rebuild

/-!
# The panel

A mounted panel keeps its dock, the outline it shows, the part of the rows that is in view, the
highlight, the row under the pointer, and the rows to bring into view at the next tick. It reacts
to a message by a change of this state and by a command; the reactions here are pure, and whoever
holds both the panel and the editor performs the commands.

A panel that is not mounted, because the editor had no surface or because the panel was detached,
reacts to nothing.
-/

namespace TreePanel

/-- What a panel keeps while it is mounted. -/
structure Mounted where
  dock : Dock
  rebuild : Rebuild
  /-- The highlighted span, never one without width. -/
  highlight : Option Span
  outline : Outline
  viewport : Viewport
  /-- The row under the pointer, as far as the editor still shows it. -/
  hovered : Option Nat
  /-- Rows to bring into view at the next tick, the oldest first. -/
  pending : List Nat

/-- A panel. -/
structure Panel where
  settings : Settings
  /-- The tag of this panel's transactions. -/
  origin : Origin
  mounted : Option Mounted

namespace Mounted

/-- Number of lines in the footer. -/
def footerLines (m : Mounted) : Nat := m.outline.footer.length

/-- The row under a point of the surface. -/
def rowAt (m : Mounted) (x y : Float32) : Except Fault (Option Nat) :=
  m.viewport.rowAt x y m.outline.length m.footerLines

/-! ## Reactions -/

/-- The command that highlights a span in the editor. -/
def highlightCommand (span : Span) : Command := .dispatch (.highlight (some span))

/-- The command that selects a span, with the anchor at its start and the head at its end. -/
def selectCommand (span : Span) (origin : Origin) : Command :=
  .dispatch (.select (.single ⟨span.start, span.stop⟩) origin)

/-- The pointer entered a row. A row that is hovered already is not highlighted again. -/
def hoverRow (m : Mounted) (index : Nat) : Option Command × Mounted :=
  if m.hovered == some index then (none, m)
  else
    match m.outline.row? index with
    | none => (none, m)
    | some row => (some (highlightCommand row.span), { m with hovered := some index })

/-- The pointer left the rows. The highlight is cleared if there can be one. -/
def leave (m : Mounted) : Option Command × Mounted :=
  (if m.hovered.isSome || m.highlight.isSome then some (.dispatch (.highlight none)) else none,
    { m with hovered := none })

/-- A row was clicked; one that does not exist is ignored. -/
def clickRow (m : Mounted) (origin : Origin) (index : Nat) : Option Command :=
  (m.outline.row? index).map fun row => selectCommand row.span origin

/-- The reaction to input at a row. -/
def onRowInput (m : Mounted) (origin : Origin) :
    RowInput → Except Fault (Option Command × Mounted)
  | .hoverRow index => return m.hoverRow index
  | .hoverSpan span => return (some (highlightCommand span), { m with hovered := none })
  | .leave => return m.leave
  | .clickRow index => return (m.clickRow origin index, m)
  | .clickSpan span => return (some (selectCommand span origin), m)
  | .scroll lines => do
    let viewport ← m.viewport.scrollBy lines m.outline.length m.footerLines
    return (if viewport.offset = m.viewport.offset then none else some .redraw,
      { m with viewport := viewport })

/-- Input at a point as input at the row under it: moving off the rows leaves them, and pressing
off the rows is nothing at all. -/
def resolve (m : Mounted) : Input → Except Fault (Option RowInput)
  | .atRow input => return some input
  | .moved x y => return some (((← m.rowAt x y).map .hoverRow).getD .leave)
  | .pressed x y => return (← m.rowAt x y).map .clickRow

/-- The reaction to input. -/
def onInput (m : Mounted) (origin : Origin) (input : Input) :
    Except Fault (Option Command × Mounted) := do
  match ← m.resolve input with
  | some input => m.onRowInput origin input
  | none => return (none, m)

/-- The reaction to a change of the editor: first the highlight, then the outline. Whoever cleared
the highlight, hovering the same row once more must show it again, so the hovered row is dropped;
a new outline drops it as well. -/
def onUpdate (m : Mounted) (settings : Settings) (lineAt : Nat → Except Fault Line) (u : Update) :
    Except Fault (Option Command × Mounted) := do
  let (highlight, changed) := Highlight.apply m.highlight u.selectionChanged u.effects
  let decorate := if changed then [Command.decorate highlight] else []
  let hovered := if changed && highlight.isNone then none else m.hovered
  let (decision, rebuild) := m.rebuild.decide u
  if decision.rebuild then
    let outline ← Outline.render u.tree.root u.selection lineAt settings
    let scroll :=
      match decision.scroll, outline.center with
      | true, some row => [Command.scrollTo row]
      | _, _ => []
    return (Command.ofList? (decorate ++ [.redraw] ++ scroll),
      { m with
        highlight := highlight
        hovered := none
        rebuild := rebuild
        outline := outline
        viewport := m.viewport.clamp outline.length outline.footer.length })
  else
    return (Command.ofList? decorate,
      { m with highlight := highlight, hovered := hovered, rebuild := rebuild })

/-- The reaction to a tick: every row that waits is centered in turn, so the last one decides. -/
def onTick (m : Mounted) : Option Command × Mounted :=
  if m.pending.isEmpty then (none, m)
  else
    (some .redraw,
      { m with
        pending := []
        viewport := m.pending.foldl
          (fun viewport row => viewport.centerOn row m.outline.length m.footerLines) m.viewport })

end Mounted

namespace Panel

/-- The reaction to a message. `lineAt` tells the lines of the editor's text. -/
def react (p : Panel) (lineAt : Nat → Except Fault Line) (message : Message) :
    Except Fault (Option Command × Panel) :=
  match p.mounted with
  | none => return (none, p)
  | some m => do
    let (command, m) ← match message with
      | .update u => m.onUpdate p.settings lineAt u
      | .input input => m.onInput p.origin input
      | .tick => pure m.onTick
    return (command, { p with mounted := some m })

/-- Put off bringing a row into view until the next tick. -/
def putOff (p : Panel) (row : Nat) : Panel :=
  { p with mounted := p.mounted.map fun m => { m with pending := m.pending ++ [row] } }

/-! ## What a panel shows -/

/-- Whether the panel is mounted. -/
def isAttached (p : Panel) : Bool := p.mounted.isSome

/-- The outline, if the panel is mounted. -/
def outline? (p : Panel) : Option Outline := p.mounted.map (·.outline)

/-- The highlighted span. -/
def highlight (p : Panel) : Option Span := p.mounted.bind (·.highlight)

/-- Index of the first row in view. -/
def scrollOffset (p : Panel) : Nat := (p.mounted.map (·.viewport.offset)).getD 0

/-- The rows that wait for a tick. -/
def pending (p : Panel) : List Nat := (p.mounted.map (·.pending)).getD []

end Panel

end TreePanel
