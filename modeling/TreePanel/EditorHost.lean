import TreePanel.Geometry
import TreePanel.Lines
import TreePanel.Transaction

/-!
# What a panel needs of an editor

The panel owns neither text nor tree nor selection. Whatever holds them is an editor host: a state
that can be asked for them, that answers transactions, and that has a surface to share.
-/

namespace TreePanel

/-- A type of editor states. -/
class EditorHost (σ : Type) where
  /-- The snapshot of the tree as it is now. -/
  tree : σ → Snapshot
  /-- The selection as it is now. -/
  selection : σ → Selection
  /-- The line that holds an offset of the text. -/
  lineAt : σ → Nat → Except Fault Line
  /-- Carry out a transaction and tell what came of it. -/
  dispatch : σ → Transaction → Update × σ
  /-- Show a mark for the highlight, or remove it. -/
  decorate : σ → Option Span → σ
  /-- The surface of the editor, if there is one. -/
  surface : σ → Option Surface
  /-- Give the editor another surface. -/
  resize : σ → Surface → σ

end TreePanel
