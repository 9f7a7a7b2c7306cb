import TreePanel.Dock

/-!
# Settings

What a user may choose about the panel. The defaults of the fields are the settings of a user who
has chosen nothing.
-/

namespace TreePanel

/-- The choices of a user. -/
structure Settings where
  /-- The side at which the panel docks. -/
  dock : DockSide := .right
  /-- Width of the panel at a side, or its height at the bottom. -/
  panelSize : Float32 := Float32.ofBits 0x438c0000
  /-- Columns of indentation for each level of the tree. -/
  indentWidth : Nat := 2
  /-- Height of a row. -/
  rowHeight : Float32 := Float32.ofBits 0x41900000
  /-- Give rows to punctuation and keywords. -/
  showAnonymous : Bool := false
  /-- Show the position footer. -/
  footer : Bool := true

namespace Settings

instance : Inhabited Settings := ⟨{}⟩

/-- Two settings agree in every field. Sizes are compared as numbers, so one that is no number
agrees with nothing. -/
def agrees (a b : Settings) : Bool :=
  a.dock == b.dock && a.panelSize == b.panelSize && a.indentWidth == b.indentWidth
    && a.rowHeight == b.rowHeight && a.showAnonymous == b.showAnonymous && a.footer == b.footer

end Settings

end TreePanel
