import TreePanel.Decimal.Text
import TreePanel.Settings.Field

/-!
# Settings as text

Stored settings have a line for each field: its name, a colon and a space, and its value.
-/

namespace TreePanel.Settings

/-- Sizes are written with the fewest digits that read back, and with an exponent where the point
lies further than five zeros before or thirteen digits after the first digit. -/
def sizeStyle : Decimal.Style := ⟨.even, some (-5, 13), ".inf".toList, ".nan".toList⟩

/-- The word of a Boolean. -/
def boolText (b : Bool) : List Char := (if b then "true" else "false").toList

/-- The text of the value of a field. -/
def valueText (s : Settings) : Field → List Char
  | .dock => s.dock.name.toList
  | .panelSize => sizeStyle.floatText s.panelSize
  | .indentWidth => Decimal.natText s.indentWidth
  | .rowHeight => sizeStyle.floatText s.rowHeight
  | .showAnonymous => boolText s.showAnonymous
  | .footer => boolText s.footer

/-- The line of a field. -/
def line (s : Settings) (field : Field) : List Char :=
  field.name.toList ++ ':' :: ' ' :: s.valueText field ++ ['\n']

/-- The lines of some fields, in the given order. -/
def linesOf (s : Settings) (fields : List Field) : List Char := fields.flatMap s.line

/-- The stored text of settings. -/
def text (s : Settings) : List Char := s.linesOf Field.all

end TreePanel.Settings
