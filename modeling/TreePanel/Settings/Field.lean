import TreePanel.Settings

/-!
# Fields of the settings

The settings are stored under the names of their fields.
-/

namespace TreePanel.Settings

/-- What is stored of the settings. -/
inductive Field where
  | dock
  | panelSize
  | indentWidth
  | rowHeight
  | showAnonymous
  | footer
deriving DecidableEq, Repr

namespace Field

/-- All fields, in the order in which they are stored. -/
def all : List Field := [dock, panelSize, indentWidth, rowHeight, showAnonymous, footer]

/-- The name under which a field is stored. -/
def name : Field → String
  | dock => "dock"
  | panelSize => "panel_size"
  | indentWidth => "indent_width"
  | rowHeight => "row_height"
  | showAnonymous => "show_anonymous_nodes"
  | footer => "footer"

/-- The field with the given name. -/
def ofName? (name : String) : Option Field := all.find? fun field => field.name == name

/-- A field is found under its name. -/
theorem ofName?_name (field : Field) : ofName? field.name = some field := by
  cases field <;> decide

end Field

end TreePanel.Settings
