import TreePanel.Yaml.Source

/-!
# Tokens of YAML

A stream is cut into tokens. Besides what is written, tokens tell where block collections begin
and end, which follows from the columns, and where a key begins, which only shows once its colon is
met.
-/

namespace TreePanel.Yaml

/-- How a scalar is written. -/
inductive ScalarStyle where
  | plain
  | singleQuoted
  | doubleQuoted
  | literal
  | folded
deriving DecidableEq, Repr

/-- The text of a tag. Its bytes may be given by their numbers and need not make up a character;
where they do not, the text holds nothing readable. -/
abbrev TagText := List (Option Char)

/-- A text whose characters are all readable. -/
def TagText.ofString (text : String) : TagText := text.toList.map some

/-- What a token is. -/
inductive Token.Kind where
  | streamEnd
  /-- A `%YAML` directive. -/
  | version (major minor : Nat)
  /-- A `%TAG` directive: a handle and what it stands for. -/
  | handle (handle : String) (meaning : TagText)
  | documentStart
  | documentEnd
  | blockSequenceStart
  | blockMappingStart
  | blockEnd
  | flowSequenceStart
  | flowSequenceEnd
  | flowMappingStart
  | flowMappingEnd
  /-- A dash before an entry. -/
  | entry
  /-- A comma. -/
  | flowEntry
  | key
  | value
  | alias (name : String)
  | anchor (name : String)
  | tag (handle : String) (rest : TagText)
  | scalar (style : ScalarStyle) (text : List Char)
deriving DecidableEq

/-- A token and the text it stands for. -/
structure Token where
  kind : Token.Kind
  start : Position
  stop : Position

end TreePanel.Yaml
