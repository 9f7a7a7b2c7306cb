import TreePanel.Grammar.Edit
import TreePanel.Grammar.Json.Parse
import TreePanel.Language

/-!
# Grammars

A grammar makes a tree of a text. It can also make it from an old tree and the edit since, which
is faster but must give the same: `Grammar.Faithful` says so.

Of the languages only JSON has its grammar here, and it is a grammar of correct texts: a text with
an error has no tree. The full grammars of Rust, JavaScript, TOML and Python are not part of this
library. `Grammar.emptyText` stands in for each of them and knows the tree of the empty text only,
so what is said of texts in these languages is said of any grammar, with what it needs of the
grammar as a hypothesis.
-/

namespace TreePanel

/-- A way to parse texts. -/
structure Grammar where
  /-- The tree of a text, if the text can be parsed. -/
  parse : List Char → Option RangeTree
  /-- The tree of a text, from the tree of an older text and the edit between them. -/
  reparse : RangeTree → Edit → List Char → Option RangeTree

namespace Grammar

/-- Parsing with the help of an old tree gives what parsing afresh gives. -/
def Faithful (g : Grammar) : Prop :=
  ∀ (old new : List Char) (tree : RangeTree) (edit : Edit),
    g.parse old = some tree → Edit.between? old new = some edit →
      g.reparse tree edit new = g.parse new

/-- A grammar that has no use for old trees. -/
def ofParse (parse : List Char → Option RangeTree) : Grammar := ⟨parse, fun _ _ text => parse text⟩

/-- A stand-in for a grammar of which only the empty text is known: its tree is a lone root. Every
other text has no tree, whatever the full grammar would make of it. -/
def emptyText (root : String) : Grammar :=
  ofParse fun text => if text.isEmpty then some (.leaf root true 0 0) else none

/-- The grammar of JSON. A text that is not correct has no tree. -/
def json : Grammar := ofParse Json.parse?

end Grammar

/-- The grammar of a language; plain text has none. Those of Rust, JavaScript, TOML and Python are
stand-ins that parse the empty text and nothing else. -/
def Language.grammar? : Language → Option Grammar
  | .plain => none
  | .rust => some (.emptyText "source_file")
  | .javascript => some (.emptyText "program")
  | .json => some .json
  | .toml => some (.emptyText "document")
  | .python => some (.emptyText "module")

end TreePanel
