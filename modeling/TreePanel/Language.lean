import TreePanel.Path

/-!
# Languages of documents

A document's language is found from the extension of its path. Every language but plain text has
a grammar; which of the grammars this library gives is said at `Language.grammar?`.
-/

namespace TreePanel

/-- The languages that the panel knows. -/
inductive Language where
  | plain
  | rust
  | javascript
  | json
  | toml
  | python
deriving DecidableEq, Repr

namespace Language

instance : Inhabited Language := ⟨plain⟩

/-- The language of an extension, in any letter case. The extensions are ASCII, and no character
outside ASCII has a lowercase form among their letters, so the case of ASCII letters is all that
has to be dropped. -/
def ofExtension (extension : String) : Language :=
  match String.ofList (extension.toList.map Char.toLower) with
  | "rs" => rust
  | "js" | "mjs" | "cjs" | "jsx" => javascript
  | "json" => json
  | "toml" => toml
  | "py" | "pyi" => python
  | _ => plain

/-- The language of a path; plain text without an extension. -/
def ofPath (path : String) : Language :=
  match Path.extension? path with
  | some extension => ofExtension extension
  | none => plain

/-- The name shown to a reader. -/
def displayName : Language → String
  | plain => "Plain Text"
  | rust => "Rust"
  | javascript => "JavaScript"
  | json => "JSON"
  | toml => "TOML"
  | python => "Python"

/-- Whether texts of the language are parsed. -/
def hasGrammar : Language → Bool
  | plain => false
  | _ => true

end Language

end TreePanel
