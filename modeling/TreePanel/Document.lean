import TreePanel.Files
import TreePanel.Language
import TreePanel.Lines

/-!
# Documents

A document is a text together with the language it is parsed as, the path it came from if any,
and a revision that counts its edits.
-/

namespace TreePanel

/-- A text and what is known of it. -/
structure Document where
  text : List Char
  language : Language
  path : Option String
  /-- Number of edits made so far. -/
  revision : Nat

namespace Document

/-- A document that came from no file. -/
def ofText (text : List Char) (language : Language) : Document :=
  ⟨text, language, none, 0⟩

/-- The document in a file; its language is that of the path. -/
def ofFile (files : Files) (path : String) : Except Files.Failure Document := do
  return ⟨← files.readText path, .ofPath path, some path, 0⟩

/-- Number of characters. -/
def length (d : Document) : Nat := d.text.length

/-- Number of lines. -/
def lineCount (d : Document) : Nat := Lines.count d.text

/-- The line that holds an offset. -/
def lineAt (d : Document) (offset : Nat) : Except Fault Line := Lines.lineAt d.text offset

/-- A text with the characters of `[start..stop)` replaced. -/
def splice (text : List Char) (start stop : Nat) (inserted : List Char) : List Char :=
  text.take start ++ inserted ++ text.drop stop

/-- Replace the characters of `[start..stop)`; a fault if that is no part of the text. -/
def replace (d : Document) (start stop : Nat) (inserted : List Char) : Except Fault Document :=
  if start ≤ stop ∧ stop ≤ d.length then
    .ok { d with text := splice d.text start stop inserted, revision := d.revision + 1 }
  else
    .error .editOutside

end Document

end TreePanel
