import TreePanel.Count
import TreePanel.Document
import TreePanel.EditorHost
import TreePanel.Files.Task
import TreePanel.Parser

/-!
# An editor without a window

An editor holds a document with its tree and its selection, a surface, the mark of a highlight,
and every transaction it was sent. It is a complete editor host. The tree either comes from a
parser, which then follows every edit, or was built by hand and stays until another is put in its
place.
-/

namespace TreePanel

/-- An editor without a window. -/
structure Editor where
  document : Document
  /-- The parser of the document; none if the tree was built by hand. -/
  parser : Option Parser
  tree : Snapshot
  selection : Selection
  /-- The surface, if the editor can be found on the screen. -/
  surface : Option Surface
  /-- The mark of the highlight. -/
  decoration : Option Span
  /-- Every transaction it was sent, the oldest first. -/
  sent : List Transaction

namespace Editor

/-- The surface of an editor that was given none: a window of 1280 by 800. -/
def defaultSurface : Surface :=
  ⟨Float32.ofBits 0, Float32.ofBits 0, Float32.ofBits 0x44a00000, Float32.ofBits 0x44480000⟩

/-- An editor for a document, parsed as its language. `maker` is the number of its parser. -/
def ofDocument (document : Document) (maker : Nat) : Except Fault Editor := do
  let (tree, parser) ← (Parser.new document.language maker).parse document.text
  return ⟨document, some parser, tree, default, some defaultSurface, none, []⟩

/-- An editor for a text. -/
def ofText (text : List Char) (language : Language) (maker : Nat) : Except Fault Editor :=
  ofDocument (.ofText text language) maker

/-- An editor for the document in a file. Reading the file may fail, and so may parsing it. -/
def ofFile (files : Files) (path : String) (maker : Nat) :
    Except FileFault (Except Fault Editor) := do
  let document ← FileTask.readDocument.run path (Document.ofFile files path)
  return ofDocument document maker

/-- An editor for a text with a tree built by hand. -/
def withTree (text : List Char) (tree : Snapshot) : Editor :=
  ⟨.ofText text .plain, none, tree, default, some defaultSurface, none, []⟩

/-- The line that holds an offset of the text. -/
def lineAt (e : Editor) (offset : Nat) : Except Fault Line := e.document.lineAt offset

/-- What the editor tells of its state, with what changed, who caused it and the effects. -/
def update (e : Editor) (selectionChanged textChanged : Bool) (origin : Option Origin)
    (effects : List Effect) : Update :=
  ⟨e.tree, e.selection, selectionChanged, textChanged, origin, effects⟩

/-! ## What a user does -/

/-- Select. -/
def select (e : Editor) (selection : Selection) : Update × Editor :=
  let e := { e with selection := selection }
  (e.update true false none [], e)

/-- Put another tree in the place of the old one. -/
def setTree (e : Editor) (tree : Snapshot) : Update × Editor :=
  let e := { e with tree := tree }
  (e.update false false none [], e)

/-- Where an offset goes when `[start..stop)` is replaced by `inserted` characters. One at or
before the start stays, one at or after the end moves with the text, and one in between goes to the
end of what was inserted. -/
def mapOffset (start stop inserted offset : Nat) : Except Fault Nat :=
  if offset ≤ start then return offset
  else if stop ≤ offset then do
    let kept ← Count.sub offset (stop - start)
    Count.add kept inserted
  else Count.add start inserted

/-- Replace the characters of `[start..stop)`, parse again, and move the selection along. -/
def replace (e : Editor) (start stop : Nat) (text : List Char) :
    Except Fault (Update × Editor) := do
  let document ← e.document.replace start stop text
  let (tree, parser) ← match e.parser with
    | some parser => do
      let (tree, parser) ← parser.parse document.text
      pure (tree, some parser)
    | none => pure (e.tree, none)
  let selection ← e.selection.mapOffsets (mapOffset start stop text.length)
  let moved : Editor :=
    { e with document := document, parser := parser, tree := tree, selection := selection }
  return (moved.update (selection != e.selection) true none [], moved)

/-- Tell the state although nothing changed. -/
def idle (e : Editor) : Update := e.update false false none []

/-- Carry out a transaction. -/
def dispatch (e : Editor) (t : Transaction) : Update × Editor :=
  let e := { e with sent := e.sent ++ [t], selection := t.selection.getD e.selection }
  (e.update t.selection.isSome false t.origin t.effects, e)

/-- An editor can have a panel beside it. -/
instance : EditorHost Editor where
  tree e := e.tree
  selection e := e.selection
  lineAt := lineAt
  dispatch := dispatch
  decorate e span := { e with decoration := span }
  surface e := e.surface
  resize e surface := { e with surface := some surface }

end Editor

end TreePanel
