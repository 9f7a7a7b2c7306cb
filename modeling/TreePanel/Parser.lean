import TreePanel.Grammar
import TreePanel.Snapshot

/-!
# Parsers of documents

A parser belongs to one document and parses its text again and again. It keeps the last text with
the tree and the snapshot made of it. The same text gives the same snapshot; another text gives a
new one, made from the old tree and the edit since if there is an old tree, and from the text alone
if that fails. A text without a tree, as every plain text is, gets a lone node over all of it.
-/

namespace TreePanel

/-- The last text of a parser, and what was made of it. -/
structure Parsed where
  text : List Char
  /-- The grammar's tree, if there is one. -/
  tree : Option RangeTree
  snapshot : Snapshot

/-- A parser of one document. -/
structure Parser where
  /-- The grammar; plain text has none. -/
  grammar : Option Grammar
  /-- The number under which the parser makes its snapshots. -/
  maker : Nat
  /-- Number of snapshots made so far. -/
  made : Nat
  last : Option Parsed

namespace Parser

/-- A parser for a language that has parsed nothing yet. -/
def new (language : Language) (maker : Nat) : Parser := ⟨language.grammar?, maker, 0, none⟩

/-- The name of the node over a text without a tree. -/
def plainRoot : String := "Document"

/-- The node over a text without a tree. -/
def plainNode (text : List Char) : Node := .leaf plainRoot ⟨0, text.length, Nat.zero_le _⟩ true

/-- The tree of a text under a grammar, with the help of the last one if it has a tree. -/
def treeOf (g : Grammar) (last : Option Parsed) (text : List Char) : Option RangeTree :=
  match last with
  | some ⟨oldText, some oldTree, _⟩ =>
    match Edit.between? oldText text with
    | some edit => (g.reparse oldTree edit text).orElse fun _ => g.parse text
    | none => g.parse text
  | _ => g.parse text

/-- The root node for a text and its tree. -/
def rootOf (text : List Char) : Option RangeTree → Except Fault Node
  | some tree => tree.toNode text
  | none => return plainNode text

/-- The snapshot of a text that the last one is no snapshot of. -/
def parseNew (p : Parser) (text : List Char) : Except Fault (Snapshot × Parser) := do
  let tree := p.grammar.bind fun g => treeOf g p.last text
  let snapshot : Snapshot := ⟨⟨p.maker, p.made⟩, ← rootOf text tree⟩
  return (snapshot, { p with made := p.made + 1, last := some ⟨text, tree, snapshot⟩ })

/-- The snapshot of a text: the last one if the text did not change. -/
def parse (p : Parser) (text : List Char) : Except Fault (Snapshot × Parser) :=
  match p.last with
  | some last => if last.text = text then return (last.snapshot, p) else p.parseNew text
  | none => p.parseNew text

/-- The snapshots of several texts in turn. -/
def parseAll (p : Parser) : List (List Char) → Except Fault (List Snapshot × Parser)
  | [] => return ([], p)
  | text :: rest => do
    let (snapshot, p) ← p.parse text
    let (snapshots, p) ← p.parseAll rest
    return (snapshot :: snapshots, p)

end Parser

end TreePanel
