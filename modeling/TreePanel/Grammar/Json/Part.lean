import TreePanel.Grammar.RangeTree

/-!
# JSON text as parts

A JSON text is cut into parts that lose nothing: gaps of separators, tokens, and groups of parts
that make up a string, a pair, an array or an object. Written one after the other, the parts are
the text again (`Part.text`). A part begins where the one before it ends, so a tree over ranges is
only a matter of adding up lengths (`Part.layout`), in bytes or in characters.
-/

namespace TreePanel.Json

/-- A part of a JSON text. -/
inductive Part where
  /-- Separators; no node stands for them. -/
  | gap (text : List Char)
  /-- A leaf of the tree. -/
  | token (kind : String) (named : Bool) (text : List Char)
  /-- A rule node over its parts. -/
  | group (kind : String) (parts : List Part)

namespace Part

mutual
/-- The characters of a part. -/
def text : Part → List Char
  | gap text => text
  | token _ _ text => text
  | group _ parts => textAll parts

/-- The characters of several parts. -/
def textAll : List Part → List Char
  | [] => []
  | p :: rest => p.text ++ textAll rest
end

/-- Whether the part is a gap. -/
def isGap : Part → Bool
  | gap _ => true
  | _ => false

mutual
/-- The node of a part that begins at `offset`, if it has one, and where the part ends. Lengths are
taken by `measure`. -/
def layout (measure : List Char → Nat) (offset : Nat) : Part → List RangeTree × Nat
  | gap text => ([], offset + measure text)
  | token kind named text =>
    let stop := offset + measure text
    ([.leaf kind named offset stop], stop)
  | group kind parts =>
    let (children, stop) := layoutAll measure offset parts
    ([.mk kind true offset stop children], stop)

/-- The nodes of several parts, the first of which begins at `offset`, and where the last one
ends. -/
def layoutAll (measure : List Char → Nat) (offset : Nat) : List Part → List RangeTree × Nat
  | [] => ([], offset)
  | p :: rest =>
    let (first, next) := layout measure offset p
    let (others, stop) := layoutAll measure next rest
    (first ++ others, stop)
end

/-- The leaf of a punctuation mark, named by the mark itself. -/
def mark (c : Char) : Part := token (String.singleton c) false [c]

/-- The tree of a whole text. The root begins at the first part that is no gap and ends where the
text does. -/
def document (measure : List Char → Nat) (parts : List Part) : RangeTree :=
  let (_, lead) := layoutAll measure 0 (parts.takeWhile isGap)
  let (children, stop) := layoutAll measure 0 parts
  .mk "document" true lead stop children

end Part

end TreePanel.Json
