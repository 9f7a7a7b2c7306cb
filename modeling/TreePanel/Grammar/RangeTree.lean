import TreePanel.Node

/-!
# Trees over byte ranges

A grammar reads the bytes of a text, so its trees have byte ranges. A snapshot counts characters.
`RangeTree.toNode` gives a grammar's tree character spans: a byte offset becomes the number of
characters that end at or before it. Kinds, marks and the order of children stay as they are.
-/

namespace TreePanel

/-- A tree over the bytes of a text. -/
inductive RangeTree where
  | mk (kind : String) (named : Bool) (start stop : Nat) (children : List RangeTree)

namespace RangeTree

/-- The grammar's name for the node. -/
def kind : RangeTree → String
  | mk kind _ _ _ _ => kind

/-- Whether the node comes from a rule of the grammar. -/
def named : RangeTree → Bool
  | mk _ named _ _ _ => named

/-- Offset of the first byte inside. -/
def start : RangeTree → Nat
  | mk _ _ start _ _ => start

/-- Offset after the last byte inside. -/
def stop : RangeTree → Nat
  | mk _ _ _ stop _ => stop

/-- The children, in the order of the text. -/
def children : RangeTree → List RangeTree
  | mk _ _ _ _ children => children

/-- A node without children. -/
def leaf (kind : String) (named : Bool) (start stop : Nat) : RangeTree :=
  mk kind named start stop []

mutual
/-- Number of nodes, the node itself included. -/
def size : RangeTree → Nat
  | mk _ _ _ _ children => 1 + sizeAll children

/-- Number of nodes in a list of trees. -/
def sizeAll : List RangeTree → Nat
  | [] => 0
  | t :: rest => t.size + sizeAll rest
end

/-! ## Characters for bytes -/

/-- The bytes of a text. -/
def bytes (text : List Char) : List UInt8 := text.flatMap String.utf8EncodeChar

/-- Number of bytes of a text. -/
def byteLength : List Char → Nat
  | [] => 0
  | c :: rest => c.utf8Size + byteLength rest

/-- The number of characters that end at or before a byte offset. -/
def charOffset : List Char → Nat → Nat
  | [], _ => 0
  | c :: rest, offset =>
    if offset < c.utf8Size then 0 else 1 + charOffset rest (offset - c.utf8Size)

mutual
/-- The tree with character spans. The children are done before the node's own span is formed. -/
def toNode (text : List Char) : RangeTree → Except Fault Node
  | mk kind named start stop children => do
    let children ← toNodes text children
    let span ← Span.between (charOffset text start) (charOffset text stop)
    Node.build kind span named children

/-- Several trees with character spans, in order. -/
def toNodes (text : List Char) : List RangeTree → Except Fault (List Node)
  | [] => return []
  | t :: rest => return (← toNode text t) :: (← toNodes text rest)
end

end RangeTree

end TreePanel
