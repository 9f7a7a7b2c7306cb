import TreePanel.Span

/-!
# Nodes of a parse tree

A node has the name its grammar gives it, the span it covers, a mark that tells rule nodes from
bare tokens, and its children in document order. `Node.build` makes a node only if every child
lies inside it; `Node.Nested` says that this holds all the way down.
-/

namespace TreePanel

/-- A node of a parse tree. -/
inductive Node where
  | mk (name : String) (span : Span) (named : Bool) (children : List Node)

namespace Node

/-- The grammar's name for the node. -/
def name : Node → String
  | mk name _ _ _ => name

/-- The characters that the node covers. -/
def span : Node → Span
  | mk _ span _ _ => span

/-- Whether the node comes from a rule of the grammar; punctuation and keywords do not. -/
def named : Node → Bool
  | mk _ _ named _ => named

/-- The children, in document order. -/
def children : Node → List Node
  | mk _ _ _ children => children

/-- A node without children. -/
def leaf (name : String) (span : Span) (named : Bool) : Node := mk name span named []

/-- Whether the node has no children. -/
def isLeaf (n : Node) : Bool := n.children.isEmpty

/-- A node over the given children; a fault if one of them reaches outside it. -/
def build (name : String) (span : Span) (named : Bool) (children : List Node) :
    Except Fault Node :=
  if children.all (fun child => span.contains child.span) then
    .ok (mk name span named children)
  else
    .error (.childOutside name span.start span.stop)

/-! ## Size and equality -/

mutual
/-- Number of nodes, the node itself included. -/
def size : Node → Nat
  | mk _ _ _ children => 1 + sizeAll children

/-- Number of nodes in a list of trees. -/
def sizeAll : List Node → Nat
  | [] => 0
  | n :: rest => n.size + sizeAll rest
end

mutual
/-- Two trees are equal or not; names, spans, marks and children are compared in turn. -/
def decEq : (a b : Node) → Decidable (a = b)
  | mk name span named children, mk name₂ span₂ named₂ children₂ =>
    if hn : name = name₂ then
      if hs : span = span₂ then
        if hm : named = named₂ then
          match decEqAll children children₂ with
          | isTrue hc => isTrue (by rw [hn, hs, hm, hc])
          | isFalse hc => isFalse (fun h => hc (by cases h; rfl))
        else isFalse (fun h => hm (by cases h; rfl))
      else isFalse (fun h => hs (by cases h; rfl))
    else isFalse (fun h => hn (by cases h; rfl))

/-- Two lists of trees are equal or not. -/
def decEqAll : (a b : List Node) → Decidable (a = b)
  | [], [] => isTrue rfl
  | [], _ :: _ => isFalse (fun h => nomatch h)
  | _ :: _, [] => isFalse (fun h => nomatch h)
  | n :: rest, n₂ :: rest₂ =>
    match decEq n n₂ with
    | isTrue hn =>
      match decEqAll rest rest₂ with
      | isTrue hr => isTrue (by rw [hn, hr])
      | isFalse hr => isFalse (fun h => hr (by cases h; rfl))
    | isFalse hn => isFalse (fun h => hn (by cases h; rfl))
end

instance : DecidableEq Node := decEq

/-! ## Nesting -/

/-- Every child lies inside its parent, at every level. -/
inductive Nested : Node → Prop
  | mk {name : String} {span : Span} {named : Bool} {children : List Node} :
      (∀ child ∈ children, span.contains child.span = true) →
      (∀ child ∈ children, Nested child) →
      Nested (.mk name span named children)

/-- Nothing lies in a leaf that could reach outside it. -/
@[simp] theorem nested_leaf (name : String) (span : Span) (named : Bool) :
    (leaf name span named).Nested := .mk nofun nofun

/-- A node built over nested children is nested. -/
theorem nested_of_build {name : String} {span : Span} {named : Bool} {children : List Node}
    {n : Node} (hc : ∀ child ∈ children, Nested child)
    (h : build name span named children = .ok n) : Nested n := by
  unfold build at h
  split at h
  · next hall =>
    cases h
    exact .mk (fun child hm => List.all_eq_true.1 hall child hm) hc
  · cases h

end Node

end TreePanel
