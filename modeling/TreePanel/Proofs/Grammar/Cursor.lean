import Mathlib.Data.List.Forall2
import TreePanel.Grammar.Cursor
import TreePanel.Proofs.Fault
import TreePanel.Proofs.Place

/-!
# Walks of a cursor

Of cursors it is only assumed that they move in a tree as cursors do: each stands at a place and
shows the node there, and a move takes it to the place that is meant, if there is a node
(`Cursors.MoveIn`). Cursors that keep the way down move so in every tree
(`Cursors.trailed_moveIn`).

One round of the conversion is told apart from the tree: what is brought back from below a node, or
from the siblings after it, is handed on with the node of the round (`Cursors.convertNode_inner`,
`Cursors.convertRow_next`). The walk over a tree follows by induction on the tree
(`Cursors.convertNode_eq`). After every subtree the cursor is back at the place where it began, and
what it brings back is what turning the subtree into nodes by recursion gives, be it a node or a
fault. The conversions on the way began at the places of the nodes, in pre-order.
-/

namespace TreePanel

open Node (Place)

namespace RangeTree

/-! ## Places of a tree over bytes -/

/-- The subtree at a place, if there is one. -/
def at? : RangeTree → Place → Option RangeTree
  | t, [] => some t
  | t, i :: below => t.children[i]?.bind fun child => child.at? below

/-- One step further down is a child. -/
theorem at?_child {tree t : RangeTree} {place : Place} (h : tree.at? place = some t) (i : Nat) :
    tree.at? (place ++ [i]) = t.children[i]? := by
  induction place generalizing tree with
  | nil =>
    obtain rfl : tree = t := Option.some.inj h
    rw [List.nil_append, at?]
    cases tree.children[i]? <;> rfl
  | cons j below ih =>
    obtain ⟨child, hchild, hdown⟩ := Option.bind_eq_some_iff.1 h
    rw [List.cons_append, at?, hchild, Option.bind_some]
    exact ih hdown

/-- There is a root. -/
theorem size_pos (t : RangeTree) : 0 < t.size := by
  cases t
  rw [size]
  exact Nat.lt_add_right _ Nat.one_pos

/-! ## Nodes of trees -/

/-- A tree is turned into a node after its children. -/
theorem toNode_eq (text : List Char) (t : RangeTree) :
    toNode text t = (toNodes text t.children >>= t.label.toNode text) := by
  cases t
  rfl

/-- The node of a tree has its kind and mark, the characters for its bytes, and the nodes of its
children. -/
theorem of_toNode {text : List Char} {t : RangeTree} {n : Node} (h : toNode text t = .ok n) :
    n.name = t.kind ∧ n.named = t.named ∧ n.span.start = charOffset text t.start ∧
      n.span.stop = charOffset text t.stop ∧ toNodes text t.children = .ok n.children := by
  rw [toNode_eq] at h
  obtain ⟨children, hchildren, hnode⟩ := bind_eq_ok.1 h
  obtain ⟨span, hspan, hbuild⟩ := bind_eq_ok.1 hnode
  unfold Span.between at hspan
  split at hspan
  · cases hspan
    unfold Node.build at hbuild
    split at hbuild
    · cases hbuild
      exact ⟨rfl, rfl, rfl, rfl, hchildren⟩
    · cases hbuild
  · cases hspan

/-- The nodes of several trees are those of each. -/
theorem of_toNodes_cons {text : List Char} {t : RangeTree} {rest : List RangeTree} {ns : List Node}
    (h : toNodes text (t :: rest) = .ok ns) :
    ∃ n later, ns = n :: later ∧ toNode text t = .ok n ∧ toNodes text rest = .ok later := by
  obtain ⟨n, hn, h⟩ := bind_eq_ok.1 h
  obtain ⟨later, hlater, hdone⟩ := bind_eq_ok.1 h
  cases hdone
  exact ⟨n, later, rfl, hn, hlater⟩

end RangeTree

/-- A subtree at a place has this place, and those below it. -/
theorem Node.places_eq (place : Place) (n : Node) :
    n.located.map (fun e => place ++ e.1) =
      place :: (locatedAll 0 n.children).map fun e => place ++ e.1 := by
  rw [located_eq, List.map_cons, List.append_nil]

/-- Below a place, a row has the places of its first node and then those of the others. -/
theorem Node.places_cons (place : Place) (i : Nat) (n : Node) (rest : List Node) :
    (locatedAll i (n :: rest)).map (fun e => place ++ e.1) =
      n.located.map (fun e => (place ++ [i]) ++ e.1) ++
        (locatedAll (i + 1) rest).map fun e => place ++ e.1 := by
  rw [locatedAll, List.map_append, List.map_map]
  simp only [Function.comp_def, List.append_assoc, List.singleton_append]

namespace Cursors

variable {κ : Type} {cursors : Cursors κ} {text : List Char}

/-! ## One round -/

section Round

variable {limit : Nat} {c child sibling last up : κ} {visited later : List κ}
  {node : Except Fault Node} {nodes : Except Fault (List Node)}

/-- After a part that succeeds, the round goes on. -/
theorem ok_bind {α β : Type} (a : α) (f : α → ExceptT Fault Option β) :
    @bind (ExceptT Fault Option) _ α β (some (.ok a)) f = f a := rfl

/-- A part that can only fault ends the round, with what is made of it. -/
theorem lift_bind_pure {α β : Type} (x : Except Fault α) (f : α → β) :
    (liftM x >>= fun a => pure (f a) : ExceptT Fault Option β) = some (x.map f) := by
  cases x <;> rfl

/-- A node without children is all that there is to convert. -/
theorem convertNode_leaf (hchild : cursors.firstChild? c = none) :
    cursors.convertNode text (limit + 1) c =
      some (((cursors.label c).toNode text []).map (⟨·, c, [c]⟩)) := by
  rw [convertNode, hchild]
  exact lift_bind_pure _ _

/-- The children of a node are converted before it, and the last of them leads back. -/
theorem convertNode_inner (hchild : cursors.firstChild? c = some child)
    (hrow : cursors.convertRow text limit child = some (nodes.map (⟨·, last, visited⟩)))
    (hup : cursors.parent? last = some up) :
    cursors.convertNode text (limit + 1) c =
      some ((nodes >>= (cursors.label c).toNode text).map (⟨·, up, c :: visited⟩)) := by
  have hback : (cursors.parent? last).getD last = up := by rw [hup, Option.getD_some]
  rw [convertNode, hchild]
  dsimp only
  rw [hrow]
  cases nodes with
  | error fault => rfl
  | ok children =>
    rw [← hback]
    exact lift_bind_pure _ _

/-- A node without a sibling after it is the last one of its row. -/
theorem convertRow_last
    (hnode : cursors.convertNode text limit c = some (node.map (⟨·, last, visited⟩)))
    (hsibling : cursors.nextSibling? last = none) :
    cursors.convertRow text (limit + 1) c = some (node.map (⟨[·], last, visited⟩)) := by
  rw [convertRow, hnode]
  cases node with
  | error fault => rfl
  | ok n =>
    rw [Except.map, ok_bind, hsibling]
    dsimp only
    rw [pure_bind, List.append_nil]
    rfl

/-- The rest of a row is converted after its first node. -/
theorem convertRow_next
    (hnode : cursors.convertNode text limit c = some (node.map (⟨·, last, visited⟩)))
    (hsibling : cursors.nextSibling? last = some sibling)
    (hrest : cursors.convertRow text limit sibling = some (nodes.map (⟨·, up, later⟩))) :
    cursors.convertRow text (limit + 1) c =
      some ((do return (← node) :: (← nodes)).map (⟨·, up, visited ++ later⟩)) := by
  rw [convertRow, hnode]
  cases node with
  | error fault => rfl
  | ok n =>
    rw [Except.map, ok_bind, hsibling]
    dsimp only
    rw [hrest]
    cases nodes <;> rfl

end Round

/-! ## Walks -/

/-- Where a move to a place leads. A cursor that was moved stands there, and if it could not be
moved, there is no node. -/
def Reaches (tree : RangeTree) (At : κ → Place → Prop) (place : Place) : Option κ → Prop
  | some c => At c place
  | none => tree.at? place = none

/-- The cursors move in a tree: `At c place` tells that `c` stands at a place of it. -/
structure MoveIn (cursors : Cursors κ) (tree : RangeTree) (At : κ → Place → Prop) : Prop where
  /-- A new cursor stands on the root. -/
  root : At (cursors.ofTree tree) []
  /-- A cursor shows the node at its place. -/
  label : ∀ {c place}, At c place → ∃ t, tree.at? place = some t ∧ cursors.label c = t.label
  /-- It moves to the first child if there is one. -/
  firstChild : ∀ {c place}, At c place → Reaches tree At (place ++ [0]) (cursors.firstChild? c)
  /-- From a child it moves to the next one if there is one. -/
  nextSibling : ∀ {c place i}, At c (place ++ [i]) →
    Reaches tree At (place ++ [i + 1]) (cursors.nextSibling? c)
  /-- From a child it moves back to the node. -/
  parent : ∀ {c place i}, At c (place ++ [i]) → ∃ up, cursors.parent? c = some up ∧ At up place

variable {tree : RangeTree} {At : κ → Place → Prop}

mutual

/-- From any place of a tree, the conversion of the node there comes back to the place, whatever the
limit, if it is high enough. What it brings back is the node that recursion makes of the subtree, or
the fault, and conversions began at the places of the subtree, each in its turn. -/
theorem convertNode_eq (h : cursors.MoveIn tree At) (text : List Char) :
    (t : RangeTree) → ∀ {c : κ} {place : Place}, tree.at? place = some t → At c place →
      ∃ last visited,
        (∀ limit, 2 * t.size ≤ limit + 1 →
          cursors.convertNode text limit c = some ((t.toNode text).map (⟨·, last, visited⟩))) ∧
        At last place ∧ ∀ n, t.toNode text = .ok n →
          List.Forall₂ At visited (n.located.map fun e => place ++ e.1)
  | .mk kind named start stop children, c, place, hat, hc => by
    obtain ⟨t, ht, hlabel⟩ := h.label hc
    cases hat.symm.trans ht
    have hmove := h.firstChild hc
    cases hchild : cursors.firstChild? c with
    | none =>
      rw [hchild] at hmove
      obtain rfl : children = [] := by
        rw [← List.head?_eq_none_iff, List.head?_eq_getElem?]
        exact (RangeTree.at?_child hat 0).symm.trans hmove
      refine ⟨c, [c], fun limit hlimit => ?_, hc, fun n hn => ?_⟩
      · rw [RangeTree.size] at hlimit
        obtain ⟨less, rfl⟩ : ∃ less, limit = less + 1 := ⟨limit - 1, by omega⟩
        rw [convertNode_leaf hchild, hlabel]
        rfl
      · obtain ⟨-, -, -, -, hnodes⟩ := RangeTree.of_toNode hn
        have hleaf : n.children = [] := (Except.ok.inj hnodes).symm
        rw [Node.places_eq, hleaf]
        exact .cons hc .nil
    | some child =>
      rw [hchild] at hmove
      obtain ⟨last, visited, hrow, ⟨k, hlast⟩, hplaces⟩ := convertRow_eq h text children
        (fun j => by rw [Nat.zero_add]; exact RangeTree.at?_child hat j) hmove
      -- Whichever child was the last one, the way up from it leads to the node.
      obtain ⟨up, hup, hback⟩ := h.parent hlast
      refine ⟨up, c :: visited, fun limit hlimit => ?_, hback, fun n hn => ?_⟩
      · rw [RangeTree.size] at hlimit
        obtain ⟨less, rfl⟩ : ∃ less, limit = less + 1 := ⟨limit - 1, by omega⟩
        rw [convertNode_inner hchild (hrow less (by omega)) hup, hlabel]
        rfl
      · obtain ⟨-, -, -, -, hnodes⟩ := RangeTree.of_toNode hn
        rw [Node.places_eq]
        exact .cons hc (hplaces n.children hnodes)

/-- From any child of a node, the conversion of the children from there on ends at one of them. -/
theorem convertRow_eq (h : cursors.MoveIn tree At) (text : List Char) :
    (ts : List RangeTree) → ∀ {c : κ} {place : Place} {i : Nat},
      (∀ j, tree.at? (place ++ [i + j]) = ts[j]?) → At c (place ++ [i]) →
      ∃ last visited,
        (∀ limit, 2 * RangeTree.sizeAll ts ≤ limit → cursors.convertRow text limit c =
          some ((RangeTree.toNodes text ts).map (⟨·, last, visited⟩))) ∧
        (∃ k, At last (place ++ [k])) ∧ ∀ ns, RangeTree.toNodes text ts = .ok ns →
          List.Forall₂ At visited ((Node.locatedAll i ns).map fun e => place ++ e.1)
  | [], c, place, i, hat, hc => by
    obtain ⟨t, ht, -⟩ := h.label hc
    exact absurd (ht.symm.trans (hat 0)) (Option.some_ne_none t)
  | t :: rest, c, place, i, hat, hc => by
    obtain ⟨last, visited, hnode, hlast, hplaces⟩ := convertNode_eq h text t (hat 0) hc
    have hpos : 0 < t.size := t.size_pos
    -- The cursor has come back to the first child, so its next sibling is the next child.
    have hmove := h.nextSibling hlast
    cases hsibling : cursors.nextSibling? last with
    | none =>
      rw [hsibling] at hmove
      obtain rfl : rest = [] := by
        rw [← List.head?_eq_none_iff, List.head?_eq_getElem?]
        exact (hat 1).symm.trans hmove
      refine ⟨last, visited, fun limit hlimit => ?_, ⟨i, hlast⟩, fun ns hns => ?_⟩
      · rw [RangeTree.sizeAll] at hlimit
        obtain ⟨less, rfl⟩ : ∃ less, limit = less + 1 := ⟨limit - 1, by omega⟩
        rw [convertRow_last (hnode less (by omega)) hsibling, RangeTree.toNodes]
        cases RangeTree.toNode text t <;> rfl
      · obtain ⟨n, later, rfl, hn, hlater⟩ := RangeTree.of_toNodes_cons hns
        cases hlater
        rw [Node.places_cons, Node.locatedAll, List.map_nil, List.append_nil]
        exact hplaces n hn
    | some sibling =>
      rw [hsibling] at hmove
      obtain ⟨up, later, hrest, hend, hothers⟩ := convertRow_eq h text rest
        (fun j => by rw [Nat.add_right_comm]; exact hat (j + 1)) hmove
      refine ⟨up, visited ++ later, fun limit hlimit => ?_, hend, fun ns hns => ?_⟩
      · rw [RangeTree.sizeAll] at hlimit
        obtain ⟨less, rfl⟩ : ∃ less, limit = less + 1 := ⟨limit - 1, by omega⟩
        exact convertRow_next (hnode less (by omega)) hsibling (hrest less (by omega))
      · obtain ⟨n, ms, rfl, hn, hms⟩ := RangeTree.of_toNodes_cons hns
        rw [Node.places_cons]
        exact List.rel_append (hplaces n hn) (hothers ms hms)

end

end Cursors

/-! ## Cursors that keep the way down -/

/-- The children of a node below its label make up the node. -/
theorem RangeTree.over_children (t : RangeTree) : t.label.over t.children = t := by
  cases t
  rfl

namespace Cursor

/-- The place to which a way down leads. -/
def placeOf : List Crumb → Place
  | [] => []
  | crumb :: trail => placeOf trail ++ [crumb.before.length]

/-- The tree through which a way leads down to a node. -/
def treeOf : List Crumb → RangeTree → RangeTree
  | [], t => t
  | crumb :: trail, t => treeOf trail (crumb.close t)

/-- The cursor stands at a place of a tree. -/
def StandsAt (tree : RangeTree) (c : Cursor) (place : Place) : Prop :=
  treeOf c.trail c.focus = tree ∧ placeOf c.trail = place

/-- A way down leads to its node. -/
theorem at?_treeOf (trail : List Crumb) (t : RangeTree) (below : Place) :
    (treeOf trail t).at? (placeOf trail ++ below) = t.at? below := by
  induction trail generalizing t below with
  | nil => rfl
  | cons crumb trail ih =>
    have hchild : (crumb.close t).children[crumb.before.length]? = some t := by
      show (crumb.before.reverse ++ t :: crumb.after)[crumb.before.length]? = some t
      rw [List.getElem?_append_right (Nat.le_of_eq List.length_reverse), List.length_reverse,
        Nat.sub_self, List.getElem?_cons_zero]
    rw [treeOf, placeOf, List.append_assoc, List.singleton_append, ih, RangeTree.at?, hchild,
      Option.bind_some]

variable {tree : RangeTree} {c : Cursor} {place : Place} {i : Nat}

/-- Under a cursor there is the subtree at its place. -/
theorem StandsAt.at?_eq (h : c.StandsAt tree place) : tree.at? place = some c.focus := by
  obtain ⟨rfl, rfl⟩ := h
  have hend := at?_treeOf c.trail c.focus []
  rwa [List.append_nil] at hend

/-- A cursor that is not on the root has taken a last step, past the siblings before it. -/
theorem StandsAt.exists_crumb (h : c.StandsAt tree (place ++ [i])) :
    ∃ crumb trail, c.trail = crumb :: trail ∧ crumb.before.length = i ∧
      StandsAt tree ⟨crumb.close c.focus, trail⟩ place := by
  obtain ⟨htree, hplace⟩ := h
  cases htrail : c.trail with
  | nil =>
    rw [htrail] at hplace
    exact absurd hplace.symm (List.append_ne_nil_of_right_ne_nil place (List.cons_ne_nil i []))
  | cons crumb trail =>
    rw [htrail] at htree hplace
    obtain ⟨hplace, hlast⟩ := List.append_inj' hplace rfl
    exact ⟨crumb, trail, rfl, (List.cons.inj hlast).1, htree, hplace⟩

end Cursor

/-- Cursors that keep the way down move in every tree. -/
theorem Cursors.trailed_moveIn (tree : RangeTree) :
    Cursors.trailed.MoveIn tree (Cursor.StandsAt tree) where
  root := ⟨rfl, rfl⟩
  label {c place} hc := ⟨c.focus, hc.at?_eq, rfl⟩
  firstChild {c place} hc := by
    show Reaches tree _ _ c.firstChild?
    unfold Cursor.firstChild?
    cases hchildren : c.focus.children with
    | nil =>
      show tree.at? (place ++ [0]) = none
      rw [RangeTree.at?_child hc.at?_eq, hchildren]
      rfl
    | cons child rest =>
      obtain ⟨htree, rfl⟩ := hc
      refine ⟨?_, rfl⟩
      show Cursor.treeOf c.trail (c.focus.label.over (child :: rest)) = tree
      rw [← hchildren, RangeTree.over_children, htree]
  nextSibling {c place i} hc := by
    obtain ⟨crumb, trail, htrail, rfl, hup⟩ := hc.exists_crumb
    show Reaches tree _ _ c.nextSibling?
    unfold Cursor.nextSibling?
    rw [htrail]
    dsimp only
    cases hafter : crumb.after with
    | nil =>
      show tree.at? (place ++ [crumb.before.length + 1]) = none
      rw [RangeTree.at?_child hup.at?_eq]
      show (crumb.before.reverse ++ c.focus :: crumb.after)[crumb.before.length + 1]? = none
      refine List.getElem?_eq_none (Nat.le_of_eq ?_)
      rw [hafter, List.length_append, List.length_reverse, List.length_singleton]
    | cons sibling rest =>
      obtain ⟨htree, rfl⟩ := hup
      refine ⟨?_, rfl⟩
      show Cursor.treeOf trail (crumb.label.over
        ((c.focus :: crumb.before).reverse ++ sibling :: rest)) = tree
      rw [List.reverse_cons, List.append_assoc, List.singleton_append, ← hafter]
      exact htree
  parent {c place i} hc := by
    obtain ⟨crumb, trail, htrail, -, hup⟩ := hc.exists_crumb
    refine ⟨_, ?_, hup⟩
    show c.parent? = _
    unfold Cursor.parent?
    rw [htrail]

end TreePanel
