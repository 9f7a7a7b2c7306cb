import Mathlib.Data.List.Basic
import TreePanel.Listing

/-!
# Places in a tree

Equal nodes may stand in several places of a tree, so what is said of one node among all is said of
its place: the numbers of the children to take on the way down to it from the root. A node is above
another one exactly if its place is a proper prefix of the other's place, and it has as many nodes
above it as its place is long.

The listing of a tree by recursion names every place once, in lexicographic order
(`Node.mem_located`, `Node.pairwise_located`). A node stays when the anonymous nodes below the root
are left out with all below them exactly if the way down to it leads past named nodes only
(`Node.Visible`). That is the same for a child as for its parent, one step shorter
(`Node.visible_cons`), and so the nodes that stay are those of the children that stay
(`Node.kept_eq`).
-/

namespace TreePanel.Node

/-- Where a node stands in a tree: the numbers of the children to take on the way down from the
root. -/
abbrev Place := List Nat

/-- The node at a place, if there is one. -/
def at? : Node → Place → Option Node
  | n, [] => some n
  | n, i :: below => n.children[i]?.bind fun child => child.at? below

/-- A place below the root is a place below the child that it begins with. -/
theorem at?_cons_eq_some {root n : Node} {i : Nat} {below : Place} :
    root.at? (i :: below) = some n ↔
      ∃ child, root.children[i]? = some child ∧ child.at? below = some n := by
  rw [at?, Option.bind_eq_some_iff]

/-- A way down can be gone in two parts. -/
theorem at?_append (root : Node) (above below : Place) :
    root.at? (above ++ below) = (root.at? above).bind (·.at? below) := by
  induction above generalizing root with
  | nil => rfl
  | cons i above ih =>
    rw [List.cons_append, at?, at?]
    cases root.children[i]? with
    | none => rfl
    | some child => exact ih child

/-- A property that nodes pass on to their children, and that the root has, holds at every place. -/
theorem at?_induction {P : Node → Prop} (hchild : ∀ n, P n → ∀ child ∈ n.children, P child)
    {root n : Node} {place : Place} (hroot : P root) (hat : root.at? place = some n) : P n := by
  induction place generalizing root with
  | nil =>
    obtain rfl : root = n := Option.some.inj hat
    exact hroot
  | cons i below ih =>
    obtain ⟨child, hmem, hdown⟩ := at?_cons_eq_some.1 hat
    exact ih (hchild root hroot child (List.mem_of_getElem? hmem)) hdown

/-! ## All places -/

mutual
/-- The nodes of a tree in pre-order, each with its place. -/
def located : Node → List (Place × Node)
  | mk name span named children => ([], mk name span named children) :: locatedAll 0 children

/-- The nodes of trees that stand side by side, the first of them at number `i`. -/
def locatedAll (i : Nat) : List Node → List (Place × Node)
  | [] => []
  | n :: rest => (located n).map (fun e => (i :: e.1, e.2)) ++ locatedAll (i + 1) rest
end

/-- The nodes of a tree are its root and those below, whose places begin with the number of a child.
-/
theorem located_eq (n : Node) : n.located = ([], n) :: locatedAll 0 n.children := by
  cases n
  rfl

/-- The nodes of several trees are those of each in turn, a step further down. -/
theorem locatedAll_eq_flatMap (i : Nat) (ns : List Node) :
    locatedAll i ns =
      (ns.zipIdx i).flatMap fun child => child.1.located.map fun e => (child.2 :: e.1, e.2) := by
  induction ns generalizing i with
  | nil => rfl
  | cons n rest ih => rw [locatedAll, ih, List.zipIdx_cons, List.flatMap_cons]

/-- The places of a tree are those at which there is a node. -/
theorem mem_located {root n : Node} {place : Place} :
    (place, n) ∈ root.located ↔ root.at? place = some n := by
  induction place generalizing root with
  | nil =>
    rw [located_eq, locatedAll_eq_flatMap]
    simp [at?, eq_comm]
  | cons i below ih =>
    rw [at?_cons_eq_some, located_eq, locatedAll_eq_flatMap]
    simp only [List.mem_cons, Prod.mk.injEq, reduceCtorEq, false_and, false_or, List.mem_flatMap,
      List.mem_map, Prod.exists, List.mk_mem_zipIdx_iff_getElem?, List.cons.injEq]
    constructor
    · rintro ⟨child, i, hchild, place, n, hmem, ⟨rfl, rfl⟩, rfl⟩
      exact ⟨child, hchild, ih.1 hmem⟩
    · rintro ⟨child, hchild, hat⟩
      exact ⟨child, i, hchild, below, n, ih.2 hat, ⟨rfl, rfl⟩, rfl⟩

mutual

/-- Pre-order is the lexicographic order of places, and no place is named twice. -/
theorem pairwise_located : (n : Node) → n.located.Pairwise fun a b => a.1 < b.1
  | mk name span named children => by
    rw [located, List.pairwise_cons]
    refine ⟨fun e he => ?_, pairwise_locatedAll 0 children⟩
    rw [locatedAll_eq_flatMap] at he
    obtain ⟨child, -, he⟩ := List.mem_flatMap.1 he
    obtain ⟨e, -, rfl⟩ := List.mem_map.1 he
    exact List.nil_lt_cons _ _

/-- Trees that stand side by side are listed from the first to the last. -/
theorem pairwise_locatedAll (i : Nat) :
    (ns : List Node) → (locatedAll i ns).Pairwise fun a b => a.1 < b.1
  | [] => .nil
  | n :: rest => by
    rw [locatedAll, List.pairwise_append, List.pairwise_map]
    refine ⟨(pairwise_located n).imp fun hlt => ?_, pairwise_locatedAll (i + 1) rest, ?_⟩
    · exact List.cons_lt_cons_iff.2 (.inr ⟨rfl, hlt⟩)
    · -- The places below two different children differ in their first number already.
      intro a ha b hb
      obtain ⟨a, -, rfl⟩ := List.mem_map.1 ha
      rw [locatedAll_eq_flatMap] at hb
      obtain ⟨child, hchild, hb⟩ := List.mem_flatMap.1 hb
      obtain ⟨b, -, rfl⟩ := List.mem_map.1 hb
      have hlt : i < child.2 := (List.mem_zipIdx hchild).1
      exact List.cons_lt_cons_iff.2 (.inl hlt)

end

mutual

/-- Every node has one place. -/
theorem length_located : (n : Node) → n.located.length = n.size
  | mk name span named children => by
    rw [located, List.length_cons, length_locatedAll 0 children, size, Nat.add_comm]

/-- Every node of several trees has one place. -/
theorem length_locatedAll (i : Nat) : (ns : List Node) → (locatedAll i ns).length = sizeAll ns
  | [] => rfl
  | n :: rest => by
    rw [locatedAll, List.length_append, List.length_map, length_located n,
      length_locatedAll (i + 1) rest, sizeAll]

end

/-- A node with the depth that its place gives it below a node at the given depth. -/
def atDepth (depth : Nat) (e : Place × Node) : Nat × Node := (depth + e.1.length, e.2)

/-- A place that begins further up is as much longer. -/
theorem atDepth_cons (depth i : Nat) :
    atDepth depth ∘ (fun e => (i :: e.1, e.2)) = atDepth (depth + 1) := by
  funext e
  simp only [atDepth, Function.comp_apply, List.length_cons, Prod.mk.injEq, and_true]
  omega

mutual

/-- The recursion counts the depth as the length of places. -/
theorem descend_eq_map (depth : Nat) : (n : Node) → descend depth n = n.located.map (atDepth depth)
  | mk name span named children => by
    rw [descend, located, List.map_cons, descendAll_eq_map depth 0 children]
    rfl

/-- So does the recursion over several trees, the first of which has the number `i`. -/
theorem descendAll_eq_map (depth i : Nat) :
    (ns : List Node) → descendAll (depth + 1) ns = (locatedAll i ns).map (atDepth depth)
  | [] => rfl
  | n :: rest => by
    rw [descendAll, locatedAll, List.map_append, List.map_map, atDepth_cons,
      descend_eq_map (depth + 1) n, descendAll_eq_map depth (i + 1) rest]

end

/-! ## Places without anonymous nodes -/

/-- The way from the root down to a place leads past named nodes only, the node at the place
included and the root excepted. -/
def Visible (root : Node) (place : Place) : Prop :=
  ∀ above, above ≠ [] → above <+: place → ∃ n, root.at? above = some n ∧ n.named = true

/-- The root is visible, named or not. -/
theorem visible_nil (root : Node) : root.Visible [] := by
  intro above hne hway
  exact absurd (List.prefix_nil.1 hway) hne

/-- Below a child of the root a node is visible exactly if the child is named and the node is
visible from there. -/
theorem visible_cons {root : Node} {i : Nat} {below : Place} :
    root.Visible (i :: below) ↔
      ∃ child, root.children[i]? = some child ∧ child.named = true ∧ child.Visible below := by
  constructor
  · intro h
    obtain ⟨n, hn, hnamed⟩ := h [i] (List.cons_ne_nil i []) (by simp)
    obtain ⟨child, hchild, hat⟩ := at?_cons_eq_some.1 hn
    obtain rfl : child = n := Option.some.inj hat
    refine ⟨child, hchild, hnamed, fun above _ hway => ?_⟩
    -- A way down from the child is one from the root with one more number before it.
    obtain ⟨m, hm, hmnamed⟩ := h (i :: above) (List.cons_ne_nil i above)
      (List.cons_prefix_cons.2 ⟨rfl, hway⟩)
    obtain ⟨other, hother, hat⟩ := at?_cons_eq_some.1 hm
    rw [hchild] at hother
    cases hother
    exact ⟨m, hat, hmnamed⟩
  · rintro ⟨child, hchild, hnamed, hvisible⟩ above hne hway
    rcases List.prefix_cons_iff.1 hway with rfl | ⟨above, rfl, hbelow⟩
    · exact absurd rfl hne
    · by_cases hnil : above = []
      · subst hnil
        exact ⟨child, at?_cons_eq_some.2 ⟨child, hchild, rfl⟩, hnamed⟩
      · obtain ⟨n, hn, hnnamed⟩ := hvisible above hnil hbelow
        exact ⟨n, at?_cons_eq_some.2 ⟨child, hchild, hn⟩, hnnamed⟩

/-- Whether a place is visible is found out on the way down. -/
def decideVisible : (root : Node) → (place : Place) → Decidable (root.Visible place)
  | root, [] => isTrue root.visible_nil
  | root, i :: below =>
    match h : root.children[i]? with
    | none => isFalse fun hvisible => by
      obtain ⟨child, hchild, -⟩ := visible_cons.1 hvisible
      rw [h] at hchild
      cases hchild
    | some child =>
      have := child.decideVisible below
      decidable_of_iff (child.named = true ∧ child.Visible below) (by
        rw [visible_cons, h]
        simp)

instance (root : Node) (place : Place) : Decidable (root.Visible place) :=
  root.decideVisible place

/-- A node is visible exactly if it is the root, or is named and has no anonymous node above it but
the root. -/
theorem visible_iff {root n : Node} {place : Place} (h : root.at? place = some n) :
    root.Visible place ↔ place = [] ∨
      n.named = true ∧ ∀ above m, above ≠ [] → above <+: place → above ≠ place →
        root.at? above = some m → m.named = true := by
  constructor
  · intro hvisible
    by_cases hnil : place = []
    · exact .inl hnil
    · refine .inr ⟨?_, fun above m hne hway _ hm => ?_⟩
      · obtain ⟨m, hm, hnamed⟩ := hvisible place hnil List.prefix_rfl
        rw [h] at hm
        cases hm
        exact hnamed
      · obtain ⟨m', hm', hnamed⟩ := hvisible above hne hway
        rw [hm] at hm'
        cases hm'
        exact hnamed
  · rintro (rfl | ⟨hnamed, habove⟩)
    · exact root.visible_nil
    · intro above hne hway
      by_cases hsame : above = place
      · subst hsame
        exact ⟨n, h, hnamed⟩
      · -- There are nodes all the way down to a node.
        obtain ⟨below, rfl⟩ := hway
        rw [at?_append] at h
        obtain ⟨m, hm, -⟩ := Option.bind_eq_some_iff.1 h
        exact ⟨m, hm, habove above m hne (List.prefix_append above below) hsame hm⟩

/-- The nodes of a tree in pre-order with their places: all of them, or the visible ones. -/
def kept (namedOnly : Bool) (root : Node) : List (Place × Node) :=
  root.located.filter fun e => !namedOnly || root.Visible e.1

/-- If all nodes are kept, these are the nodes of the tree. -/
theorem kept_false (root : Node) : root.kept false = root.located := by
  simp [kept]

/-- If anonymous nodes are not kept, the nodes at visible places remain. -/
theorem kept_true (root : Node) :
    root.kept true = root.located.filter fun e => root.Visible e.1 := by
  simp [kept]

/-- The nodes that stay are the root and those of each child in turn that stays, a step further
down. -/
theorem kept_eq (namedOnly : Bool) (root : Node) :
    root.kept namedOnly = ([], root) :: root.children.zipIdx.flatMap fun child =>
      if !namedOnly || child.1.named then
        (child.1.kept namedOnly).map fun e => (child.2 :: e.1, e.2)
      else [] := by
  rw [kept, located_eq, locatedAll_eq_flatMap, List.filter_cons, List.filter_flatMap]
  simp only [visible_nil, decide_true, Bool.or_true, if_true]
  refine congrArg (List.cons _) (List.flatMap_congr fun child hchild => ?_)
  have hat : root.children[child.2]? = some child.1 := List.mem_zipIdx_iff_getElem?.1 hchild
  have hvisible : ∀ below : Place, root.Visible (child.2 :: below) ↔
      child.1.named = true ∧ child.1.Visible below := by
    intro below
    simp [visible_cons, hat]
  rw [List.filter_map, kept]
  cases namedOnly with
  | false => simp [Function.comp_def]
  | true => cases hnamed : child.1.named <;> simp [Function.comp_def, hvisible, hnamed]

end TreePanel.Node
