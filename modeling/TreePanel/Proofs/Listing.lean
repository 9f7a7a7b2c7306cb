import TreePanel.Proofs.Place

/-!
# Listings by recursion and by a walk

A walk ends, whatever stands on its stack: each step takes a node off for good, and the children put
in its place have fewer nodes than it (`Walk.remaining_children_lt`). What it hands out is, node by
node on the stack, what stays of the tree below (`Walk.yields_pending`). So the size of a tree
bounds the steps of its walk, and a walk that leaves nothing out hands out the nodes in the order of
the recursion (`Node.preorder_eq_descend`). What holds of the recursion holds of the walk, and the
leaves of a tree are those of its children in turn (`Node.leaves_eq`).
-/

namespace TreePanel.Node

namespace Walk

/-- The nodes that a walk hands out until it has come to its end. -/
inductive Yields : Walk → List (Nat × Node) → Prop where
  /-- Nothing is left to hand out. -/
  | done {w : Walk} : w.next = none → Yields w []
  /-- A node is handed out, and then the walk goes on. -/
  | step {w w' : Walk} {visited : Nat × Node} {rest : List (Nat × Node)} :
      w.next = some (visited, w') → Yields w' rest → Yields w (visited :: rest)

/-- A walk goes one way only. -/
theorem Yields.unique {w : Walk} {visited visited' : List (Nat × Node)} (h : Yields w visited)
    (h' : Yields w visited') : visited = visited' := by
  induction h generalizing visited' with
  | done hend =>
    cases h' with
    | done _ => rfl
    | step hnext _ =>
      rw [hend] at hnext
      cases hnext
  | step hnext _ ih =>
    cases h' with
    | done hend =>
      rw [hend] at hnext
      cases hnext
    | step hnext' hrest' =>
      rw [hnext] at hnext'
      cases hnext'
      rw [ih hrest']

/-- The number of nodes that are on a stack or below it. -/
def remaining : List (Nat × Node) → Nat
  | [] => 0
  | entry :: rest => entry.2.size + remaining rest

/-- The children that a node makes room for have fewer nodes than it, however many are kept. -/
theorem remaining_children_lt (keep : Node → Bool) (depth : Nat) (n : Node)
    (rest : List (Nat × Node)) :
    remaining ((n.children.filter keep).map (fun child => (depth + 1, child)) ++ rest) <
      remaining ((depth, n) :: rest) := by
  have hchildren : ∀ children : List Node,
      remaining ((children.filter keep).map (fun child => (depth + 1, child)) ++ rest) ≤
        sizeAll children + remaining rest := by
    intro children
    induction children with
    | nil => simp [sizeAll]
    | cons child others ih =>
      rw [List.filter_cons, sizeAll]
      split
      · simp only [List.map_cons, List.cons_append, remaining]
        omega
      · omega
  obtain ⟨name, span, named, children⟩ := n
  have := hchildren children
  rw [Node.children, remaining, Node.size]
  omega

/-- A walk of as many steps as there are nodes left comes to its end. -/
theorem yields_run (steps : Nat) {w : Walk} (h : remaining w.stack ≤ steps) :
    Yields w (run steps w) := by
  induction steps generalizing w with
  | zero =>
    obtain ⟨stack, namedOnly⟩ := w
    cases stack with
    | nil => exact .done rfl
    | cons top rest =>
      -- A stack with a node on it has something left, so no bound of zero fits it.
      obtain ⟨depth, n⟩ := top
      exact absurd (remaining_children_lt (fun _ => true) depth n rest) (by simp_all)
  | succ steps ih =>
    obtain ⟨stack, namedOnly⟩ := w
    cases stack with
    | nil => exact .done rfl
    | cons top rest =>
      obtain ⟨depth, n⟩ := top
      have hlt := remaining_children_lt (fun child => !namedOnly || child.named) depth n rest
      exact .step rfl (ih (Nat.le_of_lt_succ (Nat.lt_of_lt_of_le hlt h)))

/-- The nodes that a walk hands out of a node on its stack and of those below it. -/
def pending (namedOnly : Bool) (entry : Nat × Node) : List (Nat × Node) :=
  (entry.2.kept namedOnly).map (atDepth entry.1)

/-- Leaving members out is the same as giving nothing for them. -/
theorem flatMap_filter {α β : Type} (keep : α → Bool) (f : α → List β) (xs : List α) :
    (xs.filter keep).flatMap f = xs.flatMap fun x => if keep x then f x else [] := by
  induction xs with
  | nil => rfl
  | cons x rest ih =>
    rw [List.filter_cons, List.flatMap_cons, ← ih]
    split
    · rw [List.flatMap_cons]
    · rfl

/-- A node is handed out before those below its children. -/
theorem pending_eq (namedOnly : Bool) (depth : Nat) (n : Node) :
    pending namedOnly (depth, n) = (depth, n) ::
      ((n.children.filter fun child => !namedOnly || child.named).map
        fun child => (depth + 1, child)).flatMap (pending namedOnly) := by
  -- The numbers of the children matter to the places, but not to the depth.
  have hnumbers : ∀ f : Node → List (Nat × Node),
      n.children.flatMap f = n.children.zipIdx.flatMap fun child => f child.1 := by
    intro f
    calc n.children.flatMap f
        = (n.children.zipIdx.map Prod.fst).flatMap f := by rw [List.zipIdx_map_fst]
      _ = n.children.zipIdx.flatMap fun child => f child.1 := List.flatMap_map _ _ _
  rw [pending, kept_eq, List.map_cons, List.map_flatMap, List.flatMap_map, flatMap_filter,
    hnumbers]
  refine congrArg (List.cons _) (List.flatMap_congr fun child _ => ?_)
  split
  · rw [List.map_map, atDepth_cons]
    rfl
  · rfl

/-- At every step, what is still to come is what stays of the trees on the stack. -/
theorem yields_pending (w : Walk) : Yields w (w.stack.flatMap (pending w.namedOnly)) := by
  induction hsize : remaining w.stack using Nat.strongRecOn generalizing w with
  | ind size ih =>
    obtain ⟨stack, namedOnly⟩ := w
    cases stack with
    | nil => exact .done rfl
    | cons top rest =>
      obtain ⟨depth, n⟩ := top
      have hlt := remaining_children_lt (fun child => !namedOnly || child.named) depth n rest
      -- The children stand before the rest of the stack, so they are handed out first.
      have hrest := ih _ (hsize ▸ hlt) ⟨_, namedOnly⟩ rfl
      rw [List.flatMap_append] at hrest
      rw [List.flatMap_cons, pending_eq, List.cons_append]
      exact .step rfl hrest

/-- The walk over a whole tree hands out what stays of it. -/
theorem run_size (namedOnly : Bool) (root : Node) :
    run root.size ⟨[(0, root)], namedOnly⟩ = (root.kept namedOnly).map (atDepth 0) := by
  have hremaining : remaining [(0, root)] ≤ root.size := Nat.le_refl _
  rw [(yields_run root.size hremaining).unique (yields_pending _), List.flatMap_singleton, pending]

end Walk

/-- The walk over a whole tree lists what the recursion does. -/
theorem preorder_eq_descend (root : Node) : root.preorder = descend 0 root := by
  rw [preorder, Walk.run_size, kept_false, descend_eq_map]

/-- The walk counts every node of the tree once. -/
theorem count_eq (root : Node) : root.count = root.size := by
  rw [count, preorder_eq_descend, descend_eq_map, List.length_map, length_located]

/-! ## Leaves -/

mutual

/-- The depth of the root does not matter to which nodes are listed. -/
theorem map_snd_descend (depth depth' : Nat) :
    (n : Node) → (descend depth n).map Prod.snd = (descend depth' n).map Prod.snd
  | mk name span named children => by
    rw [descend, descend, List.map_cons, List.map_cons,
      map_snd_descendAll (depth + 1) (depth' + 1) children]

/-- The depth of the roots does not matter to which nodes are listed. -/
theorem map_snd_descendAll (depth depth' : Nat) :
    (ns : List Node) → (descendAll depth ns).map Prod.snd = (descendAll depth' ns).map Prod.snd
  | [] => rfl
  | n :: rest => by
    rw [descendAll, descendAll, List.map_append, List.map_append, map_snd_descend depth depth' n,
      map_snd_descendAll depth depth' rest]

end

/-- The nodes without children, in pre-order. -/
def leaves (root : Node) : List Node := (root.preorder.map Prod.snd).filter isLeaf

/-- A node without children is its own leaf, and any other has the leaves of its children. -/
theorem leaves_eq (n : Node) :
    n.leaves = if n.isLeaf then [n] else n.children.flatMap leaves := by
  have hleaves : ∀ ns : List Node, ((descendAll 1 ns).map Prod.snd).filter isLeaf =
      ns.flatMap leaves := by
    intro ns
    induction ns with
    | nil => rfl
    | cons n rest ih =>
      rw [descendAll, List.map_append, List.filter_append, ih, List.flatMap_cons, leaves,
        preorder_eq_descend, map_snd_descend 1 0]
  obtain ⟨name, span, named, children⟩ := n
  rw [leaves, preorder_eq_descend, descend, List.map_cons, List.filter_cons, hleaves]
  cases children with
  | nil => rfl
  | cons child rest => rfl

/-- Every tree has a leaf. -/
theorem leaves_ne_nil : (n : Node) → n.leaves ≠ []
  | mk name span named [] => by
    rw [leaves_eq]
    exact List.cons_ne_nil _ _
  | mk name span named (child :: rest) => by
    rw [leaves_eq]
    exact List.append_ne_nil_of_left_ne_nil (leaves_ne_nil child) _

end TreePanel.Node
