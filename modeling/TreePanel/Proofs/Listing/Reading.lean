import Mathlib.Data.List.TakeWhile
import TreePanel.Proofs.Listing

/-!
# Reading a tree from its listing

A listing in pre-order tells of each node its depth and not its parent, and it does not say where
the nodes below one end. All the same it determines the tree: `ofListing?` reads exactly the
listings of trees, and reads each as its tree (`tree_of_preorder`).

The entries are taken from the last one to the first. What has been read is then a row of whole
trees, and the next entry takes those right at its side as children that stand one step deeper than
it does (`adopt`). Behind the listing of a tree there is nothing deeper than its root, so a tree
takes all its own children and no other tree (`gather_listed`). And whatever is read, nothing of it
is lost (`listedAll_gather`), so what reads as one tree is the listing of that tree.
-/

namespace TreePanel.Node

/-! ## Listings of trees side by side -/

/-- The listing of a tree whose root stands at the given depth. -/
def listed (depth : Nat) (n : Node) : List Entry := (descend depth n).map fun (d, m) => m.entry d

/-- The listings of several trees in turn, each with the depth of its root. -/
def listedAll (trees : List (Nat × Node)) : List Entry := trees.flatMap fun t => listed t.1 t.2

/-- The children of a node are listed one step deeper, after the node. -/
theorem listed_mk (depth : Nat) (name : String) (span : Span) (named : Bool)
    (children : List Node) :
    listed depth (mk name span named children) =
      ⟨depth, name, span, named⟩ :: listedAll (children.map fun child => (depth + 1, child)) := by
  have hchildren : ∀ ns : List Node, (descendAll (depth + 1) ns).map (fun (d, m) => m.entry d) =
      listedAll (ns.map fun child => (depth + 1, child)) := by
    intro ns
    induction ns with
    | nil => rfl
    | cons n rest ih =>
      rw [descendAll, List.map_append, ih]
      rfl
  rw [listed, descend, List.map_cons, hchildren]
  rfl

/-- The walk over a tree gives its listing. -/
theorem map_preorder (root : Node) :
    (root.preorder.map fun (depth, n) => n.entry depth) = listed 0 root := by
  rw [preorder_eq_descend, listed]

/-! ## Reading -/

/-- Put an entry before trees that stand side by side. Those right at its side that stand one step
deeper are its children. -/
def adopt (e : Entry) (trees : List (Nat × Node)) : List (Nat × Node) :=
  let below := trees.takeWhile fun t => t.1 == e.depth + 1
  let beside := trees.dropWhile fun t => t.1 == e.depth + 1
  (e.depth, mk e.name e.span e.named (below.map Prod.snd)) :: beside

/-- The trees that entries describe, each with the depth of its root. -/
def gather (entries : List Entry) : List (Nat × Node) := entries.foldr adopt []

/-- The tree that a listing describes; none if it is not the listing of one whole tree. -/
def ofListing? (entries : List Entry) : Option Node :=
  match gather entries with
  | [(0, root)] => some root
  | _ => none

/-- A tree is read if all entries together describe that one tree, with its root at depth zero. -/
theorem ofListing?_eq_some_iff_gather {entries : List Entry} {root : Node} :
    ofListing? entries = some root ↔ gather entries = [(0, root)] := by
  unfold ofListing?
  split
  · next h => simp [h]
  · next h =>
    constructor
    · exact nofun
    · exact fun hroot => absurd hroot (h root)

/-! ## Trees are read back from their listings -/

/-- An entry takes the trees one step deeper as its children, if what follows them is no deeper than
the entry itself. -/
theorem adopt_children (e : Entry) (children : List Node) {beside : List (Nat × Node)}
    (hbeside : ∀ t ∈ beside.head?, t.1 ≤ e.depth) :
    adopt e (children.map (fun child => (e.depth + 1, child)) ++ beside) =
      (e.depth, mk e.name e.span e.named children) :: beside := by
  have hbelow : ∀ t ∈ children.map (fun child => (e.depth + 1, child)),
      (t.1 == e.depth + 1) = true := by
    intro t ht
    obtain ⟨child, -, rfl⟩ := List.mem_map.1 ht
    exact beq_self_eq_true _
  have hstops : beside.takeWhile (fun t => t.1 == e.depth + 1) = [] ∧
      beside.dropWhile (fun t => t.1 == e.depth + 1) = beside := by
    cases beside with
    | nil => exact ⟨rfl, rfl⟩
    | cons t rest =>
      have hle : t.1 ≤ e.depth := hbeside t rfl
      have hother : (t.1 == e.depth + 1) = false := beq_eq_false_iff_ne.2 (by omega)
      simp [hother]
  rw [adopt, List.takeWhile_append_of_pos hbelow, List.dropWhile_append_of_pos hbelow, hstops.1,
    hstops.2, List.append_nil, List.map_map]
  simp [Function.comp_def]

mutual

/-- Reading the listing of a tree gives the tree, if what follows it is no deeper than its root. -/
theorem gather_listed (depth : Nat) (rest : List Entry)
    (hrest : ∀ t ∈ (gather rest).head?, t.1 ≤ depth) :
    (n : Node) → gather (listed depth n ++ rest) = (depth, n) :: gather rest
  | mk name span named children => by
    have hdeeper : ∀ t ∈ (gather rest).head?, t.1 ≤ depth + 1 :=
      fun t ht => Nat.le_succ_of_le (hrest t ht)
    rw [listed_mk, List.cons_append, gather, List.foldr_cons, ← gather,
      gather_listedAll (depth + 1) rest hdeeper children]
    exact adopt_children ⟨depth, name, span, named⟩ children hrest

/-- Reading the listings of trees that stand at one depth gives these trees. -/
theorem gather_listedAll (depth : Nat) (rest : List Entry)
    (hrest : ∀ t ∈ (gather rest).head?, t.1 ≤ depth) :
    (ns : List Node) → gather (listedAll (ns.map fun n => (depth, n)) ++ rest) =
      ns.map (fun n => (depth, n)) ++ gather rest
  | [] => rfl
  | n :: others => by
    have hothers := gather_listedAll depth rest hrest others
    -- What follows the first tree is another one at its depth, or what follows them all.
    have hnext : ∀ t ∈ (gather (listedAll (others.map fun n => (depth, n)) ++ rest)).head?,
        t.1 ≤ depth := by
      rw [hothers]
      cases others with
      | nil => exact hrest
      | cons other _ =>
        intro t ht
        cases ht
        exact Nat.le_refl depth
    rw [List.map_cons, listedAll, List.flatMap_cons, List.append_assoc, ← listedAll,
      gather_listed depth _ hnext n, hothers, List.cons_append]

end

/-! ## What is read is a listing -/

/-- Taking children loses no entry. -/
theorem listedAll_adopt (e : Entry) (trees : List (Nat × Node)) :
    listedAll (adopt e trees) = e :: listedAll trees := by
  have hbelow : ∀ t ∈ trees.takeWhile (fun t => t.1 == e.depth + 1), t.1 = e.depth + 1 := by
    intro t ht
    have hdepth := List.mem_takeWhile_imp ht
    exact eq_of_beq hdepth
  have hdepths : ((trees.takeWhile fun t => t.1 == e.depth + 1).map Prod.snd).map
      (fun child => (e.depth + 1, child)) = trees.takeWhile fun t => t.1 == e.depth + 1 := by
    rw [List.map_map]
    refine (List.map_congr_left fun t ht => ?_).trans (List.map_id _)
    exact Prod.ext (hbelow t ht).symm rfl
  calc listedAll (adopt e trees)
      = listed e.depth (mk e.name e.span e.named
            ((trees.takeWhile fun t => t.1 == e.depth + 1).map Prod.snd)) ++
          listedAll (trees.dropWhile fun t => t.1 == e.depth + 1) := rfl
    _ = e :: (listedAll (trees.takeWhile fun t => t.1 == e.depth + 1) ++
          listedAll (trees.dropWhile fun t => t.1 == e.depth + 1)) := by
        rw [listed_mk, hdepths, List.cons_append]
    _ = e :: listedAll trees := by
        rw [listedAll, listedAll, ← List.flatMap_append, List.takeWhile_append_dropWhile, listedAll]

/-- The trees that entries describe have these entries, all of them and no other. -/
theorem listedAll_gather (entries : List Entry) : listedAll (gather entries) = entries := by
  induction entries with
  | nil => rfl
  | cons e rest ih => rw [gather, List.foldr_cons, ← gather, listedAll_adopt, ih]

/-- A tree is read from its listing and from no other. -/
theorem ofListing?_eq_some_iff {entries : List Entry} {root : Node} :
    ofListing? entries = some root ↔ entries = listed 0 root := by
  rw [ofListing?_eq_some_iff_gather]
  constructor
  · intro hread
    have hentries := listedAll_gather entries
    rw [hread] at hentries
    simpa [listedAll] using hentries.symm
  · rintro rfl
    have hread := gather_listed 0 [] nofun root
    rwa [List.append_nil] at hread

/-- What a walk over a tree tells of depths, names, spans and marks is read as the tree, and nothing
else is read as that tree. So two trees of which walks tell the same are equal. -/
theorem tree_of_preorder (root : Node) :
    ofListing? (root.preorder.map fun (depth, n) => n.entry depth) = some root ∧
    (∀ entries, ofListing? entries = some root ↔
      entries = root.preorder.map fun (depth, n) => n.entry depth) ∧
    ∀ other : Node,
      ((other.preorder.map fun (depth, n) => n.entry depth) =
        root.preorder.map fun (depth, n) => n.entry depth) ↔ other = root := by
  have hread : ∀ n : Node,
      ofListing? (n.preorder.map fun (depth, n) => n.entry depth) = some n :=
    fun n => ofListing?_eq_some_iff.2 (map_preorder n)
  refine ⟨hread root, fun entries => ?_, fun other => ⟨fun hsame => ?_, ?_⟩⟩
  · rw [map_preorder]
    exact ofListing?_eq_some_iff
  · have hother := hread other
    rw [hsame, hread root] at hother
    exact (Option.some.inj hother).symm
  · rintro rfl
    rfl

/-- A word beside a line with a word is read by the drop of the depths. Without the line, the word
is two steps deeper than the root, and such entries are not the listing of a tree. -/
example :
    let entry := fun depth name => Entry.mk depth name ⟨0, 0, by decide⟩ true
    let word := leaf "word" ⟨0, 0, by decide⟩ true
    ofListing? [entry 0 "text", entry 1 "line", entry 2 "word", entry 1 "word"] =
        some (mk "text" ⟨0, 0, by decide⟩ true [mk "line" ⟨0, 0, by decide⟩ true [word], word]) ∧
      ofListing? [entry 0 "text", entry 2 "word", entry 1 "word"] = none := by
  decide +kernel

end TreePanel.Node
