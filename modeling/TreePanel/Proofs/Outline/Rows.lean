import TreePanel.Proofs.Outline

/-!
# The rows of an outline

An outline with all nodes is the listing of the tree, row by row (`render_all`), and an outline
without anonymous nodes is that outline with rows taken out and nothing else changed
(`render_named`). Both are told by the places of the nodes. All places in lexicographic order are
the listing of the tree, and the rows that go are those at places that are not visible.
-/

namespace TreePanel

namespace Outline

variable {root : Node} {selection : Selection} {settings : Settings}

/-- With anonymous nodes every node has a row. -/
theorem rowsOf_all (hall : settings.showAnonymous = true) :
    rowsOf settings root selection = root.located.mapIdx (Row.ofNode selection) := by
  rw [rowsOf_eq, hall, Bool.not_true, Node.kept_false]

/-- Without anonymous nodes the visible nodes have rows. -/
theorem rowsOf_named (hnamed : settings.showAnonymous = false) :
    rowsOf settings root selection =
      (root.located.filter fun e => root.Visible e.1).mapIdx (Row.ofNode selection) := by
  rw [rowsOf_eq, hnamed, Bool.not_false, Node.kept_true]

/-! ## All nodes -/

/-- The rows of an outline with all nodes, and the row to center. -/
structure ListsTree (root : Node) (selection : Selection) (rows : List Row) (center : Option Nat) :
    Prop where
  /-- The rows follow the listing of the tree by recursion, and take depth, name and span from
  it. -/
  listed : rows = root.listing.mapIdx fun index e =>
    ⟨index, e.depth, e.name, e.span, .ofSelection e.span selection⟩
  /-- They are the rows of the nodes at their places. The depth of a row is the length of the place,
  which is the number of nodes above. -/
  placed : rows = root.located.mapIdx (Row.ofNode selection)
  /-- Every node of the tree is among them, and nothing else. -/
  mem_iff : ∀ place n, (place, n) ∈ root.located ↔ root.at? place = some n
  /-- They stand in the order of their places, so none of them stands twice. -/
  ordered : root.located.Pairwise fun a b => a.1 < b.1
  /-- There are as many rows as the walk counts nodes. -/
  length_eq : rows.length = root.count
  /-- The walk counts the nodes of the tree. -/
  count_eq : root.count = root.size
  /-- The row to center is the last one with a flag. -/
  centers : Centers rows center

/-- The rows made with anonymous nodes list the tree. -/
theorem listsTree_rowsOf (hall : settings.showAnonymous = true) :
    ListsTree root selection (rowsOf settings root selection)
      (centerOf (rowsOf settings root selection)) where
  listed := by
    rw [rowsOf_all hall, Node.listing, Node.descend_eq_map]
    refine List.ext_getElem? fun i => ?_
    rw [List.getElem?_mapIdx, List.getElem?_mapIdx, List.getElem?_map, List.getElem?_map]
    cases root.located[i]? with
    | none => rfl
    | some e => simp [Row.ofNode, Node.atDepth, Node.entry]
  placed := rowsOf_all hall
  mem_iff _ _ := Node.mem_located
  ordered := root.pairwise_located
  length_eq := by rw [rowsOf_all hall, List.length_mapIdx, Node.count_eq, Node.length_located]
  count_eq := root.count_eq
  centers := centers_rowsOf settings root selection

/-- An outline with all nodes is there whenever its footer is. Its rows list the tree in pre-order,
and the walk that hands out the nodes comes to its end, as every walk does. -/
theorem render_all (root : Node) (selection : Selection) (lineAt : Nat → Except Fault Line)
    (settings : Settings) :
    ∃ rows center,
      render root selection lineAt { settings with showAnonymous := true } =
        (if settings.footer then Footer.ofSelection lineAt selection else .ok []).map
          (fun footer => ⟨rows, footer, center, settings.indentWidth⟩) ∧
      ListsTree root selection rows center ∧
      (∀ w : Node.Walk, ∃ visited, w.Yields visited) ∧
      ∀ visited, Node.Walk.Yields ⟨[(0, root)], false⟩ visited ↔ visited = root.preorder := by
  refine ⟨_, _, render_eq root selection lineAt _, listsTree_rowsOf rfl,
    fun w => ⟨_, w.yields_pending⟩, fun visited => ?_⟩
  have hends : Node.Walk.Yields ⟨[(0, root)], false⟩ root.preorder :=
    Node.Walk.yields_run root.size (Nat.le_refl _)
  constructor
  · exact fun h => h.unique hends
  · rintro rfl
    exact hends

/-! ## Named nodes only -/

/-- Rows that are taken out of others and numbered anew are the rows made of what they stand for,
whatever their numbers were. -/
theorem mapIdx_filter {α : Type} (keep : α → Bool) (make old : Nat → α → Row) (new : Nat → Nat)
    (hold : ∀ i j a, { old i a with index := j } = make j a) (xs : List α) :
    ((((xs.mapIdx old).zip xs).filter fun e => keep e.2).map Prod.fst).mapIdx
        (fun i row => { row with index := new i }) =
      (xs.filter keep).mapIdx fun i a => make (new i) a := by
  induction xs generalizing old new with
  | nil => rfl
  | cons a rest ih =>
    rw [List.mapIdx_cons, List.zip_cons_cons, List.filter_cons, List.filter_cons]
    split
    · -- After a row that is left, the numbers of the rest go on from the next one.
      rw [List.map_cons, List.mapIdx_cons, List.mapIdx_cons, hold,
        ih _ (fun i => new (i + 1)) fun i j a => hold (i + 1) j a]
    · exact ih _ new fun i j a => hold (i + 1) j a

/-- Leaving out anonymous nodes takes rows out and numbers the others anew. -/
theorem rowsOf_hidden {all named : Settings} (hall : all.showAnonymous = true)
    (hnamed : named.showAnonymous = false) :
    rowsOf named root selection =
      ((((rowsOf all root selection).zip root.located).filter fun e => root.Visible e.2.1).map
        Prod.fst).mapIdx (fun index row => { row with index := index }) := by
  rw [rowsOf_all hall, rowsOf_named hnamed]
  exact (mapIdx_filter (fun e => root.Visible e.1) (Row.ofNode selection) (Row.ofNode selection) id
    (fun _ _ _ => rfl) root.located).symm

/-- What is left of an outline with all nodes without the anonymous ones. -/
structure Hides (root : Node) (selection : Selection) (shown hidden : Outline) : Prop where
  /-- The rows that are shown stand for the nodes at their places. -/
  placed : shown.rows = root.located.mapIdx (Row.ofNode selection)
  /-- Those at visible places are left, in order and with other numbers. -/
  left : hidden.rows =
    (((shown.rows.zip root.located).filter fun e => root.Visible e.2.1).map Prod.fst).mapIdx
      fun index row => { row with index := index }
  /-- Visible are the root and the named nodes that have no anonymous node above them but the
  root. -/
  visible_iff : ∀ place n, root.at? place = some n →
    (root.Visible place ↔ place = [] ∨
      n.named = true ∧ ∀ above m, above ≠ [] → above <+: place → above ≠ place →
        root.at? above = some m → m.named = true)
  /-- The root is left even if it is anonymous. -/
  root_left : hidden.rows[0]? = some (Row.ofNode selection 0 ([], root))
  /-- The named children of the root are left, whatever the root is. -/
  child_left : ∀ i child, root.children[i]? = some child → child.named = true →
    ∃ index, hidden.rows[index]? = some (Row.ofNode selection index ([i], child))
  /-- The row to center is the last one with a flag that is left. -/
  centers : Centers hidden.rows hidden.center

/-- Turning anonymous nodes off hides them and nothing else. -/
theorem hides_rowsOf {all named : Settings} (hall : all.showAnonymous = true)
    (hnamed : named.showAnonymous = false) (footer : List String) :
    Hides root selection (drawn all root selection footer)
      (drawn named root selection footer) where
  placed := rowsOf_all hall
  left := rowsOf_hidden hall hnamed
  visible_iff _ _ := Node.visible_iff
  root_left := by
    show (rowsOf named root selection)[0]? = _
    rw [rowsOf_named hnamed, ← Node.kept_true, Node.kept_eq, List.getElem?_mapIdx]
    rfl
  child_left i child hchild hnamedChild := by
    have hvisible : root.Visible [i] :=
      Node.visible_cons.2 ⟨child, hchild, hnamedChild, child.visible_nil⟩
    have hlocated : ([i], child) ∈ root.located :=
      Node.mem_located.2 (Node.at?_cons_eq_some.2 ⟨child, hchild, rfl⟩)
    have hkept : ([i], child) ∈ root.located.filter fun e => root.Visible e.1 :=
      List.mem_filter.2 ⟨hlocated, decide_eq_true hvisible⟩
    obtain ⟨index, hindex⟩ := List.mem_iff_getElem?.1 hkept
    refine ⟨index, ?_⟩
    show (rowsOf named root selection)[index]? = _
    rw [rowsOf_named hnamed, List.getElem?_mapIdx, hindex]
    rfl
  centers := centers_rowsOf named root selection

/-- An outline without anonymous nodes is there exactly if the one with all nodes is, and both have
the same footer. It is that outline with rows taken out and what is left numbered anew. -/
theorem render_named (root : Node) (selection : Selection) (lineAt : Nat → Except Fault Line)
    (settings : Settings) :
    ∃ shown hidden : List String → Outline,
      render root selection lineAt { settings with showAnonymous := true } =
        (if settings.footer then Footer.ofSelection lineAt selection else .ok []).map shown ∧
      render root selection lineAt { settings with showAnonymous := false } =
        (if settings.footer then Footer.ofSelection lineAt selection else .ok []).map hidden ∧
      ∀ footer, Hides root selection (shown footer) (hidden footer) ∧
        (hidden footer).footer = (shown footer).footer ∧
        (hidden footer).indentWidth = (shown footer).indentWidth :=
  ⟨_, _, render_eq root selection lineAt _, render_eq root selection lineAt _,
    fun footer => ⟨hides_rowsOf rfl rfl footer, rfl, rfl⟩⟩

/-- Of a call that is anonymous itself, the function stays and the brackets go, together with the
argument between them. -/
example :
    let root : Node := .mk "call" ⟨0, 6, by decide⟩ false [.leaf "f" ⟨0, 3, by decide⟩ true,
      .mk "()" ⟨3, 6, by decide⟩ false [.leaf "x" ⟨4, 5, by decide⟩ true]]
    let names := fun settings => (rowsOf settings root (.caret 4)).map fun row =>
      (row.index, row.depth, row.name, row.flags.bits)
    names { showAnonymous := true } =
        [(0, 0, "call", 2), (1, 1, "f", 0), (2, 1, "()", 2), (3, 2, "x", 4)] ∧
      names { showAnonymous := false } = [(0, 0, "call", 2), (1, 1, "f", 0)] := by
  decide +kernel

end Outline

end TreePanel
