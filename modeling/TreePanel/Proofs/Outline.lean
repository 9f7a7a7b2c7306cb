import Mathlib.Data.List.Induction
import Mathlib.Order.Bounds.Basic
import TreePanel.Outline
import TreePanel.Proofs.Listing
import TreePanel.Proofs.Position

/-!
# Making an outline

What an outline is made of, and when it can be made. Rows, center and indentation depend on the
tree, the selection and the settings alone (`Outline.drawn`); the lookup of lines matters to the
footer only. The rows are those of the nodes that a walk hands out, and these are the nodes that
stay of the tree, each with its place (`Outline.rowsOf_eq`). So what all nodes have in common all
rows have (`Outline.exists_node_of_mem`). The row to center is found by going through the rows, and
the last one with a flag wins (`Outline.centers_centerOf`).
-/

namespace TreePanel

/-- The row of the node at a place. -/
def Row.ofNode (selection : Selection) (index : Nat) (e : Node.Place × Node) : Row :=
  ⟨index, e.1.length, e.2.name, e.2.span, .ofSelection e.2.span selection⟩

namespace Outline

variable {root : Node} {selection : Selection} {settings : Settings} {d : Document}
  {lineAt : Nat → Except Fault Line} {o : Outline} {fault : Fault} {rows : List Row}

/-- The outline with the given footer. -/
def drawn (settings : Settings) (root : Node) (selection : Selection) (footer : List String) :
    Outline :=
  let rows := rowsOf settings root selection
  ⟨rows, footer, centerOf rows, settings.indentWidth⟩

/-- What making an outline consists of: only the footer can fail, and only if there is one. -/
theorem render_eq (root : Node) (selection : Selection) (lineAt : Nat → Except Fault Line)
    (settings : Settings) :
    render root selection lineAt settings =
      (if settings.footer then Footer.ofSelection lineAt selection else .ok []).map
        (drawn settings root selection) := by
  unfold render
  split
  · cases Footer.ofSelection lineAt selection <;> rfl
  · rfl

/-- The outlines of one tree and one selection differ in their footers alone. -/
theorem eq_drawn_of_render (h : render root selection lineAt settings = .ok o) :
    o = drawn settings root selection o.footer := by
  rw [render_eq] at h
  obtain ⟨footer, -, rfl⟩ := map_eq_ok.1 h
  rfl

/-- The rows of an outline have nothing to do with its footer. -/
theorem rows_of_render (h : render root selection lineAt settings = .ok o) :
    o.rows = rowsOf settings root selection := by
  rw [eq_drawn_of_render h]
  rfl

/-- An outline with a footer has that of its selection. -/
theorem footer_of_render (h : render root selection lineAt settings = .ok o)
    (hfooter : settings.footer = true) : Footer.ofSelection lineAt selection = .ok o.footer := by
  rw [render_eq, if_pos hfooter] at h
  obtain ⟨footer, hlines, rfl⟩ := map_eq_ok.1 h
  exact hlines

/-- An outline with a footer was made for heads in the text. -/
theorem head_le_of_render (h : render root selection d.lineAt settings = .ok o)
    (hfooter : settings.footer = true) : ∀ r ∈ selection.ranges, r.head ≤ d.length :=
  Footer.head_le_of_ofSelection (footer_of_render h hfooter)

/-- In a text that fits, an outline can be made if the heads lie in the text. -/
theorem render_isOk (hfit : d.Fits)
    (hin : settings.footer = true → ∀ r ∈ selection.ranges, r.head ≤ d.length) :
    ∃ o, render root selection d.lineAt settings = .ok o := by
  rw [render_eq]
  split
  · next hfooter =>
    obtain ⟨footer, hlines⟩ := (Footer.ofSelection_isOk_iff hfit).2 (hin hfooter)
    exact ⟨_, map_eq_ok.2 ⟨footer, hlines, rfl⟩⟩
  · exact ⟨_, rfl⟩

/-- Only the lookup of a head's line can keep an outline from being made. -/
theorem lineAt_of_render_error (hfit : d.Fits)
    (h : render root selection d.lineAt settings = .error fault) :
    ∃ r ∈ selection.ranges, d.lineAt r.head = .error fault := by
  rw [render_eq] at h
  split at h
  · cases hlines : Footer.ofSelection d.lineAt selection with
    | error other =>
      rw [hlines] at h
      cases h
      exact Footer.lineAt_of_ofSelection_error hfit hlines
    | ok footer =>
      rw [hlines] at h
      cases h
  · cases h

/-! ## The rows -/

/-- The nodes that have rows are those that stay of the tree. -/
theorem shown_eq (settings : Settings) (root : Node) :
    shown settings root = (root.kept !settings.showAnonymous).map (Node.atDepth 0) := by
  unfold shown
  split
  · next hall => rw [Node.preorder, Node.Walk.run_size, hall, Bool.not_true]
  · next hnamed =>
    rw [Node.namedPreorder, Node.Walk.run_size, Bool.eq_false_iff.2 hnamed, Bool.not_false]

/-- The rows are those of the nodes that stay, numbered from zero. -/
theorem rowsOf_eq (settings : Settings) (root : Node) (selection : Selection) :
    rowsOf settings root selection =
      (root.kept !settings.showAnonymous).mapIdx (Row.ofNode selection) := by
  refine List.ext_getElem? fun i => ?_
  rw [rowsOf, shown_eq, List.getElem?_mapIdx, List.getElem?_mapIdx, List.getElem?_map]
  cases (root.kept !settings.showAnonymous)[i]? with
  | none => rfl
  | some e => simp [Row.ofNode, Node.atDepth]

/-- Every row is the row of the node at its place. -/
theorem row_eq_ofNode {i : Nat} {row : Row}
    (hrow : (rowsOf settings root selection)[i]? = some row) :
    ∃ place n, (root.kept !settings.showAnonymous)[i]? = some (place, n) ∧
      root.at? place = some n ∧ row = Row.ofNode selection i (place, n) := by
  rw [rowsOf_eq, List.getElem?_mapIdx, Option.map_eq_some_iff] at hrow
  obtain ⟨⟨place, n⟩, hkept, rfl⟩ := hrow
  have hlocated : (place, n) ∈ root.located :=
    (List.mem_filter.1 (List.mem_of_getElem? hkept)).1
  exact ⟨place, n, hkept, Node.mem_located.1 hlocated, rfl⟩

/-- Every row stands for a node, and what the root passes on to all nodes below it holds of that
node. -/
theorem exists_node_of_mem {P : Node → Prop} (hroot : P root)
    (hchild : ∀ n, P n → ∀ child ∈ n.children, P child) :
    ∀ row ∈ rowsOf settings root selection, ∃ n, P n ∧ row.span = n.span := by
  intro row hrow
  obtain ⟨i, hi⟩ := List.mem_iff_getElem?.1 hrow
  obtain ⟨place, n, -, hat, rfl⟩ := row_eq_ofNode hi
  exact ⟨n, Node.at?_induction hchild hroot hat, rfl⟩

/-! ## The row to center -/

/-- The numbers of the rows that have a flag. -/
def flagged (rows : List Row) : Set Nat :=
  {i | ∃ row, rows[i]? = some row ∧ row.flags.isEmpty = false}

/-- The center is the last row with a flag, and there is none only if no row has a flag. -/
structure Centers (rows : List Row) (center : Option Nat) : Prop where
  /-- Of the rows with a flag it is the greatest. -/
  some_iff : ∀ i, center = some i ↔ IsGreatest (flagged rows) i
  /-- Without a center no row has a flag. -/
  none_iff : center = none ↔ ∀ row ∈ rows, row.flags.isEmpty = true

/-- One more row has its own flags and changes none of the others. -/
theorem mem_flagged_concat {row : Row} {i : Nat} :
    i ∈ flagged (rows ++ [row]) ↔
      i ∈ flagged rows ∨ i = rows.length ∧ row.flags.isEmpty = false := by
  constructor
  · rintro ⟨other, hother, hflag⟩
    rw [List.getElem?_append] at hother
    split at hother
    · exact .inl ⟨other, hother, hflag⟩
    · next hge =>
      obtain ⟨hlt, rfl⟩ := List.getElem?_eq_some_iff.1 hother
      rw [List.length_singleton] at hlt
      rw [List.getElem_singleton] at hflag
      exact .inr ⟨by omega, hflag⟩
  · rintro (⟨other, hother, hflag⟩ | ⟨rfl, hflag⟩)
    · have hlt : i < rows.length := (List.getElem?_eq_some_iff.1 hother).1
      exact ⟨other, (List.getElem?_append_left hlt).trans hother, hflag⟩
    · exact ⟨row, List.getElem?_concat_length, hflag⟩

/-- Of rows that stand at their own numbers, the row to center is the last one with a flag. -/
theorem centers_centerOf (hindex : ∀ (i : Nat) (row : Row), rows[i]? = some row → row.index = i) :
    Centers rows (centerOf rows) := by
  -- The last row is the one that may set the center anew, so rows are taken off at the end.
  induction rows using List.reverseRecOn with
  | nil =>
    refine ⟨fun i => ⟨nofun, fun h => ?_⟩, ⟨fun _ => nofun, fun _ => rfl⟩⟩
    obtain ⟨row, hrow, -⟩ := h.1
    cases hrow
  | append_singleton rows row ih =>
    have hrows : Centers rows (centerOf rows) := by
      refine ih fun i other hother => hindex i other ?_
      have hlt : i < rows.length := (List.getElem?_eq_some_iff.1 hother).1
      exact (List.getElem?_append_left hlt).trans hother
    have hfold : centerOf (rows ++ [row]) =
        if row.flags.isEmpty then centerOf rows else some row.index := by
      rw [centerOf, List.foldl_append]
      rfl
    cases hflag : row.flags.isEmpty with
    | true =>
      have hsame : flagged (rows ++ [row]) = flagged rows := by
        ext i
        simp [mem_flagged_concat, hflag]
      rw [hfold, if_pos hflag]
      refine ⟨fun i => ?_, ?_⟩
      · rw [hsame]
        exact hrows.some_iff i
      · rw [hrows.none_iff]
        simp [or_imp, forall_and, hflag]
    | false =>
      have hlast : row.index = rows.length := hindex rows.length row List.getElem?_concat_length
      have hgreatest : IsGreatest (flagged (rows ++ [row])) rows.length := by
        refine ⟨mem_flagged_concat.2 (.inr ⟨rfl, hflag⟩), fun i hi => ?_⟩
        rcases mem_flagged_concat.1 hi with ⟨other, hother, -⟩ | ⟨rfl, -⟩
        · exact Nat.le_of_lt (List.getElem?_eq_some_iff.1 hother).1
        · exact Nat.le_refl _
      rw [hfold, if_neg (by simp [hflag]), hlast]
      refine ⟨fun i => ⟨fun h => ?_, fun h => ?_⟩, ⟨nofun, fun hnone => ?_⟩⟩
      · cases h
        exact hgreatest
      · exact congrArg some (hgreatest.unique h)
      · have hempty := hnone row (List.mem_append_right _ (List.mem_singleton_self row))
        rw [hflag] at hempty
        cases hempty

/-- The row to center of an outline is its last row with a flag. -/
theorem centers_rowsOf (settings : Settings) (root : Node) (selection : Selection) :
    Centers (rowsOf settings root selection) (centerOf (rowsOf settings root selection)) := by
  refine centers_centerOf fun i row hrow => ?_
  rw [rowsOf_eq, List.getElem?_mapIdx, Option.map_eq_some_iff] at hrow
  obtain ⟨e, -, rfl⟩ := hrow
  rfl

/-- The row to center is one of the rows of the outline. -/
theorem center_lt_of_render (h : render root selection lineAt settings = .ok o) {index : Nat}
    (hcenter : o.center = some index) : index < o.length := by
  rw [eq_drawn_of_render h] at hcenter ⊢
  obtain ⟨row, hrow, -⟩ := ((centers_rowsOf settings root selection).some_iff index).1 hcenter |>.1
  exact (List.getElem?_eq_some_iff.1 hrow).1

end Outline

end TreePanel
