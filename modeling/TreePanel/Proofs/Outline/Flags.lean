import TreePanel.Proofs.Outline.Rows
import TreePanel.Proofs.RowFlags

/-!
# Flags down the outline

In an outline of a tree whose children lie inside their parents, the flags of a row bind those of
the rows of all nodes further down (`flags_below`). Nesting goes from parent to child, and from
there to any depth along the way down (`Node.Nested.contains_of_prefix`); what one span's flags say
of a span inside it is told by `RowFlags.covered_of_contains` and the lemmas after it.
-/

namespace TreePanel

namespace Node

variable {root n outer inner : Node} {above below : Place}

/-- What stands below a nested node is nested and lies inside it. -/
theorem Nested.at? (h : root.Nested) (hat : root.at? below = some n) :
    n.Nested ∧ root.span.contains n.span = true := by
  -- The outer span is that of the root at every step, so both facts are one property of a node.
  have hself : root.span.contains root.span = true :=
    Span.contains_iff.2 ⟨Nat.le_refl _, Nat.le_refl _⟩
  have hchild : ∀ n : Node, n.Nested ∧ root.span.contains n.span = true →
      ∀ child ∈ n.children, child.Nested ∧ root.span.contains child.span = true := by
    rintro _ ⟨⟨hspans, hnested⟩, hinside⟩ child hmem
    obtain ⟨hstart, hstop⟩ := Span.contains_iff.1 hinside
    obtain ⟨hstart', hstop'⟩ := Span.contains_iff.1 (hspans child hmem)
    exact ⟨hnested child hmem,
      Span.contains_iff.2 ⟨hstart.trans hstart', hstop'.trans hstop⟩⟩
  exact at?_induction hchild ⟨h, hself⟩ hat

/-- In a nested tree every node lies inside the nodes above it. -/
theorem Nested.contains_of_prefix (h : root.Nested) (houter : root.at? above = some outer)
    (hinner : root.at? below = some inner) (hway : above <+: below) :
    outer.span.contains inner.span = true := by
  obtain ⟨rest, rfl⟩ := hway
  rw [at?_append, houter] at hinner
  exact ((h.at? houter).1.at? hinner).2

end Node

/-- What the flags of a row say of the flags of a row further down, and the other way round. -/
structure Row.Binds (outer inner : Row) : Prop where
  /-- A covered node has only covered nodes below it. -/
  covered : outer.flags.covered = true → inner.flags.covered = true
  /-- A cut node has only cut nodes above it. -/
  cut : inner.flags.cut = true → outer.flags.cut = true
  /-- The nodes above one with the caret on it have the caret on them or are cut, unless the caret
  is at their end. -/
  caret : inner.flags.caret = true → inner.span.start ≠ outer.span.stop →
    outer.flags.caret = true ∨ outer.flags.cut = true

namespace Outline

variable {root : Node} {selection : Selection} {lineAt : Nat → Except Fault Line}
  {settings : Settings} {o : Outline}

/-- Any two rows of an outline of a nested tree, with or without anonymous nodes, stand for nodes at
places. If the place of the first one is above that of the second one, or the same, the flags of the
first row bind those of the second. -/
theorem flags_below (hnested : root.Nested)
    (hrender : render root selection lineAt settings = .ok o) {i j : Nat} {outer inner : Row}
    (houter : o.rows[i]? = some outer) (hinner : o.rows[j]? = some inner) :
    ∃ above below m n,
      (root.kept !settings.showAnonymous)[i]? = some (above, m) ∧ root.at? above = some m ∧
      outer = Row.ofNode selection i (above, m) ∧
      (root.kept !settings.showAnonymous)[j]? = some (below, n) ∧ root.at? below = some n ∧
      inner = Row.ofNode selection j (below, n) ∧
      (above <+: below → outer.Binds inner) := by
  rw [rows_of_render hrender] at houter hinner
  obtain ⟨above, m, hi, hm, rfl⟩ := row_eq_ofNode houter
  obtain ⟨below, n, hj, hn, rfl⟩ := row_eq_ofNode hinner
  refine ⟨above, below, m, n, hi, hm, rfl, hj, hn, rfl, fun hway => ?_⟩
  have hinside : m.span.contains n.span = true := hnested.contains_of_prefix hm hn hway
  exact ⟨RowFlags.covered_of_contains hinside, RowFlags.cut_of_contains hinside,
    fun hcaret hend => RowFlags.caret_of_contains hinside hend hcaret⟩

/-- A call is shown without its brackets. One range covers the arguments, and the other one has its
head on the start of the one argument. -/
theorem flags_below_arguments :
    ∃ (root : Node) (o : Outline) (outer inner : Row), root.Nested ∧
      render root ⟨⟨9, 4⟩, [⟨7, 5⟩]⟩ (fun _ => .error .editOutside) { footer := false } = .ok o ∧
      o.rows[2]? = some outer ∧ o.rows[3]? = some inner ∧
      outer.name = "args" ∧ inner.name = "x" ∧
      outer.flags = ⟨true, true, true⟩ ∧ inner.flags = ⟨true, true, true⟩ ∧ outer.Binds inner := by
  let x : Node := .leaf "x" ⟨5, 8, by decide⟩ true
  let args : Node := .mk "args" ⟨4, 9, by decide⟩ true
    [.leaf "(" ⟨4, 5, by decide⟩ false, x, .leaf ")" ⟨8, 9, by decide⟩ false]
  let root : Node := .mk "call" ⟨0, 9, by decide⟩ true [.leaf "f" ⟨0, 4, by decide⟩ true, args]
  let selection : Selection := ⟨⟨9, 4⟩, [⟨7, 5⟩]⟩
  have hleaf : ∀ name span named, (Node.leaf name span named).Nested :=
    fun _ _ _ => .mk nofun nofun
  have hargs : args.Nested := .mk (by decide) (by simp [x, hleaf])
  have hroot : root.Nested := .mk (by decide) (by simp [hleaf, hargs])
  have houter : (drawn { footer := false } root selection []).rows[2]? =
      some (Row.ofNode selection 2 ([1], args)) := by decide +kernel
  have hinner : (drawn { footer := false } root selection []).rows[3]? =
      some (Row.ofNode selection 3 ([1, 1], x)) := by decide +kernel
  have hrender : render root selection (fun _ => .error .editOutside) { footer := false } =
      .ok (drawn { footer := false } root selection []) := rfl
  obtain ⟨above, below, m, n, hi, -, -, hj, -, -, hbinds⟩ :=
    flags_below hroot hrender houter hinner
  have habove : (root.kept true)[2]? = some ([1], args) := by decide +kernel
  have hbelow : (root.kept true)[3]? = some ([1, 1], x) := by decide +kernel
  cases habove.symm.trans hi
  cases hbelow.symm.trans hj
  exact ⟨root, _, _, _, hroot, hrender, houter, hinner, rfl, rfl, by decide, by decide,
    hbinds (by decide)⟩

end Outline

end TreePanel
