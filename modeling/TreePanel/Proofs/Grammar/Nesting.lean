import Mathlib.Data.List.TakeWhile
import TreePanel.Parser
import TreePanel.Proofs.Fault

/-!
# Trees that nest

A node can only be made if its span is in order and its children lie inside it. Both hold of every
tree that is laid out over the parts of a JSON text, because each part begins where the one before
it ends (`Json.Part.layout_within`), and turning bytes into characters keeps offsets in order
(`RangeTree.charOffset_mono`). So parsing JSON never faults, and neither does parsing plain text
(`Parser.parse_isOk`, `Parser.Has.parse`). The nodes never reach beyond the text, for no byte offset
has more characters before it than the text has.
-/

namespace TreePanel

/-- A tree nests, and it ends in a text of the given length. -/
def Node.FitsIn (length : Nat) (n : Node) : Prop := n.Nested ∧ n.span.stop ≤ length

namespace RangeTree

/-! ## Characters for bytes -/

/-- Characters come in the order of their bytes. -/
theorem charOffset_mono (text : List Char) {a b : Nat} (h : a ≤ b) :
    charOffset text a ≤ charOffset text b := by
  induction text generalizing a b with
  | nil => exact Nat.le_refl 0
  | cons c rest ih =>
    unfold charOffset
    -- The smaller offset may lie inside the first character, the larger one behind it.
    by_cases ha : a < c.utf8Size
    · rw [if_pos ha]
      exact Nat.zero_le _
    · have hb : ¬b < c.utf8Size := by omega
      rw [if_neg ha, if_neg hb]
      exact Nat.add_le_add_left (ih (Nat.sub_le_sub_right h c.utf8Size)) 1

/-- No more characters end before an offset than there are. -/
theorem charOffset_le_length (text : List Char) (offset : Nat) :
    charOffset text offset ≤ text.length := by
  induction text generalizing offset with
  | nil => exact Nat.le_refl 0
  | cons c rest ih =>
    unfold charOffset
    split
    · exact Nat.zero_le _
    · rw [List.length_cons, Nat.add_comm]
      exact Nat.add_le_add_right (ih (offset - c.utf8Size)) 1

/-! ## Nesting -/

/-- Every node is in order, and every child lies inside its parent, at every level. -/
inductive Nested : RangeTree → Prop where
  | mk {kind : String} {named : Bool} {start stop : Nat} {children : List RangeTree} :
      start ≤ stop → (∀ child ∈ children, start ≤ child.start ∧ child.stop ≤ stop) →
      (∀ child ∈ children, Nested child) → Nested (.mk kind named start stop children)

/-- Trees are turned into nodes one by one. -/
theorem toNodes_eq_mapM (text : List Char) (trees : List RangeTree) :
    toNodes text trees = trees.mapM (toNode text) := by
  induction trees with
  | nil => rfl
  | cons t rest ih => rw [toNodes, ih, List.mapM_cons]

/-- A tree that nests can be turned into nodes, and they nest as well. -/
theorem Nested.toNode_isOk {t : RangeTree} (h : t.Nested) (text : List Char) :
    ∃ n, t.toNode text = .ok n ∧ n.Nested ∧ n.span.start = charOffset text t.start ∧
      n.span.stop = charOffset text t.stop := by
  induction h with
  | @mk kind named start stop children hle hin _ ih =>
    have hall : ∀ t ∈ children, ∃ n, toNode text t = .ok n := by
      intro t ht
      obtain ⟨n, hn, -⟩ := ih t ht
      exact ⟨n, hn⟩
    obtain ⟨nodes, hnodes⟩ := mapM_isOk_iff.2 hall
    -- The span is formed after the children, and each child keeps its place in it.
    have hspan := Span.between_eq_ok (charOffset_mono text hle)
    have hnode : ∀ n ∈ nodes, n.Nested ∧ charOffset text start ≤ n.span.start ∧
        n.span.stop ≤ charOffset text stop := by
      intro n hn
      obtain ⟨t, ht, hnode⟩ := mem_of_mapM hnodes n hn
      obtain ⟨n', hn', hnested, hstart, hstop⟩ := ih t ht
      rw [hnode] at hn'
      cases hn'
      rw [hstart, hstop]
      exact ⟨hnested, charOffset_mono text (hin t ht).1, charOffset_mono text (hin t ht).2⟩
    have hchildren : nodes.all (fun n => Span.contains ⟨charOffset text start,
        charOffset text stop, charOffset_mono text hle⟩ n.span) = true := by
      rw [List.all_eq_true]
      exact fun n hn => Span.contains_iff.2 (hnode n hn).2
    have hbuild : Node.build kind ⟨charOffset text start, charOffset text stop,
        charOffset_mono text hle⟩ named nodes = .ok (.mk kind _ named nodes) := if_pos hchildren
    rw [← toNodes_eq_mapM] at hnodes
    refine ⟨_, bind_eq_ok.2 ⟨nodes, hnodes, bind_eq_ok.2 ⟨_, hspan, hbuild⟩⟩, ?_, rfl, rfl⟩
    exact Node.nested_of_build (fun n hn => (hnode n hn).1) hbuild

end RangeTree

/-! ## Layouts -/

namespace Json.Part

/-- Trees that nest, between two offsets. -/
def Within (start : Nat) (laid : List RangeTree × Nat) : Prop :=
  start ≤ laid.2 ∧ ∀ t ∈ laid.1, t.Nested ∧ start ≤ t.start ∧ t.stop ≤ laid.2

mutual

/-- The node of a part nests, between the ends of the part. -/
theorem layout_within (measure : List Char → Nat) (offset : Nat) :
    (p : Part) → Within offset (layout measure offset p)
  | gap text => ⟨Nat.le_add_right offset _, nofun⟩
  | token kind named text => by
    have hle : offset ≤ offset + measure text := Nat.le_add_right offset _
    refine ⟨hle, fun t ht => ?_⟩
    rw [List.mem_singleton.1 ht]
    exact ⟨.mk hle nofun nofun, Nat.le_refl _, Nat.le_refl _⟩
  | group kind parts => by
    obtain ⟨hle, hchildren⟩ := layoutAll_within measure offset parts
    refine ⟨hle, fun t ht => ?_⟩
    rw [List.mem_singleton.1 ht]
    refine ⟨.mk hle (fun child hchild => ?_) (fun child hchild => ?_), Nat.le_refl _, Nat.le_refl _⟩
    · exact (hchildren child hchild).2
    · exact (hchildren child hchild).1

/-- The nodes of several parts nest, between the ends of the first and the last one. -/
theorem layoutAll_within (measure : List Char → Nat) (offset : Nat) :
    (parts : List Part) → Within offset (layoutAll measure offset parts)
  | [] => ⟨Nat.le_refl offset, nofun⟩
  | p :: rest => by
    obtain ⟨hfirst, hnode⟩ := layout_within measure offset p
    obtain ⟨hrest, hnodes⟩ := layoutAll_within measure (layout measure offset p).2 rest
    refine ⟨Nat.le_trans hfirst hrest, fun t ht => ?_⟩
    rcases List.mem_append.1 ht with ht | ht
    · obtain ⟨hnested, hstart, hstop⟩ := hnode t ht
      exact ⟨hnested, hstart, Nat.le_trans hstop hrest⟩
    · obtain ⟨hnested, hstart, hstop⟩ := hnodes t ht
      exact ⟨hnested, Nat.le_trans hfirst hstart, hstop⟩

end

/-- Parts after others are laid out from where those end. -/
theorem layoutAll_append (measure : List Char → Nat) (offset : Nat) (parts others : List Part) :
    layoutAll measure offset (parts ++ others) =
      ((layoutAll measure offset parts).1 ++
          (layoutAll measure (layoutAll measure offset parts).2 others).1,
        (layoutAll measure (layoutAll measure offset parts).2 others).2) := by
  induction parts generalizing offset with
  | nil => rfl
  | cons p rest ih => simp only [List.cons_append, layoutAll, ih, List.append_assoc]

/-- Gaps have no nodes. -/
theorem layoutAll_gaps (measure : List Char → Nat) (offset : Nat) {gaps : List Part}
    (h : ∀ p ∈ gaps, p.isGap = true) : (layoutAll measure offset gaps).1 = [] := by
  induction gaps generalizing offset with
  | nil => rfl
  | cons p rest ih =>
    obtain ⟨hp, hrest⟩ := List.forall_mem_cons.1 h
    cases p with
    | gap text => exact ih (offset + measure text) hrest
    | token kind named text => cases hp
    | group kind parts => cases hp

/-- The tree of a text nests, although its root begins after the leading gaps. -/
theorem document_nested (measure : List Char → Nat) (parts : List Part) :
    (document measure parts).Nested := by
  have hgaps : ∀ p ∈ parts.takeWhile isGap, p.isGap = true := fun p hp => List.mem_takeWhile_imp hp
  obtain ⟨lead, hlead⟩ : ∃ lead, lead = (layoutAll measure 0 (parts.takeWhile isGap)).2 := ⟨_, rfl⟩
  -- The root begins where the gaps end, and so do the parts that have nodes.
  have hlayout : layoutAll measure 0 parts = layoutAll measure lead (parts.dropWhile isGap) := by
    calc layoutAll measure 0 parts
        = layoutAll measure 0 (parts.takeWhile isGap ++ parts.dropWhile isGap) := by
          rw [List.takeWhile_append_dropWhile]
      _ = layoutAll measure lead (parts.dropWhile isGap) := by
          rw [layoutAll_append, layoutAll_gaps measure 0 hgaps, List.nil_append, ← hlead]
  obtain ⟨hle, hchildren⟩ := layoutAll_within measure lead (parts.dropWhile isGap)
  have hdocument : document measure parts = .mk "document" true
      (layoutAll measure 0 (parts.takeWhile isGap)).2 (layoutAll measure 0 parts).2
      (layoutAll measure 0 parts).1 := rfl
  rw [hdocument, hlayout, ← hlead]
  exact .mk hle (fun child hchild => (hchildren child hchild).2)
    fun child hchild => (hchildren child hchild).1

end Json.Part

/-! ## Grammars and parsers -/

/-- Every tree that the grammar makes nests. -/
structure Grammar.Nests (g : Grammar) : Prop where
  /-- Trees of texts nest. -/
  parse : ∀ {text tree}, g.parse text = some tree → tree.Nested
  /-- Trees made with the help of older trees nest. -/
  reparse : ∀ {old edit text tree}, g.reparse old edit text = some tree → tree.Nested

/-- A grammar that has no use for old trees nests if its trees do. -/
theorem Grammar.nests_ofParse {parse : List Char → Option RangeTree}
    (h : ∀ {text tree}, parse text = some tree → tree.Nested) : (ofParse parse).Nests := ⟨h, h⟩

/-- The trees of JSON nest. -/
theorem Grammar.json_nests : Grammar.json.Nests := by
  refine Grammar.nests_ofParse fun {text tree} h => ?_
  obtain ⟨parts, -, rfl⟩ := Option.map_eq_some_iff.1 h
  exact Json.Part.document_nested RangeTree.byteLength parts

namespace Parser

variable {text : List Char}

/-- A grammar that nests gives trees that nest, with old trees or without. -/
theorem treeOf_nested {g : Grammar} (hg : g.Nests) {last : Option Parsed} {tree : RangeTree}
    (h : treeOf g last text = some tree) : tree.Nested := by
  unfold treeOf at h
  split at h
  · split at h
    · rw [Option.orElse_eq_or] at h
      rcases Option.or_eq_some_iff.1 h with hre | ⟨-, hparse⟩
      · exact hg.reparse hre
      · exact hg.parse hparse
    · exact hg.parse h
  · exact hg.parse h

/-- The root over a text can be made of a tree that nests, and of no tree as well. -/
theorem rootOf_isOk {tree? : Option RangeTree} (h : ∀ tree, tree? = some tree → tree.Nested) :
    ∃ n, rootOf text tree? = .ok n ∧ n.FitsIn text.length := by
  cases tree? with
  | none => exact ⟨_, rfl, .mk nofun nofun, Nat.le_refl _⟩
  | some tree =>
    obtain ⟨n, hn, hnested, -, hstop⟩ := (h tree rfl).toNode_isOk text
    refine ⟨n, hn, hnested, ?_⟩
    rw [hstop]
    exact RangeTree.charOffset_le_length text tree.stop

/-- A parser has a tree for a text: it is the last one it made, and it fits in the text. The trees
that the parser will make nest as well. -/
structure Has (p : Parser) (text : List Char) (tree : Snapshot) : Prop where
  /-- The grammar, if there is one, makes trees that nest. -/
  nests : ∀ g, p.grammar = some g → g.Nests
  /-- The tree is the last one. -/
  last : ∃ range, p.last = some ⟨text, range, tree⟩
  /-- The tree fits in the text. -/
  fits : tree.root.FitsIn text.length

/-- A text for which the parser has no tree can be parsed. -/
theorem parseNew_isOk {p : Parser} (hg : ∀ g, p.grammar = some g → g.Nests) :
    ∃ tree p', p.parseNew text = .ok (tree, p') ∧ p'.Has text tree := by
  have hnested : ∀ tree, (p.grammar.bind fun g => treeOf g p.last text) = some tree →
      tree.Nested := by
    intro tree htree
    obtain ⟨g, hgrammar, htree⟩ := Option.bind_eq_some_iff.1 htree
    exact treeOf_nested (hg g hgrammar) htree
  obtain ⟨root, hroot, hfits⟩ : ∃ n, rootOf text _ = .ok n ∧ n.FitsIn text.length :=
    rootOf_isOk hnested
  exact ⟨_, _, bind_eq_ok.2 ⟨root, hroot, rfl⟩, hg, ⟨_, rfl⟩, hfits⟩

/-- Whatever a parser has parsed before, it can parse any text. -/
theorem exists_parse {p : Parser} (hg : ∀ g, p.grammar = some g → g.Nests) (text : List Char) :
    ∃ tree p', p.parse text = .ok (tree, p') := by
  obtain ⟨tree, p', hnew, -⟩ : ∃ tree p', p.parseNew text = .ok (tree, p') ∧ p'.Has text tree :=
    parseNew_isOk hg
  unfold parse
  split
  · split
    · exact ⟨_, p, rfl⟩
    · exact ⟨tree, p', hnew⟩
  · exact ⟨tree, p', hnew⟩

/-- A parser that has parsed nothing yet can parse any text. -/
theorem parse_isOk {p : Parser} (hg : ∀ g, p.grammar = some g → g.Nests) (hnone : p.last = none) :
    ∃ tree p', p.parse text = .ok (tree, p') ∧ p'.Has text tree := by
  unfold parse
  rw [hnone]
  exact parseNew_isOk hg

/-- A parser that has a tree for one text can parse any other. -/
theorem Has.parse {p : Parser} {old : List Char} {tree : Snapshot} (h : p.Has old tree)
    (text : List Char) : ∃ tree p', p.parse text = .ok (tree, p') ∧ p'.Has text tree := by
  obtain ⟨range, hlast⟩ := h.last
  unfold Parser.parse
  rw [hlast]
  dsimp only
  split
  · next htext =>
    subst htext
    exact ⟨tree, p, rfl, h⟩
  · exact parseNew_isOk h.nests

end Parser

end TreePanel
