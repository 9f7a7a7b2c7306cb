import TreePanel.Proofs.Grammar.Nesting
import TreePanel.Proofs.Listing

/-!
# Parts and their nodes

Taken apart to the end, the parts of a JSON text are gaps and tokens (`Json.Part.pieces`), which say
no less than the text. A tree over the parts says the same in another way: every part but a gap has
a node, which covers the characters of the part (`Json.Part.nodes`). These are the nodes that the
tree over bytes turns into (`Json.Part.toNodes_layout`), since a part ends as many bytes after its
beginning as its characters have.

A group that begins with a gap would begin before its first node, and one of gaps alone would be a
leaf over characters that no token holds. No group does (`Json.Part.Begun`), so the leaves of the
nodes are the nodes of the tokens (`Json.Part.leaves_nodesAll`).
-/

namespace TreePanel

namespace RangeTree

/-- A text after another one has its bytes after those. -/
theorem byteLength_append (pre post : List Char) :
    byteLength (pre ++ post) = byteLength pre + byteLength post := by
  induction pre with
  | nil => exact (Nat.zero_add _).symm
  | cons c rest ih => rw [List.cons_append, byteLength, byteLength, ih, Nat.add_assoc]

/-- Where the bytes of a text end, its characters end. -/
theorem charOffset_byteLength (pre post : List Char) :
    charOffset (pre ++ post) (byteLength pre) = pre.length := by
  induction pre with
  | nil =>
    cases post with
    | nil => rfl
    | cons c rest => exact if_pos c.utf8Size_pos
  | cons c rest ih =>
    have hnot : ¬c.utf8Size + byteLength rest < c.utf8Size := by omega
    rw [List.cons_append, byteLength, charOffset, if_neg hnot, Nat.add_sub_cancel_left, ih,
      List.length_cons, Nat.add_comm]

/-- A tree over the bytes of a stretch of the text is a node over its characters, if its children
are nodes inside. -/
theorem toNode_of_children {text pre mid post : List Char} (htext : text = pre ++ (mid ++ post))
    {kind : String} {named : Bool} {trees : List RangeTree} {children : List Node}
    (hchildren : toNodes text trees = .ok children)
    (hin : ∀ n ∈ children, pre.length ≤ n.span.start ∧ n.span.stop ≤ pre.length + mid.length) :
    toNode text (.mk kind named (byteLength pre) (byteLength pre + byteLength mid) trees) =
      .ok (.mk kind ⟨pre.length, pre.length + mid.length, Nat.le_add_right _ _⟩ named
        children) := by
  have hstart : charOffset text (byteLength pre) = pre.length := by
    rw [htext, charOffset_byteLength]
  have hstop : charOffset text (byteLength pre + byteLength mid) = pre.length + mid.length := by
    rw [htext, ← List.append_assoc, ← byteLength_append, charOffset_byteLength, List.length_append]
  have hspan : Span.between (charOffset text (byteLength pre))
      (charOffset text (byteLength pre + byteLength mid)) =
      .ok ⟨pre.length, pre.length + mid.length, Nat.le_add_right _ _⟩ := by
    rw [hstart, hstop]
    exact Span.between_eq_ok _
  have hbuild : Node.build kind ⟨pre.length, pre.length + mid.length, Nat.le_add_right _ _⟩ named
      children = .ok (.mk kind _ named children) :=
    if_pos (List.all_eq_true.2 fun n hn => Span.contains_iff.2 (hin n hn))
  exact bind_eq_ok.2 ⟨children, hchildren, bind_eq_ok.2 ⟨_, hspan, hbuild⟩⟩

/-- Trees after others are turned into nodes after theirs. -/
theorem toNodes_append {text : List Char} {trees others : List RangeTree} {ns ms : List Node}
    (htrees : toNodes text trees = .ok ns) (hothers : toNodes text others = .ok ms) :
    toNodes text (trees ++ others) = .ok (ns ++ ms) := by
  induction trees generalizing ns with
  | nil =>
    cases htrees
    exact hothers
  | cons t rest ih =>
    obtain ⟨n, hn, h⟩ := bind_eq_ok.1 htrees
    obtain ⟨rest', hrest, hdone⟩ := bind_eq_ok.1 h
    cases hdone
    exact bind_eq_ok.2 ⟨n, hn, bind_eq_ok.2 ⟨_, ih hrest, rfl⟩⟩

end RangeTree

namespace Json.Part

/-! ## Pieces -/

mutual

/-- The gaps and tokens of a part. -/
def pieces : Part → List Part
  | gap text => [gap text]
  | token kind named text => [token kind named text]
  | group _ parts => piecesAll parts

/-- The gaps and tokens of several parts. -/
def piecesAll : List Part → List Part
  | [] => []
  | p :: rest => p.pieces ++ piecesAll rest

end

/-- The text of parts in a row is that of the first ones and then that of the others. -/
theorem textAll_append (parts others : List Part) :
    textAll (parts ++ others) = textAll parts ++ textAll others := by
  induction parts with
  | nil => rfl
  | cons p rest ih => rw [List.cons_append, textAll, textAll, ih, List.append_assoc]

/-- Parts in a row have the pieces of the first ones and then those of the others. -/
theorem piecesAll_append (parts others : List Part) :
    piecesAll (parts ++ others) = piecesAll parts ++ piecesAll others := by
  induction parts with
  | nil => rfl
  | cons p rest ih => rw [List.cons_append, piecesAll, piecesAll, ih, List.append_assoc]

/-- The pieces of several parts are those of each in turn. -/
theorem piecesAll_eq_flatMap (parts : List Part) : piecesAll parts = parts.flatMap pieces := by
  induction parts with
  | nil => rfl
  | cons p rest ih => rw [piecesAll, List.flatMap_cons, ih]

mutual

/-- A part that is taken apart has the same text. -/
theorem textAll_pieces : (p : Part) → textAll p.pieces = p.text
  | gap text => List.append_nil text
  | token _ _ text => List.append_nil text
  | group _ parts => textAll_piecesAll parts

/-- Several parts that are taken apart have the same text. -/
theorem textAll_piecesAll : (parts : List Part) → textAll (piecesAll parts) = textAll parts
  | [] => rfl
  | p :: rest => by
    rw [piecesAll, textAll_append, textAll_pieces p, textAll_piecesAll rest, textAll]

end

/-- Every group begins with a part that is no gap, at every level. -/
inductive Begun : Part → Prop where
  | gap {text : List Char} : Begun (gap text)
  | token {kind : String} {named : Bool} {text : List Char} : Begun (token kind named text)
  | group {kind : String} {first : Part} {rest : List Part} :
      first.isGap = false → (∀ p ∈ first :: rest, Begun p) → Begun (group kind (first :: rest))

/-- A part that is no gap begins with a token. -/
theorem Begun.pieces_eq {p : Part} (h : p.Begun) (hgap : p.isGap = false) :
    ∃ first rest, p.pieces = first :: rest ∧ first.isGap = false := by
  induction h with
  | gap => cases hgap
  | @token kind named text => exact ⟨_, [], rfl, rfl⟩
  | @group kind first rest hfirst _ ih =>
    obtain ⟨token, others, hpieces, htoken⟩ := ih first List.mem_cons_self hfirst
    refine ⟨token, others ++ piecesAll rest, ?_, htoken⟩
    rw [pieces, piecesAll, hpieces, List.cons_append]

/-- Taking parts apart leaves the gaps before the first token as they are. -/
theorem takeWhile_piecesAll {parts : List Part} (h : ∀ p ∈ parts, p.Begun) :
    (piecesAll parts).takeWhile isGap = parts.takeWhile isGap := by
  induction parts with
  | nil => rfl
  | cons p rest ih =>
    obtain ⟨hp, hrest⟩ := List.forall_mem_cons.1 h
    by_cases hgap : p.isGap = true
    · cases p with
      | gap text =>
        rw [piecesAll, pieces, List.singleton_append, List.takeWhile_cons_of_pos hgap,
          List.takeWhile_cons_of_pos hgap, ih hrest]
      | _ => cases hgap
    · obtain ⟨first, others, hpieces, hfirst⟩ := hp.pieces_eq (Bool.eq_false_iff.2 hgap)
      rw [piecesAll, hpieces, List.cons_append, List.takeWhile_cons_of_neg hgap,
        List.takeWhile_cons_of_neg (Bool.eq_false_iff.1 hfirst)]

/-! ## Nodes -/

mutual

/-- The node of a part that begins at `offset`, if it has one, over characters. -/
def nodes (offset : Nat) : Part → List Node
  | gap _ => []
  | token kind named text =>
    [.mk kind ⟨offset, offset + text.length, Nat.le_add_right _ _⟩ named []]
  | group kind parts =>
    [.mk kind ⟨offset, offset + (textAll parts).length, Nat.le_add_right _ _⟩ true
      (nodesAll offset parts)]

/-- The nodes of several parts, the first of which begins at `offset`. -/
def nodesAll (offset : Nat) : List Part → List Node
  | [] => []
  | p :: rest => nodes offset p ++ nodesAll (offset + p.text.length) rest

end

/-- Parts after others have their nodes after them. -/
theorem nodesAll_append (offset : Nat) (parts others : List Part) :
    nodesAll offset (parts ++ others) =
      nodesAll offset parts ++ nodesAll (offset + (textAll parts).length) others := by
  induction parts generalizing offset with
  | nil => rfl
  | cons p rest ih =>
    rw [List.cons_append, nodesAll, nodesAll, ih, textAll, List.length_append, Nat.add_assoc,
      List.append_assoc]

/-- The node of a part covers the characters of the part. -/
theorem span_of_mem_nodes {offset : Nat} {p : Part} {n : Node} (h : n ∈ nodes offset p) :
    n.span.start = offset ∧ n.span.stop = offset + p.text.length := by
  cases p with
  | gap text => cases h
  | _ =>
    cases List.mem_singleton.1 h
    exact ⟨rfl, rfl⟩

/-- The nodes of parts lie between the ends of the first part and the last. -/
theorem within_of_mem_nodesAll {offset : Nat} {parts : List Part} {n : Node}
    (h : n ∈ nodesAll offset parts) :
    offset ≤ n.span.start ∧ n.span.stop ≤ offset + (textAll parts).length := by
  induction parts generalizing offset with
  | nil => cases h
  | cons p rest ih =>
    rw [textAll, List.length_append]
    rcases List.mem_append.1 h with h | h
    · obtain ⟨hstart, hstop⟩ := span_of_mem_nodes h
      omega
    · obtain ⟨hstart, hstop⟩ := ih h
      omega

end Json.Part

/-! ## Order -/

/-- One node ends before another one begins. -/
def Node.Before (a b : Node) : Prop := a.span.stop ≤ b.span.start

/-- Siblings come in the order of the text and do not overlap, at every level. -/
inductive Node.Ordered : Node → Prop where
  | mk {name : String} {span : Span} {named : Bool} {children : List Node} :
      children.Pairwise Before → (∀ child ∈ children, Ordered child) →
      Ordered (.mk name span named children)

namespace Json.Part

/-- The nodes of parts come in order. -/
theorem nodesAll_pairwise (offset : Nat) (parts : List Part) :
    (nodesAll offset parts).Pairwise Node.Before := by
  induction parts generalizing offset with
  | nil => exact .nil
  | cons p rest ih =>
    refine List.pairwise_append.2 ⟨?_, ih _, fun a ha b hb => ?_⟩
    · cases p with
      | gap text => exact .nil
      | _ => exact List.pairwise_singleton _ _
    · -- Each ends with its part, where the next part begins.
      have hstop := (span_of_mem_nodes ha).2
      have hstart := (within_of_mem_nodesAll hb).1
      unfold Node.Before
      omega

mutual

/-- The node of a part is ordered. -/
theorem ordered_of_mem_nodes {offset : Nat} {n : Node} :
    (p : Part) → n ∈ nodes offset p → n.Ordered
  | gap text, h => nomatch h
  | token kind named text, h => by
    cases List.mem_singleton.1 h
    exact .mk .nil nofun
  | group kind parts, h => by
    cases List.mem_singleton.1 h
    exact .mk (nodesAll_pairwise offset parts) fun child => ordered_of_mem_nodesAll parts

/-- The nodes of parts are ordered. -/
theorem ordered_of_mem_nodesAll {offset : Nat} {n : Node} :
    (parts : List Part) → n ∈ nodesAll offset parts → n.Ordered
  | [], h => nomatch h
  | p :: rest, h => by
    rcases List.mem_append.1 h with h | h
    · exact ordered_of_mem_nodes p h
    · exact ordered_of_mem_nodesAll rest h

end

/-! ## Leaves -/

/-- If the leaves of each part's node are the nodes of its pieces, so are those of several parts. -/
theorem leaves_nodesAll_of_forall {parts : List Part}
    (h : ∀ p ∈ parts, ∀ offset, (nodes offset p).flatMap Node.leaves = nodesAll offset p.pieces)
    (offset : Nat) :
    (nodesAll offset parts).flatMap Node.leaves = nodesAll offset (piecesAll parts) := by
  induction parts generalizing offset with
  | nil => rfl
  | cons p rest ih =>
    obtain ⟨hp, hrest⟩ := List.forall_mem_cons.1 h
    rw [nodesAll, List.flatMap_append, hp, ih hrest, piecesAll, nodesAll_append, textAll_pieces]

/-- The leaves of a part's node are the nodes of its pieces. -/
theorem Begun.leaves_nodes {p : Part} (h : p.Begun) (offset : Nat) :
    (nodes offset p).flatMap Node.leaves = nodesAll offset p.pieces := by
  induction h generalizing offset with
  | gap => rfl
  | @token kind named text =>
    rw [nodes, List.flatMap_singleton, Node.leaves_eq]
    rfl
  | @group kind first rest hfirst _ ih =>
    -- The first part has a node, so the group is no leaf itself.
    have hleaf : ∀ span, Node.isLeaf (.mk kind span true (nodesAll offset (first :: rest))) =
        false := by
      intro span
      cases first with
      | gap text => cases hfirst
      | _ => rfl
    rw [nodes, List.flatMap_singleton, Node.leaves_eq, hleaf]
    exact leaves_nodesAll_of_forall ih offset

/-- The leaves of the nodes of parts are the nodes of their pieces. -/
theorem leaves_nodesAll {parts : List Part} (h : ∀ p ∈ parts, p.Begun) (offset : Nat) :
    (nodesAll offset parts).flatMap Node.leaves = nodesAll offset (piecesAll parts) :=
  leaves_nodesAll_of_forall (fun p hp => (h p hp).leaves_nodes) offset

/-! ## From bytes to characters -/

mutual

/-- A part is laid out over as many bytes as its characters have. -/
theorem layout_stop (offset : Nat) :
    (p : Part) → (layout RangeTree.byteLength offset p).2 = offset + RangeTree.byteLength p.text
  | gap _ => rfl
  | token _ _ _ => rfl
  | group _ parts => layoutAll_stop offset parts

/-- Several parts are laid out over as many bytes as their characters have. -/
theorem layoutAll_stop (offset : Nat) :
    (parts : List Part) → (layoutAll RangeTree.byteLength offset parts).2 =
      offset + RangeTree.byteLength (textAll parts)
  | [] => rfl
  | p :: rest => by
    have hrest := layoutAll_stop (layout RangeTree.byteLength offset p).2 rest
    rw [layout_stop offset p] at hrest
    rw [textAll, RangeTree.byteLength_append, ← Nat.add_assoc, ← hrest, ← layout_stop offset p]
    rfl

end

mutual

/-- The node of a part, laid out over the bytes of a text in which it stands, is the one over its
characters. -/
theorem toNodes_layout {text pre post : List Char} :
    (p : Part) → text = pre ++ (p.text ++ post) →
      RangeTree.toNodes text (layout RangeTree.byteLength (RangeTree.byteLength pre) p).1 =
        .ok (nodes pre.length p)
  | gap _, _ => rfl
  | token kind named mid, htext => by
    have hnode : RangeTree.toNode text (.mk kind named (RangeTree.byteLength pre)
        (RangeTree.byteLength pre + RangeTree.byteLength mid) []) = .ok _ :=
      RangeTree.toNode_of_children htext rfl nofun
    exact bind_eq_ok.2 ⟨_, hnode, rfl⟩
  | group kind parts, htext => by
    have hnode : RangeTree.toNode text (.mk kind true (RangeTree.byteLength pre)
        (RangeTree.byteLength pre + RangeTree.byteLength (textAll parts)) _) = .ok _ :=
      RangeTree.toNode_of_children htext (toNodes_layoutAll parts htext)
        fun n => within_of_mem_nodesAll
    rw [← layoutAll_stop] at hnode
    exact bind_eq_ok.2 ⟨_, hnode, rfl⟩

/-- The nodes of several parts, laid out over the bytes of a text in which they stand, are those
over their characters. -/
theorem toNodes_layoutAll {text pre post : List Char} :
    (parts : List Part) → text = pre ++ (textAll parts ++ post) →
      RangeTree.toNodes text (layoutAll RangeTree.byteLength (RangeTree.byteLength pre) parts).1 =
        .ok (nodesAll pre.length parts)
  | [], _ => rfl
  | p :: rest, htext => by
    have hfirst : text = pre ++ (p.text ++ (textAll rest ++ post)) := by
      rw [htext, textAll, List.append_assoc]
    have hothers : text = (pre ++ p.text) ++ (textAll rest ++ post) := by
      rw [hfirst, List.append_assoc]
    have hrest := toNodes_layoutAll rest hothers
    rw [RangeTree.byteLength_append, ← layout_stop, List.length_append] at hrest
    exact RangeTree.toNodes_append (toNodes_layout p hfirst) hrest

end

/-- The tree of a text is turned into a root over the nodes of its parts. It begins behind the
leading gaps and ends with the text, and it nests. -/
theorem toNode_document {text : List Char} {parts : List Part} (htext : textAll parts = text) :
    ∃ span, RangeTree.toNode text (document RangeTree.byteLength parts) =
        .ok (.mk "document" span true (nodesAll 0 parts)) ∧
      (Node.mk "document" span true (nodesAll 0 parts)).Nested ∧
      span.start = (textAll (parts.takeWhile isGap)).length ∧ span.stop = text.length := by
  obtain ⟨n, hn, hnested, hstart, hstop⟩ :=
    (document_nested RangeTree.byteLength parts).toNode_isOk text
  have hwhole : text = [] ++ (textAll parts ++ []) := by rw [htext, List.append_nil]; rfl
  -- The children are made before the root, and they are the nodes of the parts.
  obtain ⟨children, hchildren, h⟩ := bind_eq_ok.1 hn
  cases hchildren.symm.trans (toNodes_layoutAll parts hwhole)
  obtain ⟨span, -, hbuild⟩ := bind_eq_ok.1 h
  unfold Node.build at hbuild
  split at hbuild
  · cases hbuild
    refine ⟨span, hn, hnested, hstart.trans ?_, hstop.trans ?_⟩
    · have hlead : (document RangeTree.byteLength parts).start =
          RangeTree.byteLength (textAll (parts.takeWhile isGap)) :=
        (layoutAll_stop 0 _).trans (Nat.zero_add _)
      have hsplit : text =
          textAll (parts.takeWhile isGap) ++ textAll (parts.dropWhile isGap) := by
        rw [← textAll_append, List.takeWhile_append_dropWhile, htext]
      rw [hlead, hsplit]
      exact RangeTree.charOffset_byteLength _ _
    · have hend : (document RangeTree.byteLength parts).stop = RangeTree.byteLength text :=
        (layoutAll_stop 0 parts).trans (by rw [htext, Nat.zero_add])
      have hnothing := RangeTree.charOffset_byteLength text []
      rw [List.append_nil] at hnothing
      rw [hend, hnothing]
  · cases hbuild

end Json.Part

end TreePanel
