import TreePanel.Proofs.Grammar.Json.Parse
import TreePanel.Proofs.Reparse

/-!
# The tree of a JSON text

The tree of a JSON text without errors is well formed, and it loses nothing but blanks
(`Node.Covers`). The leaves are the tokens of the text, for neither open nodes nor groups hide any
(`Json.pieces_of_parts?`, `Json.Part.leaves_nodesAll`), and what stands between two tokens is a gap
of separators. So gaps and leaves in turn make up the text again (`Json.Part.exists_gaps`).

A parser makes this tree whatever it has parsed before (`Parser.parse_json_covers`), because the
tree that it has kept does not show in what it gives.
-/

namespace TreePanel

/-- The characters of a text inside a span. -/
def Span.slice (s : Span) (text : List Char) : List Char := (text.drop s.start).take s.length

/-- Gaps and slices in turn, a gap first and a gap last. -/
def weave : List (List Char) → List (List Char) → List Char
  | gap :: gaps, slice :: slices => gap ++ (slice ++ weave gaps slices)
  | gaps, _ => gaps.flatten

/-- A tree over a text is well formed and loses nothing but blanks. -/
structure Node.Covers (root : Node) (text : List Char) : Prop where
  /-- The root begins behind the blanks that the text begins with. -/
  start : root.span.start = (Json.blanks text).length
  /-- That is where the first leaf begins. -/
  first : ∃ leaf rest, root.leaves = leaf :: rest ∧ leaf.span.start = root.span.start
  /-- The root ends with the text. -/
  stop : root.span.stop = text.length
  /-- Children lie inside their parents. -/
  nested : root.Nested
  /-- Siblings come in order and do not overlap. -/
  ordered : root.Ordered
  /-- Leaves come in order and do not overlap. -/
  disjoint : root.leaves.Pairwise Before
  /-- Outside the leaves there are separators only, and a byte order mark at the beginning. -/
  outside : ∀ i c, text[i]? = some c →
    (∀ leaf ∈ root.leaves, ¬(leaf.span.start ≤ i ∧ i < leaf.span.stop)) →
      Json.isSeparator c = true ∨ i = 0 ∧ c = '\ufeff'
  /-- The text is made up of the leaves and of what stands between them: blanks at the beginning,
  and separators elsewhere. -/
  recovered : ∃ gaps, gaps.length = root.leaves.length ∧
    (∀ gap ∈ gaps, ∀ c ∈ gap, Json.isSeparator c = true) ∧
      weave (Json.blanks text :: gaps) (root.leaves.map (·.span.slice text)) = text

/-- More at the beginning of the first gap is more at the beginning. -/
theorem weave_append (more gap : List Char) (gaps slices : List (List Char)) :
    weave ((more ++ gap) :: gaps) slices = more ++ weave (gap :: gaps) slices := by
  cases slices with
  | nil => exact List.append_assoc more gap gaps.flatten
  | cons slice slices => exact List.append_assoc more gap _

namespace Json.Part

variable {text pre post : List Char} {parts : List Part}

/-- A part that is no gap has one node, whose slice is the part. -/
theorem nodes_eq_of_isGap {p : Part} (hgap : p.isGap = false)
    (htext : text = pre ++ (p.text ++ post)) :
    ∃ n, nodes pre.length p = [n] ∧ n.span.slice text = p.text := by
  have hslice : ∀ s : Span, s.start = pre.length → s.stop = pre.length + p.text.length →
      s.slice text = p.text := by
    intro s hstart hstop
    rw [Span.slice, Span.length, hstop, hstart, Nat.add_sub_cancel_left, htext, List.drop_left,
      List.take_left]
  cases p with
  | gap blanks => cases hgap
  | _ => exact ⟨_, rfl, hslice _ rfl rfl⟩

/-- The leading gaps hold separators only if they are blank. -/
theorem isSeparator_of_mem_takeWhile (h : ∀ p ∈ parts, p.Blank) :
    ∀ c ∈ textAll (parts.takeWhile isGap), isSeparator c = true := by
  induction parts with
  | nil => exact nofun
  | cons p rest ih =>
    obtain ⟨hp, hrest⟩ := List.forall_mem_cons.1 h
    by_cases hgap : p.isGap = true
    · rw [List.takeWhile_cons_of_pos hgap, textAll]
      exact fun c hc => (List.mem_append.1 hc).elim (hp hgap c) (ih hrest c)
    · rw [List.takeWhile_cons_of_neg hgap]
      exact nofun

/-- Parts that stand in a text are made up of the slices of their nodes and of what stands between
them. Behind the leading gaps these are separators, if the gaps are blank. -/
theorem exists_gaps (hblank : ∀ p ∈ parts.dropWhile isGap, p.Blank)
    (htext : text = pre ++ (textAll parts ++ post)) :
    ∃ gaps, gaps.length = (nodesAll pre.length parts).length ∧
      (∀ gap ∈ gaps, ∀ c ∈ gap, isSeparator c = true) ∧
        weave (textAll (parts.takeWhile isGap) :: gaps)
          ((nodesAll pre.length parts).map (·.span.slice text)) = textAll parts := by
  induction parts generalizing pre with
  | nil => exact ⟨[], rfl, nofun, rfl⟩
  | cons p rest ih =>
    have hfirst : text = pre ++ (p.text ++ (textAll rest ++ post)) := by
      rw [htext, textAll, List.append_assoc]
    have hothers : text = (pre ++ p.text) ++ (textAll rest ++ post) := by
      rw [hfirst, List.append_assoc]
    by_cases hgap : p.isGap = true
    · -- The gap comes before the first gap of the others.
      rw [List.dropWhile_cons_of_pos hgap] at hblank
      obtain ⟨gaps, hlength, hgaps, hweave⟩ := ih hblank hothers
      have hnodes : nodes pre.length p = [] := by
        cases p with
        | gap blanks => rfl
        | _ => cases hgap
      rw [List.length_append] at hlength hweave
      rw [nodesAll, hnodes, List.nil_append, List.takeWhile_cons_of_pos hgap, textAll, textAll]
      refine ⟨gaps, hlength, hgaps, ?_⟩
      rw [weave_append, hweave]
    · -- The node comes before the first gap of the others, which is a gap between nodes.
      rw [List.dropWhile_cons_of_neg hgap] at hblank
      obtain ⟨-, hrest⟩ := List.forall_mem_cons.1 hblank
      obtain ⟨gaps, hlength, hgaps, hweave⟩ :=
        ih (fun q hq => hrest q ((List.dropWhile_sublist _).subset hq)) hothers
      obtain ⟨n, hnodes, hslice⟩ := nodes_eq_of_isGap (Bool.eq_false_iff.2 hgap) hfirst
      rw [List.length_append] at hlength hweave
      refine ⟨textAll (rest.takeWhile isGap) :: gaps, ?_, ?_, ?_⟩
      · rw [nodesAll, hnodes, List.length_cons, hlength, List.singleton_append, List.length_cons]
      · exact List.forall_mem_cons.2 ⟨isSeparator_of_mem_takeWhile hrest, hgaps⟩
      · rw [nodesAll, hnodes, List.singleton_append, List.map_cons, hslice,
          List.takeWhile_cons_of_neg hgap, textAll, weave, hweave]
        rfl

/-- If the gaps are blank, a character that is no separator is inside a node. -/
theorem isSeparator_or_inside (hblank : ∀ p ∈ parts, p.Blank) (offset : Nat) {i : Nat} {c : Char}
    (hc : (textAll parts)[i]? = some c) :
    isSeparator c = true ∨
      ∃ n ∈ nodesAll offset parts, n.span.start ≤ offset + i ∧ offset + i < n.span.stop := by
  induction parts generalizing offset i with
  | nil => cases hc
  | cons p rest ih =>
    obtain ⟨hp, hrest⟩ := List.forall_mem_cons.1 hblank
    rw [textAll] at hc
    by_cases hi : i < p.text.length
    · rw [List.getElem?_append_left hi] at hc
      cases p with
      | gap blanks => exact .inl (hp rfl c (List.mem_of_getElem? hc))
      | _ => exact .inr ⟨_, List.mem_cons_self, Nat.le_add_right _ _, Nat.add_lt_add_left hi _⟩
    · -- The character belongs to the other parts.
      rw [List.getElem?_append_right (by omega)] at hc
      rcases ih hrest (offset + p.text.length) hc with hseparator | ⟨n, hn, hinside⟩
      · exact .inl hseparator
      · exact .inr ⟨n, List.mem_append_right _ hn, by omega, by omega⟩

/-- The first node begins behind the leading gaps. -/
theorem start_of_nodesAll {offset : Nat} {n : Node} {rest : List Node}
    (h : nodesAll offset parts = n :: rest) :
    n.span.start = offset + (textAll (parts.takeWhile isGap)).length := by
  induction parts generalizing offset with
  | nil => cases h
  | cons p others ih =>
    cases p with
    | gap blanks =>
      have hstart := ih h
      rw [List.takeWhile_cons_of_pos rfl, textAll, List.length_append, ← Nat.add_assoc]
      exact hstart
    | _ =>
      cases h
      rfl

end Json.Part

namespace Json

variable {text : List Char}

/-- Pieces that make up a text and lose nothing of it but blanks. -/
structure Spells (pieces : List Part) (text : List Char) : Prop where
  /-- They make up the text. -/
  append : Part.textAll pieces = text
  /-- The leading gaps hold the blanks that the text begins with. -/
  lead : Part.textAll (pieces.takeWhile Part.isGap) = blanks text
  /-- All other gaps hold separators only. -/
  blank : ∀ p ∈ pieces.dropWhile Part.isGap, p.Blank
  /-- What is inside no node is a separator or the byte order mark. -/
  outside : ∀ i c, text[i]? = some c → (isSeparator c = true ∨ i = 0 ∧ c = '\ufeff') ∨
    ∃ n ∈ Part.nodesAll 0 pieces, n.span.start ≤ i ∧ i < n.span.stop

namespace Lexed

variable {lexemes : List Part}

/-- The gaps among the pieces of lexemes are blank. -/
theorem blank (h : Lexed lexemes text) : ∀ p ∈ Part.piecesAll lexemes, p.Blank := by
  intro p hp
  rw [Part.piecesAll_eq_flatMap] at hp
  obtain ⟨l, hl, hp⟩ := List.mem_flatMap.1 hp
  exact (h.clean l hl).blank p hp

/-- The pieces of lexemes make up the text. -/
theorem append_pieces (h : Lexed lexemes text) : Part.textAll (Part.piecesAll lexemes) = text := by
  rw [Part.textAll_piecesAll, ← h.append, List.append_nil]

/-- The gaps before the first piece that is none are those before the first such lexeme. -/
theorem lead_pieces (h : Lexed lexemes text) :
    Part.textAll ((Part.piecesAll lexemes).takeWhile Part.isGap) = text.takeWhile isSeparator := by
  rw [Part.takeWhile_piecesAll fun l hl => (h.clean l hl).begun]
  exact h.lead

/-- A character that is no separator is inside the node of a piece. -/
theorem isSeparator_or_inside (h : Lexed lexemes text) (offset : Nat) {i : Nat} {c : Char}
    (hc : text[i]? = some c) :
    isSeparator c = true ∨ ∃ n ∈ Part.nodesAll offset (Part.piecesAll lexemes),
      n.span.start ≤ offset + i ∧ offset + i < n.span.stop := by
  rw [← h.append_pieces] at hc
  exact Part.isSeparator_or_inside h.blank offset hc

end Lexed

/-- The pieces of the lexemes of a text spell it. -/
theorem spells_of_lexemes? {lexemes : List Part} (h : lexemes? text = some lexemes) :
    Spells (Part.piecesAll lexemes) text := by
  have hdrop : ∀ {lexemes : List Part} {text : List Char}, Lexed lexemes text →
      ∀ p ∈ (Part.piecesAll lexemes).dropWhile Part.isGap, p.Blank :=
    fun hlexed p hp => hlexed.blank p ((List.dropWhile_sublist _).subset hp)
  rcases lexed_of_lexemes? h with ⟨hlexed, hbare⟩ | ⟨others, after, rfl, rfl, hlexed⟩
  · refine ⟨hlexed.append_pieces, hlexed.lead_pieces.trans hbare.symm, hdrop hlexed,
      fun i c hc => ?_⟩
    rcases hlexed.isSeparator_or_inside 0 hc with hseparator | hinside
    · exact .inl (.inl hseparator)
    · rw [Nat.zero_add] at hinside
      exact .inr hinside
  · -- The byte order mark is a gap before all others, so these begin one character later.
    refine ⟨congrArg ('\ufeff' :: ·) hlexed.append_pieces,
      congrArg ('\ufeff' :: ·) hlexed.lead_pieces, fun p hp => hdrop hlexed p hp,
      fun i c hc => ?_⟩
    cases i with
    | zero =>
      cases hc
      exact .inl (.inr ⟨rfl, rfl⟩)
    | succ i =>
      rcases hlexed.isSeparator_or_inside 1 hc with hseparator | hinside
      · exact .inl (.inl hseparator)
      · rw [Nat.add_comm 1 i] at hinside
        exact .inr hinside

namespace Spells

variable {pieces : List Part} {root : Node}

/-- The gaps of a text that its pieces spell, with the slices of their nodes. -/
theorem exists_gaps (h : Spells pieces text) :
    ∃ gaps, gaps.length = (Part.nodesAll 0 pieces).length ∧
      (∀ gap ∈ gaps, ∀ c ∈ gap, isSeparator c = true) ∧
        weave (blanks text :: gaps) ((Part.nodesAll 0 pieces).map (·.span.slice text)) = text := by
  have hwhole : text = [] ++ (Part.textAll pieces ++ []) := by
    rw [h.append, List.append_nil]
    rfl
  obtain ⟨gaps, hlength, hgaps, hweave⟩ := Part.exists_gaps h.blank hwhole
  rw [h.lead, h.append] at hweave
  exact ⟨gaps, hlength, hgaps, hweave⟩

/-- A root whose leaves are the nodes of the pieces covers the text. -/
theorem covers_of_leaves (h : Spells pieces text) (hleaves : root.leaves = Part.nodesAll 0 pieces)
    (hstart : root.span.start = (blanks text).length) (hstop : root.span.stop = text.length)
    (hnested : root.Nested) (hordered : root.Ordered) : root.Covers text := by
  refine ⟨hstart, ?_, hstop, hnested, hordered, ?_, fun i c hc hout => ?_, ?_⟩
  · obtain ⟨leaf, rest, hcons⟩ := List.exists_cons_of_ne_nil root.leaves_ne_nil
    refine ⟨leaf, rest, hcons, ?_⟩
    rw [Part.start_of_nodesAll (hleaves.symm.trans hcons), h.lead, Nat.zero_add, hstart]
  · rw [hleaves]
    exact Part.nodesAll_pairwise 0 pieces
  · rcases h.outside i c hc with hblank | ⟨n, hn, hinside⟩
    · exact hblank
    · rw [← hleaves] at hn
      exact absurd hinside (hout n hn)
  · rw [hleaves]
    exact h.exists_gaps

/-- If no piece has a node, a root without children covers the text, which is all blanks. -/
theorem covers_of_leaf (h : Spells pieces text) (hnone : Part.nodesAll 0 pieces = [])
    (hleaves : root.leaves = [root]) (hstart : root.span.start = (blanks text).length)
    (hstop : root.span.stop = text.length) (hnested : root.Nested) (hordered : root.Ordered) :
    root.Covers text := by
  have hblanks : blanks text = text := by
    obtain ⟨gaps, hlength, -, hweave⟩ := h.exists_gaps
    rw [hnone] at hlength hweave
    rw [List.length_eq_zero_iff.1 hlength] at hweave
    have hflat : weave [blanks text] [] = blanks text := List.append_nil _
    exact hflat.symm.trans hweave
  refine ⟨hstart, ⟨root, [], hleaves, rfl⟩, hstop, hnested, hordered, ?_, fun i c hc _ => ?_, ?_⟩
  · rw [hleaves]
    exact List.pairwise_singleton _ _
  · rcases h.outside i c hc with hblank | ⟨n, hn, -⟩
    · exact hblank
    · rw [hnone] at hn
      cases hn
  · -- The root is empty, so its slice adds nothing to the blanks.
    have hslice : root.span.slice text = [] := by
      rw [Span.slice, Span.length, hstart, hstop, hblanks, Nat.sub_self, List.take_zero]
    refine ⟨[[]], by rw [hleaves]; rfl, fun gap hgap => ?_, ?_⟩
    · rw [List.mem_singleton.1 hgap]
      exact nofun
    · rw [hleaves, List.map_singleton, hslice, hblanks]
      exact List.append_nil text

/-- A root over the nodes of parts covers the text that their pieces spell. -/
theorem covers {parts : List Part} {span : Span} (h : Spells (Part.piecesAll parts) text)
    (hbegun : ∀ p ∈ parts, p.Begun)
    (hnested : (Node.mk "document" span true (Part.nodesAll 0 parts)).Nested)
    (hstart : span.start = (Part.textAll (parts.takeWhile Part.isGap)).length)
    (hstop : span.stop = text.length) :
    (Node.mk "document" span true (Part.nodesAll 0 parts)).Covers text := by
  have hpieces := Part.leaves_nodesAll hbegun 0
  have hordered : (Node.mk "document" span true (Part.nodesAll 0 parts)).Ordered :=
    .mk (Part.nodesAll_pairwise 0 parts) fun child => Part.ordered_of_mem_nodesAll parts
  have hleaves := Node.leaves_eq (Node.mk "document" span true (Part.nodesAll 0 parts))
  rw [← Part.takeWhile_piecesAll hbegun, h.lead] at hstart
  -- The root is a leaf only if no part has a node.
  cases hchildren : Part.nodesAll 0 parts with
  | nil =>
    rw [hchildren] at hpieces hleaves hnested hordered
    exact h.covers_of_leaf hpieces.symm hleaves hstart hstop hnested hordered
  | cons child rest =>
    rw [hchildren] at hpieces hleaves hnested hordered
    exact h.covers_of_leaves (hleaves.trans hpieces) hstart hstop hnested hordered

end Spells

/-- The root over a JSON text covers it. -/
theorem covers_of_parse? {tree : RangeTree} (h : parse? text = some tree) :
    ∃ root, tree.toNode text = .ok root ∧ root.Covers text := by
  obtain ⟨parts, hparts, rfl⟩ := Option.map_eq_some_iff.1 h
  obtain ⟨lexemes, hlexemes, hpieces, hbegun⟩ := pieces_of_parts? hparts
  have hspells := spells_of_lexemes? hlexemes
  rw [← hpieces] at hspells
  obtain ⟨span, hroot, hnested, hstart, hstop⟩ := Part.toNode_document
    ((Part.textAll_piecesAll parts).symm.trans hspells.append)
  exact ⟨_, hroot, hspells.covers hbegun hnested hstart hstop⟩

end Json

/-! ## Parsers of JSON -/

/-- The grammar builds the trees that the grammar of JSON describes. What it makes of texts with
errors is not said. -/
structure Grammar.BuildsJson (g : Grammar) : Prop where
  /-- The tree of a text without errors is as described. -/
  parse : ∀ {text tree}, Json.parse? text = some tree → g.parse text = some tree
  /-- Old trees help to find the same trees. -/
  follows : g.Follows

/-- So does the grammar of JSON itself, which makes no tree of a text with errors. -/
theorem Grammar.json_buildsJson : Grammar.json.BuildsJson := ⟨id, json_follows⟩

namespace Parser

variable {g : Grammar} {maker : Nat} {earlier : List (List Char)} {snapshots : List Snapshot}
  {p : Parser} {text : List Char}

/-- Whatever texts a JSON parser has parsed before, it can parse a text without errors, and the tree
covers the text. -/
theorem parse_json_covers (hg : g.BuildsJson)
    (hearlier : (fresh (some g) maker).parseAll earlier = .ok (snapshots, p))
    (hvalid : (Json.parse? text).isSome) :
    ∃ tree p', p.parse text = .ok (tree, p') ∧ tree.root.Covers text := by
  obtain ⟨range, hrange⟩ := Option.isSome_iff_exists.1 hvalid
  obtain ⟨root, hroot, hcovers⟩ := Json.covers_of_parse? hrange
  have halone : rootAlone (some g) text = .ok root := by
    unfold rootAlone treeAlone
    rw [Option.bind_some, hg.parse hrange]
    exact hroot
  have hfollows : ∀ g' ∈ some g, g'.Follows := by
    intro g' hg'
    cases hg'
    exact hg.follows
  obtain ⟨tree, p', hparse, rfl⟩ := parse_after hfollows hearlier halone
  exact ⟨tree, p', hparse, hcovers⟩

/-- After a number and a text with an error, an object is parsed that follows a byte order mark and
holds a comment and a character of two bytes. -/
theorem parse_json_after_error :
    ∃ text snapshots p tree p',
      text = ['\ufeff', ' ', '\x7b', '\x22', 'é', '\x22', ':', '/', '*', '*', '/', '2', '\x7d',
        '\n'] ∧
      (new .json 0).parseAll [['1'], [',']] = .ok (snapshots, p) ∧
      p.parse text = .ok (tree, p') ∧ tree.root.Covers text ∧
      tree.root.leaves.map (fun leaf => (leaf.span.start, leaf.span.stop)) =
        [(2, 3), (3, 4), (4, 5), (5, 6), (6, 7), (7, 11), (11, 12), (12, 13)] := by
  obtain ⟨text, htext⟩ : ∃ text : List Char, text =
      ['\ufeff', ' ', '\x7b', '\x22', 'é', '\x22', ':', '/', '*', '*', '/', '2', '\x7d', '\n'] :=
    ⟨_, rfl⟩
  have hvalid : (Json.parse? text).isSome := by
    rw [htext]
    decide +kernel
  obtain ⟨⟨tree, p'⟩, hparse, hleaves⟩ := ok_of_toOption (show (Except.toOption (do
      let given ← (new .json 0).parseAll [['1'], [',']]
      given.2.parse text)).map
        (fun given => given.1.root.leaves.map fun leaf => (leaf.span.start, leaf.span.stop)) =
        some [(2, 3), (3, 4), (4, 5), (5, 6), (6, 7), (7, 11), (11, 12), (12, 13)] by
    rw [htext]
    decide +kernel)
  obtain ⟨⟨snapshots, p⟩, hearlier, hparse⟩ := bind_eq_ok.1 hparse
  rw [new_eq_fresh] at hearlier ⊢
  obtain ⟨tree', p'', hparse', hcovers⟩ :=
    parse_json_covers Grammar.json_buildsJson hearlier hvalid
  cases hparse.symm.trans hparse'
  exact ⟨text, snapshots, p, tree, p', htext, hearlier, hparse, hcovers, hleaves⟩

end Parser

end TreePanel
