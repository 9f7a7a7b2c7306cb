import TreePanel.Proofs.Grammar.Cursor
import TreePanel.Proofs.Grammar.Json.Tree

/-!
# Slices of a converted tree

The ranges of a grammar's tree begin and end between characters (`RangeTree.OnBoundaries`), which
have one to four bytes each. There it is exact to count characters for bytes: the characters that
are counted have the bytes before the offset, and no others (`RangeTree.IsBoundary.bytes_take`). So
the order of offsets is kept in both directions (`RangeTree.IsBoundary.charOffset_le_iff`), and the
characters between two offsets have the bytes between them (`RangeTree.IsBoundary.bytes_slice`).

A converted tree has a node wherever the tree over bytes has one, made of the subtree there
(`RangeTree.map_at?_toNode`). Together with the walk of the cursor that converts it, this says what
becomes of a tree (`Cursors.convertTree_keeps`).
-/

namespace TreePanel

open Node (Place)

namespace RangeTree

variable {text : List Char} {a b : Nat}

/-! ## Between two characters -/

/-- An offset in bytes lies between two characters of a text, or at one of its ends. -/
def IsBoundary (text : List Char) (offset : Nat) : Prop :=
  ∃ pre post, text = pre ++ post ∧ (bytes pre).length = offset

/-- The bytes of a text are those of its beginning and of the rest. -/
theorem bytes_append (pre post : List Char) : bytes (pre ++ post) = bytes pre ++ bytes post :=
  List.flatMap_append

/-- A text has as many bytes as its characters take together. -/
theorem length_bytes (text : List Char) : (bytes text).length = byteLength text := by
  induction text with
  | nil => rfl
  | cons c rest ih =>
    have hcons : bytes (c :: rest) = String.utf8EncodeChar c ++ bytes rest := List.flatMap_cons
    rw [hcons, List.length_append, String.length_utf8EncodeChar, ih, byteLength]

namespace IsBoundary

/-- The characters before a boundary have the bytes before it. -/
theorem bytes_take (h : IsBoundary text a) :
    bytes (text.take (charOffset text a)) = (bytes text).take a := by
  obtain ⟨pre, post, rfl, rfl⟩ := h
  rw [length_bytes, charOffset_byteLength, List.take_left, ← length_bytes, bytes_append,
    List.take_left]

/-- There are as many of them as the offset says. -/
theorem length_bytes_take (h : IsBoundary text a) :
    (bytes (text.take (charOffset text a))).length = a := by
  obtain ⟨pre, post, rfl, rfl⟩ := h
  rw [length_bytes pre, charOffset_byteLength, List.take_left, length_bytes]

instance (text : List Char) (offset : Nat) : Decidable (IsBoundary text offset) :=
  decidable_of_iff ((bytes (text.take (charOffset text offset))).length = offset)
    ⟨fun h => ⟨_, _, (List.take_append_drop _ text).symm, h⟩, length_bytes_take⟩

/-- Boundaries are in the same order as the characters at them. -/
theorem charOffset_le_iff (ha : IsBoundary text a) (hb : IsBoundary text b) :
    charOffset text a ≤ charOffset text b ↔ a ≤ b := by
  refine ⟨fun h => ?_, charOffset_mono text⟩
  rcases Nat.le_total a b with hle | hge
  · exact hle
  · -- Two boundaries with as many characters before them are the same.
    have hsame : charOffset text a = charOffset text b :=
      Nat.le_antisymm h (charOffset_mono text hge)
    rw [← ha.length_bytes_take, hsame, hb.length_bytes_take]

/-- The characters between two boundaries have the bytes between them. -/
theorem bytes_slice (ha : IsBoundary text a) (hb : IsBoundary text b) (h : a ≤ b) :
    bytes ((text.drop (charOffset text a)).take (charOffset text b - charOffset text a)) =
      ((bytes text).drop a).take (b - a) := by
  obtain ⟨front, hfront⟩ : ∃ front, front = text.take (charOffset text b) := ⟨_, rfl⟩
  have hsplit : bytes front = bytes (text.take (charOffset text a)) ++
      bytes (front.drop (charOffset text a)) := by
    have htake : text.take (charOffset text a) = front.take (charOffset text a) := by
      rw [hfront, List.take_take, Nat.min_eq_left (charOffset_mono text h)]
    rw [← bytes_append, htake, List.take_append_drop]
  calc bytes ((text.drop (charOffset text a)).take (charOffset text b - charOffset text a))
      = bytes (front.drop (charOffset text a)) := by rw [hfront, List.drop_take]
    _ = (bytes front).drop a := by rw [hsplit, List.drop_left' ha.length_bytes_take]
    _ = ((bytes text).take b).drop a := by rw [hfront, hb.bytes_take]
    _ = ((bytes text).drop a).take (b - a) := List.drop_take

end IsBoundary

/-- Every range begins and ends at a boundary, at every level. -/
inductive OnBoundaries (text : List Char) : RangeTree → Prop where
  | mk {kind : String} {named : Bool} {start stop : Nat} {children : List RangeTree} :
      IsBoundary text start → IsBoundary text stop → (∀ child ∈ children, OnBoundaries text child) →
      OnBoundaries text (.mk kind named start stop children)

/-! ## Subtrees and their nodes -/

variable {tree t : RangeTree} {root n : Node} {place : Place}

/-- A property that trees pass on to their children holds at every place. -/
theorem at?_induction {P : RangeTree → Prop} (hchild : ∀ t, P t → ∀ child ∈ t.children, P child)
    (htree : P tree) (hat : tree.at? place = some t) : P t := by
  induction place generalizing tree with
  | nil =>
    obtain rfl : tree = t := Option.some.inj hat
    exact htree
  | cons i below ih =>
    obtain ⟨child, hmem, hdown⟩ := Option.bind_eq_some_iff.1 hat
    exact ih (hchild tree htree child (List.mem_of_getElem? hmem)) hdown

/-- The range at a place is in order. -/
theorem Nested.start_le_stop (h : tree.Nested) (hat : tree.at? place = some t) :
    t.start ≤ t.stop := by
  obtain ⟨hle, -, -⟩ : t.Nested := at?_induction (fun _ ⟨_, _, hbelow⟩ => hbelow) h hat
  exact hle

/-- The range at a place begins and ends at a boundary. -/
theorem OnBoundaries.of_at? (h : tree.OnBoundaries text) (hat : tree.at? place = some t) :
    IsBoundary text t.start ∧ IsBoundary text t.stop := by
  obtain ⟨hstart, hstop, -⟩ : t.OnBoundaries text :=
    at?_induction (fun _ ⟨_, _, hbelow⟩ => hbelow) h hat
  exact ⟨hstart, hstop⟩

/-- There are as many nodes as trees. -/
theorem length_of_toNodes {ts : List RangeTree} {ns : List Node} (h : toNodes text ts = .ok ns) :
    ns.length = ts.length := by
  induction ts generalizing ns with
  | nil =>
    cases h
    rfl
  | cons t rest ih =>
    obtain ⟨n, later, rfl, -, hlater⟩ := of_toNodes_cons h
    rw [List.length_cons, List.length_cons, ih hlater]

/-- The nodes of several trees are in the order of the trees. -/
theorem map_getElem?_toNodes {ts : List RangeTree} {ns : List Node} (h : toNodes text ts = .ok ns)
    (i : Nat) : ts[i]?.map (toNode text) = ns[i]?.map .ok := by
  induction ts generalizing ns i with
  | nil =>
    cases h
    rfl
  | cons t rest ih =>
    obtain ⟨n, later, rfl, hn, hlater⟩ := of_toNodes_cons h
    cases i with
    | zero => exact congrArg some hn
    | succ i => exact ih hlater i

/-- Where the tree has a subtree, the node of the tree has the node of the subtree. Elsewhere it has
none. -/
theorem map_at?_toNode (h : toNode text tree = .ok root) (place : Place) :
    (tree.at? place).map (toNode text) = (root.at? place).map .ok := by
  induction place generalizing tree root with
  | nil => exact congrArg some h
  | cons i below ih =>
    obtain ⟨-, -, -, -, hchildren⟩ := of_toNode h
    have hchild := map_getElem?_toNodes hchildren i
    rw [at?, Node.at?]
    cases hsub : tree.children[i]? with
    | none =>
      rw [hsub] at hchild
      rw [Option.map_eq_none_iff.1 hchild.symm]
      rfl
    | some child =>
      rw [hsub] at hchild
      obtain ⟨m, hm, hnode⟩ := Option.map_eq_some_iff.1 hchild.symm
      rw [hm]
      exact ih hnode.symm

/-- There is a node at a place exactly if there is a subtree. -/
theorem isSome_at?_toNode (h : toNode text tree = .ok root) (place : Place) :
    (root.at? place).isSome = (tree.at? place).isSome := by
  have hmap := congrArg Option.isSome (map_at?_toNode h place)
  rwa [Option.isSome_map, Option.isSome_map, eq_comm] at hmap

/-- The node at a place is that of the subtree. -/
theorem toNode_of_at? (h : toNode text tree = .ok root) (hat : tree.at? place = some t)
    (hn : root.at? place = some n) : toNode text t = .ok n := by
  have hmap := map_at?_toNode h place
  rw [hat, hn] at hmap
  exact Option.some.inj hmap

/-- The bytes of a text inside the range of a tree. -/
def slice (t : RangeTree) (text : List Char) : List UInt8 :=
  ((bytes text).drop t.start).take (t.stop - t.start)

end RangeTree

/-! ## Converted trees -/

/-- The node over a text keeps what a tree over its bytes says. -/
structure Node.Keeps (root : Node) (text : List Char) (tree : RangeTree) : Prop where
  /-- The places are the same, and so are kinds, marks and the number of children at each. -/
  shape : ∀ place, (root.at? place).map (fun n => (n.name, n.named, n.children.length)) =
    (tree.at? place).map fun t => (t.kind, t.named, t.children.length)
  /-- Every span lies in the text, and cuts out what the range of bytes cuts out. -/
  slice : ∀ {place n t}, root.at? place = some n → tree.at? place = some t →
    n.span.stop ≤ text.length ∧ RangeTree.bytes (n.span.slice text) = t.slice text
  /-- The ends of any two spans are in the order in which those of the ranges are. -/
  order : ∀ {place place' n n' t t'}, root.at? place = some n → tree.at? place = some t →
    root.at? place' = some n' → tree.at? place' = some t' →
    (n.span.start ≤ n'.span.start ↔ t.start ≤ t'.start) ∧
    (n.span.start ≤ n'.span.stop ↔ t.start ≤ t'.stop) ∧
    (n.span.stop ≤ n'.span.start ↔ t.stop ≤ t'.start) ∧
    (n.span.stop ≤ n'.span.stop ↔ t.stop ≤ t'.stop)
  /-- Children lie inside their parents. -/
  nested : root.Nested

/-- The node of a tree that nests keeps it, if the ranges begin and end at boundaries. -/
theorem RangeTree.Nested.keeps {text : List Char} {tree : RangeTree} {root : Node}
    (h : tree.Nested) (hbounds : tree.OnBoundaries text) (hroot : tree.toNode text = .ok root) :
    root.Keeps text tree where
  shape place := by
    have hmap := RangeTree.map_at?_toNode hroot place
    cases hat : tree.at? place with
    | none =>
      rw [hat] at hmap
      rw [Option.map_eq_none_iff.1 hmap.symm]
      rfl
    | some t =>
      rw [hat] at hmap
      obtain ⟨n, hn, hnode⟩ := Option.map_eq_some_iff.1 hmap.symm
      obtain ⟨hname, hnamed, -, -, hchildren⟩ := RangeTree.of_toNode hnode.symm
      rw [hn, Option.map_some, Option.map_some, hname, hnamed,
        RangeTree.length_of_toNodes hchildren]
  slice {place n t} hn hat := by
    obtain ⟨-, -, hstart, hstop, -⟩ := RangeTree.of_toNode (RangeTree.toNode_of_at? hroot hat hn)
    obtain ⟨hfrom, hto⟩ := hbounds.of_at? hat
    constructor
    · rw [hstop]
      exact RangeTree.charOffset_le_length text t.stop
    · rw [Span.slice, Span.length, hstart, hstop]
      exact hfrom.bytes_slice hto (h.start_le_stop hat)
  order {place place' n n' t t'} hn hat hn' hat' := by
    have hnode := RangeTree.toNode_of_at? hroot hat hn
    have hnode' := RangeTree.toNode_of_at? hroot hat' hn'
    obtain ⟨-, -, hstart, hstop, -⟩ := RangeTree.of_toNode hnode
    obtain ⟨-, -, hstart', hstop', -⟩ := RangeTree.of_toNode hnode'
    obtain ⟨hfrom, hto⟩ := hbounds.of_at? hat
    obtain ⟨hfrom', hto'⟩ := hbounds.of_at? hat'
    rw [hstart, hstop, hstart', hstop']
    exact ⟨hfrom.charOffset_le_iff hfrom', hfrom.charOffset_le_iff hto',
      hto.charOffset_le_iff hfrom', hto.charOffset_le_iff hto'⟩
  nested := by
    obtain ⟨n, hn, hnested, -⟩ := h.toNode_isOk text
    cases hroot.symm.trans hn
    exact hnested

/-- Every place of a node is listed once, and no other place is listed. -/
theorem Node.count_located (root : Node) (place : Place) :
    (root.located.map fun e => e.1).count place = if (root.at? place).isSome then 1 else 0 := by
  have hnodup : (root.located.map fun e => e.1).Nodup :=
    List.pairwise_map.2 (root.pairwise_located.imp fun hlt => ne_of_lt hlt)
  cases hat : root.at? place with
  | none =>
    refine List.count_eq_zero.2 fun hmem => ?_
    obtain ⟨⟨_, n⟩, he, rfl⟩ := List.mem_map.1 hmem
    rw [Node.mem_located.1 he] at hat
    cases hat
  | some n =>
    exact List.count_eq_one_of_mem hnodup (List.mem_map.2 ⟨(place, n), mem_located.2 hat, rfl⟩)

/-- Let a tree over the bytes of a text nest, with ranges that begin and end between characters. A
cursor that moves in the tree as cursors do converts it without a fault: no span is reversed and no
child lies outside its parent. The conversion comes to an end, for twice the size of the tree is
limit enough, and a higher limit changes nothing. It begins at every node exactly once, and the
cursor comes back to the root. The node that it brings back is the one of which a parser makes its
snapshot. It keeps the tree: shape, kinds and marks are the same, spans cut out what the ranges cut
out, and they come in the order of the ranges. -/
theorem Cursors.convertTree_keeps {κ : Type} {cursors : Cursors κ} {At : κ → Place → Prop}
    {text : List Char} {tree : RangeTree} (hmove : cursors.MoveIn tree At)
    (hnested : tree.Nested) (hbounds : tree.OnBoundaries text) :
    ∃ root last visited places,
      (∀ limit, 2 * tree.size ≤ limit →
        cursors.convertTree text limit tree = some (.ok ⟨root, last, visited⟩)) ∧
      Parser.rootOf text (some tree) = .ok root ∧
      At last [] ∧
      List.Forall₂ At visited places ∧
      (∀ place, places.count place = if (tree.at? place).isSome then 1 else 0) ∧
      root.Keeps text tree := by
  obtain ⟨root, hroot, -⟩ := hnested.toNode_isOk text
  obtain ⟨last, visited, hconvert, hlast, hplaces⟩ := convertNode_eq hmove text tree rfl hmove.root
  rw [hroot] at hconvert
  refine ⟨root, last, visited, _, fun limit hlimit => hconvert limit (Nat.le_succ_of_le hlimit),
    hroot, hlast, hplaces root hroot, fun place => ?_, hnested.keeps hbounds hroot⟩
  rw [← RangeTree.isSome_at?_toNode hroot]
  exact root.count_located place

/-- A text of letters of two, three, four and one bytes, and a tree with a token inside a node. -/
theorem Cursors.convertTree_of_wide_letters :
    ∃ text tree, text = ['é', '€', '😀', 'a'] ∧
      tree = .mk "document" true 0 10
        [.mk "word" true 0 9 [.leaf "letter" false 2 5], .leaf "letter" false 9 10] ∧
      tree.Nested ∧ tree.OnBoundaries text ∧ Cursors.trailed.MoveIn tree (Cursor.StandsAt tree) ∧
      ∃ root last visited places,
        (∀ limit, 8 ≤ limit →
          Cursors.trailed.convertTree text limit tree = some (.ok ⟨root, last, visited⟩)) ∧
        last.StandsAt tree [] ∧ List.Forall₂ (Cursor.StandsAt tree) visited places ∧
        (∀ place, places.count place = if (tree.at? place).isSome then 1 else 0) ∧
        root.Keeps text tree ∧
        root.located.map (fun e => (e.1, e.2.span.start, e.2.span.stop)) =
          [([], 0, 4), ([0], 0, 3), ([0, 0], 1, 2), ([1], 3, 4)] := by
  obtain ⟨text, htext⟩ : ∃ text, text = ['é', '€', '😀', 'a'] := ⟨_, rfl⟩
  obtain ⟨tree, htree⟩ : ∃ tree : RangeTree, tree = .mk "document" true 0 10
      [.mk "word" true 0 9 [.leaf "letter" false 2 5], .leaf "letter" false 9 10] := ⟨_, rfl⟩
  have hnone : ∀ {p : RangeTree → Prop}, ∀ child ∈ [], p child := fun {p} => List.forall_mem_nil p
  have hnested : tree.Nested := by
    rw [htree]
    refine .mk (by decide) (by decide) (List.forall_mem_cons.2 ⟨?_, List.forall_mem_singleton.2 ?_⟩)
    · exact .mk (by decide) (by decide) (List.forall_mem_singleton.2 (.mk (by decide) hnone hnone))
    · exact .mk (by decide) hnone hnone
  have hbounds : tree.OnBoundaries text := by
    rw [htree, htext]
    refine .mk (by decide +kernel) (by decide +kernel)
      (List.forall_mem_cons.2 ⟨?_, List.forall_mem_singleton.2 ?_⟩)
    · exact .mk (by decide +kernel) (by decide +kernel)
        (List.forall_mem_singleton.2 (.mk (by decide +kernel) (by decide +kernel) hnone))
    · exact .mk (by decide +kernel) (by decide +kernel) hnone
  obtain ⟨root, last, visited, places, hconvert, hroot, hlast, hvisited, honce, hkeeps⟩ :=
    convertTree_keeps (trailed_moveIn tree) hnested hbounds
  have hsize : 2 * tree.size = 8 := by
    rw [htree]
    decide
  rw [hsize] at hconvert
  obtain ⟨other, hother, hspans⟩ := ok_of_toOption (show
      (Parser.rootOf text (some tree)).toOption.map
        (fun root => root.located.map fun e => (e.1, e.2.span.start, e.2.span.stop)) =
          some [([], 0, 4), ([0], 0, 3), ([0, 0], 1, 2), ([1], 3, 4)] by
    rw [htext, htree]
    decide +kernel)
  cases hroot.symm.trans hother
  exact ⟨text, tree, htext, htree, hnested, hbounds, trailed_moveIn tree, root, last, visited,
    places, hconvert, hlast, hvisited, honce, hkeeps, hspans⟩

end TreePanel
