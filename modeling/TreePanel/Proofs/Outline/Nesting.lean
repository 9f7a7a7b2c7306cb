import TreePanel.Proofs.Outline.Flags

/-!
# The shape of an outline

Rows show no more of the tree than their depths, and these say where every node stands
(`rows_nest`). The row above a row is the nearest one before it that is less deep, and the rows of
all nodes below a node are those that follow its own row for as long as they are deeper. Leaving out
anonymous nodes changes nothing of this, for a node goes with all below it, so that the nodes above
one that stays have stayed as well (`Node.exists_kept_of_prefix`).

Both are about the order of places. What stands in it between a place and one further down the same
way is also further down that way (`Node.Place.prefix_of_between`).
-/

namespace TreePanel

namespace Node

variable {root : Node} {namedOnly : Bool}

/-! ## The order of the nodes that stay -/

/-- A place comes before those further down. -/
theorem Place.lt_append {above rest : Place} (hne : rest ≠ []) : above < above ++ rest := by
  obtain ⟨number, rest, rfl⟩ := List.exists_cons_of_ne_nil hne
  have hlt : above ++ [] < above ++ number :: rest :=
    List.append_left_lt (List.nil_lt_cons number rest)
  rwa [List.append_nil] at hlt

/-- Between a place and one further down lie only places that are further down as well. -/
theorem Place.prefix_of_between {above below place : Place} (hlow : ¬place < above)
    (hhigh : ¬above ++ below < place) : above <+: place := by
  induction above generalizing place with
  | nil => exact List.nil_prefix
  | cons i above ih =>
    cases place with
    | nil => exact absurd (List.nil_lt_cons i above) hlow
    | cons k place =>
      rw [List.cons_lt_cons_iff] at hlow
      rw [List.cons_append, List.cons_lt_cons_iff] at hhigh
      obtain rfl : i = k := by omega
      have hway : above <+: place :=
        ih (fun hlt => hlow (.inr ⟨rfl, hlt⟩)) (fun hlt => hhigh (.inr ⟨rfl, hlt⟩))
      exact List.cons_prefix_cons.2 ⟨rfl, hway⟩

/-- The nodes that stay are those at the places that are visible, or all. -/
theorem mem_kept {place : Place} {n : Node} :
    (place, n) ∈ root.kept namedOnly ↔
      root.at? place = some n ∧ (namedOnly = true → root.Visible place) := by
  rw [kept, List.mem_filter, mem_located]
  cases namedOnly <;> simp

/-- If a node stays, so do all nodes above it. -/
theorem exists_kept_of_prefix {above below : Place} {n : Node}
    (hkept : (below, n) ∈ root.kept namedOnly) (hway : above <+: below) :
    ∃ m, (above, m) ∈ root.kept namedOnly ∧
      ∃ rest, below = above ++ rest ∧ m.at? rest = some n := by
  obtain ⟨hat, hvisible⟩ := mem_kept.1 hkept
  obtain ⟨rest, rfl⟩ := hway
  rw [at?_append] at hat
  obtain ⟨m, hm, hrest⟩ := Option.bind_eq_some_iff.1 hat
  have hvisible' : namedOnly = true → root.Visible above :=
    fun hnamed further hne hfurther =>
      hvisible hnamed further hne (hfurther.trans (List.prefix_append above rest))
  exact ⟨m, mem_kept.2 ⟨hm, hvisible'⟩, rest, rfl, hrest⟩

variable {i j k : Nat} {a b c : Place × Node}

/-- The nodes that stay are numbered in the order of their places. -/
theorem index_lt_iff (ha : (root.kept namedOnly)[i]? = some a)
    (hb : (root.kept namedOnly)[j]? = some b) : i < j ↔ a.1 < b.1 := by
  have hpairwise : (root.kept namedOnly).Pairwise fun a b => a.1 < b.1 :=
    root.pairwise_located.filter _
  rw [List.pairwise_iff_getElem] at hpairwise
  obtain ⟨hi, rfl⟩ := List.getElem?_eq_some_iff.1 ha
  obtain ⟨hj, rfl⟩ := List.getElem?_eq_some_iff.1 hb
  constructor
  · exact hpairwise i j hi hj
  · intro hlt
    rcases Nat.lt_trichotomy i j with h | rfl | h
    · exact h
    · exact absurd hlt (List.lt_irrefl _)
    · exact absurd hlt (List.lt_asymm (hpairwise j i hj hi h))

/-- What is numbered between a node and one below it is below it too. -/
theorem prefix_of_index_between (ha : (root.kept namedOnly)[i]? = some a)
    (hb : (root.kept namedOnly)[j]? = some b) (hc : (root.kept namedOnly)[k]? = some c)
    (hway : a.1 <+: b.1) (hik : i ≤ k) (hkj : k ≤ j) : a.1 <+: c.1 := by
  have hlow : ¬c.1 < a.1 := fun hlt => absurd ((index_lt_iff hc ha).2 hlt) (Nat.not_lt.2 hik)
  have hhigh : ¬b.1 < c.1 := fun hlt => absurd ((index_lt_iff hb hc).2 hlt) (Nat.not_lt.2 hkj)
  obtain ⟨rest, hrest⟩ := hway
  rw [← hrest] at hhigh
  exact Place.prefix_of_between hlow hhigh

/-- A node below another one is numbered after it. -/
theorem strictPrefix_iff (ha : (root.kept namedOnly)[i]? = some a)
    (hb : (root.kept namedOnly)[j]? = some b) :
    a.1 <+: b.1 ∧ a.1 ≠ b.1 ↔ i < j ∧ a.1 <+: b.1 := by
  rw [index_lt_iff ha hb]
  constructor
  · rintro ⟨⟨rest, hrest⟩, hne⟩
    refine ⟨?_, rest, hrest⟩
    rw [← hrest] at hne ⊢
    exact Place.lt_append fun hnil => hne (by rw [hnil, List.append_nil])
  · rintro ⟨hlt, hway⟩
    exact ⟨hway, fun hsame => List.lt_irrefl _ (hsame ▸ hlt)⟩

/-- The root stays and is numbered zero. -/
theorem kept_zero : (root.kept namedOnly)[0]? = some ([], root) := by
  rw [kept_eq]
  rfl

/-- Every node that stays, except the root, comes after its parent. -/
theorem exists_parent (hb : (root.kept namedOnly)[i]? = some b) (hpos : 0 < i) :
    ∃ p a number, p < i ∧ (root.kept namedOnly)[p]? = some a ∧ b.1 = a.1 ++ [number] ∧
      a.2.children[number]? = some b.2 := by
  obtain ⟨below, n⟩ := b
  have hne : below ≠ [] := by
    rintro rfl
    exact List.lt_irrefl _ ((index_lt_iff kept_zero hb).1 hpos)
  obtain ⟨above, number, rfl⟩ := (List.eq_nil_or_concat' below).resolve_left hne
  obtain ⟨m, hm, rest, hrest, hat⟩ :=
    exists_kept_of_prefix (List.mem_of_getElem? hb) (List.prefix_append above [number])
  obtain rfl : [number] = rest := List.append_cancel_left hrest
  obtain ⟨child, hchild, hself⟩ := at?_cons_eq_some.1 hat
  obtain rfl : child = n := Option.some.inj hself
  obtain ⟨p, hp⟩ := List.mem_iff_getElem?.1 hm
  have hlt : p < i := (index_lt_iff hp hb).2 (Place.lt_append (List.cons_ne_nil number []))
  exact ⟨p, (above, m), number, hlt, hp, rfl, hchild⟩

/-- Of two nodes that stay, the later one is below the earlier one exactly if it and all nodes
between them are deeper than the earlier one. -/
theorem prefix_iff_deeper (ha : (root.kept namedOnly)[i]? = some a)
    (hb : (root.kept namedOnly)[j]? = some b) (hlt : i < j) :
    a.1 <+: b.1 ↔
      ∀ k c, i < k → k ≤ j → (root.kept namedOnly)[k]? = some c → a.1.length < c.1.length := by
  constructor
  · intro hway k c hik hkj hc
    have hway' : a.1 <+: c.1 :=
      prefix_of_index_between ha hb hc hway (Nat.le_of_lt hik) hkj
    have hne : a.1 ≠ c.1 := ((strictPrefix_iff ha hc).2 ⟨hik, hway'⟩).2
    by_contra hnot
    exact hne (hway'.eq_of_length_le (Nat.not_lt.1 hnot))
  · -- The parent comes before the node, so the way up is gone by induction on the number.
    induction j using Nat.strongRecOn generalizing b with
    | ind j ih =>
      intro hdeeper
      obtain ⟨p, m, number, hpj, hm, hplace, -⟩ := exists_parent hb (by omega)
      have hparent : m.1 <+: b.1 := hplace ▸ List.prefix_append m.1 [number]
      have hlength : b.1.length = m.1.length + 1 := by rw [hplace, List.length_append]; rfl
      have hdeep : a.1.length < b.1.length := hdeeper j b hlt (Nat.le_refl j) hb
      rcases Nat.lt_trichotomy i p with hip | rfl | hpi
      · have hway : a.1 <+: m.1 := ih p hpj hm hip fun k c hik hkp =>
          hdeeper k c hik (by omega)
        exact hway.trans hparent
      · obtain rfl : a = m := Option.some.inj (ha.symm.trans hm)
        exact hparent
      · -- A parent before the upper node would have that one below it, and so less deep than `b`.
        have hbetween : m.1 <+: a.1 :=
          prefix_of_index_between hm hb ha hparent (Nat.le_of_lt hpi) (Nat.le_of_lt hlt)
        have hne : m.1 ≠ a.1 := ((strictPrefix_iff hm ha).2 ⟨hpi, hbetween⟩).2
        exact absurd (hbetween.eq_of_length_le (by omega)) hne

end Node

/-- Members that are told by what stands up to them are those at the front. -/
theorem takeWhile_eq_filter {α : Type} {atFront mine : α → Bool} {xs : List α}
    (h : ∀ (j : Nat) (x : α), xs[j]? = some x →
      (mine x = true ↔ ∀ k ≤ j, ∀ y, xs[k]? = some y → atFront y = true)) :
    xs.takeWhile atFront = xs.filter mine := by
  induction xs with
  | nil => rfl
  | cons x rest ih =>
    have hfirst : mine x = atFront x := by
      rw [Bool.eq_iff_iff, h 0 x rfl]
      simp
    rw [List.takeWhile_cons, List.filter_cons, hfirst]
    split
    · next hfront =>
      refine congrArg (List.cons x) (ih fun j y hy => (h (j + 1) y hy).trans ?_)
      constructor
      · exact fun hall k hk z hz => hall (k + 1) (by omega) z hz
      · intro hall k hk z hz
        cases k with
        | zero => cases hz; exact hfront
        | succ k => exact hall k (by omega) z hz
    · next hfront =>
      refine (List.filter_eq_nil_iff.2 fun y hy hmine => hfront ?_).symm
      obtain ⟨j, hj⟩ := List.mem_iff_getElem?.1 hy
      exact (h (j + 1) y hj).1 hmine 0 (by omega) x rfl

namespace Outline

variable {root : Node} {selection : Selection} {lineAt : Nat → Except Fault Line}
  {settings : Settings} {o : Outline} {i j : Nat} {row outer inner : Row}

/-- Row `j` is that of a node below the node of row `i`, however far. -/
def Below (settings : Settings) (root : Node) (i j : Nat) : Prop :=
  ∃ above ∈ (root.kept !settings.showAnonymous)[i]?,
    ∃ below ∈ (root.kept !settings.showAnonymous)[j]?, above.1 <+: below.1 ∧ above.1 ≠ below.1

instance (settings : Settings) (root : Node) (i j : Nat) : Decidable (Below settings root i j) :=
  inferInstanceAs (Decidable (∃ _ ∈ _, ∃ _ ∈ _, _))

/-- Row `p` is that of the parent of the node of row `i`. -/
def Parent (settings : Settings) (root : Node) (p i : Nat) : Prop :=
  ∃ above m number n, (root.kept !settings.showAnonymous)[p]? = some (above, m) ∧
    (root.kept !settings.showAnonymous)[i]? = some (above ++ [number], n) ∧
    m.children[number]? = some n

/-- Below a row are rows that come later, of nodes further down the same way. -/
theorem below_iff {a b : Node.Place × Node} (ha : (root.kept !settings.showAnonymous)[i]? = some a)
    (hb : (root.kept !settings.showAnonymous)[j]? = some b) :
    Below settings root i j ↔ i < j ∧ a.1 <+: b.1 := by
  rw [← Node.strictPrefix_iff ha hb]
  simp [Below, ha, hb]

/-- A node is below its parent. -/
theorem below_of_parent {p : Nat} (h : Parent settings root p i) : Below settings root p i := by
  obtain ⟨above, m, number, n, hp, hi, -⟩ := h
  exact ⟨_, hp, _, hi, List.prefix_append above [number], by simp⟩

/-- The row of a node that stays. -/
theorem row_of_kept {e : Node.Place × Node}
    (hkept : (root.kept !settings.showAnonymous)[i]? = some e) :
    (rowsOf settings root selection)[i]? = some (Row.ofNode selection i e) := by
  rw [rowsOf_eq, List.getElem?_mapIdx, hkept]
  rfl

/-- Rows are numbered by where they stand. -/
theorem index_of_row (hrow : (rowsOf settings root selection)[i]? = some row) : row.index = i := by
  obtain ⟨place, n, -, -, rfl⟩ := row_eq_ofNode hrow
  rfl

/-- In the outlines of a nested tree, a row contains the rows of all nodes below its node, whatever
is selected in either. -/
theorem contains_of_below (hnested : root.Nested) {selection' : Selection}
    (houter : (rowsOf settings root selection)[i]? = some outer)
    (hinner : (rowsOf settings root selection')[j]? = some inner)
    (hbelow : Below settings root i j) : outer.span.contains inner.span = true := by
  obtain ⟨above, m, hi, hm, rfl⟩ := row_eq_ofNode houter
  obtain ⟨below, n, hj, hn, rfl⟩ := row_eq_ofNode hinner
  obtain ⟨a, ha, b, hb, hway, -⟩ := hbelow
  obtain rfl : (above, m) = a := Option.some.inj (hi.symm.trans ha)
  obtain rfl : (below, n) = b := Option.some.inj (hj.symm.trans hb)
  exact hnested.contains_of_prefix hm hn hway

/-- A row that is not the first comes after that of its parent, which is the nearest one before it
that is less deep. -/
theorem exists_parent_row (hpos : 0 < i) (hrow : (rowsOf settings root selection)[i]? = some row) :
    ∃ p outer, p < i ∧ (rowsOf settings root selection)[p]? = some outer ∧
      Parent settings root p i ∧ outer.depth + 1 = row.depth ∧
      ∀ k between, p < k → k < i → (rowsOf settings root selection)[k]? = some between →
        row.depth ≤ between.depth := by
  obtain ⟨place, n, hkept, -, rfl⟩ := row_eq_ofNode hrow
  obtain ⟨p, ⟨above, m⟩, number, hlt, hparent, rfl, hchild⟩ := Node.exists_parent hkept hpos
  have hdepth : (above ++ [number]).length = above.length + 1 := List.length_append
  refine ⟨p, _, hlt, row_of_kept hparent, ⟨above, m, number, n, hparent, hkept, hchild⟩,
    hdepth.symm, fun k between hpk hki hbetween => ?_⟩
  obtain ⟨other, l, hother, -, rfl⟩ := row_eq_ofNode hbetween
  have hway : above <+: above ++ [number] := List.prefix_append above [number]
  have hdeeper : above.length < other.length :=
    (Node.prefix_iff_deeper hparent hkept hlt).1 hway k _ hpk (Nat.le_of_lt hki) hother
  show (above ++ [number]).length ≤ other.length
  omega

/-- The row of a node below comes later, and all rows up to it are deeper. -/
theorem below_iff_deeper (houter : (rowsOf settings root selection)[i]? = some outer)
    (hinner : (rowsOf settings root selection)[j]? = some inner) :
    Below settings root i j ↔ i < j ∧ ∀ k between, i < k → k ≤ j →
      (rowsOf settings root selection)[k]? = some between → outer.depth < between.depth := by
  obtain ⟨above, m, hi, -, rfl⟩ := row_eq_ofNode houter
  obtain ⟨below, n, hj, -, rfl⟩ := row_eq_ofNode hinner
  rw [below_iff hi hj]
  refine and_congr_right fun hlt => ?_
  rw [Node.prefix_iff_deeper hi hj hlt]
  constructor
  · intro hdeeper k between hik hkj hbetween
    obtain ⟨place, l, hplace, -, rfl⟩ := row_eq_ofNode hbetween
    exact hdeeper k _ hik hkj hplace
  · intro hdeeper k c hik hkj hc
    exact hdeeper k _ hik hkj (row_of_kept hc)

/-- The rows after a row that are deeper, up to the first that is not, are those of the nodes below
its node. -/
theorem takeWhile_deeper (hrow : (rowsOf settings root selection)[i]? = some row) :
    ((rowsOf settings root selection).drop (i + 1)).takeWhile (row.depth < ·.depth) =
      (rowsOf settings root selection).filter fun later => Below settings root i later.index := by
  generalize hrows : rowsOf settings root selection = rows at hrow ⊢
  have hbelow : ∀ (j : Nat) (later : Row), rows[j]? = some later →
      (Below settings root i later.index ↔ i < j ∧ ∀ k between, i < k → k ≤ j →
        rows[k]? = some between → row.depth < between.depth) := by
    subst hrows
    intro j later hlater
    rw [index_of_row hlater]
    exact below_iff_deeper hrow hlater
  have hbefore : (rows.take (i + 1)).filter
      (fun later => Below settings root i later.index) = [] := by
    refine List.filter_eq_nil_iff.2 fun later hlater => ?_
    obtain ⟨j, hj⟩ := List.mem_iff_getElem?.1 hlater
    rw [List.getElem?_take, Option.ite_none_right_eq_some] at hj
    rw [decide_eq_true_eq, hbelow j later hj.2]
    omega
  have hafter : (rows.drop (i + 1)).takeWhile (row.depth < ·.depth) =
      (rows.drop (i + 1)).filter (fun later => Below settings root i later.index) := by
    refine takeWhile_eq_filter fun j later hlater => ?_
    rw [List.getElem?_drop] at hlater
    rw [decide_eq_true_eq, hbelow _ later hlater]
    constructor
    · rintro ⟨-, hdeeper⟩ k hk between hbetween
      rw [List.getElem?_drop] at hbetween
      exact decide_eq_true (hdeeper (i + 1 + k) between (by omega) (by omega) hbetween)
    · refine fun hdeeper => ⟨by omega, fun k between hik hkj hbetween => ?_⟩
      obtain ⟨k, rfl⟩ := Nat.exists_eq_add_of_le (Nat.succ_le_of_lt hik)
      rw [← List.getElem?_drop] at hbetween
      exact of_decide_eq_true (hdeeper k (by omega) between hbetween)
  calc (rows.drop (i + 1)).takeWhile (row.depth < ·.depth)
      = (rows.drop (i + 1)).filter (fun later => Below settings root i later.index) := hafter
    _ = (rows.take (i + 1) ++ rows.drop (i + 1)).filter
          (fun later => Below settings root i later.index) := by
        rw [List.filter_append, hbefore, List.nil_append]
    _ = rows.filter fun later => Below settings root i later.index := by
        rw [List.take_append_drop]

/-! ## The whole outline -/

/-- Rows that show by their depths alone how the nodes of a tree stand. -/
structure Nests (settings : Settings) (root : Node) (selection : Selection) (rows : List Row) :
    Prop where
  /-- The rows are those of the nodes that stay, at their places and numbered from zero. -/
  placed : rows = (root.kept !settings.showAnonymous).mapIdx (Row.ofNode selection)
  /-- The first row is the root's. -/
  first : rows[0]? = some (Row.ofNode selection 0 ([], root))
  /-- No row but the first has depth zero. -/
  depth_eq_zero : ∀ i row, rows[i]? = some row → (row.depth = 0 ↔ i = 0)
  /-- From a row to the next one the depth may fall by any number, to one at the least, and rises by
  one at the most. -/
  depth_le : ∀ i row next, rows[i]? = some row → rows[i + 1]? = some next →
    1 ≤ next.depth ∧ next.depth ≤ row.depth + 1
  /-- Of the rows before a row, the nearest one that is less deep by one is the row of its parent,
  and contains it. None between them is less deep than the row. -/
  parent : ∀ i row, 0 < i → rows[i]? = some row →
    ∃ p outer, p < i ∧ rows[p]? = some outer ∧ outer.depth + 1 = row.depth ∧
      (∀ k between, p < k → k < i → rows[k]? = some between → row.depth ≤ between.depth) ∧
      Parent settings root p i ∧ outer.span.contains row.span = true
  /-- The rows after a row that are deeper than it, up to the first that is not, are those of the
  nodes below its node, and of no others. -/
  block : ∀ i row, rows[i]? = some row →
    (rows.drop (i + 1)).takeWhile (row.depth < ·.depth) =
      rows.filter fun later => Below settings root i later.index
  /-- All of them lie inside the row. -/
  inside : ∀ i row, rows[i]? = some row →
    ∀ later ∈ (rows.drop (i + 1)).takeWhile (row.depth < ·.depth),
      row.span.contains later.span = true

/-- The rows of a nested tree show how its nodes stand, with or without anonymous nodes. -/
theorem nests_rowsOf (hnested : root.Nested) :
    Nests settings root selection (rowsOf settings root selection) where
  placed := rowsOf_eq settings root selection
  first := row_of_kept Node.kept_zero
  depth_eq_zero i row hrow := by
    constructor
    · intro hzero
      by_contra hpos
      obtain ⟨p, outer, -, -, -, hdepth, -⟩ := exists_parent_row (Nat.pos_of_ne_zero hpos) hrow
      omega
    · rintro rfl
      rw [row_of_kept Node.kept_zero] at hrow
      cases hrow
      rfl
  depth_le i row next hrow hnext := by
    obtain ⟨p, outer, hlt, houter, -, hdepth, hbetween⟩ := exists_parent_row (by omega) hnext
    refine ⟨by omega, ?_⟩
    rcases Nat.eq_or_lt_of_le (Nat.le_of_lt_succ hlt) with rfl | hpi
    · obtain rfl : outer = row := Option.some.inj (houter.symm.trans hrow)
      omega
    · have hle : next.depth ≤ row.depth := hbetween i row hpi (Nat.lt_succ_self i) hrow
      omega
  parent i row hpos hrow := by
    obtain ⟨p, outer, hlt, houter, hparent, hdepth, hbetween⟩ := exists_parent_row hpos hrow
    exact ⟨p, outer, hlt, houter, hdepth, hbetween, hparent,
      contains_of_below hnested houter hrow (below_of_parent hparent)⟩
  block i row hrow := takeWhile_deeper hrow
  inside i row hrow later hlater := by
    rw [takeWhile_deeper hrow, List.mem_filter, decide_eq_true_eq] at hlater
    obtain ⟨hmem, hbelow⟩ := hlater
    obtain ⟨j, hj⟩ := List.mem_iff_getElem?.1 hmem
    rw [index_of_row hj] at hbelow
    exact contains_of_below hnested hrow hj hbelow

/-- In every outline of a nested tree, whether it shows anonymous nodes or not, the depths of the
rows tell the parent of each node and all nodes below it. -/
theorem rows_nest (hnested : root.Nested)
    (hrender : render root selection lineAt settings = .ok o) :
    Nests settings root selection o.rows := by
  rw [rows_of_render hrender]
  exact nests_rowsOf hnested

/-- A call is shown without its brackets, and with a block after its arguments. Below the arguments
are the rows that follow up to the block, where the depth falls by one. -/
theorem rows_nest_of_call :
    ∃ (root : Node) (o : Outline), root.Nested ∧
      render root (.caret 5) (fun _ => .error .editOutside) { footer := false } = .ok o ∧
      o.rows.map (fun row => (row.name, row.depth)) =
        [("call", 0), ("f", 1), ("args", 1), ("x", 2), ("y", 2), ("block", 1)] ∧
      (o.rows.drop 3).takeWhile (1 < ·.depth) =
        o.rows.filter (fun later => Below { footer := false } root 2 later.index) ∧
      Nests { footer := false } root (.caret 5) o.rows := by
  let x : Node := .leaf "x" ⟨5, 6, by decide⟩ true
  let y : Node := .leaf "y" ⟨6, 8, by decide⟩ true
  let args : Node := .mk "args" ⟨4, 9, by decide⟩ true
    [.leaf "(" ⟨4, 5, by decide⟩ false, x, y, .leaf ")" ⟨8, 9, by decide⟩ false]
  let root : Node := .mk "call" ⟨0, 12, by decide⟩ true
    [.leaf "f" ⟨0, 4, by decide⟩ true, args, .leaf "block" ⟨9, 12, by decide⟩ true]
  have hargs : args.Nested := .mk (by decide) (by simp [x, y])
  have hroot : root.Nested := .mk (by decide) (by simp [hargs])
  have hrender : render root (.caret 5) (fun _ => .error .editOutside) { footer := false } =
      .ok (drawn { footer := false } root (.caret 5) []) := rfl
  have hnests := rows_nest hroot hrender
  have hrow : (drawn { footer := false } root (.caret 5) []).rows[2]? =
      some (Row.ofNode (.caret 5) 2 ([1], args)) := by decide +kernel
  exact ⟨root, _, hroot, hrender, by decide +kernel, hnests.block 2 _ hrow, hnests⟩

end Outline

end TreePanel
