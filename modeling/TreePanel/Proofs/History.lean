import TreePanel.Proofs.Editor

/-!
# The snapshots of an editor

Panels tell snapshots apart by their identities, so what they show is right only as long as an
identity stands for one snapshot. Here it is followed which snapshots an editor has held since it
was opened (`Editor.Opened`). They all come from its parser, which numbers them, or were built by
hand under other numbers. So no two of them share an identity, and a text that is parsed anew gets
a snapshot that nobody has seen before (`Editor.Opened.kept`, `Editor.Kept.act_cases`).
-/

namespace TreePanel

/-- What parsing another text consists of: a tree made with the help of the last one, and a root
node under the next identity. -/
theorem Parser.parseNew_eq_ok {p p' : Parser} {text : List Char} {tree : Snapshot} :
    p.parseNew text = .ok (tree, p') ↔
      ∃ range root, range = (p.grammar.bind fun g => treeOf g p.last text) ∧
        rootOf text range = .ok root ∧ tree = ⟨⟨p.maker, p.made⟩, root⟩ ∧
        p' = { p with made := p.made + 1, last := some ⟨text, range, tree⟩ } := by
  unfold parseNew
  dsimp only
  rw [bind_eq_ok]
  constructor
  · rintro ⟨root, hroot, hdone⟩
    cases hdone
    exact ⟨_, root, rfl, hroot, rfl, rfl⟩
  · rintro ⟨_, root, rfl, hroot, rfl, rfl⟩
    exact ⟨root, hroot, rfl⟩

/-- Parsing gives the last snapshot for the last text, and makes a new one for any other text. -/
theorem Parser.parse_eq_ok {p p' : Parser} {text : List Char} {tree : Snapshot}
    (h : p.parse text = .ok (tree, p')) :
    (∃ last, p.last = some last ∧ last.text = text ∧ tree = last.snapshot ∧ p' = p) ∨
      ∃ range, tree.id = ⟨p.maker, p.made⟩ ∧
        p' = { p with made := p.made + 1, last := some ⟨text, range, tree⟩ } := by
  have hnew : p.parseNew text = .ok (tree, p') → ∃ range, tree.id = ⟨p.maker, p.made⟩ ∧
      p' = { p with made := p.made + 1, last := some ⟨text, range, tree⟩ } := by
    intro h
    obtain ⟨range, root, -, -, rfl, rfl⟩ := parseNew_eq_ok.1 h
    exact ⟨range, rfl, rfl⟩
  unfold parse at h
  split at h
  · next last hlast =>
    split at h
    · next htext =>
      cases h
      exact .inl ⟨last, hlast, htext, rfl, rfl⟩
    · exact .inr (hnew h)
  · exact .inr (hnew h)

/-- A parser keeps its grammar. -/
theorem Parser.grammar_of_parse {p p' : Parser} {text : List Char} {tree : Snapshot}
    (h : p.parse text = .ok (tree, p')) : p'.grammar = p.grammar := by
  rcases parse_eq_ok h with ⟨_, -, -, -, rfl⟩ | ⟨_, -, rfl⟩
  · rfl
  · rfl

namespace Editor

/-- A tree that can be put into an editor which has held the given snapshots. Its identity stands
for no other snapshot, and is none of those that the parser of the editor gives. -/
def Genuine (e : Editor) (held : List Snapshot) (tree : Snapshot) : Prop :=
  (∀ t ∈ held, t.id = tree.id → t = tree) ∧
    ∀ p, e.parser = some p → tree.id.maker = p.maker → tree ∈ held

/-- What can be done to an editor which has held the given snapshots. -/
def Possible (e : Editor) (held : List Snapshot) : Action → Prop
  | .setTree tree => e.Genuine held tree
  | _ => True

/-- An editor that was opened, with the snapshots it has held since then. -/
inductive Opened : Editor → List Snapshot → Prop where
  /-- A document was opened and parsed, by whatever grammar. -/
  | parsed {e : Editor} {p : Parser} (grammar : Option Grammar) (maker : Nat) :
      Parser.parse ⟨grammar, maker, 0, none⟩ e.document.text = .ok (e.tree, p) →
        e.parser = some p → Opened e [e.tree]
  /-- A tree was built by hand. -/
  | built {e : Editor} : e.parser = none → Opened e [e.tree]
  /-- Somebody acted on the editor. -/
  | act {e e' : Editor} {held : List Snapshot} {action : Action} {u : Update} :
      Opened e held → e.Possible held action → e.act action = .ok (u, e') →
        Opened e' (e'.tree :: held)
  /-- The editor got another surface or mark. -/
  | dress {e : Editor} {held : List Snapshot} (surface : Option Surface)
      (decoration : Option Span) :
      Opened e held → Opened { e with surface := surface, decoration := decoration } held

/-- What is known of the snapshots that an editor has held. -/
structure Kept (e : Editor) (held : List Snapshot) : Prop where
  /-- The tree is one of them. -/
  current : e.tree ∈ held
  /-- An identity stands for one snapshot. -/
  distinct : ∀ a ∈ held, ∀ b ∈ held, a.id = b.id → a = b
  /-- The last text of the parser is that of the document, and its snapshot is one of them. -/
  last : ∀ p, e.parser = some p →
    ∃ last, p.last = some last ∧ last.text = e.document.text ∧ last.snapshot ∈ held
  /-- The parser made those under its number before. -/
  serial : ∀ p, e.parser = some p → ∀ t ∈ held, t.id.maker = p.maker → t.id.serial < p.made

namespace Kept

variable {e e' : Editor} {held : List Snapshot} {action : Action} {u : Update}

/-- Either the text has not been parsed anew, and then it is the text from before and the tree is
an old one, or it has, and then the tree is the next one of the parser. -/
theorem act_cases (h : e.Kept held) (hpossible : e.Possible held action)
    (hact : e.act action = .ok (u, e')) :
    (e'.parser = e.parser ∧ (e.parser.isSome → e'.document.text = e.document.text) ∧
        (e'.tree ∈ held ∨ e.Genuine held e'.tree)) ∨
      ∃ p range, e.parser = some p ∧ e'.tree.id = ⟨p.maker, p.made⟩ ∧
        e'.parser = some
          { p with made := p.made + 1, last := some ⟨e'.document.text, range, e'.tree⟩ } := by
  cases action with
  | setTree tree =>
    cases hact
    exact .inl ⟨rfl, fun _ => rfl, .inr hpossible⟩
  | replace start stop text =>
    obtain ⟨document, tree, parser, selection, -, hparsed, -, rfl, -⟩ := replace_eq_ok.1 hact
    rcases hparsed with ⟨hnone, rfl, rfl⟩ | ⟨p, p', hp, hparse, rfl⟩
    · refine .inl ⟨hnone.symm, fun hsome => ?_, .inl h.current⟩
      rw [hnone] at hsome
      cases hsome
    · rcases Parser.parse_eq_ok hparse with ⟨last, hlast, htext, rfl, rfl⟩ | ⟨range, hid, rfl⟩
      · obtain ⟨last', hlast', htext', hmem⟩ := h.last p' hp
        rw [hlast] at hlast'
        cases hlast'
        exact .inl ⟨hp.symm, fun _ => htext.symm.trans htext', .inl hmem⟩
      · exact .inr ⟨p, range, hp, hid, rfl⟩
  | _ =>
    cases hact
    exact .inl ⟨rfl, fun _ => rfl, .inl h.current⟩

/-- Neither surface nor mark matters to the snapshots. -/
theorem dress (h : e.Kept held) (surface : Option Surface) (decoration : Option Span) :
    Kept { e with surface := surface, decoration := decoration } held :=
  ⟨h.current, h.distinct, h.last, h.serial⟩

/-- The next tree of a parser is not one of those that the editor has held. -/
theorem id_ne_next (h : e.Kept held) {p : Parser} (hp : e.parser = some p) {t : Snapshot}
    (ht : t ∈ held) : t.id ≠ ⟨p.maker, p.made⟩ := by
  intro hid
  have hlt : t.id.serial < p.made := h.serial p hp t ht (by rw [hid])
  rw [hid] at hlt
  exact absurd hlt (Nat.lt_irrefl p.made)

/-- What is known of the snapshots holds after an action. -/
theorem act (h : e.Kept held) (hpossible : e.Possible held action)
    (hact : e.act action = .ok (u, e')) : e'.Kept (e'.tree :: held) := by
  rcases h.act_cases hpossible hact with ⟨hparser, htext, htree⟩ | ⟨p, range, hp, hid, hp'⟩
  · -- The tree is one from before, or it was built by hand.
    have hsame : ∀ t ∈ held, t.id = e'.tree.id → t = e'.tree := by
      intro t ht hid
      rcases htree with hold | hgenuine
      · exact h.distinct t ht _ hold hid
      · exact hgenuine.1 t ht hid
    refine ⟨List.mem_cons_self, ?_, ?_, ?_⟩
    · intro a ha b hb hid
      rcases List.mem_cons.1 ha with rfl | ha <;> rcases List.mem_cons.1 hb with rfl | hb
      · rfl
      · exact (hsame b hb hid.symm).symm
      · exact hsame a ha hid
      · exact h.distinct a ha b hb hid
    · intro p hp
      rw [hparser] at hp
      obtain ⟨last, hlast, hold, hmem⟩ := h.last p hp
      rw [htext (by rw [hp]; rfl)]
      exact ⟨last, hlast, hold, List.mem_cons_of_mem _ hmem⟩
    · intro p hp t ht hmaker
      rw [hparser] at hp
      rcases List.mem_cons.1 ht with rfl | ht
      · rcases htree with hold | hgenuine
        · exact h.serial p hp _ hold hmaker
        · exact h.serial p hp _ (hgenuine.2 p hp hmaker) hmaker
      · exact h.serial p hp t ht hmaker
  · -- The tree is the next one of the parser.
    have hnew : ∀ t ∈ held, t.id ≠ e'.tree.id := by
      intro t ht
      rw [hid]
      exact h.id_ne_next hp ht
    refine ⟨List.mem_cons_self, ?_, ?_, ?_⟩
    · intro a ha b hb hid
      rcases List.mem_cons.1 ha with rfl | ha <;> rcases List.mem_cons.1 hb with rfl | hb
      · rfl
      · exact absurd hid.symm (hnew b hb)
      · exact absurd hid (hnew a ha)
      · exact h.distinct a ha b hb hid
    · intro q hq
      rw [hp'] at hq
      cases hq
      exact ⟨_, rfl, rfl, List.mem_cons_self⟩
    · intro q hq t ht hmaker
      rw [hp'] at hq
      cases hq
      rcases List.mem_cons.1 ht with rfl | ht
      · rw [hid]
        exact Nat.lt_succ_self p.made
      · exact Nat.lt_succ_of_lt (h.serial p hp t ht hmaker)

end Kept

/-- What is known of the snapshots that an opened editor has held. -/
theorem Opened.kept {e : Editor} {held : List Snapshot} (h : Opened e held) : e.Kept held := by
  induction h with
  | @parsed e p grammar maker hparse hp =>
    -- A parser that has parsed nothing makes its first snapshot.
    rcases Parser.parse_eq_ok hparse with ⟨_, hlast, -, -, -⟩ | ⟨range, hid, rfl⟩
    · cases hlast
    · refine ⟨List.mem_cons_self, ?_, ?_, ?_⟩
      · intro a ha b hb _
        rw [List.mem_singleton.1 ha, List.mem_singleton.1 hb]
      · intro q hq
        rw [hp] at hq
        cases hq
        exact ⟨_, rfl, rfl, List.mem_cons_self⟩
      · intro q hq t ht _
        rw [hp] at hq
        cases hq
        rw [List.mem_singleton.1 ht, hid]
        exact Nat.lt_succ_self 0
  | @built e hnone =>
    refine ⟨List.mem_cons_self, ?_, ?_, ?_⟩
    · intro a ha b hb _
      rw [List.mem_singleton.1 ha, List.mem_singleton.1 hb]
    · intro p hp
      rw [hnone] at hp
      cases hp
    · intro p hp
      rw [hnone] at hp
      cases hp
  | act _ hpossible hact ih => exact ih.act hpossible hact
  | dress surface decoration _ ih => exact ih.dress surface decoration

/-- A document is opened and parsed by the grammar of its language. -/
theorem Opened.ofDocument {document : Document} {maker : Nat} {e : Editor}
    (h : Editor.ofDocument document maker = .ok e) : Opened e [e.tree] := by
  obtain ⟨⟨tree, p⟩, hparse, hdone⟩ := bind_eq_ok.1 h
  cases hdone
  exact .parsed document.language.grammar? maker hparse rfl

end Editor

end TreePanel
