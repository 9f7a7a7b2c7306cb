import TreePanel.Proofs.Editor.Moving
import TreePanel.Proofs.Reparse

/-!
# Undoing a replacement

To undo a replacement, what it took out is put back in the place of what it put in. That restores
the text (`Document.splice_splice`). An offset goes there and back through two maps (`Editor.moved`)
and returns to where it was exactly if the first one did not bring it to the edge of something else
(`Editor.Survives`, `Editor.moved_moved_iff`).

The tree of an editor with a parser depends on its text alone after every replacement, so undoing
one restores the tree if it was that of its text before (`Editor.OwnTree`). It is when the editor is
opened, and it stays so until a tree is put in from outside (`Editor.OwnTree.act`). A tree that was
put in is gone after the first replacement, and undoing it does not bring it back
(`Editor.tree_after_swap`).
-/

namespace TreePanel

/-- A text alone gives one root at most. -/
theorem Parser.Alone.unique {grammar : Option Grammar} {text : List Char} {a b : Node}
    (ha : Alone grammar text a) (hb : Alone grammar text b) : a = b := by
  obtain ⟨tree, p, hparse, rfl⟩ := ha 0
  obtain ⟨tree', p', hparse', rfl⟩ := hb 0
  cases hparse.symm.trans hparse'
  rfl

namespace Editor

variable {e e' : Editor} {u : Update} {held : List Snapshot} {action : Action}
  {start stop inserted offset : Nat} {text : List Char}

/-! ## There and back -/

/-- An offset that a replacement and its undoing bring back. It does not lie within the range, and
when the range is only deleted it does not stand at its end, which then falls on its start. -/
def Survives (start stop inserted offset : Nat) : Prop :=
  (offset ≤ start ∨ stop ≤ offset) ∧ (inserted = 0 → start < stop → offset ≠ stop)

instance (start stop inserted offset : Nat) : Decidable (Survives start stop inserted offset) :=
  inferInstanceAs (Decidable (_ ∧ _))

/-- Moved there and back, an offset is where it was exactly if it survives. -/
theorem moved_moved_iff (hrange : start ≤ stop) :
    moved start (start + inserted) (stop - start) (moved start stop inserted offset) = offset ↔
      Survives start stop inserted offset := by
  unfold Survives
  rcases front_or_behind_or_between start stop offset with h | ⟨hstart, hstop⟩ | ⟨hstart, hstop⟩
  · rw [moved_of_le h, moved_of_le h]
    omega
  · rw [moved_of_stop_le hstart hstop]
    by_cases hedge : offset - (stop - start) + inserted ≤ start
    · -- Only the end of a deleted range comes so far to the front.
      rw [moved_of_le hedge]
      omega
    · rw [moved_of_stop_le (by omega) (by omega)]
      omega
  · rw [moved_of_between hstart hstop]
    by_cases hnone : inserted = 0
    · rw [moved_of_le (by omega)]
      omega
    · rw [moved_of_stop_le (by omega) (by omega)]
      omega

/-- Moved there and back, a selection is what it was exactly if all its offsets survive. -/
theorem map_moved_moved_iff (hrange : start ≤ stop) {s : Selection} :
    (s.map (moved start stop inserted)).map (moved start (start + inserted) (stop - start)) = s ↔
      ∀ r ∈ s.ranges,
        Survives start stop inserted r.anchor ∧ Survives start stop inserted r.head := by
  rw [Selection.map_map, Selection.map_eq_self_iff]
  refine forall₂_congr fun r _ => ?_
  rw [Range.map_eq_self_iff]
  exact and_congr (moved_moved_iff hrange) (moved_moved_iff hrange)

/-! ## The tree of the text -/

/-- The parser of an editor keeps the tree that the text alone gives, whatever is done to the
editor. -/
theorem Opened.tracks (h : e.Opened held) (hg : ∀ p ∈ e.parser, ∀ g ∈ p.grammar, g.Follows) :
    ∀ p ∈ e.parser, ∃ tree, p.Tracks e.document.text tree := by
  induction h with
  | @parsed e p grammar maker hparse hp =>
    have hgrammar : p.grammar = grammar := Parser.grammar_of_parse hparse
    intro q hq
    cases hp.symm.trans hq
    exact ⟨e.tree, (Parser.tracks_of_fresh (hgrammar ▸ hg p hp) hparse).1⟩
  | built hnone =>
    intro p hp
    cases hnone.symm.trans hp
  | @act e e' held action u _ _ hact ih =>
    cases action with
    | replace start stop text =>
      obtain ⟨document, tree, parser, selection, -, hparsed, -, rfl, -⟩ := replace_eq_ok.1 hact
      intro p' hp'
      rcases hparsed with ⟨-, rfl, -⟩ | ⟨p, q, hp, hparse, rfl⟩
      · cases hp'
      · cases hp'
        -- The grammar is the old one, so what is known of it was known before.
        have hold : ∀ p ∈ e.parser, ∀ g ∈ p.grammar, g.Follows := by
          intro p₀ hp₀
          cases hp.symm.trans hp₀
          exact Parser.grammar_of_parse hparse ▸ hg p' rfl
        obtain ⟨last, htracks⟩ := ih hold p hp
        exact ⟨tree, (htracks.parse hparse).1⟩
    | _ =>
      cases hact
      exact ih hg
  | dress surface decoration _ ih => exact ih hg

/-- The tree is that of the text alone, if the editor has a parser. -/
def OwnTree (e : Editor) : Prop :=
  ∀ p ∈ e.parser, Parser.Alone p.grammar e.document.text e.tree.root

/-- After a replacement the tree is that of the text alone. -/
theorem ownTree_of_replace (htracks : ∀ p ∈ e.parser, ∃ tree, p.Tracks e.document.text tree)
    (h : e.replace start stop text = .ok (u, e')) : e'.OwnTree := by
  obtain ⟨document, tree, parser, selection, -, hparsed, -, rfl, -⟩ := replace_eq_ok.1 h
  intro p' hp'
  rcases hparsed with ⟨-, rfl, -⟩ | ⟨p, q, hp, hparse, rfl⟩
  · cases hp'
  · cases hp'
    obtain ⟨last, hlast⟩ := htracks p hp
    exact (hlast.parse hparse).1.alone

/-- When a document is opened, the tree is that of the text alone. -/
theorem ownTree_of_ofGrammar {grammar : Option Grammar} {document : Document} {maker : Nat}
    (hg : ∀ g ∈ grammar, g.Follows) (h : ofGrammar grammar document maker = .ok e) : e.OwnTree := by
  obtain ⟨⟨tree, p⟩, hparse, hdone⟩ := bind_eq_ok.1 h
  cases hdone
  intro q hq
  cases hq
  exact (Parser.tracks_of_fresh hg hparse).1.alone

/-- Nothing but putting in another tree keeps the tree from being that of the text alone. -/
theorem OwnTree.act (h : e.OwnTree) (he : e.Opened held)
    (hg : ∀ p ∈ e.parser, ∀ g ∈ p.grammar, g.Follows) (haction : ∀ tree, action ≠ .setTree tree)
    (hact : e.act action = .ok (u, e')) : e'.OwnTree := by
  cases action with
  | setTree tree => exact absurd rfl (haction tree)
  | replace start stop text => exact ownTree_of_replace (he.tracks hg) hact
  | _ =>
    cases hact
    exact h

/-- A replacement keeps the grammar of the parser, and it gives no parser to an editor without
one. -/
theorem grammar_of_replace (h : e.replace start stop text = .ok (u, e')) :
    e'.parser.map (·.grammar) = e.parser.map (·.grammar) := by
  obtain ⟨document, tree, parser, selection, -, hparsed, -, rfl, -⟩ := replace_eq_ok.1 h
  rcases hparsed with ⟨hnone, rfl, -⟩ | ⟨p, q, hp, hparse, rfl⟩
  · rw [hnone]
  · rw [hp, Option.map_some, Option.map_some, Parser.grammar_of_parse hparse]

/-- Between two editors with the same text and grammar, the second of which has the tree of its text
alone, the root is the same exactly if the first one has the tree of its text alone as well. -/
theorem root_eq_iff_ownTree {p : Parser} (hp : e.parser = some p)
    (hgrammar : e'.parser.map (·.grammar) = e.parser.map (·.grammar))
    (htext : e'.document.text = e.document.text) (h : e'.OwnTree) :
    Parser.Alone p.grammar e.document.text e'.tree.root ∧
      (e'.tree.root = e.tree.root ↔ e.OwnTree) := by
  rw [hp, Option.map_some] at hgrammar
  obtain ⟨p', hp', hsame⟩ := Option.map_eq_some_iff.1 hgrammar
  have halone : Parser.Alone p.grammar e.document.text e'.tree.root := by
    rw [← htext, ← hsame]
    exact h p' hp'
  refine ⟨halone, fun hroot q hq => ?_, fun hown => halone.unique (hown p hp)⟩
  cases hp.symm.trans hq
  rw [← hroot]
  exact halone

/-! ## Undoing -/

/-- Replace characters of an editor's text, and put what was taken out back in the place of what was
put in. The text is what it was, after two more revisions, and so is the selection exactly if all
its offsets survive. Without a parser the tree is left alone. With one it is that of the text alone,
and so the old one exactly if that was the tree of the text alone as well. -/
theorem replace_back (he : e.Opened held)
    (hg : ∀ p ∈ e.parser, ∀ g ∈ p.grammar, g.Nests ∧ g.Follows)
    (hrange : start ≤ stop ∧ stop ≤ e.document.length)
    (hselection : e.selection.Within e.document.length) (hfit : e.document.length < Count.bound)
    (hnew : e.document.length - (stop - start) + text.length < Count.bound) :
    ∃ u e' v e'', e.replace start stop text = .ok (u, e') ∧
      e'.replace start (start + text.length) ((e.document.text.take stop).drop start) =
        .ok (v, e'') ∧
      e''.document = { e.document with revision := e.document.revision + 2 } ∧
      (e''.selection = e.selection ↔ ∀ r ∈ e.selection.ranges,
        Survives start stop text.length r.anchor ∧ Survives start stop text.length r.head) ∧
      (e.parser = none → e''.tree = e.tree) ∧
      ∀ p ∈ e.parser, Parser.Alone p.grammar e.document.text e''.tree.root ∧
        (e''.tree.root = e.tree.root ↔ e.OwnTree) := by
  have hnests : ∀ p ∈ e.parser, ∀ g ∈ p.grammar, g.Nests := fun p hp g hpg => (hg p hp g hpg).1
  obtain ⟨u, e', hreplace, hdocument, hmoved, -, -⟩ :=
    exists_replace_moved hnests hrange hselection hnew
  have hgrammar := grammar_of_replace hreplace
  have hg' : ∀ p ∈ e'.parser, ∀ g ∈ p.grammar, g.Nests ∧ g.Follows := by
    intro p' hp'
    rw [hp', Option.map_some] at hgrammar
    obtain ⟨p, hp, hsame⟩ := Option.map_eq_some_iff.1 hgrammar.symm
    rw [← hsame]
    exact hg p hp
  -- What was taken out is as long as the range, and what was put in ends within the new text.
  have hlength : e'.document.length = e.document.length - (stop - start) + text.length :=
    Document.length_replace (Document.replace_eq_ok.2 ⟨hrange, hdocument⟩)
  have hremoved : ((e.document.text.take stop).drop start).length = stop - start := by
    rw [List.length_drop, List.length_take_of_le hrange.2]
  have hrange' : start ≤ start + text.length ∧ start + text.length ≤ e'.document.length := by
    omega
  have hselection' : e'.selection.Within e'.document.length := by
    rw [hmoved, hlength]
    exact hselection.map fun _ => moved_le hrange
  have hfit' : e'.document.length - (start + text.length - start) +
      ((e.document.text.take stop).drop start).length < Count.bound := by omega
  obtain ⟨v, e'', hback, hdocument', hmoved', -, -⟩ := exists_replace_moved
    (fun p hp g hpg => (hg' p hp g hpg).1) hrange' hselection' hfit'
  have hrestored : e''.document = { e.document with revision := e.document.revision + 2 } := by
    rw [hdocument', hdocument]
    simp only [Document.splice_splice hrange.1 hrange.2]
  refine ⟨u, e', v, e'', hreplace, hback, hrestored, ?_, fun hnone => ?_, fun p hp => ?_⟩
  · rw [hmoved', hmoved, hremoved]
    exact map_moved_moved_iff hrange.1
  · obtain ⟨hnone', htree⟩ := tree_of_replace hnone hreplace
    rw [(tree_of_replace hnone' hback).2, htree]
  · have he' : e'.Opened (e'.tree :: held) :=
      he.act (show e.Possible held (.replace start stop text) from trivial) hreplace
    have hown : e''.OwnTree :=
      ownTree_of_replace (he'.tracks fun q hq g hqg => (hg' q hq g hqg).2) hback
    have htext : e''.document.text = e.document.text := by rw [hrestored]
    exact root_eq_iff_ownTree hp ((grammar_of_replace hback).trans hgrammar) htext hown

/-- The number at the beginning of a list and its comma are replaced by a longer number and put
back. The ends of the selected ranges survive, and the editor is what it was when it was opened. -/
theorem replace_back_in_list :
    ∃ e u e' v e'', ofText ['[', '1', ',', '2', ']'] .json 0 = .ok e ∧
      replace { e with selection := ⟨⟨4, 1⟩, [⟨0, 5⟩]⟩ } 1 3 ['3', '4', '5'] = .ok (u, e') ∧
      e'.replace 1 4 ['1', ','] = .ok (v, e'') ∧
      e''.document = { e.document with revision := 2 } ∧
      e''.selection = ⟨⟨4, 1⟩, [⟨0, 5⟩]⟩ ∧ e''.tree.root = e.tree.root := by
  have hg : ∀ g ∈ Language.json.grammar?, g.Nests ∧ g.Follows := by
    intro g hg
    cases hg
    exact ⟨Grammar.json_nests, Grammar.json_follows⟩
  obtain ⟨e, hopen, htracks⟩ :=
    ofGrammar_isOk hg (.ofText ['[', '1', ',', '2', ']'] .json) 0
  obtain ⟨p, hp, hgrammar, -⟩ := htracks.parser
  have hdocument : e.document = .ofText ['[', '1', ',', '2', ']'] .json := by
    obtain ⟨⟨tree, q⟩, -, hdone⟩ := bind_eq_ok.1 hopen
    cases hdone
    rfl
  have hlength : e.document.length = 5 := by rw [hdocument]; rfl
  have hg' : ∀ q ∈ e.parser, ∀ g ∈ q.grammar, g.Nests ∧ g.Follows := by
    intro q hq
    cases hp.symm.trans hq
    rw [hgrammar]
    exact hg
  have hact : e.act (.select ⟨⟨4, 1⟩, [⟨0, 5⟩]⟩) = .ok (e.select ⟨⟨4, 1⟩, [⟨0, 5⟩]⟩) := rfl
  have hopened := (Opened.ofDocument hopen).act
    (show e.Possible [e.tree] (.select ⟨⟨4, 1⟩, [⟨0, 5⟩]⟩) from trivial) hact
  have hown : OwnTree (e.select ⟨⟨4, 1⟩, [⟨0, 5⟩]⟩).2 := by
    refine (ownTree_of_ofGrammar (fun g hpg => (hg g hpg).2) hopen).act (Opened.ofDocument hopen)
      (fun q hq g hqg => (hg' q hq g hqg).2) ?_ hact
    exact nofun
  have hwithin : Selection.Within 5 ⟨⟨4, 1⟩, [⟨0, 5⟩]⟩ := by decide
  have hsurvive : ∀ r ∈ Selection.ranges ⟨⟨4, 1⟩, [⟨0, 5⟩]⟩,
      Survives 1 3 3 r.anchor ∧ Survives 1 3 3 r.head := by decide
  obtain ⟨u, e', v, e'', hreplace, hback, hrestored, hselection, -, htree⟩ :=
    @replace_back (e.select ⟨⟨4, 1⟩, [⟨0, 5⟩]⟩).2 _ 1 3 ['3', '4', '5'] hopened hg'
      (show 1 ≤ 3 ∧ 3 ≤ e.document.length by rw [hlength]; decide)
      (show Selection.Within e.document.length _ by rw [hlength]; exact hwithin)
      (show e.document.length < Count.bound by rw [hlength]; decide)
      (show e.document.length - (3 - 1) + 3 < Count.bound by rw [hlength]; decide)
  have hremoved : (e.document.text.take 3).drop 1 = ['1', ','] := by rw [hdocument]; rfl
  have hrevision : e.document.revision = 0 := by rw [hdocument]; rfl
  refine ⟨e, u, e', v, e'', hopen, hreplace, hremoved ▸ hback, ?_, hselection.2 hsurvive,
    (htree p hp).2.2 hown⟩
  rw [hrestored]
  exact congrArg (fun n => { e.document with revision := n + 2 }) hrevision

/-- A lone node is put in the place of the tree of a list. A number of the list is replaced by
another one and put back, and after that the tree is the one of the list. -/
theorem tree_after_swap :
    ∃ e u e' v e'' held, Opened e held ∧
      (∃ p, e.parser = some p ∧ p.grammar = some Grammar.json) ∧
      Grammar.json.Nests ∧ Grammar.json.Follows ∧
      e.document.text = ['[', '1', ']'] ∧ e.selection = .caret 0 ∧
      e.replace 1 2 ['2'] = .ok (u, e') ∧ e'.replace 1 2 ['1'] = .ok (v, e'') ∧
      e''.document.text = e.document.text ∧ e''.tree.root ≠ e.tree.root := by
  let lone : Snapshot := ⟨⟨1, 0⟩, .leaf "Text" ⟨0, 3, by decide⟩ true⟩
  obtain ⟨⟨e, ⟨u, e'⟩, v, e''⟩, hruns, hfacts⟩ := ok_of_toOption (show (Except.toOption (do
      let e ← ofText ['[', '1', ']'] .json 0
      let there ← (e.setTree lone).2.replace 1 2 ['2']
      let back ← there.2.replace 1 2 ['1']
      return (e, there, back))).map (fun r => decide (
        r.2.2.2.document.text = ['[', '1', ']'] ∧ r.2.2.2.tree.root ≠ lone.root)) =
          some true by decide +kernel)
  obtain ⟨_, hopen, hruns⟩ := bind_eq_ok.1 hruns
  obtain ⟨_, hreplace, hruns⟩ := bind_eq_ok.1 hruns
  obtain ⟨_, hback, hdone⟩ := bind_eq_ok.1 hruns
  cases hdone
  obtain ⟨htext, htree⟩ := of_decide_eq_true hfacts
  obtain ⟨p, hp, hmaker, hgrammar, hid, hdocument, hselection⟩ : ∃ p, e.parser = some p ∧
      p.maker = 0 ∧ p.grammar = some Grammar.json ∧ e.tree.id = ⟨0, 0⟩ ∧
      e.document = .ofText ['[', '1', ']'] .json ∧ e.selection = .caret 0 := by
    obtain ⟨⟨tree, p⟩, hparse, hdone⟩ := bind_eq_ok.1 hopen
    cases hdone
    rcases Parser.parse_eq_ok hparse with ⟨_, hlast, -⟩ | ⟨_, hid, rfl⟩
    · cases hlast
    · exact ⟨_, rfl, rfl, rfl, hid, rfl, rfl⟩
  -- The parser makes its snapshots under another number than that of the lone node.
  have hgenuine : e.Genuine [e.tree] lone := by
    constructor
    · intro t ht hsame
      rw [List.mem_singleton.1 ht, hid] at hsame
      cases hsame
    · intro q hq hother
      cases hp.symm.trans hq
      rw [hmaker] at hother
      cases hother
  have hact : e.act (.setTree lone) = .ok (e.setTree lone) := rfl
  have hopened := (Opened.ofDocument hopen).act
    (show e.Possible [e.tree] (.setTree lone) from hgenuine) hact
  have hold : (e.setTree lone).2.document.text = ['[', '1', ']'] :=
    congrArg Document.text hdocument
  exact ⟨(e.setTree lone).2, u, e', v, e'', _, hopened, ⟨p, hp, hgrammar⟩, Grammar.json_nests,
    Grammar.json_follows, hold, hselection, hreplace, hback, htext.trans hold.symm, htree⟩

end Editor

end TreePanel
