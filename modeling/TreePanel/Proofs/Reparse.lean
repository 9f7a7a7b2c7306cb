import Mathlib.Data.List.Chain
import TreePanel.Proofs.Grammar.Edit
import TreePanel.Proofs.Session.Safety

/-!
# Parsing again is parsing afresh

A parser keeps its last text with the tree and the snapshot, and makes the next tree from the last
one if it can. None of this shows in what it gives. As long as the grammar follows edits, the tree
that is kept is the one that the text alone would give (`Parser.Tracks.last`), and parsing another
text keeps it so (`Parser.Tracks.parse`). Identities move on exactly when the text differs from the
last one, so they never come back (`Parser.Next`).

Over many texts this makes a chain (`Parser.Tracks.parseAll`), from which `Parser.reparse_eq_fresh`
reads off what the snapshots are like, and it makes an invariant of an editor whose text is replaced
again and again (`Editor.Edited.tracks`).
-/

namespace TreePanel

namespace Parser

/-- A parser with a grammar that has parsed nothing yet. -/
def fresh (grammar : Option Grammar) (maker : Nat) : Parser := ⟨grammar, maker, 0, none⟩

/-- A parser for a language has the grammar of the language. -/
theorem new_eq_fresh (language : Language) (maker : Nat) :
    new language maker = fresh language.grammar? maker := rfl

/-- The tree that a grammar, if there is one, makes of a text alone. -/
def treeAlone (grammar : Option Grammar) (text : List Char) : Option RangeTree :=
  grammar.bind fun g => g.parse text

/-- The root over that tree. -/
def rootAlone (grammar : Option Grammar) (text : List Char) : Except Fault Node :=
  rootOf text (treeAlone grammar text)

/-- A parser that has parsed nothing yet makes this root of the text, whatever its number. -/
def Alone (grammar : Option Grammar) (text : List Char) (root : Node) : Prop :=
  ∀ maker, ∃ tree p, (fresh grammar maker).parse text = .ok (tree, p) ∧ tree.root = root

variable {grammar : Option Grammar} {p p' : Parser} {old text : List Char} {tree : Snapshot}

/-- With the tree of the last text at hand, a grammar makes the same tree of a text as without. -/
theorem treeOf_eq_parse {g : Grammar} (hg : g.Faithful) (old text : List Char) (tree : Snapshot) :
    treeOf g (some ⟨old, g.parse old, tree⟩) text = g.parse text := by
  unfold treeOf
  cases hold : g.parse old with
  | none => rfl
  | some range =>
    cases hedit : Edit.between? old text with
    | none => simp [hedit]
    | some edit =>
      -- Whether or not the old tree is of use, the grammar ends up with the tree of the text.
      have hsame : g.reparse range edit text = g.parse text := hg old text range edit hold hedit
      simp only [hedit, hsame]
      cases g.parse text with
      | none => rfl
      | some _ => rfl

/-- A grammar that nests makes a root of every text. -/
theorem rootAlone_isOk (hg : ∀ g ∈ grammar, g.Nests) (text : List Char) :
    ∃ root, rootAlone grammar text = .ok root := by
  obtain ⟨root, hroot, -⟩ : ∃ n, rootOf text (treeAlone grammar text) = .ok n ∧
      n.FitsIn text.length := by
    refine rootOf_isOk fun tree htree => ?_
    obtain ⟨g, hgrammar, hparse⟩ := Option.bind_eq_some_iff.1 htree
    exact (hg g hgrammar).parse hparse
  exact ⟨root, hroot⟩

/-! ## One text after another -/

/-- What comes after a text with its snapshot: the same snapshot for the same text, and the next one
of the maker for any other text. -/
def Next (last given : List Char × Snapshot) : Prop :=
  given.2.id = if given.1 = last.1 then last.2.id else ⟨last.2.id.maker, last.2.id.serial + 1⟩

/-- The parser has the tree of a text, and it is the tree of the text alone. -/
structure Tracks (p : Parser) (text : List Char) (tree : Snapshot) : Prop where
  /-- The grammar, if there is one, follows edits. -/
  follows : ∀ g ∈ p.grammar, g.Follows
  /-- What is kept is the tree of the text alone. -/
  last : p.last = some ⟨text, treeAlone p.grammar text, tree⟩
  /-- The root is made of that tree. -/
  root : rootAlone p.grammar text = .ok tree.root
  /-- The snapshot is the last one that the parser made. -/
  id : tree.id.maker = p.maker ∧ tree.id.serial + 1 = p.made

/-- After a text was parsed whose tree is that of the text alone, the parser tracks it. -/
theorem tracks_of_parseNew (hfollows : ∀ g ∈ p.grammar, g.Follows)
    (halone : (p.grammar.bind fun g => treeOf g p.last text) = treeAlone p.grammar text)
    (hnew : p.parseNew text = .ok (tree, p')) :
    p'.Tracks text tree ∧ p'.grammar = p.grammar ∧ tree.id = ⟨p.maker, p.made⟩ := by
  obtain ⟨range, root, hrange, hroot, rfl, rfl⟩ := parseNew_eq_ok.1 hnew
  rw [halone] at hrange
  subst hrange
  exact ⟨⟨hfollows, rfl, hroot, rfl, rfl⟩, rfl, rfl⟩

/-- A parser that has parsed nothing yet makes the root of the text alone. -/
theorem fresh_parse_isOk {root : Node} (hroot : rootAlone grammar text = .ok root) (maker : Nat) :
    ∃ p, (fresh grammar maker).parse text = .ok (⟨⟨maker, 0⟩, root⟩, p) :=
  ⟨_, parseNew_eq_ok.2 ⟨_, root, rfl, hroot, rfl, rfl⟩⟩

/-- A parser that has parsed its first text tracks it. -/
theorem tracks_of_fresh (hfollows : ∀ g ∈ grammar, g.Follows) {maker : Nat}
    (hparse : (fresh grammar maker).parse text = .ok (tree, p)) :
    p.Tracks text tree ∧ p.grammar = grammar := by
  have halone : (grammar.bind fun g => treeOf g none text) = treeAlone grammar text := rfl
  obtain ⟨htracks, hgrammar, -⟩ := tracks_of_parseNew hfollows halone hparse
  exact ⟨htracks, hgrammar⟩

namespace Tracks

variable {tree' : Snapshot}

/-- The root is what the text alone gives. -/
theorem alone (h : p.Tracks text tree) : Alone p.grammar text tree.root := by
  intro maker
  obtain ⟨p', hparse⟩ := fresh_parse_isOk h.root maker
  exact ⟨_, p', hparse, rfl⟩

/-- The last text is not parsed again. -/
theorem parse_last (h : p.Tracks text tree) : p.parse text = .ok (tree, p) := by
  unfold Parser.parse
  rw [h.last]
  exact if_pos rfl

/-- Any other text is parsed anew, and its tree is that of the text alone. -/
theorem parse_other (h : p.Tracks old tree) (hne : text ≠ old) :
    p.parse text = p.parseNew text ∧
      (p.grammar.bind fun g => treeOf g p.last text) = treeAlone p.grammar text := by
  constructor
  · unfold Parser.parse
    rw [h.last]
    exact if_neg fun hold => hne hold.symm
  · rw [h.last]
    unfold treeAlone
    cases hgrammar : p.grammar with
    | none => rfl
    | some g => exact treeOf_eq_parse (h.follows g hgrammar).faithful old text tree

/-- A parser that tracks its text can parse any other of which a root can be made. -/
theorem parse_isOk (h : p.Tracks old tree) {root : Node}
    (hroot : rootAlone p.grammar text = .ok root) : ∃ tree' p', p.parse text = .ok (tree', p') := by
  by_cases htext : text = old
  · subst htext
    exact ⟨tree, p, h.parse_last⟩
  · obtain ⟨hnew, halone⟩ := h.parse_other htext
    exact ⟨_, _, hnew.trans (parseNew_eq_ok.2 ⟨_, root, halone.symm, hroot, rfl, rfl⟩)⟩

/-- A parser that tracks its text tracks the next one as well, and has given what comes next. -/
theorem parse (h : p.Tracks old tree) (hparse : p.parse text = .ok (tree', p')) :
    p'.Tracks text tree' ∧ p'.grammar = p.grammar ∧ Next (old, tree) (text, tree') := by
  by_cases htext : text = old
  · subst htext
    cases h.parse_last.symm.trans hparse
    exact ⟨h, rfl, (if_pos rfl).symm⟩
  · obtain ⟨hnew, halone⟩ := h.parse_other htext
    obtain ⟨htracks, hgrammar, hid⟩ := tracks_of_parseNew h.follows halone (hnew ▸ hparse)
    have hserial : tree'.id = ⟨tree.id.maker, tree.id.serial + 1⟩ := by rw [hid, h.id.1, h.id.2]
    refine ⟨htracks, hgrammar, ?_⟩
    unfold Next
    rw [if_neg htext]
    exact hserial

/-- A parser that tracks its text can parse any texts in turn of which roots can be made. Each is
given what comes after the one before it, and the root that it alone gives. -/
theorem parseAll (h : p.Tracks old tree)
    (hroots : ∀ text, ∃ root, rootAlone p.grammar text = .ok root) (texts : List (List Char)) :
    ∃ snapshots p', p.parseAll texts = .ok (snapshots, p') ∧ snapshots.length = texts.length ∧
      ((old, tree) :: texts.zip snapshots).IsChain Next ∧
      ∀ given ∈ texts.zip snapshots, Alone p.grammar given.1 given.2.root := by
  induction texts generalizing p old tree with
  | nil => exact ⟨[], p, rfl, rfl, .singleton _, nofun⟩
  | cons text rest ih =>
    obtain ⟨root, hroot⟩ := hroots text
    obtain ⟨tree', p', hparse⟩ := h.parse_isOk hroot
    obtain ⟨htracks, hgrammar, hnext⟩ := h.parse hparse
    rw [← hgrammar] at hroots ⊢
    obtain ⟨snapshots, p'', hall, hlength, hchain, halone⟩ := ih htracks hroots
    exact ⟨tree' :: snapshots, p'', bind_eq_ok.2 ⟨_, hparse, bind_eq_ok.2 ⟨_, hall, rfl⟩⟩,
      congrArg (· + 1) hlength, .cons_cons hnext hchain,
      List.forall_mem_cons.2 ⟨htracks.alone, halone⟩⟩

/-- However many texts a parser was given, it tracks one of them. -/
theorem of_parseAll (h : p.Tracks old tree) {texts : List (List Char)} {snapshots : List Snapshot}
    (hall : p.parseAll texts = .ok (snapshots, p')) :
    ∃ last tree', p'.Tracks last tree' ∧ p'.grammar = p.grammar := by
  induction texts generalizing p old tree snapshots with
  | nil =>
    cases hall
    exact ⟨old, tree, h, rfl⟩
  | cons text rest ih =>
    obtain ⟨⟨tree', q⟩, hparse, hall⟩ := bind_eq_ok.1 hall
    obtain ⟨⟨others, q'⟩, hall, hdone⟩ := bind_eq_ok.1 hall
    cases hdone
    obtain ⟨htracks, hgrammar, -⟩ := h.parse hparse
    obtain ⟨last, tree'', htracks', hgrammar'⟩ := ih htracks hall
    exact ⟨last, tree'', htracks', hgrammar'.trans hgrammar⟩

end Tracks

/-- Whatever texts were parsed before, a text has the root that it alone gives. -/
theorem parse_after {root : Node} (hfollows : ∀ g ∈ grammar, g.Follows) {maker : Nat}
    {earlier : List (List Char)} {snapshots : List Snapshot}
    (hearlier : (fresh grammar maker).parseAll earlier = .ok (snapshots, p))
    (hroot : rootAlone grammar text = .ok root) :
    ∃ tree p', p.parse text = .ok (tree, p') ∧ tree.root = root := by
  cases earlier with
  | nil =>
    cases hearlier
    obtain ⟨p', hparse⟩ := fresh_parse_isOk hroot maker
    exact ⟨_, p', hparse, rfl⟩
  | cons first rest =>
    obtain ⟨⟨tree, q⟩, hfirst, h⟩ := bind_eq_ok.1 hearlier
    obtain ⟨⟨others, q'⟩, hrest, hdone⟩ := bind_eq_ok.1 h
    cases hdone
    obtain ⟨htracks, hgrammar⟩ := tracks_of_fresh hfollows hfirst
    obtain ⟨last, kept, htracks, hkept⟩ := htracks.of_parseAll hrest
    rw [← hkept.trans hgrammar] at hroot
    obtain ⟨tree', p', hparse⟩ := htracks.parse_isOk hroot
    obtain ⟨htracks', hsame, -⟩ := htracks.parse hparse
    have hroot' := htracks'.root
    rw [hsame, hroot] at hroot'
    exact ⟨tree', p', hparse, (Except.ok.inj hroot').symm⟩

/-- Serial numbers never go back along a chain. -/
theorem serial_le_of_isChain {given : List (List Char × Snapshot)} (h : given.IsChain Next)
    {m n : Nat} (hle : m ≤ n) {earlier last : List Char × Snapshot}
    (hearlier : given[m]? = some earlier) (hlast : given[n]? = some last) :
    earlier.2.id.serial ≤ last.2.id.serial := by
  have hpairs : given.Pairwise fun a b => a.2.id.serial ≤ b.2.id.serial := by
    refine List.isChain_iff_pairwise.1 (h.imp fun a b hnext => ?_)
    unfold Next at hnext
    rw [hnext]
    split
    · exact Nat.le_refl _
    · exact Nat.le_succ _
  obtain ⟨hm, rfl⟩ := List.getElem?_eq_some_iff.1 hearlier
  obtain ⟨hn, rfl⟩ := List.getElem?_eq_some_iff.1 hlast
  rcases Nat.lt_or_eq_of_le hle with hlt | rfl
  · exact List.pairwise_iff_getElem.1 hpairs m n hm hn hlt
  · exact Nat.le_refl _

/-! ## Sequences of texts -/

/-- What snapshots are like that were given for texts in turn. -/
structure Given (grammar : Option Grammar) (texts : List (List Char)) (snapshots : List Snapshot) :
    Prop where
  /-- Each text has a snapshot. -/
  length : snapshots.length = texts.length
  /-- Its root is what the text alone gives. -/
  alone : ∀ (n : Nat) text (tree : Snapshot), texts[n]? = some text → snapshots[n]? = some tree →
    Alone grammar text tree.root
  /-- It is the one before exactly if the text is the one before. -/
  same : ∀ (n : Nat) old text last (tree : Snapshot), texts[n]? = some old →
    texts[n + 1]? = some text → snapshots[n]? = some last → snapshots[n + 1]? = some tree →
    (tree.same last = true ↔ text = old)
  /-- It is none of all those before if the text is another one. -/
  new : ∀ (n : Nat) old text (tree : Snapshot), texts[n]? = some old → texts[n + 1]? = some text →
    text ≠ old → snapshots[n + 1]? = some tree → ∀ (m : Nat) earlier, m ≤ n →
    snapshots[m]? = some earlier → tree.same earlier = false

/-- What comes next is the same snapshot exactly if the text is the same. -/
theorem Next.same_iff {last given : List Char × Snapshot} (h : Next last given) :
    given.2.same last.2 = true ↔ given.1 = last.1 := by
  unfold Snapshot.same
  rw [beq_iff_eq, h]
  split
  · next htext => exact ⟨fun _ => htext, fun _ => rfl⟩
  · next htext =>
    refine ⟨fun hid => ?_, fun h => absurd h htext⟩
    have hserial := congrArg Snapshot.Id.serial hid
    exact absurd hserial (Nat.succ_ne_self _)

/-- What comes next for another text has the next serial number. -/
theorem Next.serial {last given : List Char × Snapshot} (h : Next last given)
    (hne : given.1 ≠ last.1) : given.2.id.serial = last.2.id.serial + 1 := by
  rw [h, if_neg hne]

/-- A chain of texts and snapshots, each with the root that the text alone gives. -/
theorem given_of_isChain {texts : List (List Char)} {snapshots : List Snapshot}
    (hlength : snapshots.length = texts.length) (hchain : (texts.zip snapshots).IsChain Next)
    (halone : ∀ given ∈ texts.zip snapshots, Alone grammar given.1 given.2.root) :
    Given grammar texts snapshots := by
  have hpair : ∀ {n : Nat} {text : List Char} {tree : Snapshot}, texts[n]? = some text →
      snapshots[n]? = some tree → (texts.zip snapshots)[n]? = some (text, tree) :=
    fun htext htree => List.getElem?_zip_eq_some.2 ⟨htext, htree⟩
  have hnext : ∀ {n : Nat} {last given : List Char × Snapshot},
      (texts.zip snapshots)[n]? = some last → (texts.zip snapshots)[n + 1]? = some given →
      Next last given := by
    intro n last given hlast hgiven
    obtain ⟨hn, rfl⟩ := List.getElem?_eq_some_iff.1 hgiven
    obtain ⟨_, rfl⟩ := List.getElem?_eq_some_iff.1 hlast
    exact List.isChain_iff_getElem.1 hchain n hn
  refine ⟨hlength, fun n text tree htext htree => ?_, ?_, ?_⟩
  · exact halone (text, tree) (List.mem_of_getElem? (hpair htext htree))
  · intro n old text last tree hold htext hlast htree
    exact (hnext (hpair hold hlast) (hpair htext htree)).same_iff
  · intro n old text tree hold htext hne htree m earlier hm hearlier
    -- The serial number is beyond that of the snapshot before it, which no earlier one is.
    have hn : n < texts.length := (List.getElem?_eq_some_iff.1 hold).1
    have hlast : snapshots[n]? = some snapshots[n] := List.getElem?_eq_getElem (by omega)
    have hfirst : texts[m]? = some texts[m] := List.getElem?_eq_getElem (by omega)
    have hserial := (hnext (hpair hold hlast) (hpair htext htree)).serial hne
    have hle := serial_le_of_isChain hchain hm (hpair hfirst hearlier) (hpair hold hlast)
    unfold Snapshot.same
    rw [beq_eq_false_iff_ne]
    intro hid
    rw [hid] at hserial
    exact absurd hle (by rw [hserial]; exact Nat.not_succ_le_self _)

end Parser

/-! ## Editors whose text is replaced -/

namespace Editor

/-- An editor for a document that is parsed by a grammar, if there is one. -/
def ofGrammar (grammar : Option Grammar) (document : Document) (maker : Nat) :
    Except Fault Editor := do
  let (tree, parser) ← (Parser.fresh grammar maker).parse document.text
  return ⟨document, some parser, tree, default, some defaultSurface, none, []⟩

/-- An editor for a document parses it by the grammar of its language. -/
theorem ofDocument_eq_ofGrammar (document : Document) (maker : Nat) :
    ofDocument document maker = ofGrammar document.language.grammar? document maker := rfl

/-- An editor that was opened for a document, and whose text was replaced any number of times. -/
inductive Edited (grammar : Option Grammar) (maker : Nat) : Editor → Prop where
  /-- A document was opened. -/
  | opened {document : Document} {e : Editor} :
      ofGrammar grammar document maker = .ok e → Edited grammar maker e
  /-- Characters of the text were replaced. -/
  | replaced {e e' : Editor} {u : Update} {start stop : Nat} {text : List Char} :
      Edited grammar maker e → e.replace start stop text = .ok (u, e') → Edited grammar maker e'

variable {grammar : Option Grammar} {maker : Nat} {e e' : Editor} {u : Update}

/-- The parser of the editor tracks its text, and the selection lies in the text. -/
structure Tracks (grammar : Option Grammar) (e : Editor) : Prop where
  /-- The parser has the tree, and it is that of the text alone. -/
  parser : ∃ p, e.parser = some p ∧ p.grammar = grammar ∧ p.Tracks e.document.text e.tree
  /-- The selection lies in the text. -/
  selected : e.selection.Within e.document.length

/-- A document can be opened. -/
theorem ofGrammar_isOk (hg : ∀ g ∈ grammar, g.Nests ∧ g.Follows) (document : Document)
    (maker : Nat) : ∃ e, ofGrammar grammar document maker = .ok e ∧ e.Tracks grammar := by
  obtain ⟨root, hroot⟩ := Parser.rootAlone_isOk (fun g hgrammar => (hg g hgrammar).1) document.text
  obtain ⟨p, hparse⟩ := Parser.fresh_parse_isOk hroot maker
  obtain ⟨htracks, hgrammar⟩ :=
    Parser.tracks_of_fresh (fun g hgrammar => (hg g hgrammar).2) hparse
  refine ⟨_, bind_eq_ok.2 ⟨_, hparse, rfl⟩, ⟨p, rfl, hgrammar, htracks⟩, fun r hr => ?_⟩
  -- The selection of an editor that has just been opened is a caret at the beginning.
  rw [List.mem_singleton.1 hr]
  exact ⟨Nat.zero_le _, Nat.zero_le _⟩

namespace Tracks

variable {start stop : Nat} {text : List Char}

/-- Characters of the text can be replaced, if the new text fits the machine. -/
theorem replace_isOk (h : e.Tracks grammar) (hg : ∀ g ∈ grammar, g.Nests)
    (hrange : start ≤ stop ∧ stop ≤ e.document.length)
    (hfit : e.document.length - (stop - start) + text.length < Count.bound) :
    ∃ u e', e.replace start stop text = .ok (u, e') := by
  obtain ⟨p, hp, hgrammar, htracks⟩ := h.parser
  obtain ⟨document, hdocument⟩ : ∃ document, e.document.replace start stop text = .ok document :=
    ⟨_, Document.replace_eq_ok.2 ⟨hrange, rfl⟩⟩
  obtain ⟨root, hroot⟩ := Parser.rootAlone_isOk (hgrammar ▸ hg) document.text
  obtain ⟨tree, p', hparse⟩ := htracks.parse_isOk hroot
  obtain ⟨selection, hselection, -⟩ := h.selected.moved hrange hfit
  exact ⟨_, _, replace_eq_ok.2 ⟨document, tree, some p', selection, hdocument,
    .inr ⟨p, p', hp, hparse, rfl⟩, hselection, rfl, rfl⟩⟩

/-- After a replacement the parser tracks the new text, and the tree is what comes next. -/
theorem replace (h : e.Tracks grammar) (hreplace : e.replace start stop text = .ok (u, e')) :
    e'.Tracks grammar ∧ Parser.Next (e.document.text, e.tree) (e'.document.text, e'.tree) := by
  obtain ⟨document, tree, parser, selection, hdocument, hparsed, hselection, rfl, -⟩ :=
    replace_eq_ok.1 hreplace
  obtain ⟨p, hp, hgrammar, htracks⟩ := h.parser
  rcases hparsed with ⟨hnone, -, -⟩ | ⟨q, q', hq, hparse, rfl⟩
  · rw [hp] at hnone
    cases hnone
  · rw [hp] at hq
    cases hq
    obtain ⟨htracks', hsame, hnext⟩ := htracks.parse hparse
    have hselected := h.selected.of_moved (Document.replace_eq_ok.1 hdocument).1 hselection
    rw [← Document.length_replace hdocument] at hselected
    exact ⟨⟨⟨q', rfl, hsame.trans hgrammar, htracks'⟩, hselected⟩, hnext⟩

end Tracks

/-- However often the text of an editor was replaced, its parser tracks the text. -/
theorem Edited.tracks (hg : ∀ g ∈ grammar, g.Nests ∧ g.Follows) (h : Edited grammar maker e) :
    e.Tracks grammar := by
  induction h with
  | @opened document e hopen =>
    obtain ⟨e', hopen', htracks⟩ := ofGrammar_isOk hg document maker
    cases hopen.symm.trans hopen'
    exact htracks
  | replaced _ hreplace ih => exact (ih.replace hreplace).1

end Editor

namespace Parser

variable {grammar : Option Grammar}

/-- Parse any texts in turn, by a grammar that follows edits or by none. The snapshots change
exactly with the text and never come back, and each has the root that a parser gives which has
parsed nothing before. So the tree of an editor is always that of its text, and a replacement
changes its identity exactly if it changes the text. -/
theorem reparse_eq_fresh (hg : ∀ g ∈ grammar, g.Nests ∧ g.Follows) (maker : Nat) :
    (∀ texts, ∃ snapshots p, (fresh grammar maker).parseAll texts = .ok (snapshots, p) ∧
        Given grammar texts snapshots) ∧
      (∀ document, ∃ e, Editor.ofGrammar grammar document maker = .ok e) ∧
      ∀ e, Editor.Edited grammar maker e → Alone grammar e.document.text e.tree.root ∧
        ∀ (start stop : Nat) (text : List Char),
          (start ≤ stop ∧ stop ≤ e.document.length →
            e.document.length - (stop - start) + text.length < Count.bound →
            ∃ u e', e.replace start stop text = .ok (u, e')) ∧
          ∀ u e', e.replace start stop text = .ok (u, e') →
            (e'.tree.same e.tree = true ↔ e'.document.text = e.document.text) := by
  have hnests : ∀ g ∈ grammar, g.Nests := fun g hgrammar => (hg g hgrammar).1
  refine ⟨fun texts => ?_, fun document => ?_, fun e he => ?_⟩
  · cases texts with
    | nil => exact ⟨[], _, rfl, given_of_isChain rfl .nil nofun⟩
    | cons text rest =>
      -- The first text has none before it, and the others come after it.
      obtain ⟨root, hroot⟩ := rootAlone_isOk hnests text
      obtain ⟨p, hparse⟩ := fresh_parse_isOk hroot maker
      obtain ⟨htracks, hgrammar⟩ := tracks_of_fresh (fun g hgrammar => (hg g hgrammar).2) hparse
      obtain ⟨snapshots, p', hall, hlength, hchain, halone⟩ :=
        htracks.parseAll (hgrammar ▸ rootAlone_isOk hnests) rest
      have hfirst := htracks.alone
      rw [hgrammar] at halone hfirst
      exact ⟨_, _, bind_eq_ok.2 ⟨_, hparse, bind_eq_ok.2 ⟨_, hall, rfl⟩⟩,
        given_of_isChain (congrArg (· + 1) hlength) hchain
          (List.forall_mem_cons.2 ⟨hfirst, halone⟩)⟩
  · obtain ⟨e, hopen, -⟩ := Editor.ofGrammar_isOk hg document maker
    exact ⟨e, hopen⟩
  · have htracks := he.tracks hg
    obtain ⟨p, -, hgrammar, hparser⟩ := htracks.parser
    refine ⟨hgrammar ▸ hparser.alone, fun start stop text => ⟨fun hrange hfit => ?_, ?_⟩⟩
    · exact htracks.replace_isOk hnests hrange hfit
    · intro u e' hreplace
      exact (htracks.replace hreplace).2.same_iff

/-- A JSON text is edited, given again and restored. In an editor, its only character is replaced by
itself. -/
theorem reparse_there_and_back :
    (∃ a b c d p, (new .json 0).parseAll [['1'], ['[', '1', ']'], ['[', '1', ']'], ['1']] =
        .ok ([a, b, c, d], p) ∧
      b.same a = false ∧ c.same b = true ∧ d.same c = false ∧ d.same a = false ∧
      d.root = a.root) ∧
    ∃ e u e', Editor.ofDocument (.ofText ['1'] .json) 0 = .ok e ∧
      e.replace 0 1 ['1'] = .ok (u, e') ∧ e'.tree.same e.tree = true := by
  have hg : ∀ g ∈ Language.json.grammar?, g.Nests ∧ g.Follows := by
    intro g hg
    cases hg
    exact ⟨Grammar.json_nests, Grammar.json_follows⟩
  obtain ⟨hall, hopen, hedited⟩ := reparse_eq_fresh hg 0
  constructor
  · rw [new_eq_fresh]
    obtain ⟨snapshots, p, hparse, hgiven⟩ :=
      hall [['1'], ['[', '1', ']'], ['[', '1', ']'], ['1']]
    obtain ⟨a, b, c, d, rfl⟩ := List.length_eq_four.1 hgiven.length
    refine ⟨a, b, c, d, p, hparse, ?_, ?_, ?_, ?_, ?_⟩
    · exact hgiven.new 0 _ _ b rfl rfl (by decide) rfl 0 a (Nat.le_refl 0) rfl
    · exact (hgiven.same 1 _ _ b c rfl rfl rfl rfl).2 rfl
    · exact hgiven.new 2 _ _ d rfl rfl (by decide) rfl 2 c (by decide) rfl
    · exact hgiven.new 2 _ _ d rfl rfl (by decide) rfl 0 a (by decide) rfl
    · -- Both roots are what the text alone gives.
      obtain ⟨tree, p, htree, hroot⟩ := hgiven.alone 0 _ a rfl rfl 0
      obtain ⟨tree', p', htree', hroot'⟩ := hgiven.alone 3 _ d rfl rfl 0
      cases htree.symm.trans htree'
      rw [← hroot, ← hroot']
  · rw [Editor.ofDocument_eq_ofGrammar]
    obtain ⟨e, he⟩ := hopen (.ofText ['1'] .json)
    have hdocument : e.document = .ofText ['1'] .json := by
      obtain ⟨⟨tree, p⟩, -, hdone⟩ := bind_eq_ok.1 he
      cases hdone
      rfl
    obtain ⟨-, hreplace⟩ := hedited e (.opened he)
    obtain ⟨hisOk, hsame⟩ := hreplace 0 1 ['1']
    rw [hdocument] at hisOk hsame
    obtain ⟨u, e', hdone⟩ := hisOk (by decide) (by decide)
    refine ⟨e, u, e', he, hdone, (hsame u e' hdone).2 ?_⟩
    obtain ⟨document, tree, parser, selection, htext, -, -, rfl, -⟩ :=
      Editor.replace_eq_ok.1 hdone
    rw [hdocument] at htext
    cases (Document.replace_eq_ok.1 htext).2
    rfl

end Parser

end TreePanel
