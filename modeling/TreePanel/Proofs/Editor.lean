import TreePanel.Editor
import TreePanel.Proofs.Document
import TreePanel.Proofs.Selection

/-!
# What others do to an editor

Somebody else than the panel selects in an editor, replaces text, puts a tree in the place of the
old one, sends a transaction, or has the editor tell its state. Each of these is an `Editor.Action`,
and `Editor.act` gives the update that tells of it.

A replacement moves the selection along. Offsets of the old text go to offsets of the new one
(`Editor.moved`), and the sums on the way give this map exactly, as long as the new text can be
counted (`Editor.mapOffset_eq_moved`).
-/

namespace TreePanel

/-! ## Replacing text -/

namespace Document

variable {d d' : Document} {start stop : Nat} {inserted : List Char}

/-- A text is replaced exactly in ranges that lie in it. -/
theorem replace_eq_ok :
    d.replace start stop inserted = .ok d' ↔
      (start ≤ stop ∧ stop ≤ d.length) ∧
        d' = { d with text := splice d.text start stop inserted, revision := d.revision + 1 } := by
  unfold replace
  split
  · next h => exact ⟨fun heq => ⟨h, (Except.ok.inj heq).symm⟩, fun heq => by rw [heq.2]⟩
  · next h => exact ⟨nofun, fun heq => absurd heq.1 h⟩

/-- Number of characters after a replacement. -/
theorem length_replace (h : d.replace start stop inserted = .ok d') :
    d'.length = d.length - (stop - start) + inserted.length := by
  obtain ⟨hrange, rfl⟩ := replace_eq_ok.1 h
  exact length_splice hrange

end Document

namespace Editor

variable {start stop inserted offset length : Nat}

/-- Where an offset of the old text stands in the new one, after `inserted` characters were put in
the place of `[start..stop)`. -/
def moved (start stop inserted offset : Nat) : Nat :=
  if offset ≤ start then offset
  else if stop ≤ offset then offset - (stop - start) + inserted
  else start + inserted

/-- An offset before the range or at its start stays. -/
theorem moved_of_le (h : offset ≤ start) : moved start stop inserted offset = offset := if_pos h

/-- An offset behind the range or at its end moves with the text that follows. -/
theorem moved_of_stop_le (hstart : start < offset) (hstop : stop ≤ offset) :
    moved start stop inserted offset = offset - (stop - start) + inserted := by
  rw [moved, if_neg (Nat.not_le_of_lt hstart), if_pos hstop]

/-- An offset within the range goes to the end of what was inserted. -/
theorem moved_of_between (hstart : start < offset) (hstop : offset < stop) :
    moved start stop inserted offset = start + inserted := by
  rw [moved, if_neg (Nat.not_le_of_lt hstart), if_neg (Nat.not_le_of_lt hstop)]

/-- An offset is in front of the range or at its start, behind the range or at its end, or within
the range. -/
theorem front_or_behind_or_between (start stop offset : Nat) :
    offset ≤ start ∨ start < offset ∧ stop ≤ offset ∨ start < offset ∧ offset < stop := by
  omega

/-- Offsets of the old text go to offsets of the new one. -/
theorem moved_le (hrange : start ≤ stop ∧ stop ≤ length) (hin : offset ≤ length) :
    moved start stop inserted offset ≤ length - (stop - start) + inserted := by
  unfold moved
  split_ifs <;> omega

/-- The machine moves an offset as the map does: no difference falls below zero, and no sum leaves
the range of counts as long as the new text is within it. -/
theorem mapOffset_eq_moved (hrange : start ≤ stop ∧ stop ≤ length) (hin : offset ≤ length)
    (hfit : length - (stop - start) + inserted < Count.bound) :
    mapOffset start stop inserted offset = .ok (moved start stop inserted offset) := by
  rcases front_or_behind_or_between start stop offset with h | ⟨hstart, hstop⟩ | ⟨hstart, hstop⟩
  · rw [moved_of_le h, mapOffset, if_pos h]
    rfl
  · have hkept : stop - start ≤ offset := by omega
    have hsum : offset - (stop - start) + inserted < Count.bound := by omega
    rw [moved_of_stop_le hstart hstop, mapOffset, if_neg (Nat.not_le_of_lt hstart), if_pos hstop,
      Count.sub_eq_ok hkept]
    exact Count.add_eq_ok hsum
  · have hsum : start + inserted < Count.bound := by omega
    rw [moved_of_between hstart hstop, mapOffset, if_neg (Nat.not_le_of_lt hstart),
      if_neg (Nat.not_le_of_lt hstop)]
    exact Count.add_eq_ok hsum

/-- If the machine can move an offset, it moves it as the map does. -/
theorem eq_moved_of_mapOffset {offset' : Nat}
    (h : mapOffset start stop inserted offset = .ok offset') :
    offset' = moved start stop inserted offset := by
  rcases front_or_behind_or_between start stop offset with hle | ⟨hstart, hstop⟩ | ⟨hstart, hstop⟩
  · rw [mapOffset, if_pos hle] at h
    rw [moved_of_le hle]
    exact (Except.ok.inj h).symm
  · rw [mapOffset, if_neg (Nat.not_le_of_lt hstart), if_pos hstop] at h
    obtain ⟨kept, hkept, hsum⟩ := bind_eq_ok.1 h
    rw [moved_of_stop_le hstart hstop, Count.eq_of_add hsum, Count.eq_of_sub hkept]
  · rw [mapOffset, if_neg (Nat.not_le_of_lt hstart), if_neg (Nat.not_le_of_lt hstop)] at h
    rw [moved_of_between hstart hstop, Count.eq_of_add h]

end Editor

namespace Selection.Within

variable {start stop inserted length : Nat} {selection selection' : Selection}

/-- A selection in the old text only moves to one in the new text. -/
theorem of_moved (h : selection.Within length) (hrange : start ≤ stop ∧ stop ≤ length)
    (hmoved : selection.mapOffsets (Editor.mapOffset start stop inserted) = .ok selection') :
    selection'.Within (length - (stop - start) + inserted) := by
  rw [eq_map_of_mapOffsets Editor.eq_moved_of_mapOffset hmoved]
  exact h.map fun _ => Editor.moved_le hrange

/-- A selection in the old text is sent through the map, if the new text fits the machine. -/
theorem mapOffsets_eq_moved (h : selection.Within length) (hrange : start ≤ stop ∧ stop ≤ length)
    (hfit : length - (stop - start) + inserted < Count.bound) :
    selection.mapOffsets (Editor.mapOffset start stop inserted) =
      .ok (selection.map (Editor.moved start stop inserted)) := by
  refine mapOffsets_eq_map fun r hr => ?_
  obtain ⟨hanchor, hhead⟩ := h r hr
  exact ⟨Editor.mapOffset_eq_moved hrange hanchor hfit, Editor.mapOffset_eq_moved hrange hhead hfit⟩

/-- A selection in the old text can be moved, if the new text fits the machine. -/
theorem moved (h : selection.Within length) (hrange : start ≤ stop ∧ stop ≤ length)
    (hfit : length - (stop - start) + inserted < Count.bound) :
    ∃ selection', selection.mapOffsets (Editor.mapOffset start stop inserted) = .ok selection' ∧
      selection'.Within (length - (stop - start) + inserted) :=
  ⟨_, h.mapOffsets_eq_moved hrange hfit, h.map fun _ => Editor.moved_le hrange⟩

end Selection.Within

/-! ## Actions -/

namespace Editor

/-- What somebody other than the panel does to an editor. -/
inductive Action where
  /-- Select. -/
  | select (selection : Selection)
  /-- Put another tree in the place of the old one. -/
  | setTree (tree : Snapshot)
  /-- Replace the characters of `[start..stop)`. -/
  | replace (start stop : Nat) (text : List Char)
  /-- Send a transaction. -/
  | dispatch (transaction : Transaction)
  /-- Let the editor tell its state. -/
  | idle

/-- Carry out an action, with the update that tells of it. -/
def act (e : Editor) : Action → Except Fault (Update × Editor)
  | .select selection => .ok (e.select selection)
  | .setTree tree => .ok (e.setTree tree)
  | .replace start stop text => e.replace start stop text
  | .dispatch transaction => .ok (e.dispatch transaction)
  | .idle => .ok (e.idle, e)

variable {e e' : Editor} {u : Update}

/-- What a replacement consists of: another text, its tree if there is a parser, and the selection
moved along. -/
theorem replace_eq_ok {start stop : Nat} {text : List Char} :
    e.replace start stop text = .ok (u, e') ↔
      ∃ document tree parser selection,
        e.document.replace start stop text = .ok document ∧
        (e.parser = none ∧ parser = none ∧ tree = e.tree ∨
          ∃ p p', e.parser = some p ∧ p.parse document.text = .ok (tree, p') ∧ parser = some p') ∧
        e.selection.mapOffsets (mapOffset start stop text.length) = .ok selection ∧
        e' = { e with document, parser, tree, selection } ∧
        u = e'.update (selection != e.selection) true none [] := by
  unfold replace
  rw [bind_eq_ok]
  constructor
  · rintro ⟨document, hdocument, h⟩
    cases hp : e.parser with
    | none =>
      rw [hp] at h
      -- Both arms hand what they have to the rest through a bind of its own.
      obtain ⟨_, hpure, h⟩ := bind_eq_ok.1 h
      cases hpure
      obtain ⟨selection, hselection, hdone⟩ := bind_eq_ok.1 h
      cases hdone
      exact ⟨document, _, _, selection, hdocument, .inl ⟨rfl, rfl, rfl⟩, hselection, rfl, rfl⟩
    | some p =>
      rw [hp] at h
      obtain ⟨⟨tree, p'⟩, hparse, h⟩ := bind_eq_ok.1 h
      obtain ⟨_, hpure, h⟩ := bind_eq_ok.1 h
      cases hpure
      obtain ⟨selection, hselection, hdone⟩ := bind_eq_ok.1 h
      cases hdone
      exact ⟨document, _, _, selection, hdocument, .inr ⟨p, p', rfl, hparse, rfl⟩, hselection, rfl,
        rfl⟩
  · rintro ⟨document, tree, parser, selection, hdocument, hparsed, hselection, rfl, rfl⟩
    refine ⟨document, hdocument, ?_⟩
    rcases hparsed with ⟨hp, rfl, rfl⟩ | ⟨p, p', hp, hparse, rfl⟩
    · rw [hp]
      exact bind_eq_ok.2 ⟨_, rfl, bind_eq_ok.2 ⟨selection, hselection, rfl⟩⟩
    · rw [hp]
      exact bind_eq_ok.2 ⟨_, hparse, bind_eq_ok.2 ⟨_, rfl,
        bind_eq_ok.2 ⟨selection, hselection, rfl⟩⟩⟩

/-- Without a parser, a replacement leaves the tree as it is. -/
theorem tree_of_replace {start stop : Nat} {text : List Char} (hparser : e.parser = none)
    (h : e.replace start stop text = .ok (u, e')) : e'.parser = none ∧ e'.tree = e.tree := by
  obtain ⟨document, tree, parser, selection, -, hparsed, -, rfl, -⟩ := replace_eq_ok.1 h
  rcases hparsed with ⟨-, hnone, htree⟩ | ⟨p, -, hp, -⟩
  · exact ⟨hnone, htree⟩
  · rw [hparser] at hp
    cases hp

/-- An update tells the tree and the selection that the editor has after the action, and a
selection that it does not report as changed is the one from before. -/
theorem act_update {action : Action} (h : e.act action = .ok (u, e')) :
    u.tree = e'.tree ∧ u.selection = e'.selection ∧
      (u.selectionChanged = false → e'.selection = e.selection) := by
  cases action with
  | select selection =>
    cases h
    exact ⟨rfl, rfl, fun hflag => nomatch hflag⟩
  | setTree tree =>
    cases h
    exact ⟨rfl, rfl, fun _ => rfl⟩
  | replace start stop text =>
    obtain ⟨document, tree, parser, selection, -, -, -, rfl, rfl⟩ := replace_eq_ok.1 h
    refine ⟨rfl, rfl, fun hflag => ?_⟩
    simpa [update] using hflag
  | dispatch t =>
    cases h
    refine ⟨rfl, rfl, fun hflag => ?_⟩
    have hnone : t.selection = none := by simpa [dispatch, update] using hflag
    simp [hnone]
  | idle =>
    cases h
    exact ⟨rfl, rfl, fun _ => rfl⟩

/-- No action touches the mark of the highlight. -/
theorem act_decoration {action : Action} (h : e.act action = .ok (u, e')) :
    e'.decoration = e.decoration := by
  cases action with
  | replace start stop text =>
    obtain ⟨document, tree, parser, selection, -, -, -, rfl, -⟩ := replace_eq_ok.1 h
    rfl
  | _ =>
    cases h
    rfl

/-- Heads in the text are in the text after an action that does not report another selection. -/
theorem act_heads {action : Action} (h : e.act action = .ok (u, e'))
    (hflag : u.selectionChanged = false)
    (hin : ∀ r ∈ e.selection.ranges, r.head ≤ e.document.length) :
    ∀ r ∈ e'.selection.ranges, r.head ≤ e'.document.length := by
  cases action with
  | replace start stop text =>
    obtain ⟨document, tree, parser, selection, hdocument, -, hselection, rfl, -⟩ :=
      replace_eq_ok.1 h
    have hrange := (Document.replace_eq_ok.1 hdocument).1
    intro r' hr'
    rw [Selection.eq_map_of_mapOffsets eq_moved_of_mapOffset hselection,
      Selection.ranges_map] at hr'
    obtain ⟨r, hr, rfl⟩ := List.mem_map.1 hr'
    rw [Document.length_replace hdocument]
    exact moved_le hrange (hin r hr)
  | _ =>
    -- The other actions leave the text alone.
    have hsame := (act_update h).2.2 hflag
    rw [hsame]
    cases h
    exact hin

/-- The lines of an editor depend on its text alone. -/
theorem lineAt_congr (h : e'.document.text = e.document.text) : e'.lineAt = e.lineAt := by
  funext offset
  unfold lineAt Document.lineAt
  rw [h]

end Editor

end TreePanel
