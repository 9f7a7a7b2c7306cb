import TreePanel.Proofs.Session.Safety

/-!
# The selection after a replacement

A replacement sends the offsets of the old text to offsets of the new one (`Editor.moved`). The map
never turns two offsets round, and an offset outside the range stays with the text beside it
(`Editor.carries_moved`). The sums of the machine give this map exactly, as long as the new text can
be counted (`Editor.mapOffset_eq_moved`), so a replacement sends every range of the selection
through it and through nothing else (`Editor.selection_of_replace`).
-/

namespace TreePanel

namespace Editor

variable {start stop inserted offset length : Nat}

/-- Offsets that move keep their order. -/
theorem monotone_moved (hrange : start ≤ stop) : Monotone (moved start stop inserted) := by
  intro a b hab
  rcases front_or_behind_or_between start stop a with ha | ⟨ha, ha'⟩ | ⟨ha, ha'⟩
  · rw [moved_of_le ha]
    -- An offset that does not move is in front of wherever the other one goes.
    unfold moved
    split_ifs <;> omega
  · rw [moved_of_stop_le ha ha', moved_of_stop_le (by omega) (by omega)]
    omega
  · rw [moved_of_between ha ha']
    unfold moved
    split_ifs <;> omega

/-! ## Offsets in their texts -/

/-- A map carries the offsets of an old text over to a new one, which has `inserted` in the place of
`[start..stop)`. -/
structure Carries (old new inserted : List Char) (start stop : Nat) (f : Nat → Nat) : Prop where
  /-- Offsets keep their order. -/
  monotone : Monotone f
  /-- Offsets of the old text go to offsets of the new one. -/
  within : ∀ offset ≤ old.length, f offset ≤ new.length
  /-- In front of the range, an offset stands before the same character, and behind the same
  text. -/
  front : ∀ offset < start, new[f offset]? = old[offset]? ∧ new.take (f offset) = old.take offset
  /-- Behind the range, an offset stands before the same character or at the end of the text as
  before, and the rest of the text is the same. -/
  behind : ∀ offset, stop ≤ offset → start < offset →
    new[f offset]? = old[offset]? ∧ new.drop (f offset) = old.drop offset
  /-- Within the range, an offset goes to the end of what was inserted. -/
  between : ∀ offset, start < offset → offset < stop →
    f offset = start + inserted.length ∧ new.take (f offset) = old.take start ++ inserted

/-- A replacement carries offsets over to the new text. -/
theorem carries_moved {text inserted : List Char} (hrange : start ≤ stop ∧ stop ≤ text.length) :
    Carries text (Document.splice text start stop inserted) inserted start stop
      (moved start stop inserted.length) := by
  have hstart : start ≤ text.length := Nat.le_trans hrange.1 hrange.2
  refine ⟨monotone_moved hrange.1, fun offset hin => ?_, fun offset hfront => ?_,
    fun offset hbehind hafter => ?_, fun offset hafter hbefore => ?_⟩
  · rw [Document.length_splice hrange]
    exact moved_le hrange hin
  · rw [moved_of_le (Nat.le_of_lt hfront)]
    exact ⟨Document.getElem?_splice_front hstart hfront,
      Document.take_splice hstart (Nat.le_of_lt hfront)⟩
  · rw [moved_of_stop_le hafter hbehind]
    exact ⟨Document.getElem?_splice_behind hstart hrange.1 hbehind,
      Document.drop_splice hstart hrange.1 hbehind⟩
  · have hend : (text.take start ++ inserted).length = start + inserted.length := by
      rw [List.length_append, List.length_take_of_le hstart]
    rw [moved_of_between hafter hbefore, ← hend]
    exact ⟨rfl, List.take_left⟩

/-! ## The selection -/

variable {e : Editor} {text : List Char}

/-- What a replacement makes of the text and of the selection. -/
theorem exists_replace_moved (hg : ∀ p ∈ e.parser, ∀ g ∈ p.grammar, g.Nests)
    (hrange : start ≤ stop ∧ stop ≤ e.document.length)
    (hselection : e.selection.Within e.document.length)
    (hfit : e.document.length - (stop - start) + text.length < Count.bound) :
    ∃ u e', e.replace start stop text = .ok (u, e') ∧
      e'.document = { e.document with
        text := Document.splice e.document.text start stop text
        revision := e.document.revision + 1 } ∧
      e'.selection = e.selection.map (moved start stop text.length) ∧
      u.selection = e'.selection ∧ u.selectionChanged = (e'.selection != e.selection) := by
  obtain ⟨document, hdocument⟩ : ∃ document, document = { e.document with
      text := Document.splice e.document.text start stop text
      revision := e.document.revision + 1 } := ⟨_, rfl⟩
  have hreplaced : e.document.replace start stop text = .ok document :=
    Document.replace_eq_ok.2 ⟨hrange, hdocument⟩
  have hmoved : e.selection.mapOffsets (mapOffset start stop text.length) =
      .ok (e.selection.map (moved start stop text.length)) :=
    hselection.mapOffsets_eq_moved hrange hfit
  cases hp : e.parser with
  | none =>
    exact ⟨_, _, replace_eq_ok.2 ⟨document, e.tree, none, _, hreplaced, .inl ⟨hp, rfl, rfl⟩, hmoved,
      rfl, rfl⟩, hdocument, rfl, rfl, rfl⟩
  | some p =>
    obtain ⟨tree, p', hparse⟩ := Parser.exists_parse (hg p hp) document.text
    exact ⟨_, _, replace_eq_ok.2 ⟨document, tree, some p', _, hreplaced,
      .inr ⟨p, p', hp, hparse, rfl⟩, hmoved, rfl, rfl⟩, hdocument, rfl, rfl, rfl⟩

/-- Replace characters of an editor's text, with a selection in the text. Every range is sent
through one and the same map, in its place, and the map carries the offsets of the old text over to
the new one. The update reports another selection exactly if some offset has moved. -/
theorem selection_of_replace (hg : ∀ p ∈ e.parser, ∀ g ∈ p.grammar, g.Nests)
    (hrange : start ≤ stop ∧ stop ≤ e.document.length)
    (hselection : e.selection.Within e.document.length)
    (hfit : e.document.length - (stop - start) + text.length < Count.bound) :
    ∃ u e', e.replace start stop text = .ok (u, e') ∧
      e'.document.length = e.document.length - (stop - start) + text.length ∧
      Carries e.document.text e'.document.text text start stop (moved start stop text.length) ∧
      e'.selection.ranges = e.selection.ranges.map (Range.map (moved start stop text.length)) ∧
      (∀ r : Range,
        (r.map (moved start stop text.length)).low = moved start stop text.length r.low ∧
        (r.map (moved start stop text.length)).high = moved start stop text.length r.high) ∧
      e'.selection.Within (e.document.length - (stop - start) + text.length) ∧
      u.selection = e'.selection ∧
      (u.selectionChanged = true ↔ ∃ r ∈ e.selection.ranges,
        moved start stop text.length r.anchor ≠ r.anchor ∨
          moved start stop text.length r.head ≠ r.head) := by
  obtain ⟨u, e', hreplace, hdocument, hmoved, htold, hchanged⟩ :=
    exists_replace_moved hg hrange hselection hfit
  have hmonotone : Monotone (moved start stop text.length) := monotone_moved hrange.1
  have hlength : e'.document.length = e.document.length - (stop - start) + text.length :=
    Document.length_replace (Document.replace_eq_ok.2 ⟨hrange, hdocument⟩)
  refine ⟨u, e', hreplace, hlength, ?_, ?_, fun r => ?_, ?_, htold, ?_⟩
  · rw [hdocument]
    exact carries_moved hrange
  · rw [hmoved, Selection.ranges_map]
  · exact ⟨Range.map_low hmonotone r, Range.map_high hmonotone r⟩
  · rw [hmoved]
    exact hselection.map fun _ => moved_le hrange
  · rw [hchanged, hmoved, bne_iff_ne, Ne, Selection.map_eq_self_iff]
    simp only [Range.map_eq_self_iff, not_forall, not_and_or, exists_prop]

/-- In a list, the end of one number and the beginning of another are replaced by one digit. -/
theorem selection_moved_in_list :
    ∃ e u e', ofText ['[', '1', ',', '2', '2', ']'] .json 0 = .ok e ∧
      replace { e with selection := ⟨⟨6, 1⟩, [⟨3, 3⟩, ⟨0, 4⟩]⟩ } 1 4 ['8'] = .ok (u, e') ∧
      e'.selection = ⟨⟨4, 1⟩, [⟨2, 2⟩, ⟨0, 2⟩]⟩ ∧ u.selectionChanged = true := by
  obtain ⟨e, hopen, hdocument, -, p, hp, hhas⟩ :=
    Session.exists_ofText (.inr rfl) ['[', '1', ',', '2', '2', ']'] 0
  have hg : ∀ q ∈ e.parser, ∀ g ∈ q.grammar, g.Nests := by
    intro q hq
    rw [hp] at hq
    cases hq
    exact hhas.nests
  have hlength : e.document.length = 6 := by
    rw [hdocument]
    rfl
  have hselection : Selection.Within 6 ⟨⟨6, 1⟩, [⟨3, 3⟩, ⟨0, 4⟩]⟩ := by decide
  obtain ⟨u, e', hreplace, -, -, hranges, -, -, -, hchanged⟩ :=
    @selection_of_replace 1 4 { e with selection := ⟨⟨6, 1⟩, [⟨3, 3⟩, ⟨0, 4⟩]⟩ } ['8'] hg
      (by rw [hlength]; decide) (by rw [hlength]; exact hselection) (by rw [hlength]; decide)
  exact ⟨e, u, e', hopen, hreplace, Selection.eq_of_ranges hranges,
    hchanged.2 ⟨⟨6, 1⟩, List.mem_cons_self, .inl (by decide)⟩⟩

end Editor

end TreePanel
