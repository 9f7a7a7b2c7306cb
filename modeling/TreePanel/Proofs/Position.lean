import TreePanel.Document
import TreePanel.Footer
import TreePanel.Proofs.Fault
import TreePanel.Proofs.Lines

/-!
# Positions that can be told

When the footer can be made. A text has a line for each of its offsets and for no other, a line
starts at or before every offset it holds, and a column fits the machine as long as the text does.
So a footer is made exactly for the selections whose heads lie in the text
(`Footer.ofSelection_isOk_iff`), and nothing but the lookup of a line can keep it from being made.
-/

namespace TreePanel

/-- The characters of a document can be counted, and so can the columns of its lines. -/
def Document.Fits (d : Document) : Prop := d.length + 1 < Count.bound

namespace Document

variable {d : Document}

/-- The line found for an offset of the text is the one that holds it. -/
theorem lineAt_eq_ok {offset : Nat} {line : Line} :
    d.lineAt offset = .ok line ↔ offset ≤ d.length ∧ Lines.lineOf d.text offset = line := by
  unfold lineAt Lines.lineAt
  split
  · next h => exact ⟨fun hline => ⟨h, Except.ok.inj hline⟩, fun hline => congrArg _ hline.2⟩
  · next h => exact ⟨nofun, fun hline => absurd hline.1 h⟩

/-- A line is found exactly for the offsets of the text. -/
theorem lineAt_isOk_iff {offset : Nat} :
    (∃ line, d.lineAt offset = .ok line) ↔ offset ≤ d.length := by
  constructor
  · rintro ⟨line, hline⟩
    exact (lineAt_eq_ok.1 hline).1
  · intro h
    exact ⟨_, lineAt_eq_ok.2 ⟨h, rfl⟩⟩

/-- In a text that fits, the place of an offset is told by its line. -/
theorem placeOf_eq (hfit : d.Fits) (offset : Nat) :
    Footer.placeOf d.lineAt offset =
      (d.lineAt offset).map fun line => ⟨line.number, offset - line.start + 1, offset⟩ := by
  unfold Footer.placeOf
  cases hline : d.lineAt offset with
  | error fault => rfl
  | ok line =>
    obtain ⟨hin, rfl⟩ := lineAt_eq_ok.1 hline
    have hstart : (Lines.lineOf d.text offset).start ≤ offset :=
      Lines.lineOf_start_le d.text offset
    -- Columns count from one, so the one after the text must fit as well.
    have hcolumn : offset - (Lines.lineOf d.text offset).start + 1 < Count.bound := by
      unfold Fits at hfit
      omega
    simp [Count.sub_eq_ok hstart, Count.add_eq_ok hcolumn, bind, Except.bind, Except.map, pure,
      Except.pure]

end Document

namespace Footer

variable {d : Document} {selection : Selection} {fault : Fault}

/-- The heads of a selection with a footer lie in the text. -/
theorem head_le_of_ofSelection {lines : List String}
    (h : ofSelection d.lineAt selection = .ok lines) :
    ∀ r ∈ selection.ranges, r.head ≤ d.length := by
  intro r hr
  obtain ⟨text, htext⟩ := mapM_isOk_iff.1 ⟨lines, h⟩ r hr
  obtain ⟨place, hplace, -⟩ := bind_eq_ok.1 htext
  obtain ⟨line, hline, -⟩ := bind_eq_ok.1 hplace
  exact Document.lineAt_isOk_iff.1 ⟨line, hline⟩

/-- In a text that fits, the footer can be made exactly for the selections whose heads lie in it. -/
theorem ofSelection_isOk_iff (hfit : d.Fits) :
    (∃ lines, ofSelection d.lineAt selection = .ok lines) ↔
      ∀ r ∈ selection.ranges, r.head ≤ d.length := by
  constructor
  · rintro ⟨lines, h⟩
    exact head_le_of_ofSelection h
  · intro hin
    refine mapM_isOk_iff.2 fun r hr => ?_
    obtain ⟨line, hline⟩ := Document.lineAt_isOk_iff.2 (hin r hr)
    have hplace := Document.placeOf_eq hfit r.head
    rw [hline] at hplace
    exact ⟨_, bind_eq_ok.2 ⟨_, hplace, rfl⟩⟩

/-- Only the lookup of a line can keep the footer from being made. -/
theorem lineAt_of_ofSelection_error (hfit : d.Fits)
    (h : ofSelection d.lineAt selection = .error fault) :
    ∃ r ∈ selection.ranges, d.lineAt r.head = .error fault := by
  obtain ⟨r, hr, hline⟩ := mapM_eq_error h
  refine ⟨r, hr, ?_⟩
  unfold lineOf at hline
  rw [Document.placeOf_eq hfit] at hline
  cases hat : d.lineAt r.head with
  | error other =>
    rw [hat] at hline
    cases hline
    rfl
  | ok line =>
    rw [hat] at hline
    cases hline

end Footer

end TreePanel
