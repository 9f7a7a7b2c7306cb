import Mathlib.Data.Prod.Lex
import Mathlib.Order.Monotone.Basic
import TreePanel.Proofs.Position

/-!
# Lines and columns as coordinates

With a line and a column, the footer tells of a head as much as with its position. From one offset
to the next, either the column goes up by one or the line does (`Document.strictMono_coordinates`),
so the coordinates stand in the order of the offsets, and no two offsets share them. Nor do they
once they are written down, for digits end where the comma stands (`Footer.Place.shown_inj`). So the
lines of a footer tell the heads apart without the positions at their ends
(`Document.footer_exact`).
-/

namespace TreePanel

namespace Footer.Place

variable {a b : Place}

/-- Line and column of a place; the line counts first. -/
def coordinates (a : Place) : ℕ ×ₗ ℕ := toLex (a.line, a.column)

/-- What is shown of the coordinates of a place. -/
def shown (a : Place) : String := "line " ++ toString a.line ++ ", col " ++ toString a.column

/-- The position is shown behind the coordinates. -/
theorem text_eq (a : Place) : a.text = a.shown ++ (", pos " ++ toString a.position) :=
  String.append_assoc

/-- A number is written without a comma. -/
theorem comma_notMem_repr (n : Nat) : ',' ∉ n.repr.toList := by
  intro hcomma
  rw [Nat.toList_repr] at hcomma
  have hdigit : Char.isDigit ',' = true :=
    Nat.isDigit_of_mem_toDigits (by decide) (Nat.le_refl 10) hcomma
  exact absurd hdigit (by decide)

/-- A number can be read back from its digits. -/
theorem eq_of_repr {m n : Nat} (h : m.repr.toList = n.repr.toList) : m = n := by
  rw [Nat.toList_repr, Nat.toList_repr] at h
  rw [← @Nat.ofDigitChars_ten_toDigits m, h, Nat.ofDigitChars_ten_toDigits]

/-- Coordinates can be read back from what is shown of them. -/
theorem shown_inj : a.shown = b.shown ↔ a.coordinates = b.coordinates := by
  constructor
  · intro h
    have hchars : a.line.repr.toList ++ ',' :: (" col ".toList ++ a.column.repr.toList) =
        b.line.repr.toList ++ ',' :: (" col ".toList ++ b.column.repr.toList) := by
      simpa [shown, toString] using congrArg String.toList h
    have hbehind : ',' ∉ " col ".toList ++ a.column.repr.toList := by
      rw [List.mem_append, not_or]
      exact ⟨by decide, comma_notMem_repr a.column⟩
    obtain ⟨hline, -, hcolumn⟩ :=
      (List.append_cons_inj_of_notMem (comma_notMem_repr a.line) hbehind).1 hchars
    rw [coordinates, coordinates, eq_of_repr hline, eq_of_repr (List.append_cancel_left hcolumn)]
  · intro h
    obtain ⟨hline, hcolumn⟩ := Prod.mk.inj (toLex.injective h)
    rw [shown, shown, hline, hcolumn]

end Footer.Place

namespace Document

/-- Where an offset of the text stands. -/
def place (d : Document) (offset : Nat) : Footer.Place :=
  ⟨(Lines.lineOf d.text offset).number, offset - (Lines.lineOf d.text offset).start + 1, offset⟩

/-- A line of a document that holds an offset. -/
structure Holds (d : Document) (line : Line) (offset : Nat) : Prop where
  /-- The line starts at or before the offset. -/
  start_le : line.start ≤ offset
  /-- The line holds its own start. -/
  lineAt_start : d.lineAt line.start = .ok line
  /-- The line is numbered by the breaks that end at or before the offset. -/
  number_eq : line.number = Nat.count (Lines.BreakEndsAt d.text) (offset + 1) + 1
  /-- The line is the first one or a later one. -/
  number_pos : 1 ≤ line.number
  /-- The line is the last one or an earlier one. -/
  number_le : line.number ≤ d.lineCount
  /-- The place of the offset is told by the line. -/
  place_eq : d.place offset = ⟨line.number, offset - line.start + 1, offset⟩

variable {d : Document} {offset : Nat}

/-- Each offset of the text is held by the line that is found for it. -/
theorem exists_holds (h : offset ≤ d.length) :
    ∃ line, d.lineAt offset = .ok line ∧ d.Holds line offset := by
  have hstart : (Lines.lineOf d.text offset).start ≤ offset :=
    Lines.lineOf_start_le d.text offset
  have hnumber : (Lines.lineOf d.text offset).number =
      Nat.count (Lines.BreakEndsAt d.text) (offset + 1) + 1 := by rw [Lines.lineOf_eq]
  refine ⟨Lines.lineOf d.text offset, lineAt_eq_ok.2 ⟨h, rfl⟩, ?_⟩
  exact {
    start_le := hstart
    lineAt_start := lineAt_eq_ok.2 ⟨Nat.le_trans hstart h, Lines.lineOf_start d.text offset⟩
    number_eq := hnumber
    number_pos := hnumber ▸ Nat.succ_pos _
    number_le := Lines.number_lineOf_le h
    place_eq := rfl }

/-- The column of an offset leads from the start of its line to the offset. -/
theorem Holds.start_add_column {line : Line} (h : d.Holds line offset) :
    1 ≤ (d.place offset).column ∧ line.start + (d.place offset).column - 1 = offset := by
  have hstart : line.start ≤ offset := h.start_le
  rw [h.place_eq]
  show 1 ≤ offset - line.start + 1 ∧ line.start + (offset - line.start + 1) - 1 = offset
  omega

/-- From one offset to the next, either the line goes up or the column does. -/
theorem strictMono_coordinates (d : Document) :
    StrictMono fun offset => (d.place offset).coordinates := by
  refine strictMono_nat_of_lt_succ fun offset => ?_
  have hstart : (Lines.lineOf d.text offset).start ≤ offset :=
    Lines.lineOf_start_le d.text offset
  show toLex (_, _) < toLex (_, _)
  rw [Prod.Lex.toLex_lt_toLex]
  unfold place
  rw [Lines.lineOf_succ]
  split
  · exact .inl (Nat.lt_succ_self _)
  · refine .inr ⟨rfl, ?_⟩
    show offset - _ + 1 < offset + 1 - _ + 1
    omega

/-- In a text that fits, the footer can tell the place of each offset. -/
theorem placeOf_eq_place (hfit : d.Fits) (h : offset ≤ d.length) :
    Footer.placeOf d.lineAt offset = .ok (d.place offset) := by
  rw [placeOf_eq hfit, lineAt_eq_ok.2 ⟨h, rfl⟩]
  rfl

/-- Lines and columns are exact coordinates. Each offset is held by the line that is found for it,
and the column leads from the start of this line to the offset. Coordinates are ordered as the
offsets are, and so different offsets have different ones. The footer gives the places of the heads,
in the order of the ranges, and what it shows of the coordinates is enough to tell every head. -/
theorem footer_exact (d : Document) :
    (∀ p ≤ d.length, ∃ line, d.lineAt p = .ok line ∧ d.Holds line p ∧
      1 ≤ (d.place p).column ∧ line.start + (d.place p).column - 1 = p) ∧
    (∀ p q, (d.place p).coordinates ≤ (d.place q).coordinates ↔ p ≤ q) ∧
    (∀ p q, (d.place p).coordinates = (d.place q).coordinates ↔ p = q) ∧
    (d.Fits → (∀ p ≤ d.length, Footer.placeOf d.lineAt p = .ok (d.place p)) ∧
      ∀ s : Selection, (∀ r ∈ s.ranges, r.head ≤ d.length) →
        Footer.ofSelection d.lineAt s = .ok (s.ranges.map fun r => (d.place r.head).text)) ∧
    (∀ p, (d.place p).text = (d.place p).shown ++ (", pos " ++ toString p)) ∧
    ∀ p q, (d.place p).shown = (d.place q).shown ↔ p = q := by
  have horder : StrictMono fun p => (d.place p).coordinates := d.strictMono_coordinates
  refine ⟨fun p hp => ?_, fun p q => horder.le_iff_le, fun p q => horder.injective.eq_iff,
    fun hfit => ⟨fun p => placeOf_eq_place hfit, fun s hin => ?_⟩,
    fun p => (d.place p).text_eq, fun p q => ?_⟩
  · obtain ⟨line, hline, hholds⟩ := exists_holds hp
    exact ⟨line, hline, hholds, hholds.start_add_column⟩
  · refine mapM_eq_map fun r hr => ?_
    exact bind_eq_ok.2 ⟨_, placeOf_eq_place hfit (hin r hr), rfl⟩
  · rw [Footer.Place.shown_inj]
    exact horder.injective.eq_iff

/-- A pair of CR and LF, a next-line character and a lone CR end three lines. An offset within the
pair is still on the first line, and behind the lone CR a fourth begins. -/
theorem footer_of_mixed_breaks :
    let d := ofText ['a', '\r', '\n', 'b', '\u0085', '\r', 'c'] .plain
    let s : Selection := ⟨⟨0, 7⟩, [⟨3, 2⟩, ⟨5, 5⟩]⟩
    2 ≤ d.length ∧ d.Fits ∧ (∀ r ∈ s.ranges, r.head ≤ d.length) ∧
      (∃ line, d.lineAt 2 = .ok line ∧ d.Holds line 2 ∧ line.number = 1 ∧
        line.start + 3 - 1 = 2) ∧
      Footer.placeOf d.lineAt 5 = .ok ⟨3, 1, 5⟩ ∧
      Footer.ofSelection d.lineAt s =
        .ok ["line 4, col 2, pos 7", "line 1, col 3, pos 2", "line 3, col 1, pos 5"] := by
  intro d s
  have hfit : d.Fits := show 7 + 1 < Count.bound by decide
  have hin : ∀ r ∈ s.ranges, r.head ≤ d.length := by decide
  obtain ⟨hlines, -, -, hfooter, -⟩ := footer_exact d
  obtain ⟨line, hline, hholds, -, hcolumn⟩ := hlines 2 (by decide)
  have hbreaks : Nat.count (Lines.BreakEndsAt d.text) (2 + 1) = 0 := by decide
  have hnumber : line.number = 1 := by rw [hholds.number_eq, hbreaks]
  have htexts : (s.ranges.map fun r => (d.place r.head).text) =
      ["line 4, col 2, pos 7", "line 1, col 3, pos 2", "line 3, col 1, pos 5"] := by
    decide +kernel
  exact ⟨by decide, hfit, hin, ⟨line, hline, hholds, hnumber, hcolumn⟩,
    (hfooter hfit).1 5 (by decide), ((hfooter hfit).2 s hin).trans (congrArg _ htexts)⟩

end Document

end TreePanel
