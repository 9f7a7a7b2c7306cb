import TreePanel.RowFlags

/-!
# Flags of one node and of another inside it

A node has a flag exactly if some range of the selection gives it (`covered_iff`, `cut_iff`,
`caret_iff`), so all that counts is which ranges there are. A range that reaches into a node with
width either covers it or has an end strictly inside it, and never both (`meets_once`); that is what
the flags tell of any selection (`flags_of_ranges`).

Where one span contains another, a range that covers the outer one covers the inner one, and an end
of a range strictly inside the inner one is strictly inside the outer one. A head on the start of
the inner one is the same end of its range, and it is on the start of the outer one, inside it, or
at its end (`caret_of_contains`).
-/

namespace TreePanel

/-- The ranges of one selection, then those of another. -/
def Selection.append (s t : Selection) : Selection := ⟨s.primary, s.others ++ t.ranges⟩

/-- Appending selections appends their ranges. -/
@[simp] theorem Selection.ranges_append (s t : Selection) :
    (s.append t).ranges = s.ranges ++ t.ranges := rfl

/-- The selection of one range has this range only. -/
@[simp] theorem Selection.ranges_single (r : Range) : (Selection.single r).ranges = [r] := rfl

namespace RowFlags

variable {span outer inner : Span} {s t : Selection}

/-! ## Which ranges give a flag -/

/-- The flags that several ranges give add up, each for itself. -/
theorem foldl_union (span : Span) (flags : RowFlags) (ranges : List Range) :
    ranges.foldl (fun flags r => flags.union (ofRange span r)) flags =
      ⟨flags.covered || ranges.any fun r => (ofRange span r).covered,
        flags.cut || ranges.any fun r => (ofRange span r).cut,
        flags.caret || ranges.any fun r => (ofRange span r).caret⟩ := by
  induction ranges generalizing flags with
  | nil => simp
  | cons r rest ih =>
    rw [List.foldl_cons, ih]
    simp [union, Bool.or_assoc]

/-- A selection gives the flags that any of its ranges gives. -/
theorem ofSelection_eq (span : Span) (s : Selection) :
    ofSelection span s =
      ⟨s.ranges.any fun r => (ofRange span r).covered, s.ranges.any fun r => (ofRange span r).cut,
        s.ranges.any fun r => (ofRange span r).caret⟩ := by
  rw [ofSelection, foldl_union]
  simp [none]

/-- A node is covered by the ranges that begin at or before its start and end at or after its
end. -/
theorem covered_iff :
    (ofSelection span s).covered = true ↔
      ∃ r ∈ s.ranges, r.low ≤ span.start ∧ span.stop ≤ r.high := by
  simp [ofSelection_eq, ofRange]

/-- A node is cut by the ranges with an end strictly inside it. -/
theorem cut_iff :
    (ofSelection span s).cut = true ↔
      ∃ r ∈ s.ranges, (span.start < r.low ∧ r.low < span.stop) ∨
        (span.start < r.high ∧ r.high < span.stop) := by
  simp [ofSelection_eq, ofRange, inside]

/-- The caret is on a node if a range has its head on the start of it. -/
theorem caret_iff :
    (ofSelection span s).caret = true ↔ ∃ r ∈ s.ranges, r.head = span.start := by
  simp [ofSelection_eq, ofRange]

/-- The flags of the ranges of two selections add up. -/
theorem ofSelection_append (span : Span) (s t : Selection) :
    ofSelection span (s.append t) = (ofSelection span s).union (ofSelection span t) := by
  simp only [ofSelection_eq, Selection.ranges_append, List.any_append, union]

/-- Selections of the same ranges give the same flags, in whatever order the ranges come and however
often. -/
theorem ofSelection_congr (h : ∀ r, r ∈ s.ranges ↔ r ∈ t.ranges) (span : Span) :
    ofSelection span s = ofSelection span t := by
  have hany : ∀ gives : Range → Bool, s.ranges.any gives = t.ranges.any gives := by
    intro gives
    rw [Bool.eq_iff_iff, List.any_eq_true, List.any_eq_true]
    simp only [h]
  simp only [ofSelection_eq, hany]

/-! ## One range beside a node with width -/

/-- Of three statements one holds, and only one. -/
def ExactlyOne (a b c : Prop) : Prop := a ∧ ¬b ∧ ¬c ∨ ¬a ∧ b ∧ ¬c ∨ ¬a ∧ ¬b ∧ c

/-- One range covers a node if it begins at or before its start and ends at or after its end. -/
theorem covered_single_iff {r : Range} :
    (ofSelection span (.single r)).covered = true ↔ r.low ≤ span.start ∧ span.stop ≤ r.high := by
  simp [covered_iff]

/-- One range cuts a node if an end of the range lies strictly inside it. -/
theorem cut_single_iff {r : Range} :
    (ofSelection span (.single r)).cut = true ↔
      (span.start < r.low ∧ r.low < span.stop) ∨ (span.start < r.high ∧ r.high < span.stop) := by
  simp [cut_iff]

/-- A range covers a node with width, or has an end strictly inside it, or lies before or after it,
and never two of these. -/
theorem meets_once (hwidth : span.isEmpty = false) (r : Range) :
    ExactlyOne ((ofSelection span (.single r)).covered = true)
      ((ofSelection span (.single r)).cut = true) (r.high ≤ span.start ∨ span.stop ≤ r.low) := by
  have hends : r.low ≤ r.high := r.low_le_high
  have hlt : span.start < span.stop := by
    have hordered := span.ordered
    have hne : span.start ≠ span.stop := by simpa [Span.isEmpty] using hwidth
    omega
  unfold ExactlyOne
  rw [covered_single_iff, cut_single_iff]
  by_cases haway : r.high ≤ span.start ∨ span.stop ≤ r.low
  · omega
  · -- The range reaches into the node, so if it covers less than all, one of its ends is inside.
    by_cases hall : r.low ≤ span.start ∧ span.stop ≤ r.high
    · omega
    · omega

/-- A node with width is covered or cut exactly if some range reaches into it. -/
theorem marked_iff (hwidth : span.isEmpty = false) :
    (ofSelection span s).covered = true ∨ (ofSelection span s).cut = true ↔
      ∃ r ∈ s.ranges, r.low < span.stop ∧ span.start < r.high := by
  have hrange : ∀ r : Range, (ofSelection span (.single r)).covered = true ∨
      (ofSelection span (.single r)).cut = true ↔ r.low < span.stop ∧ span.start < r.high := by
    intro r
    have honce := meets_once hwidth r
    rw [ExactlyOne, covered_single_iff, cut_single_iff] at honce
    rw [covered_single_iff, cut_single_iff]
    omega
  calc (ofSelection span s).covered = true ∨ (ofSelection span s).cut = true
      ↔ (∃ r ∈ s.ranges, (ofSelection span (.single r)).covered = true) ∨
          ∃ r ∈ s.ranges, (ofSelection span (.single r)).cut = true := by
        simp only [covered_single_iff, cut_single_iff]
        rw [covered_iff, cut_iff]
    _ ↔ ∃ r ∈ s.ranges, (ofSelection span (.single r)).covered = true ∨
          (ofSelection span (.single r)).cut = true := by
        simp only [and_or_left, exists_or]
    _ ↔ ∃ r ∈ s.ranges, r.low < span.stop ∧ span.start < r.high := by
        simp only [hrange]

/-- A node is covered if some range begins at or before it and ends at or after it, cut if some
range has an end strictly inside it, and has the caret if some range has its head on its start. So
the flags of two selections add up, and neither the order of the ranges nor their repetition
matters. If the node has width, each range alone covers it, cuts it or lies apart from it; and so
the node is covered or cut exactly if some range reaches into it. -/
theorem flags_of_ranges (span : Span) (s : Selection) :
    ((ofSelection span s).covered = true ↔
      ∃ r ∈ s.ranges, r.low ≤ span.start ∧ span.stop ≤ r.high) ∧
    ((ofSelection span s).cut = true ↔
      ∃ r ∈ s.ranges, (span.start < r.low ∧ r.low < span.stop) ∨
        (span.start < r.high ∧ r.high < span.stop)) ∧
    ((ofSelection span s).caret = true ↔ ∃ r ∈ s.ranges, r.head = span.start) ∧
    (∀ t, ofSelection span (s.append t) = (ofSelection span s).union (ofSelection span t)) ∧
    (∀ t : Selection, (∀ r, r ∈ s.ranges ↔ r ∈ t.ranges) →
      ofSelection span s = ofSelection span t) ∧
    (span.isEmpty = false →
      (∀ r, ExactlyOne ((ofSelection span (.single r)).covered = true)
        ((ofSelection span (.single r)).cut = true) (r.high ≤ span.start ∨ span.stop ≤ r.low)) ∧
      ((ofSelection span s).covered = true ∨ (ofSelection span s).cut = true ↔
        ∃ r ∈ s.ranges, r.low < span.stop ∧ span.start < r.high)) :=
  ⟨covered_iff, cut_iff, caret_iff, ofSelection_append span s, fun _ h => ofSelection_congr h span,
    fun hwidth => ⟨meets_once hwidth, marked_iff hwidth⟩⟩

/-- A reversed range over five letters and a caret among them, and the same two the other way round
with the caret repeated. Either way the letters are covered, cut and have the caret, though no range
alone covers and cuts them. -/
theorem flags_of_reversed_and_repeated :
    ∃ (span : Span) (s t : Selection), span.isEmpty = false ∧ s ≠ t ∧
      (∀ r, r ∈ s.ranges ↔ r ∈ t.ranges) ∧ ofSelection span s = ⟨true, true, true⟩ ∧
      ofSelection span t = ⟨true, true, true⟩ ∧
      (∃ r ∈ s.ranges, r.low < span.stop ∧ span.start < r.high) ∧
      ∀ r, ExactlyOne ((ofSelection span (.single r)).covered = true)
        ((ofSelection span (.single r)).cut = true) (r.high ≤ span.start ∨ span.stop ≤ r.low) := by
  let letters : Span := ⟨5, 10, by decide⟩
  let s : Selection := ⟨⟨10, 5⟩, [.caret 7]⟩
  let t : Selection := ⟨.caret 7, [.caret 7, ⟨10, 5⟩]⟩
  obtain ⟨-, -, -, -, hsame, hmeets⟩ := flags_of_ranges letters s
  obtain ⟨honce, hmarked⟩ := hmeets rfl
  have hranges : ∀ r, r ∈ s.ranges ↔ r ∈ t.ranges := by
    have hs : s.ranges = [⟨10, 5⟩, .caret 7] := rfl
    have ht : t.ranges = [.caret 7, .caret 7, ⟨10, 5⟩] := rfl
    simp [hs, ht, or_comm]
  have hall : ofSelection letters s = ⟨true, true, true⟩ := by decide
  exact ⟨letters, s, t, rfl, by decide, hranges, hall, (hsame t hranges).symm.trans hall,
    hmarked.1 (.inl (by rw [hall])), honce⟩

/-! ## A node inside another -/

/-- What lies inside a covered span is covered. -/
theorem covered_of_contains (h : outer.contains inner = true)
    (hcovered : (ofSelection outer s).covered = true) : (ofSelection inner s).covered = true := by
  obtain ⟨r, hr, hlow, hhigh⟩ := covered_iff.1 hcovered
  obtain ⟨hstart, hstop⟩ := Span.contains_iff.1 h
  exact covered_iff.2 ⟨r, hr, Nat.le_trans hlow hstart, Nat.le_trans hstop hhigh⟩

/-- A span around one that is cut is cut. -/
theorem cut_of_contains (h : outer.contains inner = true)
    (hcut : (ofSelection inner s).cut = true) : (ofSelection outer s).cut = true := by
  obtain ⟨r, hr, hinside⟩ := cut_iff.1 hcut
  obtain ⟨hstart, hstop⟩ := Span.contains_iff.1 h
  refine cut_iff.2 ⟨r, hr, ?_⟩
  omega

/-- Around a span with the caret on it, the caret is on the outer span or cuts it, unless the inner
one begins where the outer one ends. -/
theorem caret_of_contains (h : outer.contains inner = true) (hend : inner.start ≠ outer.stop)
    (hcaret : (ofSelection inner s).caret = true) :
    (ofSelection outer s).caret = true ∨ (ofSelection outer s).cut = true := by
  obtain ⟨r, hr, hhead⟩ := caret_iff.1 hcaret
  obtain ⟨hstart, hstop⟩ := Span.contains_iff.1 h
  have hordered := inner.ordered
  rcases Nat.eq_or_lt_of_le hstart with hsame | hlater
  · exact .inl (caret_iff.2 ⟨r, hr, hhead.trans hsame.symm⟩)
  · -- The head is one of the two ends of its range, and it is strictly inside the outer span.
    have hends : r.low = r.head ∨ r.high = r.head := by
      unfold Range.low Range.high
      omega
    refine .inr (cut_iff.2 ⟨r, hr, ?_⟩)
    omega

/-! ## A span that is selected -/

/-- What is selected from its start to its end covers what lies inside it. -/
theorem covered_selected_iff :
    (ofSelection inner (.single ⟨outer.start, outer.stop⟩)).covered = true ↔
      outer.contains inner = true := by
  have hlow : Range.low ⟨outer.start, outer.stop⟩ = outer.start := Nat.min_eq_left outer.ordered
  have hhigh : Range.high ⟨outer.start, outer.stop⟩ = outer.stop := Nat.max_eq_right outer.ordered
  rw [covered_single_iff, Span.contains_iff, hlow, hhigh]

/-- Around a selected span with width, what is no larger is covered, and what is larger is cut. -/
theorem flags_around_selected (h : outer.contains inner = true) (hwidth : inner.isEmpty = false) :
    ((ofSelection outer (.single ⟨inner.start, inner.stop⟩)).covered = true ↔ outer = inner) ∧
      ((ofSelection outer (.single ⟨inner.start, inner.stop⟩)).cut = true ↔ outer ≠ inner) := by
  have hlow : Range.low ⟨inner.start, inner.stop⟩ = inner.start := Nat.min_eq_left inner.ordered
  have hhigh : Range.high ⟨inner.start, inner.stop⟩ = inner.stop := Nat.max_eq_right inner.ordered
  have hordered := inner.ordered
  have hne : inner.start ≠ inner.stop := by simpa [Span.isEmpty] using hwidth
  obtain ⟨hstart, hstop⟩ := Span.contains_iff.1 h
  have hsame : outer = inner ↔ outer.start = inner.start ∧ outer.stop = inner.stop := by
    cases outer
    cases inner
    simp
  rw [covered_single_iff, cut_single_iff, hlow, hhigh, Ne, hsame]
  omega

end RowFlags

end TreePanel
