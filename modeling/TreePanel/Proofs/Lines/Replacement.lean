import TreePanel.Proofs.Editor
import TreePanel.Proofs.Position

/-!
# Lines after a replacement

A replacement makes and unmakes breaks only at the edges of its range and between them. In front of
the range, the breaks end where they did (`Lines.breakEndsAt_splice_front`), and at the front edge
too, if no CR stands before it that an LF could complete (`Lines.breakEndsAt_splice_start`). Behind
the range, they have moved with the text (`Lines.breakEndsAt_splice_behind`). So the lines in front
are what they were, and those behind are counted on from the back edge as before, with the starts
behind that edge moved along (`Document.lineAt_replace`).
-/

namespace TreePanel

namespace Lines

variable {text other inserted : List Char} {start stop before p p' q i : Nat}

/-! ## Breaks -/

/-- Behind a character that is no CR, it makes no difference what comes next. -/
theorem breakEndsAt_of_ne_cr (h : text[before]? ≠ some '\r') :
    BreakEndsAt text (before + 1) ↔ text[before]?.any isBreak = true :=
  and_iff_left fun hpair => h hpair.1

/-- In front of the range, breaks end where they did. -/
theorem breakEndsAt_splice_front (hstart : start ≤ text.length) (h : q < start) :
    BreakEndsAt (Document.splice text start stop inserted) q ↔ BreakEndsAt text q := by
  cases q with
  | zero => exact Iff.rfl
  | succ before =>
    exact breakEndsAt_congr (Document.getElem?_splice_front hstart (by omega))
      (Document.getElem?_splice_front hstart h)

/-- Where the range begins, a break ends if one did, unless the character before is a CR. -/
theorem breakEndsAt_splice_start (hstart : start ≤ text.length)
    (h : (text.take start).getLast? ≠ some '\r') :
    BreakEndsAt (Document.splice text start stop inserted) start ↔ BreakEndsAt text start := by
  cases start with
  | zero => exact Iff.rfl
  | succ before =>
    have hsame : (Document.splice text (before + 1) stop inserted)[before]? = text[before]? :=
      Document.getElem?_splice_front hstart (Nat.lt_succ_self before)
    have hcr : text[before]? ≠ some '\r' := by
      rwa [List.getLast?_eq_getElem?, List.length_take_of_le hstart, Nat.add_sub_cancel,
        List.getElem?_take_of_lt (Nat.lt_succ_self before)] at h
    rw [breakEndsAt_of_ne_cr hcr, breakEndsAt_of_ne_cr (hsame ▸ hcr), hsame]

/-- Behind the range, breaks have moved with the text. -/
theorem breakEndsAt_splice_behind (hrange : start ≤ stop ∧ stop ≤ text.length) (i : Nat) :
    BreakEndsAt (Document.splice text start stop inserted) (start + inserted.length + i + 1) ↔
      BreakEndsAt text (stop + i + 1) := by
  have hstart : start ≤ text.length := Nat.le_trans hrange.1 hrange.2
  have hmoved : ∀ j, (Document.splice text start stop inserted)[start + inserted.length + j]? =
      text[stop + j]? := by
    intro j
    have himage : start + inserted.length + j = stop + j - (stop - start) + inserted.length := by
      omega
    rw [himage, Document.getElem?_splice_behind hstart hrange.1 (Nat.le_add_right stop j)]
  exact breakEndsAt_congr (hmoved i) (hmoved (i + 1))

/-! ## Lines that go on in the same way -/

section Behind

variable (h : ∀ i, BreakEndsAt other (p' + i + 1) ↔ BreakEndsAt text (p + i + 1))
include h

/-- Behind two offsets with the same breaks behind them, lines are counted on in the same way. -/
theorem number_lineOf_behind (i : Nat) :
    (lineOf other (p' + i)).number + (lineOf text p).number =
      (lineOf text (p + i)).number + (lineOf other p').number := by
  induction i with
  | zero => exact Nat.add_comm _ _
  | succ i ih =>
    rw [← Nat.add_assoc, ← Nat.add_assoc, lineOf_succ, lineOf_succ]
    by_cases hbreak : BreakEndsAt text (p + i + 1)
    · rw [if_pos ((h i).2 hbreak), if_pos hbreak]
      show _ + 1 + _ = _ + 1 + _
      omega
    · rw [if_neg (fun hother => hbreak ((h i).1 hother)), if_neg hbreak, ih]

/-- Behind two offsets with the same breaks behind them, lines start in the same places as soon as
one of these breaks has ended. -/
theorem start_lineOf_behind (hbreak : ∃ j < i, BreakEndsAt text (p + j + 1)) :
    ∃ j < i, (lineOf text (p + i)).start = p + j + 1 ∧
      (lineOf other (p' + i)).start = p' + j + 1 := by
  induction i with
  | zero =>
    obtain ⟨j, hj, -⟩ := hbreak
    exact absurd hj (Nat.not_lt_zero j)
  | succ i ih =>
    rw [← Nat.add_assoc, ← Nat.add_assoc, lineOf_succ, lineOf_succ]
    by_cases hlast : BreakEndsAt text (p + i + 1)
    · rw [if_pos ((h i).2 hlast), if_pos hlast]
      exact ⟨i, Nat.lt_succ_self i, rfl, rfl⟩
    · -- The break ended before the last character, and the lines go on.
      rw [if_neg (fun hother => hlast ((h i).1 hother)), if_neg hlast]
      obtain ⟨j, hj, hends⟩ := hbreak
      have hji : j < i := by
        refine Nat.lt_of_le_of_ne (Nat.le_of_lt_succ hj) ?_
        rintro rfl
        exact hlast hends
      obtain ⟨j', hj', hstarts⟩ := ih ⟨j, hji, hends⟩
      exact ⟨j', Nat.lt_succ_of_lt hj', hstarts⟩

end Behind

end Lines

namespace Document

/-- Two documents with the same breaks up to an offset have the same line there. -/
theorem lineAt_of_same_breaks {d d' : Document} {offset : Nat} (h : offset ≤ d.length)
    (h' : offset ≤ d'.length)
    (hbreaks : ∀ q ≤ offset, Lines.BreakEndsAt d'.text q ↔ Lines.BreakEndsAt d.text q) :
    ∃ line, d.lineAt offset = .ok line ∧ d'.lineAt offset = .ok line :=
  ⟨_, lineAt_eq_ok.2 ⟨h, rfl⟩, lineAt_eq_ok.2 ⟨h', Lines.lineOf_congr hbreaks⟩⟩

/-- A replacement changes lines only locally. In front of its range, every offset is on the line
that it was on, and so is the start of the range, unless the character before it is a CR. Behind its
range, the lines between the end of the range and an offset are as many as before, and if one of
them begins there, the line of the offset starts where it did in the text that has moved. -/
theorem lineAt_replace (d : Document) {start stop : Nat} {inserted : List Char}
    (hrange : start ≤ stop ∧ stop ≤ d.length) :
    ∃ d', d.replace start stop inserted = .ok d' ∧
      (∀ o < start, ∃ line, d.lineAt o = .ok line ∧ d'.lineAt o = .ok line) ∧
      ((d.text.take start).getLast? ≠ some '\r' →
        ∃ line, d.lineAt start = .ok line ∧ d'.lineAt start = .ok line) ∧
      ∀ o, stop ≤ o → o ≤ d.length →
        ∃ edge line edge' line', d.lineAt stop = .ok edge ∧ d.lineAt o = .ok line ∧
          d'.lineAt (start + inserted.length) = .ok edge' ∧
          d'.lineAt (o - (stop - start) + inserted.length) = .ok line' ∧
          (line'.number : ℤ) - edge'.number = line.number - edge.number ∧
          ((∃ q, stop < q ∧ q ≤ o ∧ Lines.BreakEndsAt d.text q) →
            stop < line.start ∧
              line'.start = line.start - (stop - start) + inserted.length) := by
  have hstart : start ≤ d.text.length := Nat.le_trans hrange.1 hrange.2
  obtain ⟨d', hreplace⟩ : ∃ d', d.replace start stop inserted = .ok d' :=
    ⟨_, replace_eq_ok.2 ⟨hrange, rfl⟩⟩
  have hlength : d'.length = d.length - (stop - start) + inserted.length :=
    length_replace hreplace
  have htext : d'.text = splice d.text start stop inserted := by
    obtain ⟨-, rfl⟩ := replace_eq_ok.1 hreplace
    rfl
  have hfront : ∀ q < start, Lines.BreakEndsAt d'.text q ↔ Lines.BreakEndsAt d.text q := by
    intro q hq
    rw [htext]
    exact Lines.breakEndsAt_splice_front hstart hq
  have hbehind : ∀ i, Lines.BreakEndsAt d'.text (start + inserted.length + i + 1) ↔
      Lines.BreakEndsAt d.text (stop + i + 1) := by
    rw [htext]
    exact Lines.breakEndsAt_splice_behind hrange
  refine ⟨d', hreplace, fun o ho => ?_, fun hcr => ?_, fun o hstop ho => ?_⟩
  · exact lineAt_of_same_breaks (by omega) (by omega) fun q hq =>
      hfront q (Nat.lt_of_le_of_lt hq ho)
  · refine lineAt_of_same_breaks (by omega) (by omega) fun q hq => ?_
    rcases Nat.lt_or_eq_of_le hq with hq | rfl
    · exact hfront q hq
    · rw [htext]
      exact Lines.breakEndsAt_splice_start hstart hcr
  · obtain ⟨i, rfl⟩ := Nat.exists_eq_add_of_le hstop
    have himage : stop + i - (stop - start) + inserted.length = start + inserted.length + i := by
      omega
    rw [himage]
    refine ⟨_, _, _, _, lineAt_eq_ok.2 ⟨hrange.2, rfl⟩, lineAt_eq_ok.2 ⟨ho, rfl⟩,
      lineAt_eq_ok.2 ⟨by omega, rfl⟩, lineAt_eq_ok.2 ⟨by omega, rfl⟩, ?_, ?_⟩
    · have hcounted := Lines.number_lineOf_behind hbehind i
      omega
    · rintro ⟨q, hstopq, hqo, hbreak⟩
      obtain ⟨j, rfl⟩ := Nat.exists_eq_add_of_lt hstopq
      have hj : j < i := by omega
      obtain ⟨j', hj', hold, hnew⟩ := Lines.start_lineOf_behind hbehind ⟨j, hj, hbreak⟩
      rw [hold, hnew]
      omega

/-- The CR of a pair is replaced by an LF and a CR, so that the LF behind it still ends the pair.
The start of the range stays on its line, and from the end of the range it is still two lines to the
end of the text, where the last of them has moved by one. -/
theorem lineAt_replace_within_pair :
    let d := ofText ['a', '\r', '\n', 'b', '\n', 'c'] .plain
    (1 ≤ 2 ∧ 2 ≤ d.length) ∧ (d.text.take 1).getLast? ≠ some '\r' ∧ 6 ≤ d.length ∧
      Lines.BreakEndsAt d.text 5 ∧ d.lineAt 2 = .ok ⟨1, 0⟩ ∧ d.lineAt 6 = .ok ⟨3, 5⟩ ∧
      ∃ d', d.replace 1 2 ['\n', '\r'] = .ok d' ∧
        (∃ line, d.lineAt 0 = .ok line ∧ d'.lineAt 0 = .ok line) ∧
        (∃ line, d.lineAt 1 = .ok line ∧ d'.lineAt 1 = .ok line) ∧
        ∃ edge line, d'.lineAt 3 = .ok edge ∧ d'.lineAt 7 = .ok line ∧
          (line.number : ℤ) - edge.number = 2 ∧ line.start = 6 := by
  intro d
  have hrange : 1 ≤ 2 ∧ 2 ≤ d.length := by decide
  have hcr : (d.text.take 1).getLast? ≠ some '\r' := by decide
  have hbreak : Lines.BreakEndsAt d.text 5 := by decide
  have hstop : d.lineAt 2 = .ok ⟨1, 0⟩ := rfl
  have hend : d.lineAt 6 = .ok ⟨3, 5⟩ := rfl
  obtain ⟨d', hreplace, hfront, hstart, hbehind⟩ := @lineAt_replace d 1 2 ['\n', '\r'] hrange
  obtain ⟨edge, line, edge', line', hedge, hline, hedge', hline', hnumber, hmoved⟩ :=
    hbehind 6 (by decide) (by decide)
  cases hedge.symm.trans hstop
  cases hline.symm.trans hend
  obtain ⟨-, hmoved⟩ := hmoved ⟨5, by decide, by decide, hbreak⟩
  exact ⟨hrange, hcr, by decide, hbreak, hstop, hend, d', hreplace, hfront 0 (by decide),
    hstart hcr, edge', line', hedge', hline', hnumber, hmoved⟩

/-- An LF put behind a CR takes the offset between them back to the line that both end together. -/
example :
    let d := ofText ['\r'] .plain
    d.lineAt 1 = .ok ⟨2, 1⟩ ∧ (d.replace 1 1 ['\n'] >>= (·.lineAt 1)) = .ok ⟨1, 0⟩ :=
  ⟨rfl, rfl⟩

end Document

end TreePanel
