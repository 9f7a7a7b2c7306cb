import Mathlib.Data.List.Sort
import Mathlib.Data.List.TakeWhile
import Mathlib.Data.Nat.Count
import TreePanel.Lines

/-!
# Where lines begin

A scan finds the breaks of a text one after the other. But whether a break ends at an offset can be
told from the two characters around the offset alone (`Lines.BreakEndsAt`), and the scan finds just
those offsets, in order (`Lines.mem_breakEnds`, `Lines.pairwise_breakEnds`). So the line of an
offset is given in closed form (`Lines.lineOf_eq`): its number counts the breaks that end at or
before the offset, and its start is the greatest offset at which one of them ends. So each character
takes a line on or leaves it as it is (`Lines.lineOf_succ`), and what is to be known of lines
follows by induction on the offset.
-/

namespace TreePanel.Lines

variable {text : List Char} {c : Char} {offset p q : Nat}

/-! ## Breaks by the characters around them -/

/-- A break ends at an offset: the character before the offset ends a line, and it is no CR with an
LF behind it. -/
def BreakEndsAt (text : List Char) : Nat → Prop
  | 0 => False
  | before + 1 => text[before]?.any isBreak = true ∧
      ¬(text[before]? = some '\r' ∧ text[before + 1]? = some '\n')

instance (text : List Char) : DecidablePred (BreakEndsAt text)
  | 0 => inferInstanceAs (Decidable False)
  | _ + 1 => inferInstanceAs (Decidable (_ ∧ ¬(_ ∧ _)))

/-- Breaks end behind characters of the text. -/
theorem BreakEndsAt.bounds (h : BreakEndsAt text p) : 0 < p ∧ p ≤ text.length := by
  cases p with
  | zero => exact h.elim
  | succ before =>
    obtain ⟨c, hc, -⟩ := (Option.any_eq_true _ _).1 h.1
    exact ⟨Nat.succ_pos before, (List.getElem?_eq_some_iff.1 hc).1⟩

/-- Whether a break ends at an offset is told by the characters on both sides of it. -/
theorem breakEndsAt_congr {other : List Char} (hbefore : text[p]? = other[q]?)
    (hbehind : text[p + 1]? = other[q + 1]?) :
    BreakEndsAt text (p + 1) ↔ BreakEndsAt other (q + 1) := by
  show (_ ∧ ¬(_ ∧ _)) ↔ (_ ∧ ¬(_ ∧ _))
  rw [hbefore, hbehind]

/-- The breaks of a text with a character in front are one behind this character, if it ends a line
by itself, and those of the text. -/
theorem exists_breakEndsAt_cons :
    (∃ p, BreakEndsAt (c :: text) p ∧ q = offset + p) ↔
      (BreakEndsAt (c :: text) 1 ∧ q = offset + 1) ∨
        ∃ p, BreakEndsAt text p ∧ q = offset + 1 + p := by
  constructor
  · rintro ⟨_ | _ | p, h, rfl⟩
    · exact h.elim
    · exact .inl ⟨h, rfl⟩
    · exact .inr ⟨p + 1, h, by omega⟩
  · rintro (⟨h, rfl⟩ | ⟨_ | p, h, rfl⟩)
    · exact ⟨1, h, rfl⟩
    · exact h.elim
    · exact ⟨p + 2, h, by omega⟩

/-- A character ends a line by itself if it is one of those that do and no LF completes it. -/
theorem breakEndsAt_one : BreakEndsAt (c :: text) 1 ↔
    isBreak c = true ∧ ¬(c = '\r' ∧ text[0]? = some '\n') := by
  simp [BreakEndsAt]

/-! ## The scan -/

/-- The scan finds all breaks and nothing else. -/
theorem mem_breakEndsFrom :
    q ∈ breakEndsFrom offset text ↔ ∃ p, BreakEndsAt text p ∧ q = offset + p := by
  fun_induction breakEndsFrom offset text with
  | case1 offset =>
    refine ⟨nofun, ?_⟩
    rintro ⟨p, h, -⟩
    obtain ⟨hpos, hle⟩ := h.bounds
    exact absurd hle (Nat.not_le_of_lt hpos)
  | case2 offset rest ih =>
    -- The CR of a pair ends no line, and its LF does.
    rw [List.mem_cons, ih, exists_breakEndsAt_cons, exists_breakEndsAt_cons, breakEndsAt_one,
      breakEndsAt_one]
    simp [isBreak]
  | case3 offset c rest hpair hbreak ih =>
    have hone : BreakEndsAt (c :: rest) 1 := by
      refine breakEndsAt_one.2 ⟨hbreak, ?_⟩
      rintro ⟨rfl, hfirst⟩
      obtain ⟨tail, rfl⟩ : ∃ tail, rest = '\n' :: tail := by
        cases rest with
        | nil => cases hfirst
        | cons d tail => exact ⟨tail, by cases hfirst; rfl⟩
      exact hpair tail rfl rfl
    rw [List.mem_cons, ih, exists_breakEndsAt_cons]
    simp [hone]
  | case4 offset c rest hpair hbreak ih =>
    rw [ih, exists_breakEndsAt_cons, breakEndsAt_one]
    simp [hbreak]

/-- The scan finds the breaks of a text. -/
theorem mem_breakEnds : p ∈ breakEnds text ↔ BreakEndsAt text p := by
  rw [breakEnds, mem_breakEndsFrom]
  simp

/-- The scan finds breaks in order. -/
theorem pairwise_breakEndsFrom (offset : Nat) (text : List Char) :
    (breakEndsFrom offset text).Pairwise (· < ·) := by
  have hbehind : ∀ {offset : Nat} {rest : List Char} {q : Nat}, q ∈ breakEndsFrom offset rest →
      offset < q := by
    intro offset rest q hq
    obtain ⟨p, hp, rfl⟩ := mem_breakEndsFrom.1 hq
    exact Nat.lt_add_of_pos_right hp.bounds.1
  fun_induction breakEndsFrom offset text with
  | case1 offset => exact .nil
  | case2 offset rest ih => exact .cons (fun q hq => hbehind hq) ih
  | case3 offset c rest _ _ ih => exact .cons (fun q hq => hbehind hq) ih
  | case4 offset c rest _ _ ih => exact ih

/-- The breaks of a text are found in order. -/
theorem pairwise_breakEnds (text : List Char) : (breakEnds text).Pairwise (· < ·) :=
  pairwise_breakEndsFrom 0 text

/-! ## The line of an offset -/

/-- From a list in order, the members up to a bound are taken from the front. -/
theorem mem_takeWhile_le {ends : List Nat} (h : ends.Pairwise (· < ·)) :
    q ∈ ends.takeWhile (· ≤ p) ↔ q ∈ ends ∧ q ≤ p := by
  induction ends with
  | nil => simp
  | cons first rest ih =>
    obtain ⟨hfirst, hrest⟩ := List.pairwise_cons.1 h
    rw [List.takeWhile_cons]
    split
    · next hle =>
      rw [List.mem_cons, List.mem_cons, ih hrest]
      have hle : first ≤ p := of_decide_eq_true hle
      constructor
      · rintro (rfl | ⟨hq, hqp⟩)
        · exact ⟨.inl rfl, hle⟩
        · exact ⟨.inr hq, hqp⟩
      · rintro ⟨rfl | hq, hqp⟩
        · exact .inl rfl
        · exact .inr ⟨hq, hqp⟩
    · next hle =>
      -- The first member is beyond the bound, and the others are beyond it.
      have hlt : p < first := by simpa using hle
      refine ⟨nofun, ?_⟩
      rintro ⟨hq, hqp⟩
      rcases List.mem_cons.1 hq with rfl | hq
      · omega
      · have := hfirst q hq
        omega

/-- The breaks that end at or before an offset are those among the offsets up to it. -/
theorem takeWhile_breakEnds (text : List Char) (p : Nat) :
    (breakEnds text).takeWhile (· ≤ p) =
      (List.range (p + 1)).filter (fun q => decide (BreakEndsAt text q)) := by
  have hbreaks : ((breakEnds text).takeWhile (· ≤ p)).Pairwise (· < ·) :=
    (pairwise_breakEnds text).sublist (List.takeWhile_sublist _)
  have hrange : ((List.range (p + 1)).filter (fun q => decide (BreakEndsAt text q))).Pairwise
      (· < ·) := List.pairwise_lt_range.sublist List.filter_sublist
  refine hbreaks.eq_of_mem_iff hrange fun q => ?_
  rw [mem_takeWhile_le (pairwise_breakEnds text), mem_breakEnds, List.mem_filter, List.mem_range,
    decide_eq_true_eq, Nat.lt_succ_iff]
  exact and_comm

/-- The last offset up to a bound at which something holds is the greatest one. -/
theorem getLastD_filter_range (P : Nat → Prop) [DecidablePred P] (h : ¬P 0) (n : Nat) :
    ((List.range (n + 1)).filter (fun q => decide (P q))).getLastD 0 = Nat.findGreatest P n := by
  induction n with
  | zero => simp [h]
  | succ n ih =>
    rw [List.range_succ, List.filter_append, Nat.findGreatest_succ, ← ih]
    by_cases hlast : P (n + 1)
    · simp [hlast]
    · simp [hlast]

/-- The number of a line counts the breaks that end at or before the offset, and its start is where
the last of them ends. -/
theorem lineOf_eq (text : List Char) (p : Nat) :
    lineOf text p =
      ⟨Nat.count (BreakEndsAt text) (p + 1) + 1, Nat.findGreatest (BreakEndsAt text) p⟩ := by
  rw [lineOf, takeWhile_breakEnds, lineAfter, getLastD_filter_range _ id, Nat.count,
    List.countP_eq_length_filter]

/-- A line starts at or before the offsets it holds. -/
theorem lineOf_start_le (text : List Char) (p : Nat) : (lineOf text p).start ≤ p := by
  rw [lineOf_eq]
  exact Nat.findGreatest_le p

/-- The line at the front of a text. -/
theorem lineOf_zero (text : List Char) : lineOf text 0 = ⟨1, 0⟩ := by
  have hnone : ¬BreakEndsAt text 0 := id
  rw [lineOf_eq, Nat.count_succ, Nat.count_zero, if_neg hnone, Nat.findGreatest_zero]

/-- One character on, the line is the next one if a break ends there, and the same one if none
does. -/
theorem lineOf_succ (text : List Char) (p : Nat) :
    lineOf text (p + 1) =
      if BreakEndsAt text (p + 1) then ⟨(lineOf text p).number + 1, p + 1⟩ else lineOf text p := by
  rw [lineOf_eq, lineOf_eq, Nat.count_succ _ (p + 1), Nat.findGreatest_succ]
  split <;> rfl

/-- Up to an offset, two texts with the same breaks have the same lines. -/
theorem lineOf_congr {other : List Char}
    (h : ∀ q ≤ p, BreakEndsAt text q ↔ BreakEndsAt other q) : lineOf text p = lineOf other p := by
  induction p with
  | zero => rw [lineOf_zero, lineOf_zero]
  | succ p ih =>
    rw [lineOf_succ, lineOf_succ, ih fun q hq => h q (Nat.le_succ_of_le hq),
      if_congr (h (p + 1) (Nat.le_refl _)) rfl rfl]

/-- The start of a line is on the line. -/
theorem lineOf_start (text : List Char) (p : Nat) :
    lineOf text (lineOf text p).start = lineOf text p := by
  induction p with
  | zero => rw [lineOf_zero, lineOf_zero]
  | succ p ih =>
    by_cases hbreak : BreakEndsAt text (p + 1)
    · have hline : lineOf text (p + 1) = ⟨(lineOf text p).number + 1, p + 1⟩ := by
        rw [lineOf_succ, if_pos hbreak]
      rw [hline]
      exact hline
    · rw [lineOf_succ, if_neg hbreak, ih]

/-- A text has a line more than breaks that end in it. -/
theorem count_eq (text : List Char) :
    count text = Nat.count (BreakEndsAt text) (text.length + 1) + 1 := by
  have hall : (breakEnds text).takeWhile (· ≤ text.length) = breakEnds text := by
    refine List.takeWhile_eq_self_iff.2 fun q hq => decide_eq_true ?_
    exact (mem_breakEnds.1 hq).bounds.2
  rw [count, ← hall, takeWhile_breakEnds, Nat.count, List.countP_eq_length_filter]

/-- The number of a line is one of those of the text's lines. -/
theorem number_lineOf_le (h : p ≤ text.length) : (lineOf text p).number ≤ count text := by
  rw [lineOf_eq, count_eq]
  exact Nat.succ_le_succ (Nat.count_monotone _ (Nat.succ_le_succ h))

end TreePanel.Lines
