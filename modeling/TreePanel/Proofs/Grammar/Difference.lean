import Mathlib.Data.List.TakeWhile
import Mathlib.Order.Bounds.Basic
import TreePanel.Count
import TreePanel.Proofs.Fault
import TreePanel.Proofs.Grammar.Edit

/-!
# The smallest edit between two texts

Of all edits that turn one text into another, the one that is computed leaves out the most: what is
cut off in front is the longest common beginning (`Edit.isGreatest_common`), and what is kept
behind is the longest common end that reaches into the beginning in neither text
(`Edit.isGreatest_kept`). In repetitive texts the two would overlap without that limit.

The points of an edit are told by what lies before an offset (`Point.Locates`): the rows that end
there, and a last row in which there is no line feed. There is one such point
(`Point.Locates.unique`).

The differences on the way are taken of natural numbers, which stop at zero. None of them would be
negative: with all of them checked, the same edit is computed (`Edit.computed_eq_ok`).
-/

namespace TreePanel

/-- The point is where an offset of a text lies. -/
structure Point.Locates (p : Point) (text : List UInt8) (offset : Nat) : Prop where
  /-- A row ends at every line feed before the offset. -/
  rows : p.row = (text.take offset).count Edit.lineFeed
  column_le : p.column ≤ offset
  /-- Since its row began, there was no line feed. -/
  row_open : ∀ i, offset - p.column ≤ i → i < offset → text[i]? ≠ some Edit.lineFeed
  /-- Its row began with the text, or after a line feed. -/
  row_begun : p.column = offset ∨ text[offset - (p.column + 1)]? = some Edit.lineFeed

/-- The row of one of two points at an offset does not begin before that of the other. -/
theorem Point.Locates.column_le_column {p q : Point} {text : List UInt8} {offset : Nat}
    (hp : p.Locates text offset) (hq : q.Locates text offset) : q.column ≤ p.column := by
  rcases hp.row_begun with hall | hfeed
  · rw [hall]
    exact hq.column_le
  · by_contra hlt
    have hle : q.column ≤ offset := hq.column_le
    exact hq.row_open (offset - (p.column + 1)) (by omega) (by omega) hfeed

/-- An offset has one point. -/
theorem Point.Locates.unique {p q : Point} {text : List UInt8} {offset : Nat}
    (hp : p.Locates text offset) (hq : q.Locates text offset) : p = q := by
  have hrow : p.row = q.row := hp.rows.trans hq.rows.symm
  have hcolumn : p.column = q.column :=
    Nat.le_antisymm (hq.column_le_column hp) (hp.column_le_column hq)
  calc p = ⟨p.row, p.column⟩ := rfl
    _ = ⟨q.row, q.column⟩ := by rw [hrow, hcolumn]
    _ = q := rfl

namespace Edit

/-! ## Points -/

/-- The point that is computed for an offset is the one it has. -/
theorem pointAt_locates {text : List UInt8} {offset : Nat} (h : offset ≤ text.length) :
    (pointAt text offset).Locates text offset := by
  obtain ⟨before, hbefore⟩ : ∃ before, before = text.take offset := ⟨_, rfl⟩
  obtain ⟨row, hrow⟩ : ∃ row, row = before.reverse.takeWhile (· ≠ lineFeed) := ⟨_, rfl⟩
  obtain ⟨rest, hrest⟩ : ∃ rest, rest = before.reverse.dropWhile (· ≠ lineFeed) := ⟨_, rfl⟩
  have hpoint : pointAt text offset = ⟨before.count lineFeed, row.length⟩ := by
    rw [hrow, hbefore]
    rfl
  -- Read backwards, the last row comes first.
  have hsplit : before = rest.reverse ++ row.reverse := by
    rw [← List.reverse_append, hrow, hrest, List.takeWhile_append_dropWhile, List.reverse_reverse]
  have hlength : rest.length + row.length = offset := by
    have hcount : before.length = offset := by rw [hbefore, List.length_take_of_le h]
    rwa [hsplit, List.length_append, List.length_reverse, List.length_reverse] at hcount
  have hsame : ∀ i, i < offset → text[i]? = before[i]? := fun i hi => by
    rw [hbefore, List.getElem?_take_of_lt hi]
  rw [hpoint]
  refine ⟨by rw [hbefore], ?_, fun i hfrom hto hfeed => ?_, ?_⟩
  · show row.length ≤ offset
    omega
  · have hin : rest.reverse.length ≤ i := by
      have hbegun : offset - row.length ≤ i := hfrom
      rw [List.length_reverse]
      omega
    rw [hsame i hto, hsplit, List.getElem?_append_right hin] at hfeed
    have hmem : lineFeed ∈ row := List.mem_reverse.1 (List.mem_of_getElem? hfeed)
    rw [hrow] at hmem
    exact absurd (List.mem_takeWhile_imp hmem) (by decide)
  · show row.length = offset ∨ text[offset - (row.length + 1)]? = some lineFeed
    cases hcase : rest with
    | nil =>
      rw [hcase, List.length_nil] at hlength
      exact .inl (by omega)
    | cons b more =>
      right
      have hfeed : b = lineFeed := by
        have hfails := List.head?_dropWhile_not (· ≠ lineFeed) before.reverse
        rw [← hrest, hcase] at hfails
        simpa using hfails
      have hlast : offset - (row.length + 1) = more.reverse.length := by
        rw [hcase, List.length_cons] at hlength
        rw [List.length_reverse]
        omega
      have hlt : offset - (row.length + 1) < offset := by
        rw [hcase, List.length_cons] at hlength
        omega
      rw [hsame _ hlt, hsplit, hcase, hlast, List.reverse_cons, List.append_assoc,
        List.getElem?_append_right (Nat.le_refl _), Nat.sub_self, hfeed]
      rfl

/-! ## The longest beginning and the longest end -/

/-- Two texts have no longer beginning in common than the one that is found. -/
theorem le_common {as bs : List UInt8} {n : Nat} (has : n ≤ as.length) (hbs : n ≤ bs.length)
    (h : as.take n = bs.take n) : n ≤ common as bs := by
  induction n generalizing as bs with
  | zero => exact Nat.zero_le _
  | succ n ih =>
    cases as with
    | nil => exact absurd has (Nat.not_succ_le_zero n)
    | cons a as =>
      cases bs with
      | nil => exact absurd hbs (Nat.not_succ_le_zero n)
      | cons b bs =>
        rw [List.take_succ_cons, List.take_succ_cons] at h
        obtain ⟨hfirst, hrest⟩ := List.cons.inj h
        have hle : n ≤ common as bs :=
          ih (Nat.le_of_succ_le_succ has) (Nat.le_of_succ_le_succ hbs) hrest
        rw [common, if_pos hfirst]
        exact Nat.succ_le_succ hle

/-- What is found is the longest common beginning. -/
theorem isGreatest_common (as bs : List UInt8) :
    IsGreatest {n | n ≤ as.length ∧ n ≤ bs.length ∧ as.take n = bs.take n} (common as bs) := by
  obtain ⟨has, hbs⟩ := common_le as bs
  exact ⟨⟨has, hbs, take_common as bs⟩, fun n hn => le_common hn.1 hn.2.1 hn.2.2⟩

/-- Texts end in the same `n` bytes exactly if they begin with them when they are read backwards. -/
theorem drop_eq_iff_reverse {as bs : List UInt8} {n : Nat} :
    as.drop (as.length - n) = bs.drop (bs.length - n) ↔
      as.reverse.take n = bs.reverse.take n := by
  rw [List.take_reverse, List.take_reverse, List.reverse_inj]

/-- How many bytes are kept behind: as many as both texts end with, up to the end of their common
beginning in either text. -/
def kept (old new : List UInt8) : Nat :=
  let atMost := min (old.length - common old new) (new.length - common old new)
  common (old.reverse.take atMost) (new.reverse.take atMost)

/-- What is kept behind is the longest common end that reaches into the common beginning in neither
text. -/
theorem isGreatest_kept (old new : List UInt8) :
    IsGreatest {n | common old new + n ≤ old.length ∧ common old new + n ≤ new.length ∧
      old.drop (old.length - n) = new.drop (new.length - n)} (kept old new) := by
  obtain ⟨hold, hnew⟩ := common_le old new
  obtain ⟨atMost, hatMost⟩ : ∃ atMost,
      atMost = min (old.length - common old new) (new.length - common old new) := ⟨_, rfl⟩
  have hkept : kept old new = common (old.reverse.take atMost) (new.reverse.take atMost) := by
    rw [hatMost]
    rfl
  have hlength : (old.reverse.take atMost).length = atMost ∧
      (new.reverse.take atMost).length = atMost := by
    rw [List.length_take, List.length_take, List.length_reverse, List.length_reverse]
    omega
  obtain ⟨⟨hle, -, hsame⟩, hgreatest⟩ :=
    isGreatest_common (old.reverse.take atMost) (new.reverse.take atMost)
  rw [← hkept] at hle hsame hgreatest
  rw [hlength.1] at hle
  constructor
  · refine ⟨by omega, by omega, drop_eq_iff_reverse.2 ?_⟩
    rwa [List.take_take, List.take_take, Nat.min_eq_left hle] at hsame
  · rintro n ⟨hinold, hinnew, hend⟩
    have hn : n ≤ atMost := by omega
    refine hgreatest ⟨by omega, by omega, ?_⟩
    rw [List.take_take, List.take_take, Nat.min_eq_left hn]
    exact drop_eq_iff_reverse.1 hend

/-! ## Differences that are checked -/

/-- The offset of the last line feed, if there is one. -/
def lastLineFeed? : List UInt8 → Option Nat
  | [] => none
  | b :: rest =>
    match lastLineFeed? rest with
    | some i => some (i + 1)
    | none => if b = lineFeed then some 0 else none

/-- Where no last line feed is found there is none; the last one is a line feed, and there is none
after it. -/
theorem lastLineFeed?_spec (bytes : List UInt8) :
    (∀ i : Nat, lastLineFeed? bytes = some i →
      bytes[i]? = some lineFeed ∧ ∀ j : Nat, i < j → bytes[j]? ≠ some lineFeed) ∧
    (lastLineFeed? bytes = none → ∀ j : Nat, bytes[j]? ≠ some lineFeed) := by
  induction bytes with
  | nil => exact ⟨nofun, fun _ j hfeed => by cases hfeed⟩
  | cons b rest ih =>
    obtain ⟨hfound, hnone⟩ := ih
    cases hrest : lastLineFeed? rest with
    | some k =>
      have hlast : lastLineFeed? (b :: rest) = some (k + 1) := by rw [lastLineFeed?, hrest]
      obtain ⟨hfeed, hafter⟩ := hfound k hrest
      rw [hlast]
      refine ⟨fun i hi => ?_, nofun⟩
      obtain rfl := Option.some.inj hi
      refine ⟨hfeed, fun j hj => ?_⟩
      cases j with
      | zero => exact absurd hj (Nat.not_lt_zero _)
      | succ j => exact hafter j (Nat.lt_of_succ_lt_succ hj)
    | none =>
      have hlast : lastLineFeed? (b :: rest) = if b = lineFeed then some 0 else none := by
        rw [lastLineFeed?, hrest]
      rw [hlast]
      by_cases hb : b = lineFeed
      · rw [if_pos hb]
        refine ⟨fun i hi => ?_, nofun⟩
        obtain rfl := Option.some.inj hi
        refine ⟨congrArg some hb, fun j hj => ?_⟩
        cases j with
        | zero => exact absurd hj (Nat.lt_irrefl _)
        | succ j => exact hnone hrest j
      · rw [if_neg hb]
        refine ⟨nofun, fun _ j => ?_⟩
        cases j with
        | zero => exact fun hfeed => hb (Option.some.inj hfeed)
        | succ j => exact hnone hrest j

/-- The point of an offset by the last line feed before it, with all differences checked. -/
def computedPoint (text : List UInt8) (offset : Nat) : Except Fault Point :=
  let before := text.take offset
  match lastLineFeed? before with
  | some i => do
    let since ← Count.sub offset i
    let column ← Count.sub since 1
    return ⟨before.count lineFeed, column⟩
  | none => return ⟨before.count lineFeed, offset⟩

/-- The edit between two texts, with all differences checked. -/
def computed (old new : List UInt8) : Except Fault Edit := do
  let start := common old new
  let oldLeft ← Count.sub old.length start
  let newLeft ← Count.sub new.length start
  let atMost := min oldLeft newLeft
  let kept := common (old.reverse.take atMost) (new.reverse.take atMost)
  let oldStop ← Count.sub old.length kept
  let newStop ← Count.sub new.length kept
  return ⟨start, oldStop, newStop, ← computedPoint old start, ← computedPoint old oldStop,
    ← computedPoint new newStop⟩

/-- The last line feed before an offset is before it, so the point can be computed. -/
theorem computedPoint_eq_ok {text : List UInt8} {offset : Nat} (h : offset ≤ text.length) :
    computedPoint text offset = .ok (pointAt text offset) := by
  have hlength : (text.take offset).length = offset := List.length_take_of_le h
  have hsame : ∀ i, i < offset → text[i]? = (text.take offset)[i]? := fun i hi =>
    (List.getElem?_take_of_lt hi).symm
  obtain ⟨hfound, hnone⟩ := lastLineFeed?_spec (text.take offset)
  cases hlast : lastLineFeed? (text.take offset) with
  | none =>
    have hpoint : computedPoint text offset = .ok ⟨(text.take offset).count lineFeed, offset⟩ := by
      simp only [computedPoint, hlast]
      rfl
    rw [hpoint]
    refine congrArg Except.ok (Point.Locates.unique ?_ (pointAt_locates h))
    refine ⟨rfl, Nat.le_refl _, fun i _ hi => ?_, .inl rfl⟩
    rw [hsame i hi]
    exact hnone hlast i
  | some i =>
    obtain ⟨hfeed, hafter⟩ := hfound i hlast
    have hi : i < offset := by
      obtain ⟨hlt, -⟩ := List.getElem?_eq_some_iff.1 hfeed
      omega
    have hpoint : computedPoint text offset =
        .ok ⟨(text.take offset).count lineFeed, offset - i - 1⟩ := by
      simp only [computedPoint, hlast]
      rw [Count.sub_eq_ok (Nat.le_of_lt hi)]
      show (Count.sub (offset - i) 1 >>= _) = _
      rw [Count.sub_eq_ok (by omega)]
      rfl
    rw [hpoint]
    refine congrArg Except.ok (Point.Locates.unique ?_ (pointAt_locates h))
    have hback : offset - (offset - i - 1 + 1) = i := by omega
    refine ⟨rfl, ?_, fun j hfrom hj => ?_, .inr ?_⟩
    · show offset - i - 1 ≤ offset
      omega
    · have hlater : i < j := by
        have hbegun : offset - (offset - i - 1) ≤ j := hfrom
        omega
      rw [hsame j hj]
      exact hafter j hlater
    · show text[offset - (offset - i - 1 + 1)]? = some lineFeed
      rw [hback, hsame i hi]
      exact hfeed

/-- No difference on the way to the edit would be negative. -/
theorem computed_eq_ok (old new : List UInt8) : computed old new = .ok (ofBytes old new) := by
  obtain ⟨hold, hnew⟩ := common_le old new
  obtain ⟨⟨hkeptOld, hkeptNew, -⟩, -⟩ := isGreatest_kept old new
  have holdLeft : Count.sub old.length (common old new) = .ok (old.length - common old new) :=
    Count.sub_eq_ok hold
  have hnewLeft : Count.sub new.length (common old new) = .ok (new.length - common old new) :=
    Count.sub_eq_ok hnew
  have holdStop : Count.sub old.length (kept old new) = .ok (old.length - kept old new) :=
    Count.sub_eq_ok (by omega)
  have hnewStop : Count.sub new.length (kept old new) = .ok (new.length - kept old new) :=
    Count.sub_eq_ok (by omega)
  refine bind_eq_ok.2 ⟨_, holdLeft, bind_eq_ok.2 ⟨_, hnewLeft, ?_⟩⟩
  refine bind_eq_ok.2 ⟨_, holdStop, bind_eq_ok.2 ⟨_, hnewStop, ?_⟩⟩
  refine bind_eq_ok.2 ⟨_, computedPoint_eq_ok hold, ?_⟩
  refine bind_eq_ok.2 ⟨_, computedPoint_eq_ok (Nat.sub_le _ _), ?_⟩
  exact bind_eq_ok.2 ⟨_, computedPoint_eq_ok (Nat.sub_le _ _), rfl⟩

/-! ## The edit between two texts -/

/-- Putting the bytes of the new range in place of those of the old one gives the new text. -/
theorem Turns.splice_eq {edit : Edit} {old new : List UInt8} (h : edit.Turns old new) :
    old.take edit.start ++ (new.take edit.newStop).drop edit.start ++ old.drop edit.oldStop =
      new := by
  have hfront : old.take edit.start = (new.take edit.newStop).take edit.start := by
    rw [h.before, List.take_take, Nat.min_eq_left h.newRange.1]
  rw [hfront, List.take_append_drop, h.after, List.take_append_drop]

/-- The edit between two texts. There is none exactly if the texts are equal. Otherwise no
difference on the way to it would be negative; its ranges are ranges of the two texts, which agree
before and behind them, so that putting the new range in place of the old one gives the new text; it
starts after the longest common beginning, and leaves out the longest common end that reaches into
that beginning in neither text; and its points are where its offsets lie, the first one in both
texts. -/
theorem edit_between (old new : List Char) :
    (between? old new = none ↔ old = new) ∧
    ∀ edit, between? old new = some edit →
      let a := RangeTree.bytes old
      let b := RangeTree.bytes new
      computed a b = .ok edit ∧
      (edit.start ≤ edit.oldStop ∧ edit.oldStop ≤ a.length) ∧
      (edit.start ≤ edit.newStop ∧ edit.newStop ≤ b.length) ∧
      a.take edit.start = b.take edit.start ∧
      a.drop edit.oldStop = b.drop edit.newStop ∧
      a.take edit.start ++ (b.take edit.newStop).drop edit.start ++ a.drop edit.oldStop = b ∧
      IsGreatest {n | n ≤ a.length ∧ n ≤ b.length ∧ a.take n = b.take n} edit.start ∧
      a.length - edit.oldStop = b.length - edit.newStop ∧
      IsGreatest {n | edit.start + n ≤ a.length ∧ edit.start + n ≤ b.length ∧
        a.drop (a.length - n) = b.drop (b.length - n)} (a.length - edit.oldStop) ∧
      edit.startPoint.Locates a edit.start ∧ edit.startPoint.Locates b edit.start ∧
      edit.oldStopPoint.Locates a edit.oldStop ∧ edit.newStopPoint.Locates b edit.newStop := by
  constructor
  · unfold between?
    split
    · next heq => exact ⟨fun _ => heq, fun _ => rfl⟩
    · next hne => exact ⟨nofun, fun heq => absurd heq hne⟩
  · intro edit hedit a b
    have hturns : edit.Turns a b := between?_turns hedit
    have hof : edit = ofBytes a b := by
      unfold between? at hedit
      split at hedit
      · cases hedit
      · exact (Option.some.inj hedit).symm
    have hstart : edit.start = common a b := by rw [hof]; rfl
    have hold : edit.oldStop = a.length - kept a b := by rw [hof]; rfl
    have hnew : edit.newStop = b.length - kept a b := by rw [hof]; rfl
    obtain ⟨hlea, hleb⟩ := common_le a b
    have hgreatest := isGreatest_kept a b
    rw [← hstart] at hgreatest
    obtain ⟨hkepta, hkeptb, -⟩ := hgreatest.1
    have hleft : a.length - edit.oldStop = kept a b := by omega
    obtain ⟨hstartPoint, holdPoint, hnewPoint⟩ := hturns.points
    -- The starting point depends on nothing but what lies before it.
    have hstartPoint' : edit.startPoint = pointAt b edit.start := by
      rw [hstartPoint, pointAt, pointAt, hturns.before]
    refine ⟨?_, hturns.oldRange, hturns.newRange, hturns.before, hturns.after, hturns.splice_eq, ?_,
      by omega, ?_, ?_, ?_, ?_, ?_⟩
    · rw [hof]
      exact computed_eq_ok a b
    · rw [hstart]
      exact isGreatest_common a b
    · rw [hleft]
      exact hgreatest
    · rw [hstartPoint]
      exact pointAt_locates (hstart ▸ hlea)
    · rw [hstartPoint']
      exact pointAt_locates (hstart ▸ hleb)
    · rw [holdPoint]
      exact pointAt_locates hturns.oldRange.2
    · rw [hnewPoint]
      exact pointAt_locates hturns.newRange.2

/-- Of four equal letters two are left. All of the new text is the common beginning, so nothing is
kept behind, although both texts end in the same two letters. A line feed that is put before a
letter of two bytes begins a row. -/
theorem edit_between_repeated :
    between? "aaaa".toList "aa".toList = some ⟨2, 4, 2, ⟨0, 2⟩, ⟨0, 4⟩, ⟨0, 2⟩⟩ ∧
    computed [97, 97, 97, 97] [97, 97] = .ok ⟨2, 4, 2, ⟨0, 2⟩, ⟨0, 4⟩, ⟨0, 2⟩⟩ ∧
    IsGreatest
      {n | n ≤ 4 ∧ n ≤ 2 ∧ List.take n [(97 : UInt8), 97, 97, 97] = List.take n [97, 97]} 2 ∧
    IsGreatest {n | 2 + n ≤ 4 ∧ 2 + n ≤ 2 ∧
      List.drop (4 - n) [(97 : UInt8), 97, 97, 97] = List.drop (2 - n) [97, 97]} 0 ∧
    between? "é\né".toList "é\n\né".toList = some ⟨3, 3, 4, ⟨1, 0⟩, ⟨1, 0⟩, ⟨2, 0⟩⟩ ∧
    Point.Locates ⟨2, 0⟩ [0xc3, 0xa9, 10, 10, 0xc3, 0xa9] 4 := by
  have hfour : RangeTree.bytes "aaaa".toList = [97, 97, 97, 97] := by decide +kernel
  have htwo : RangeTree.bytes "aa".toList = [97, 97] := by decide +kernel
  have hrows : RangeTree.bytes "é\n\né".toList = [0xc3, 0xa9, 10, 10, 0xc3, 0xa9] := by
    decide +kernel
  have hfirst : between? "aaaa".toList "aa".toList =
      some ⟨2, 4, 2, ⟨0, 2⟩, ⟨0, 4⟩, ⟨0, 2⟩⟩ := by decide +kernel
  have hsecond : between? "é\né".toList "é\n\né".toList =
      some ⟨3, 3, 4, ⟨1, 0⟩, ⟨1, 0⟩, ⟨2, 0⟩⟩ := by decide +kernel
  obtain ⟨hcomputed, -, -, -, -, -, hbegin, -, hend, -⟩ := (edit_between _ _).2 _ hfirst
  obtain ⟨-, -, -, -, -, -, -, -, -, -, -, -, hpoint⟩ := (edit_between _ _).2 _ hsecond
  rw [hfour, htwo] at hcomputed hbegin hend
  rw [hrows] at hpoint
  exact ⟨hfirst, hcomputed, hbegin, hend, hsecond, hpoint⟩

end Edit

end TreePanel
