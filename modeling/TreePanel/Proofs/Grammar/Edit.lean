import TreePanel.Grammar

/-!
# Edits that turn one text into another

An edit tells a grammar which bytes of the old text were replaced, so it may only be trusted if the
two texts agree everywhere else (`Edit.Turns`). The edit that is computed from two texts does: what
both begin with is cut off first and what both end with is looked for in the rest, so the two cuts
never overlap (`Edit.ofBytes_turns`).

A grammar follows edits if, given the tree of the old text, it finds the tree of the new one through
any edit that turns the one into the other. Such a grammar is faithful (`Grammar.Follows.faithful`).
-/

namespace TreePanel

namespace Edit

/-- The edit turns the old text into the new one. Outside the bytes that were replaced
they agree. -/
structure Turns (edit : Edit) (old new : List UInt8) : Prop where
  /-- The bytes that were replaced are bytes of the old text. -/
  oldRange : edit.start ≤ edit.oldStop ∧ edit.oldStop ≤ old.length
  /-- The bytes that replace them are bytes of the new text. -/
  newRange : edit.start ≤ edit.newStop ∧ edit.newStop ≤ new.length
  /-- Before them, both texts are the same. -/
  before : old.take edit.start = new.take edit.start
  /-- Behind them, both texts are the same. -/
  after : old.drop edit.oldStop = new.drop edit.newStop
  /-- The points are those of the offsets. -/
  points : edit.startPoint = pointAt old edit.start ∧
    edit.oldStopPoint = pointAt old edit.oldStop ∧ edit.newStopPoint = pointAt new edit.newStop

/-- What two texts begin with is no longer than either. -/
theorem common_le (as bs : List UInt8) : common as bs ≤ as.length ∧ common as bs ≤ bs.length := by
  induction as generalizing bs with
  | nil => exact ⟨Nat.zero_le _, Nat.zero_le _⟩
  | cons a as ih =>
    cases bs with
    | nil => exact ⟨Nat.zero_le _, Nat.zero_le _⟩
    | cons b bs =>
      unfold common
      split
      · obtain ⟨has, hbs⟩ := ih bs
        exact ⟨Nat.succ_le_succ has, Nat.succ_le_succ hbs⟩
      · exact ⟨Nat.zero_le _, Nat.zero_le _⟩

/-- What two texts begin with is the same in both. -/
theorem take_common (as bs : List UInt8) : as.take (common as bs) = bs.take (common as bs) := by
  induction as generalizing bs with
  | nil => rfl
  | cons a as ih =>
    cases bs with
    | nil => rfl
    | cons b bs =>
      unfold common
      split
      · next h => rw [List.take_succ_cons, List.take_succ_cons, h, ih bs]
      · rfl

/-- What two texts end with is what they begin with when they are read backwards. -/
theorem drop_eq_of_reverse {as bs : List UInt8} {kept : Nat}
    (h : as.reverse.take kept = bs.reverse.take kept) :
    as.drop (as.length - kept) = bs.drop (bs.length - kept) := by
  rw [List.take_reverse, List.take_reverse] at h
  exact List.reverse_inj.1 h

/-- The edit between two texts turns the one into the other. -/
theorem ofBytes_turns (old new : List UInt8) : (ofBytes old new).Turns old new := by
  obtain ⟨start, hstart⟩ : ∃ start, start = common old new := ⟨_, rfl⟩
  obtain ⟨atMost, hatMost⟩ : ∃ atMost, atMost = min (old.length - start) (new.length - start) :=
    ⟨_, rfl⟩
  obtain ⟨kept, hkept⟩ :
      ∃ kept, kept = common (old.reverse.take atMost) (new.reverse.take atMost) := ⟨_, rfl⟩
  have hedit : ofBytes old new = ⟨start, old.length - kept, new.length - kept, pointAt old start,
      pointAt old (old.length - kept), pointAt new (new.length - kept)⟩ := by
    rw [hkept, hatMost, hstart]
    rfl
  -- The two cuts leave each other alone.
  have hstarts : start ≤ old.length ∧ start ≤ new.length := hstart ▸ common_le old new
  have hbound : kept ≤ atMost := by
    have hle := (common_le (old.reverse.take atMost) (new.reverse.take atMost)).1
    rw [← hkept, List.length_take] at hle
    omega
  have hsuffix : old.reverse.take kept = new.reverse.take kept := by
    have htake := take_common (old.reverse.take atMost) (new.reverse.take atMost)
    rwa [← hkept, List.take_take, List.take_take, Nat.min_eq_left hbound] at htake
  rw [hedit]
  refine ⟨⟨?_, Nat.sub_le _ _⟩, ⟨?_, Nat.sub_le _ _⟩, ?_, drop_eq_of_reverse hsuffix, rfl, rfl, rfl⟩
  · show start ≤ old.length - kept
    omega
  · show start ≤ new.length - kept
    omega
  · show old.take start = new.take start
    rw [hstart]
    exact take_common old new

/-- The edit between two texts that differ turns the one into the other, byte by byte. -/
theorem between?_turns {old new : List Char} {edit : Edit} (h : between? old new = some edit) :
    edit.Turns (RangeTree.bytes old) (RangeTree.bytes new) := by
  unfold between? at h
  split at h
  · cases h
  · cases h
    exact ofBytes_turns _ _

end Edit

namespace Grammar

/-- Through an edit that turns one text into another, the tree of the one leads to that of the
other. -/
def Follows (g : Grammar) : Prop :=
  ∀ (old new : List Char) (tree : RangeTree) (edit : Edit), g.parse old = some tree →
    edit.Turns (RangeTree.bytes old) (RangeTree.bytes new) →
      g.reparse tree edit new = g.parse new

/-- A grammar that follows all edits follows those that are computed. -/
theorem Follows.faithful {g : Grammar} (h : g.Follows) : g.Faithful :=
  fun old new tree edit htree hedit => h old new tree edit htree (Edit.between?_turns hedit)

/-- A grammar that has no use for old trees follows every edit. -/
theorem follows_ofParse (parse : List Char → Option RangeTree) : (ofParse parse).Follows :=
  fun _ _ _ _ _ _ => rfl

/-- The grammar of JSON follows every edit. -/
theorem json_follows : Grammar.json.Follows := follows_ofParse Json.parse?

end Grammar

end TreePanel
