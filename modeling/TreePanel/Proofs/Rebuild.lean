import TreePanel.Rebuild

/-!
# Decisions on a stream of updates

An update makes the outline anew exactly if it changes the selection or brings another snapshot than
the update before it (`decisions_of_stream`). `Rebuild.decide` does not look at the update before:
it compares with the snapshot that it recorded, and it records one only when the outline is made
anew. But an update is skipped only if it brings the recorded snapshot. So the recorded snapshot is
that of the update before, skipped or not (`decide_snd`), and a stream of updates is decided pair by
pair (`decideAll_eq_zipWith`).
-/

namespace TreePanel

/-- What a decision on an update depends on. -/
def Update.grounds (u : Update) : Snapshot.Id × Bool × Option Origin :=
  (u.tree.id, u.selectionChanged, u.origin)

namespace Rebuild

/-! ## One update -/

/-- After an update the last snapshot is that of the update. -/
theorem decide_snd (r : Rebuild) (u : Update) :
    (r.decide u).2 = { r with last := some u.tree.id } := by
  unfold decide
  split
  · next hskip =>
    -- A skipped update brings the snapshot that is recorded already.
    have hlast : r.last = some u.tree.id := by
      simp only [Bool.and_eq_true, beq_iff_eq] at hskip
      exact hskip.1
    rw [← hlast]
  · rfl

/-- The outline is made anew for another selection and for another snapshot. -/
theorem rebuild_iff {r : Rebuild} {u : Update} :
    (r.decide u).1.rebuild = true ↔ u.selectionChanged = true ∨ r.last ≠ some u.tree.id := by
  unfold decide
  split
  · next hskip =>
    simp only [Bool.and_eq_true, beq_iff_eq, Bool.not_eq_true'] at hskip
    simp [Decision.skip, hskip.1, hskip.2]
  · next hrenew =>
    have hcause : r.last = some u.tree.id → u.selectionChanged = true := by
      simpa [Bool.and_eq_true] using hrenew
    refine ⟨fun _ => ?_, fun _ => rfl⟩
    by_cases hlast : r.last = some u.tree.id
    · exact .inl (hcause hlast)
    · exact .inr hlast

/-- An outline that is made anew is scrolled unless the panel caused the update itself. -/
theorem scroll_iff {r : Rebuild} {u : Update} :
    (r.decide u).1.scroll = true ↔
      (r.decide u).1.rebuild = true ∧ u.origin ≠ some r.origin := by
  unfold decide
  split
  · simp [Decision.skip]
  · simp

/-- Updates with the same grounds are decided in the same way. -/
theorem decide_congr {u v : Update} (h : u.grounds = v.grounds) (r : Rebuild) :
    r.decide u = r.decide v := by
  simp only [Update.grounds, Prod.mk.injEq] at h
  obtain ⟨htree, hselection, horigin⟩ := h
  unfold decide
  rw [htree, hselection, horigin]

/-! ## A stream of updates -/

/-- Each update is decided against the snapshot of the one before it, and the first one against the
snapshot that was recorded at the beginning. -/
theorem decideAll_eq_zipWith (r : Rebuild) (updates : List Update) :
    r.decideAll updates =
      List.zipWith (fun last u => (decide ⟨r.origin, last⟩ u).1)
        (r.last :: updates.map fun u => some u.tree.id) updates := by
  induction updates generalizing r with
  | nil => rfl
  | cons u rest ih =>
    rw [decideAll, ih, decide_snd]
    rfl

/-- Every update is decided. -/
theorem length_decideAll (r : Rebuild) (updates : List Update) :
    (r.decideAll updates).length = updates.length := by
  rw [decideAll_eq_zipWith, List.length_zipWith, List.length_cons, List.length_map]
  omega

/-- Streams of updates with the same grounds are decided in the same way. -/
theorem decideAll_congr {updates others : List Update}
    (h : updates.map Update.grounds = others.map Update.grounds) (r : Rebuild) :
    r.decideAll updates = r.decideAll others := by
  induction updates generalizing r others with
  | nil =>
    rw [List.map_nil, eq_comm, List.map_eq_nil_iff] at h
    rw [h]
  | cons u rest ih =>
    obtain ⟨v, others, rfl, hv, hothers⟩ := List.map_eq_cons_iff.1 h.symm
    rw [decideAll, decideAll, decide_congr hv.symm, ih hothers.symm]

/-- The decisions on a stream of updates that follows the outline of `first`. An update makes the
outline anew exactly if it changes the selection or does not bring the snapshot of the update before
it, and then the outline scrolls exactly if the panel did not cause the update. Nothing else of the
updates matters, and of the snapshots their identities alone. Without an outline to begin with, the
first update makes one. -/
theorem decisions_of_stream (r : Rebuild) (first : Snapshot) (updates : List Update) :
    ((r.prime first).2.decideAll updates).length = updates.length ∧
    (∀ (k : Nat) (before : Snapshot) (u : Update) (decision : Decision),
      (first :: updates.map (·.tree))[k]? = some before → updates[k]? = some u →
        ((r.prime first).2.decideAll updates)[k]? = some decision →
          (decision.rebuild = true ↔ u.selectionChanged = true ∨ before.same u.tree = false) ∧
          (decision.scroll = true ↔ decision.rebuild = true ∧ u.origin ≠ some r.origin)) ∧
    (∀ (first' : Snapshot) (updates' : List Update), first'.id = first.id →
      updates'.map Update.grounds = updates.map Update.grounds →
        (r.prime first').2.decideAll updates' = (r.prime first).2.decideAll updates) ∧
    ∀ u rest, ∃ decision,
      (start r.origin).decideAll (u :: rest) = decision :: (r.prime u.tree).2.decideAll rest ∧
        decision.rebuild = true ∧ (decision.scroll = true ↔ u.origin ≠ some r.origin) := by
  refine ⟨length_decideAll _ updates, ?_, ?_, ?_⟩
  · intro k before u decision hbefore hu hdecision
    have hlast : ((r.prime first).2.last :: updates.map fun u => some u.tree.id)[k]? =
        some (some before.id) := by
      have hids := congrArg (Option.map fun t : Snapshot => some t.id) hbefore
      rw [← List.getElem?_map, List.map_cons, List.map_map] at hids
      exact hids
    rw [decideAll_eq_zipWith, List.getElem?_zipWith, hlast, hu] at hdecision
    obtain rfl : (decide ⟨r.origin, some before.id⟩ u).1 = decision := Option.some.inj hdecision
    refine ⟨?_, scroll_iff⟩
    rw [rebuild_iff]
    simp [Snapshot.same]
  · intro first' updates' hfirst hgrounds
    rw [prime, prime, hfirst]
    exact decideAll_congr hgrounds _
  · intro u rest
    -- Nothing is recorded yet, so the first update brings another snapshot.
    have hrebuild : ((start r.origin).decide u).1.rebuild = true := rebuild_iff.2 (.inr nofun)
    refine ⟨((start r.origin).decide u).1, ?_, hrebuild, ?_⟩
    · rw [decideAll, decide_snd]
      rfl
    · rw [scroll_iff, hrebuild]
      simp [start]

/-- Four updates, of which the first one shows nothing new and is skipped. The third one brings a
snapshot of an equal tree, and the panel caused it: the outline is made anew and does not scroll.
The fourth one is skipped again. -/
theorem decisions_after_skipped_update :
    ∃ (t t' : Snapshot) (updates : List Update) (before : Snapshot) (u : Update)
        (decision : Decision),
      t'.root = t.root ∧ updates.length = 4 ∧
      ((start ⟨1⟩).prime t).2.decideAll updates = [.skip, ⟨true, true⟩, ⟨true, false⟩, .skip] ∧
      (t :: updates.map (·.tree))[2]? = some before ∧ updates[2]? = some u ∧
      (((start ⟨1⟩).prime t).2.decideAll updates)[2]? = some decision ∧
      (decision.rebuild = true ↔ u.selectionChanged = true ∨ before.same u.tree = false) ∧
      (decision.scroll = true ↔ decision.rebuild = true ∧ u.origin ≠ some ⟨1⟩) := by
  let root : Node := .leaf "Line" ⟨0, 5, by decide⟩ true
  let t : Snapshot := ⟨⟨0, 0⟩, root⟩
  let t' : Snapshot := ⟨⟨0, 1⟩, root⟩
  let u : Update := ⟨t', .caret 3, false, true, some ⟨1⟩, []⟩
  let updates : List Update := [⟨t, .caret 0, false, false, none, [none]⟩,
    ⟨t, .caret 2, true, false, some ⟨2⟩, []⟩, u, ⟨t', .caret 3, false, false, none, []⟩]
  obtain ⟨-, hdecisions, -, -⟩ := decisions_of_stream (start ⟨1⟩) t updates
  obtain ⟨hrebuild, hscroll⟩ := hdecisions 2 t u ⟨true, false⟩ rfl rfl rfl
  exact ⟨t, t', updates, t, u, ⟨true, false⟩, rfl, rfl, rfl, rfl, rfl, rfl, hrebuild, hscroll⟩

end Rebuild

end TreePanel
