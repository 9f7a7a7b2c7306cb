import TreePanel.Files.Task

/-!
# Files that were written

A file that was written is read back from the same path. The path was followed through folders, and
none of them is the place of the file, so it is followed the same way afterwards (`walk_put`).
-/

namespace TreePanel

namespace Files

variable {f after : Files} {location place : List String} {entry : Entry}

/-- What was put at a location is found there. -/
theorem entry?_put_self (h : location ≠ []) :
    entry? (f.put location entry) location = some entry := by
  have hnonempty : location.isEmpty = false := List.isEmpty_eq_false_iff.2 h
  unfold entry? put
  rw [hnonempty]
  exact List.lookup_cons_self

/-- All other locations hold what they held before. -/
theorem entry?_put_of_ne (h : place ≠ location) :
    entry? (f.put location entry) place = f.entry? place := by
  have hother : (place == location) = false := beq_false_of_ne h
  have hfilter : ∀ entries : List (List String × Entry),
      (entries.filter fun known => known.1 != location).lookup place = entries.lookup place := by
    intro entries
    induction entries with
    | nil => rfl
    | cons known more ih =>
      by_cases hknown : known.1 = location
      · have hskip : (place == known.1) = false := by rw [hknown]; exact hother
        rw [List.filter_cons_of_neg (by simp [hknown]), ih, List.lookup_cons, hskip]
      · rw [List.filter_cons_of_pos (by simp [hknown]), List.lookup_cons, List.lookup_cons, ih]
  unfold entry? put
  rw [List.lookup_cons, hother, hfilter]

/-- Steps lead to the same location after something was put there in the place of no folder. -/
theorem walk_put (hentry : f.entry? location ≠ some .folder) {steps : List String}
    (h : f.walk place steps = .ok location) :
    (f.put location entry).walk place steps = .ok location := by
  induction steps generalizing place with
  | nil => exact h
  | cons name rest ih =>
    rw [walk] at h ⊢
    cases hplace : f.entry? place with
    | none =>
      rw [hplace] at h
      cases h
    | some found =>
      cases found with
      | file content =>
        rw [hplace] at h
        cases h
      | folder =>
        have hne : place ≠ location := by
          rintro rfl
          exact hentry hplace
        rw [hplace] at h
        rw [entry?_put_of_ne hne, hplace]
        dsimp only at h ⊢
        split at h
        · cases h
        · next hshort =>
          rw [if_neg hshort]
          exact ih h

/-- A path whose steps led to a location leads there after something was put in the place of no
folder. -/
theorem follow_put (hentry : f.entry? location ≠ some .folder) {path : String} {steps : List String}
    (h : f.follow path steps = .ok location) :
    (f.put location entry).follow path steps = .ok location := by
  rw [follow] at h ⊢
  split at h
  · cases h
  · next hpath =>
    rw [if_neg hpath]
    split at h
    · cases h
    · next hshort =>
      rw [if_neg hshort]
      exact walk_put hentry h

/-- What a write does: it puts the file in the place that the path leads to, which is no folder. -/
theorem of_write {path : String} {content : ByteArray} (h : f.write path content = .ok after) :
    Path.endsInSeparator path = false ∧ ∃ location, f.target path = .ok location ∧
      f.entry? location ≠ some .folder ∧ after = f.put location (.file content) := by
  unfold write at h
  split at h
  · cases haround : f.around path <;> rw [haround] at h <;> cases h
  · next hend =>
    cases htarget : f.target path with
    | error failure =>
      rw [htarget] at h
      cases h
    | ok location =>
      rw [htarget] at h
      simp only [bind, Except.bind, pure, Except.pure] at h
      split at h
      · cases h
      · next hentry =>
        exact ⟨Bool.eq_false_iff.2 hend, location, rfl, hentry, (Except.ok.inj h).symm⟩

/-- A file that was written is read back. -/
theorem read_of_write {path : String} {content : ByteArray}
    (h : f.write path content = .ok after) : after.read path = .ok content := by
  obtain ⟨hend, location, htarget, hentry, rfl⟩ := of_write h
  have hroot : location ≠ [] := by
    rintro rfl
    exact hentry rfl
  have hlocate : (f.put location (.file content)).locate path = .ok location := by
    rw [locate, hend, if_neg Bool.false_ne_true, List.append_nil]
    exact follow_put hentry htarget
  rw [read, hlocate]
  simp only [bind, Except.bind, entry?_put_self hroot]
  rfl

/-- A text that was written is read back. -/
theorem readText_of_write {path text : String} (h : f.write path text.toUTF8 = .ok after) :
    after.readText path = .ok text.toList := by
  have hdecode : String.fromUTF8? text.toUTF8 = some text := by
    rw [String.fromUTF8?]
    exact dif_pos text.isValidUTF8
  rw [readText, read_of_write h]
  simp only [bind, Except.bind, hdecode]
  rfl

end Files

/-- A task that succeeded gave what its operation gave. -/
theorem FileTask.of_run {α : Type} {task : FileTask} {path : String}
    {result : Except Files.Failure α} {a : α} (h : task.run path result = .ok a) :
    result = .ok a := by
  cases result with
  | error failure => cases h
  | ok value => exact congrArg Except.ok (Except.ok.inj h)

end TreePanel
