import TreePanel.Highlight

/-!
# The history of a highlight

What is highlighted after a sequence of updates can be read off the updates. Those before the last
change of the selection do not matter, and of the effects from there on only the last one does
(`history_of_updates`).

The proof climbs from effects to updates. Within one update the last effect decides, and without
effects it is the selection that does (`next_eq_getLast?`). Over a sequence, an update without
effects that leaves the selection alone hands the question on to the update before it
(`applyAll_eq`).
-/

namespace TreePanel.Highlight

/-! ## One update -/

/-- An effect highlights no other span than its own, and nothing without width. -/
theorem ofEffect_eq_some_iff {effect : Effect} {span : Span} :
    ofEffect effect = some span ↔ effect = some span ∧ span.isEmpty = false := by
  cases effect with
  | none => simp [ofEffect]
  | some other =>
    by_cases hwidth : other.isEmpty = true
    · have hnone : ofEffect (some other) = none := if_pos hwidth
      simp only [hnone, Option.some.injEq]
      constructor
      · exact nofun
      · rintro ⟨rfl, hspan⟩
        rw [hwidth] at hspan
        cases hspan
    · have hsome : ofEffect (some other) = some other := if_neg hwidth
      simp only [hsome, Option.some.injEq, iff_self_and]
      rintro rfl
      simpa using hwidth

/-- What is highlighted after an update is up to its last effect. If there is none, a change of the
selection clears the highlight. -/
theorem next_eq_getLast? (current : Option Span) (selectionChanged : Bool)
    (effects : List Effect) :
    next current selectionChanged effects =
      (effects.getLast?.map ofEffect).getD (if selectionChanged then none else current) := by
  rcases List.eq_nil_or_concat effects with rfl | ⟨earlier, last, rfl⟩
  · rfl
  · simp [next]

/-- What is highlighted after an update is a span with width that it set, or the update left the
highlight and the selection alone. -/
theorem set_or_kept_of_next {current : Option Span} {selectionChanged : Bool}
    {effects : List Effect} {span : Span}
    (h : next current selectionChanged effects = some span) :
    some span ∈ effects ∧ span.isEmpty = false ∨
      selectionChanged = false ∧ current = some span := by
  rw [next_eq_getLast?] at h
  cases hlast : effects.getLast? with
  | none =>
    rw [hlast] at h
    cases selectionChanged with
    | true => cases h
    | false => exact .inr ⟨rfl, h⟩
  | some last =>
    rw [hlast] at h
    obtain ⟨rfl, hwidth⟩ := ofEffect_eq_some_iff.1 h
    exact .inl ⟨List.mem_of_getLast? hlast, hwidth⟩

/-- A highlight with width is followed by one with width, or by none. -/
theorem next_hasWidth {current : Option Span} {selectionChanged : Bool} {effects : List Effect}
    (hc : ∀ span, current = some span → span.isEmpty = false) {span : Span}
    (h : next current selectionChanged effects = some span) : span.isEmpty = false := by
  rcases set_or_kept_of_next h with ⟨-, hwidth⟩ | ⟨-, hkept⟩
  · exact hwidth
  · exact hc span hkept

/-- Effects that would highlight nothing leave the highlight as it is or clear it. -/
theorem next_eq_or_eq_none {effects : List Effect} (h : next none false effects = none)
    (current : Option Span) :
    next current false effects = current ∨ next current false effects = none := by
  rw [next_eq_getLast?] at h ⊢
  cases hlast : effects.getLast? with
  | none => exact .inl rfl
  | some last =>
    rw [hlast] at h
    exact .inr h

/-- The effects of an update may come in two updates, if the second one leaves the selection
alone. -/
theorem next_append (current : Option Span) (selectionChanged : Bool)
    (effects others : List Effect) :
    next current selectionChanged (effects ++ others) =
      next (next current selectionChanged effects) false others := by
  rw [next, List.foldl_append]
  rfl

/-! ## A sequence of updates -/

/-- The highlight after a sequence of updates. Of an update it is told whether the selection
changed, and the effects. -/
def applyAll (current : Option Span) (updates : List (Bool × List Effect)) : Option Span :=
  updates.foldl (fun current u => (apply current u.1 u.2).1) current

/-- The updates from the last one on that changed the selection; all of them if none did. -/
def sinceSelection : List (Bool × List Effect) → List (Bool × List Effect)
  | [] => []
  | u :: rest => if rest.any (·.1) then sinceSelection rest else u :: rest

/-- `recent` are the updates from the last one on that changed the selection, or all updates if none
did. -/
structure Recent (updates recent : List (Bool × List Effect)) : Prop where
  /-- They are the last updates. -/
  suffix : recent <:+ updates
  /-- After the first of them the selection did not change. -/
  unchanged : ∀ u ∈ recent.tail, u.1 = false
  /-- The first of them changed the selection, unless they are all. -/
  first : recent = updates ∨ ∃ u ∈ recent.head?, u.1 = true

/-- `sinceSelection` finds the recent updates. -/
theorem recent_sinceSelection (updates : List (Bool × List Effect)) :
    Recent updates (sinceSelection updates) := by
  induction updates with
  | nil => exact ⟨List.suffix_refl _, nofun, .inl rfl⟩
  | cons u rest ih =>
    unfold sinceSelection
    split
    · next hchanged =>
      refine ⟨ih.suffix.trans (List.suffix_cons u rest), ih.unchanged, .inr ?_⟩
      rcases ih.first with hall | hfirst
      · -- All later updates are recent, so the one that changed the selection is the first of them.
        obtain ⟨v, hv, hvchanged⟩ := List.any_eq_true.1 hchanged
        have hunchanged := ih.unchanged
        rw [hall] at hunchanged ⊢
        cases rest with
        | nil => cases hv
        | cons w others =>
          rcases List.mem_cons.1 hv with rfl | hother
          · exact ⟨v, rfl, hvchanged⟩
          · rw [hunchanged v hother] at hvchanged
            cases hvchanged
      · exact hfirst
    · next hunchanged =>
      exact ⟨List.suffix_refl _, by simpa using hunchanged, .inl rfl⟩

/-- Updates that all leave the selection alone are all recent. -/
theorem sinceSelection_eq_self {updates : List (Bool × List Effect)}
    (h : updates.any (·.1) = false) : sinceSelection updates = updates := by
  cases updates with
  | nil => rfl
  | cons u rest =>
    rw [List.any_cons, Bool.or_eq_false_iff] at h
    rw [sinceSelection, if_neg (by rw [h.2]; exact Bool.false_ne_true)]

/-- What is highlighted after a sequence of updates is up to the last effect of the recent ones. If
they have none, a change of the selection has cleared the highlight. -/
theorem applyAll_eq (current : Option Span) (updates : List (Bool × List Effect)) :
    applyAll current updates =
      (((sinceSelection updates).flatMap (·.2)).getLast?.map ofEffect).getD
        (if updates.any (·.1) then none else current) := by
  induction updates generalizing current with
  | nil => rfl
  | cons u rest ih =>
    have hstep : applyAll current (u :: rest) = applyAll (next current u.1 u.2) rest := rfl
    rw [hstep, ih, sinceSelection]
    cases hrest : rest.any (·.1) with
    | true =>
      -- A later update clears the highlight, and `u` is not recent.
      simp [hrest]
    | false =>
      -- The later updates only have their effects, after those of `u`.
      rw [sinceSelection_eq_self hrest, next_eq_getLast?]
      simp only [List.any_cons, hrest, Bool.or_false, Bool.false_eq_true, if_false,
        List.flatMap_cons, List.getLast?_append]
      cases (rest.flatMap (·.2)).getLast? with
      | none => rfl
      | some last => rfl

/-- A sequence of updates is gone through part by part. -/
theorem applyAll_append (current : Option Span) (updates others : List (Bool × List Effect)) :
    applyAll current (updates ++ others) = applyAll (applyAll current updates) others := by
  rw [applyAll, List.foldl_append]
  rfl

/-- The highlight after any sequence of updates that begins with none. A span is highlighted exactly
if it has width and the last effect set it, of all effects since the last change of the selection.
The next update tells truly whether it changes the highlight. It does not matter whether its effects
come in one update or in two, if the second one leaves the selection alone. -/
theorem history_of_updates (updates : List (Bool × List Effect)) :
    Recent updates (sinceSelection updates) ∧
    (∀ span, applyAll none updates = some span ↔
      ((sinceSelection updates).flatMap (·.2)).getLast? = some (some span) ∧
        span.isEmpty = false) ∧
    (∀ u : Bool × List Effect,
      (apply (applyAll none updates) u.1 u.2).1 = applyAll none (updates ++ [u]) ∧
      ((apply (applyAll none updates) u.1 u.2).2 = true ↔
        applyAll none (updates ++ [u]) ≠ applyAll none updates)) ∧
    ∀ selectionChanged effects others later,
      applyAll none (updates ++ (selectionChanged, effects ++ others) :: later) =
        applyAll none (updates ++ (selectionChanged, effects) :: (false, others) :: later) := by
  refine ⟨recent_sinceSelection updates, fun span => ?_, fun u => ?_, ?_⟩
  · -- Nothing is highlighted to begin with, so a change of the selection has nothing to clear.
    rw [applyAll_eq, ite_self]
    cases ((sinceSelection updates).flatMap (·.2)).getLast? with
    | none => simp
    | some last => simpa using ofEffect_eq_some_iff
  · have hnext : applyAll none (updates ++ [u]) = next (applyAll none updates) u.1 u.2 :=
      applyAll_append none updates [u]
    have htold : (apply (applyAll none updates) u.1 u.2).2 =
        (applyAll none updates != next (applyAll none updates) u.1 u.2) := rfl
    refine ⟨hnext.symm, ?_⟩
    rw [hnext, htold, bne_iff_ne]
    exact ne_comm
  · intro selectionChanged effects others later
    have hsplit := next_append (applyAll none updates) selectionChanged effects others
    rw [applyAll_append, applyAll_append]
    exact congrArg (applyAll · later) hsplit

/-- A span is set anew after a change of the selection, cleared by a span without width, and set
again. -/
example :
    let early : Span := ⟨0, 3, by decide⟩
    let late : Span := ⟨4, 9, by decide⟩
    applyAll none [(false, [some early]), (true, [some late, none]),
      (false, [some late, some ⟨5, 5, by decide⟩]), (false, []), (false, [none, some late])] =
        some late := by
  decide

end TreePanel.Highlight
