import TreePanel.Proofs.Session.Handle
import TreePanel.Proofs.Session.Run
import TreePanel.Proofs.Viewport

/-!
# Turning the wheel

The wheel adds lines to the offset and takes lines from it, and the offset stays between zero and
the largest one. In between it is the sum of integers (`Viewport.scrollBy_eq`), so what is left to
say is what the two ends do to several turns. Turns in one direction meet only one of the ends, and
there it does not matter when (`Viewport.scrollBy_scrollBy`). A turn down that the lower end cuts
short is not undone by the same turn up, unless the upper end cuts that one short as well
(`Viewport.scrollBy_back_iff`).

A panel asks for paint exactly if its offset moved (`Session.offset_of_wheel`).
-/

namespace TreePanel

namespace Viewport

variable {v : Viewport} {total footerLines : Nat}

/-- Two turns in one direction are one turn by the sum of their lines. -/
theorem scrollBy_scrollBy (hview : v.InView total footerLines) {a b : Int}
    (hsign : 0 ≤ a ∧ 0 ≤ b ∨ a ≤ 0 ∧ b ≤ 0) (hsum : v.offset + (a + b).toNat < Count.bound) :
    (v.scrollBy a total footerLines >>= fun w => w.scrollBy b total footerLines) =
      v.scrollBy (a + b) total footerLines := by
  have hfirst : v.offset + a.toNat < Count.bound := by omega
  obtain ⟨w, hw⟩ : ∃ w : Viewport, w = { v with
    offset := min (v.offset + a).toNat (v.maxOffset total footerLines) } := ⟨_, rfl⟩
  have hoffset : w.offset = min (v.offset + a).toNat (v.maxOffset total footerLines) := by rw [hw]
  -- The largest offset does not depend on the offset.
  have hmax : w.maxOffset total footerLines = v.maxOffset total footerLines := by rw [hw]; rfl
  have hsecond : w.offset + b.toNat < Count.bound := by omega
  unfold InView at hview
  rw [scrollBy_eq hfirst, scrollBy_eq hsum, ← hw]
  show w.scrollBy b total footerLines = _
  rw [scrollBy_eq hsecond, hmax, hw]
  refine congrArg (fun offset => Except.ok { v with offset := offset }) ?_
  show min ((min (v.offset + a).toNat (v.maxOffset total footerLines) : Nat) + b).toNat
    (v.maxOffset total footerLines) =
      min (v.offset + (a + b)).toNat (v.maxOffset total footerLines)
  omega

/-- A turn down is undone by the same turn up exactly if it meets no end, or the first row was at
the top before. -/
theorem scrollBy_back_iff (hview : v.InView total footerLines) {k : Nat}
    (hsum : v.offset + k < Count.bound) :
    (v.scrollBy k total footerLines >>= fun w => w.scrollBy (-k) total footerLines) = .ok v ↔
      v.offset + k ≤ v.maxOffset total footerLines ∨ v.offset = 0 := by
  obtain ⟨w, hw⟩ : ∃ w : Viewport, w = { v with
    offset := min (v.offset + k) (v.maxOffset total footerLines) } := ⟨_, rfl⟩
  have hdown : v.scrollBy k total footerLines = .ok w := by
    rw [scrollBy_eq hsum, hw]
    rfl
  have hoffset : w.offset = min (v.offset + k) (v.maxOffset total footerLines) := by rw [hw]
  have hmax : w.maxOffset total footerLines = v.maxOffset total footerLines := by rw [hw]; rfl
  have hup : w.scrollBy (-k) total footerLines =
      .ok { v with offset := min (w.offset - k) (v.maxOffset total footerLines) } := by
    have hless : w.offset + (-(k : Int)).toNat < Count.bound := by omega
    rw [scrollBy_eq hless, hmax, hw]
    refine congrArg (fun offset => Except.ok { v with offset := offset }) ?_
    omega
  -- Only the offset can tell the viewports apart.
  have hsame : (Except.ok { v with offset := min (w.offset - k) (v.maxOffset total footerLines) } :
      Except Fault Viewport) = .ok v ↔
        min (w.offset - k) (v.maxOffset total footerLines) = v.offset := by
    constructor
    · intro h
      exact congrArg Viewport.offset (Except.ok.inj h)
    · intro h
      rw [h]
  unfold InView at hview
  rw [hdown]
  show w.scrollBy (-k) total footerLines = .ok v ↔ _
  rw [hup, hsame, hoffset]
  omega

end Viewport

namespace Session

/-- Turning the wheel moves the viewport, and asks for paint if the offset is another one. -/
theorem handle_scroll {σ : Type} [EditorHost σ] {s : Session σ} {m : Mounted}
    (hm : s.panel.mounted = some m) (lines : Int) :
    s.handle (.input (.atRow (.scroll lines))) =
      (m.viewport.scrollBy lines m.outline.length m.footerLines).map fun viewport =>
        (decide (viewport.offset ≠ m.viewport.offset),
          s.mount { m with viewport := viewport }) := by
  cases hmoved : m.viewport.scrollBy lines m.outline.length m.footerLines with
  | error fault =>
    refine handle_input_error hm (bind_eq_error.2 (.inr ⟨_, rfl, ?_⟩))
    exact bind_eq_error.2 (.inl hmoved)
  | ok viewport =>
    have hin : m.onInput s.panel.origin (.atRow (.scroll lines)) =
        .ok (if viewport.offset = m.viewport.offset then none else some .redraw,
          { m with viewport := viewport }) :=
      bind_eq_ok.2 ⟨_, rfl, bind_eq_ok.2 ⟨viewport, hmoved, rfl⟩⟩
    by_cases hsame : viewport.offset = m.viewport.offset
    · rw [if_pos hsame] at hin
      rw [handle_input_quiet hm (.inl rfl) hin]
      simp [Except.map, hsame]
    · rw [if_neg hsame] at hin
      rw [handle_input_quiet hm (.inr rfl) hin]
      simp [Except.map, hsame]

/-- What the wheel does. As long as the sum can be counted, the offset becomes the sum of integers,
or the end that it passes: zero, or the number of rows that do not fit. From an offset between the
ends, two turns in one direction are one turn by the sum; a turn down is undone by the same turn up
exactly if it does not pass the lower end, or the offset was zero. A panel asks for paint exactly if
its offset is another one afterwards. -/
theorem offset_of_wheel :
    (∀ (v : Viewport) (total footerLines : Nat) (lines : Int),
      v.offset + lines.toNat < Count.bound →
        ∃ v', v.scrollBy lines total footerLines = .ok v' ∧ v' = { v with offset := v'.offset } ∧
          (v'.offset : Int) =
            min (max (v.offset + lines) 0) (max ((total : Int) - v.visibleRows footerLines) 0)) ∧
    (∀ (v : Viewport) (total footerLines : Nat),
      v.offset ≤ total - v.visibleRows footerLines →
      (∀ a b : Int, 0 ≤ a ∧ 0 ≤ b ∨ a ≤ 0 ∧ b ≤ 0 → v.offset + (a + b).toNat < Count.bound →
        (v.scrollBy a total footerLines >>= fun w => w.scrollBy b total footerLines) =
          v.scrollBy (a + b) total footerLines) ∧
      ∀ k : Nat, v.offset + k < Count.bound →
        ((v.scrollBy k total footerLines >>= fun w => w.scrollBy (-k) total footerLines) = .ok v ↔
          v.offset + k ≤ total - v.visibleRows footerLines ∨ v.offset = 0)) ∧
    ∀ {σ : Type} [EditorHost σ] (s : Session σ) (lines : Int),
      (∀ m, s.panel.mounted = some m → m.viewport.offset + lines.toNat < Count.bound →
        ∃ redraw v', m.viewport.scrollBy lines m.outline.length m.footerLines = .ok v' ∧
          s.handle (.input (.atRow (.scroll lines))) =
            .ok (redraw, s.mount { m with viewport := v' })) ∧
      ∀ redraw s', s.handle (.input (.atRow (.scroll lines))) = .ok (redraw, s') →
        (redraw = true ↔ s'.panel.scrollOffset ≠ s.panel.scrollOffset) := by
  refine ⟨fun v total footerLines lines hsum => ?_, fun v total footerLines hview => ?_,
    fun s lines => ⟨fun m hm hsum => ?_, fun redraw s' h => ?_⟩⟩
  · refine ⟨_, Viewport.scrollBy_eq hsum, rfl, ?_⟩
    unfold Viewport.maxOffset
    dsimp only
    omega
  · exact ⟨fun a b hsign hsum => Viewport.scrollBy_scrollBy hview hsign hsum,
      fun k hsum => Viewport.scrollBy_back_iff hview hsum⟩
  · have hmoved : m.viewport.scrollBy lines m.outline.length m.footerLines = _ :=
      Viewport.scrollBy_eq hsum
    have hhandle := handle_scroll hm lines
    rw [hmoved] at hhandle
    exact ⟨_, _, hmoved, hhandle⟩
  · cases hm : s.panel.mounted with
    | none =>
      rw [handle_unmounted hm] at h
      cases h
      simp
    | some m =>
      rw [handle_scroll hm] at h
      obtain ⟨viewport, -, hdone⟩ := map_eq_ok.1 h
      cases hdone
      have hbefore : s.panel.scrollOffset = m.viewport.offset := by
        rw [Panel.scrollOffset, hm]
        rfl
      rw [hbefore]
      exact decide_eq_true_iff

/-- Three of five rows are shown, from the second one on. The smallest turn there is goes to the
first row. Two turns down by one line are one by two; a turn by one line can be undone, and one by
two lines passes the end and cannot. A panel from whose rows nothing is hidden does not move, and
asks for no paint. -/
theorem wheel_over_three_rows :
    (∃ v', Viewport.threeRows.scrollBy (-2147483648) 5 1 = .ok v' ∧ v'.offset = 0) ∧
    (Viewport.threeRows.scrollBy 1 5 1 >>= fun w => w.scrollBy 1 5 1) =
      Viewport.threeRows.scrollBy 2 5 1 ∧
    (Viewport.threeRows.scrollBy 1 5 1 >>= fun w => w.scrollBy (-1) 5 1) =
      .ok Viewport.threeRows ∧
    (Viewport.threeRows.scrollBy 2 5 1 >>= fun w => w.scrollBy (-2) 5 1) ≠
      .ok Viewport.threeRows ∧
    ∃ s m v', attach Editor.twoWords {} ⟨1⟩ = .ok s ∧ s.panel.mounted = some m ∧
      s.handle (.input (.atRow (.scroll 5))) = .ok (false, s.mount { m with viewport := v' }) ∧
      v'.offset = 0 := by
  obtain ⟨hsum, hturns, hpanel⟩ := offset_of_wheel
  have hvisible : Viewport.threeRows.visibleRows 1 = 3 := by decide +kernel
  obtain ⟨hsame, hback⟩ := hturns Viewport.threeRows 5 1 (by rw [hvisible]; decide)
  refine ⟨?_, hsame 1 1 (by decide) (by decide), (hback 1 (by decide)).2 ?_, fun h => ?_, ?_⟩
  · obtain ⟨v', hv', -, hoffset⟩ := hsum Viewport.threeRows 5 1 (-2147483648) (by decide)
    refine ⟨v', hv', ?_⟩
    rw [hvisible] at hoffset
    exact Int.ofNat.inj hoffset
  · rw [hvisible]
    decide
  · have hends := (hback 2 (by decide)).1 h
    rw [hvisible] at hends
    exact absurd hends (by decide)
  · obtain ⟨s, hattach, hfacts⟩ := ok_of_toOption (show (attach Editor.twoWords {} ⟨1⟩).toOption.map
      (fun s => s.panel.mounted.map fun m =>
        (m.viewport.offset, m.outline.length, m.viewport.visibleRows m.footerLines)) =
          some (some (0, 3, 42)) by decide +kernel)
    obtain ⟨m, hm, hcounts⟩ := Option.map_eq_some_iff.1 hfacts
    simp only [Prod.mk.injEq] at hcounts
    obtain ⟨hzero, hlength, hvisible⟩ := hcounts
    obtain ⟨hmounted, hpaint⟩ := hpanel s 5
    obtain ⟨redraw, v', hmoved, hhandle⟩ := hmounted m hm (by rw [hzero]; decide)
    obtain ⟨w, hw, -, hoffset⟩ :=
      hsum m.viewport m.outline.length m.footerLines 5 (by rw [hzero]; decide)
    cases hmoved.symm.trans hw
    rw [hzero, hlength, hvisible] at hoffset
    have hstill : v'.offset = 0 := Int.ofNat.inj hoffset
    have hquiet : redraw = false := by
      rw [← Bool.not_eq_true, hpaint redraw _ hhandle]
      simp [Panel.scrollOffset, mount, hm, hzero, hstill]
    rw [hquiet] at hhandle
    exact ⟨s, m, v', hattach, hm, hhandle, hstill⟩

end Session

end TreePanel
