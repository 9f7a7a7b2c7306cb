import Mathlib.Order.MinMax
import TreePanel.Proofs.Fault
import TreePanel.Selection

/-!
# Selections through a map

A selection whose offsets are sent through a map keeps its ranges in their number and order, and if
the map keeps the order of offsets, each range runs between the images of its ends
(`Range.map_low`, `Range.map_high`). If a computation moves every offset as a map does, it gives the
selection sent through the map (`Selection.mapOffsets_eq_map`), and nothing else can come out of it
(`Selection.eq_map_of_mapOffsets`).
-/

namespace TreePanel

namespace Range

/-- The range with both ends sent through a map. -/
def map (f : Nat → Nat) (r : Range) : Range := ⟨f r.anchor, f r.head⟩

variable {f : Nat → Nat}

/-- A map that keeps the order of offsets sends the smaller end to the smaller end. -/
theorem map_low (hf : Monotone f) (r : Range) : (r.map f).low = f r.low := hf.map_min.symm

/-- A map that keeps the order of offsets sends the larger end to the larger end. -/
theorem map_high (hf : Monotone f) (r : Range) : (r.map f).high = f r.high := hf.map_max.symm

/-- A range stays what it is exactly if both ends stay where they are. -/
theorem map_eq_self_iff {r : Range} : r.map f = r ↔ f r.anchor = r.anchor ∧ f r.head = r.head := by
  rw [map, Range.mk.injEq]

end Range

namespace Selection

/-- The selection with all ranges sent through a map. -/
def map (f : Nat → Nat) (s : Selection) : Selection := ⟨s.primary.map f, s.others.map (Range.map f)⟩

variable {f : Nat → Nat} {g : Nat → Except Fault Nat} {s t : Selection}

/-- The ranges of a selection are sent through the map one by one. -/
theorem ranges_map (f : Nat → Nat) (s : Selection) :
    (s.map f).ranges = s.ranges.map (Range.map f) := rfl

/-- Two selections with the same ranges are one. -/
theorem eq_of_ranges (h : s.ranges = t.ranges) : s = t := by
  obtain ⟨hprimary, hothers⟩ := List.cons.inj h
  calc s = ⟨s.primary, s.others⟩ := rfl
    _ = ⟨t.primary, t.others⟩ := by rw [hprimary, hothers]
    _ = t := rfl

/-- A selection stays what it is exactly if all its ranges do. -/
theorem map_eq_self_iff : s.map f = s ↔ ∀ r ∈ s.ranges, r.map f = r := by
  constructor
  · intro h
    have hranges : s.ranges.map (Range.map f) = s.ranges.map id := by
      rw [← ranges_map, h, List.map_id]
    exact List.map_inj_left.1 hranges
  · intro h
    apply eq_of_ranges
    calc (s.map f).ranges = s.ranges.map (Range.map f) := ranges_map f s
      _ = s.ranges.map id := List.map_congr_left h
      _ = s.ranges := List.map_id s.ranges

/-- Going through two maps in turn is going through both at once. -/
theorem map_map (f g : Nat → Nat) (s : Selection) : (s.map f).map g = s.map (g ∘ f) := by
  apply eq_of_ranges
  rw [ranges_map, ranges_map, ranges_map, List.map_map]
  rfl

/-- If every offset goes where a map sends it, so does the selection. -/
theorem mapOffsets_eq_map
    (h : ∀ r ∈ s.ranges, g r.anchor = .ok (f r.anchor) ∧ g r.head = .ok (f r.head)) :
    s.mapOffsets g = .ok (s.map f) := by
  have hmove : ∀ r ∈ s.ranges,
      (do return ⟨← g r.anchor, ← g r.head⟩ : Except Fault Range) = .ok (r.map f) := by
    intro r hr
    obtain ⟨hanchor, hhead⟩ := h r hr
    rw [hanchor, hhead]
    rfl
  obtain ⟨hprimary, hothers⟩ := List.forall_mem_cons.1 hmove
  exact bind_eq_ok.2 ⟨_, hprimary, bind_eq_ok.2 ⟨_, mapM_eq_map hothers, rfl⟩⟩

/-- If no offset can go elsewhere than a map sends it, neither can the selection. -/
theorem eq_map_of_mapOffsets (hg : ∀ {offset offset'}, g offset = .ok offset' → offset' = f offset)
    (h : s.mapOffsets g = .ok t) : t = s.map f := by
  obtain ⟨primary, hprimary, hrest⟩ := bind_eq_ok.1 h
  obtain ⟨others, hothers, -⟩ := bind_eq_ok.1 hrest
  have hmoved : ∀ r ∈ s.ranges, ∃ r',
      (do return ⟨← g r.anchor, ← g r.head⟩ : Except Fault Range) = .ok r' :=
    List.forall_mem_cons.2 ⟨⟨primary, hprimary⟩, mapM_isOk_iff.1 ⟨others, hothers⟩⟩
  have hmap : s.mapOffsets g = .ok (s.map f) := by
    refine mapOffsets_eq_map fun r hr => ?_
    obtain ⟨r', hr'⟩ := hmoved r hr
    obtain ⟨anchor, hanchor, hrest⟩ := bind_eq_ok.1 hr'
    obtain ⟨head, hhead, -⟩ := bind_eq_ok.1 hrest
    exact ⟨hg hanchor ▸ hanchor, hg hhead ▸ hhead⟩
  exact Except.ok.inj (h.symm.trans hmap)

/-- All offsets of a selection lie in a text of the given length. -/
def Within (length : Nat) (selection : Selection) : Prop :=
  ∀ r ∈ selection.ranges, r.anchor ≤ length ∧ r.head ≤ length

instance (length : Nat) (selection : Selection) : Decidable (selection.Within length) :=
  inferInstanceAs (Decidable (∀ r ∈ selection.ranges, _ ∧ _))

/-- A map between the offsets of two texts sends a selection in the one to a selection in the
other. -/
theorem Within.map {length length' : Nat} (h : s.Within length)
    (hf : ∀ offset ≤ length, f offset ≤ length') : (s.map f).Within length' := by
  intro r' hr'
  rw [ranges_map] at hr'
  obtain ⟨r, hr, rfl⟩ := List.mem_map.1 hr'
  exact ⟨hf r.anchor (h r hr).1, hf r.head (h r hr).2⟩

end Selection

end TreePanel
