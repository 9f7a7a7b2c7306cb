import TreePanel.Proofs.Grammar.Json.Lexeme

/-!
# Open nodes lose nothing

The open nodes hold all that was given to them, in the order of the text: the parts of the outermost
node, then those of the node open in it, and so on (`Json.spelled`). Whether a lexeme goes to the
innermost node, opens one or closes some, it comes behind all others (`Json.placed_of_place`). And
every node but the document is opened by a token, so none begins with a gap (`Json.Sound`).

So the parts of a text have the pieces of its lexemes (`Json.pieces_of_parts?`).
-/

namespace TreePanel.Json

/-! ## What open nodes hold -/

/-- The gaps and tokens of the open nodes, the innermost first, in the order of the text. -/
def spelled : List Frame → List Part
  | [] => []
  | f :: outer => spelled outer ++ Part.piecesAll f.parts.reverse

/-- The node was opened by a token. -/
def Frame.Opened (f : Frame) : Prop :=
  ∃ later first, f.parts = later ++ [first] ∧ first.isGap = false

/-- Every node that is not the outermost was opened by a token, and the parts are as they should
be. -/
def Sound : List Frame → Prop
  | [] => True
  | f :: outer => (∀ p ∈ f.parts, p.Begun) ∧ (outer ≠ [] → f.Opened) ∧ Sound outer

variable {f : Frame} {outer frames frames' : List Frame} {v part lexeme : Part} {slot : Slot}

/-- A part that is added comes behind all others. -/
theorem spelled_push (f : Frame) (outer : List Frame) (part : Part) (slot : Slot) :
    spelled (f.push part slot :: outer) = spelled (f :: outer) ++ part.pieces := by
  have hparts : Part.piecesAll (f.push part slot).parts.reverse =
      Part.piecesAll f.parts.reverse ++ part.pieces := by
    rw [Frame.push, List.reverse_cons, Part.piecesAll_append, Part.piecesAll, Part.piecesAll,
      List.append_nil]
  rw [spelled, hparts, spelled, List.append_assoc]

/-- A node that is opened by a part comes behind all others. -/
theorem spelled_open (frames : List Frame) (part : Part) (slot : Slot) :
    spelled (⟨slot, [part]⟩ :: frames) = spelled frames ++ part.pieces := by
  rw [spelled, List.reverse_singleton, Part.piecesAll, Part.piecesAll, List.append_nil]

/-- A node that is closed has the pieces it had when it was open. -/
theorem spelled_close (f : Frame) (outer : List Frame) (kind : String) :
    spelled (f :: outer) = spelled outer ++ (f.close kind).pieces := rfl

/-- A part can be added to the innermost node. -/
theorem Sound.push (h : Sound (f :: outer)) (hpart : part.Begun) (slot : Slot) :
    Sound (f.push part slot :: outer) := by
  obtain ⟨hparts, hopened, houter⟩ := h
  refine ⟨List.forall_mem_cons.2 ⟨hpart, hparts⟩, fun hne => ?_, houter⟩
  obtain ⟨later, first, hf, hfirst⟩ := hopened hne
  exact ⟨part :: later, first, congrArg (part :: ·) hf, hfirst⟩

/-- A node can be opened by a part that is no gap. -/
theorem Sound.open (h : Sound frames) (hpart : part.Begun) (hgap : part.isGap = false)
    (slot : Slot) : Sound (⟨slot, [part]⟩ :: frames) :=
  ⟨List.forall_mem_cons.2 ⟨hpart, nofun⟩, fun _ => ⟨[], part, rfl, hgap⟩, h⟩

/-- A node that is not the outermost can be closed. -/
theorem Sound.close (h : Sound (f :: outer)) (hne : outer ≠ []) (kind : String) :
    (f.close kind).Begun := by
  obtain ⟨hparts, hopened, -⟩ := h
  obtain ⟨later, first, hf, hfirst⟩ := hopened hne
  have hreverse : f.parts.reverse = first :: later.reverse := by
    rw [hf, List.reverse_append, List.reverse_singleton, List.singleton_append]
  unfold Frame.close
  rw [hreverse]
  refine .group hfirst fun p hp => hparts p ?_
  rw [← hreverse] at hp
  exact List.mem_reverse.1 hp

/-! ## Placing -/

/-- What placing a part does to open nodes: the part comes behind all others, and the nodes stay
sound. -/
structure Placed (part : Part) (frames frames' : List Frame) : Prop where
  /-- The part comes behind all others. -/
  spelled : spelled frames' = spelled frames ++ part.pieces
  /-- The nodes stay sound. -/
  sound : Sound frames → part.Begun → Sound frames'

/-- A part is added to the innermost node. -/
theorem placed_push (f : Frame) (outer : List Frame) (part : Part) (slot : Slot) :
    Placed part (f :: outer) (f.push part slot :: outer) :=
  ⟨spelled_push f outer part slot, fun h hpart => h.push hpart slot⟩

/-- A node is opened by a part that is no gap. -/
theorem placed_open (frames : List Frame) (hgap : part.isGap = false) (slot : Slot) :
    Placed part frames (⟨slot, [part]⟩ :: frames) :=
  ⟨spelled_open frames part slot, fun h hpart => h.open hpart hgap slot⟩

/-- A part is added to the innermost node, which is closed with it and placed in its turn. -/
theorem placed_close {kind : String} (hne : outer ≠ [])
    (h : Placed ((f.push part slot).close kind) outer frames) :
    Placed part (f :: outer) frames := by
  refine ⟨?_, fun hsound hpart => ?_⟩
  · rw [h.spelled, ← spelled_close, spelled_push]
  · have hpushed := hsound.push hpart slot
    exact h.sound hsound.2.2 (hpushed.close hne kind)

/-- A value is placed behind all others. -/
theorem placed_of_placeValue {isString : Bool} (hgap : v.isGap = false)
    (h : placeValue v isString frames = some frames') :
    Placed v frames frames' ∧ frames ≠ [] := by
  unfold placeValue at h
  split at h
  · cases h
  · next f outer =>
    refine ⟨?_, List.cons_ne_nil _ _⟩
    split at h
    -- In the document or in an array the value is added.
    · cases h
      exact placed_push f outer v _
    · cases h
      exact placed_push f outer v _
    · cases h
      exact placed_push f outer v _
    · -- The value of a pair closes the pair, which is added to the object.
      split at h
      · cases h
      · next object outer =>
        cases h
        exact placed_close (List.cons_ne_nil _ _) (placed_push object outer _ _)
    -- A key opens a pair.
    · split at h
      · cases h
        exact placed_open (f :: outer) hgap .colon
      · cases h
    · split at h
      · cases h
        exact placed_open (f :: outer) hgap .colon
      · cases h
    · cases h

/-- A mark that closes a node is placed behind all others. -/
theorem placed_of_close {kind : String}
    (h : placeValue ((f.push part slot).close kind) false outer = some frames') :
    Placed part (f :: outer) frames' := by
  obtain ⟨hplaced, hne⟩ := placed_of_placeValue rfl h
  exact placed_close hne hplaced

/-- A mark is placed behind all others. -/
theorem placed_of_placeMark {c : Char} (h : placeMark c frames = some frames') :
    Placed (.mark c) frames frames' := by
  unfold placeMark at h
  split at h
  · cases h
  · next f outer =>
    dsimp only at h
    split at h
    -- Commas and colons are added.
    · cases h
      exact placed_push f outer _ _
    · cases h
      exact placed_push f outer _ _
    · cases h
      exact placed_push f outer _ _
    -- Closing brackets are added and close the node, opening ones open another.
    · exact placed_of_close h
    · exact placed_of_close h
    · exact placed_of_close h
    · exact placed_of_close h
    · split at h
      · cases h
        exact placed_open (f :: outer) rfl _
      · cases h
    · split at h
      · cases h
        exact placed_open (f :: outer) rfl _
      · cases h
    · cases h

/-- A lexeme is placed behind all others. -/
theorem placed_of_place (hformed : lexeme.Formed) (h : place lexeme frames = some frames') :
    Placed lexeme frames frames' := by
  unfold place at h
  split at h
  · cases h
  · next text f outer =>
    cases h
    exact placed_push f outer _ _
  · exact (placed_of_placeValue rfl h).1
  · next kind text f outer =>
    split at h
    · cases h
      exact placed_push f outer _ _
    · exact (placed_of_placeValue rfl h).1
  · next kind text _ =>
    obtain ⟨c, hmark⟩ := hformed.mark kind text rfl
    cases hmark
    exact placed_of_placeMark h

/-- Lexemes are placed behind all others. -/
theorem spelled_of_placeAll {lexemes : List Part} (hformed : ∀ l ∈ lexemes, l.Formed)
    (h : placeAll lexemes frames = some frames') (hsound : Sound frames) :
    spelled frames' = spelled frames ++ Part.piecesAll lexemes ∧ Sound frames' := by
  induction lexemes generalizing frames with
  | nil =>
    cases h
    exact ⟨(List.append_nil _).symm, hsound⟩
  | cons lexeme rest ih =>
    obtain ⟨hlexeme, hrest⟩ := List.forall_mem_cons.1 hformed
    obtain ⟨next, hplace, h⟩ := Option.bind_eq_some_iff.1 h
    have hplaced := placed_of_place hlexeme hplace
    obtain ⟨hspelled, hsound'⟩ := ih hrest h (hplaced.sound hsound hlexeme.begun)
    refine ⟨?_, hsound'⟩
    rw [hspelled, hplaced.spelled, Part.piecesAll, List.append_assoc]

/-- The parts of a text have the pieces of its lexemes, and groups in them begin with tokens. -/
theorem pieces_of_parts? {text : List Char} {parts : List Part} (h : parts? text = some parts) :
    ∃ lexemes, lexemes? text = some lexemes ∧ Part.piecesAll parts = Part.piecesAll lexemes ∧
      ∀ p ∈ parts, p.Begun := by
  unfold parts? at h
  obtain ⟨lexemes, hlexemes, h⟩ := Option.bind_eq_some_iff.1 h
  obtain ⟨frames, hframes, h⟩ := Option.bind_eq_some_iff.1 h
  have hformed : ∀ l ∈ lexemes, l.Formed := by
    rcases lexed_of_lexemes? hlexemes with ⟨hlexed, -⟩ | ⟨others, after, rfl, -, hlexed⟩
    · exact fun l hl => (hlexed.clean l hl).toFormed
    · exact List.forall_mem_cons.2 ⟨Part.formed_gap _, fun l hl => (hlexed.clean l hl).toFormed⟩
  -- At first the document is open, without any parts.
  have hstart : Sound [⟨.value, []⟩] := ⟨nofun, fun hne => absurd rfl hne, trivial⟩
  obtain ⟨hspelled, hsound⟩ := spelled_of_placeAll hformed hframes hstart
  split at h
  · cases h
    exact ⟨lexemes, hlexemes, hspelled, fun p hp => hsound.1 p (List.mem_reverse.1 hp)⟩
  · cases h

end TreePanel.Json
