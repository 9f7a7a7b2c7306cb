import Mathlib.Data.List.Basic
import TreePanel.Command

/-!
# Nested commands

Batches may be nested as deep as one likes, and two recursions go through them: one lists what there
is to do, and one finds out whether to paint. Both are told by places. A place in a command is the
numbers of the members to take on the way down through the batches; a command at a place acts if it
is neither nothing nor a batch again. The list has every command that acts once, in the
lexicographic order of places (`Command.mem_actions`, `Command.pairwise_actions`), and nothing else,
so that a list of commands which was flattened is flattened already (`Command.flattenAll_eq_self`).
A command needs paint exactly if its list has a repaint in it (`Command.needsRedraw_iff`).
-/

namespace TreePanel.Command

/-- Where a command stands in a nested one: the numbers of the members to take on the way down. -/
abbrev Place := List Nat

/-- The command at a place, if there is one. Only batches have members. -/
def at? : Command → Place → Option Command
  | c, [] => some c
  | batch commands, i :: below => commands[i]?.bind fun c => c.at? below
  | _, _ :: _ => Option.none

/-- The command does something by itself. -/
def Acts (c : Command) : Prop := c ≠ none ∧ ∀ commands, c ≠ batch commands

/-- Commands one after the other are listed one after the other. -/
theorem flattenAll_eq_flatMap (commands : List Command) :
    flattenAll commands = commands.flatMap flatten := by
  induction commands with
  | nil => rfl
  | cons c rest ih => rw [flattenAll_cons, ih, List.flatMap_cons]

/-! ## Commands that act, with their places -/

mutual
/-- The commands that act in a command, each with its place. -/
def actions : Command → List (Place × Command)
  | none => []
  | batch commands => actionsAll 0 commands
  | redraw => [([], redraw)]
  | dispatch transaction => [([], dispatch transaction)]
  | decorate span => [([], decorate span)]
  | scrollTo row => [([], scrollTo row)]

/-- The commands that act in the members of a batch, the first of which has the number `i`. -/
def actionsAll (i : Nat) : List Command → List (Place × Command)
  | [] => []
  | c :: rest => c.actions.map (fun e => (i :: e.1, e.2)) ++ actionsAll (i + 1) rest
end

/-- The members of a batch are gone through in turn, a step further down. -/
theorem actionsAll_eq_flatMap (i : Nat) (commands : List Command) :
    actionsAll i commands = (commands.zipIdx i).flatMap fun member =>
      member.1.actions.map fun e => (member.2 :: e.1, e.2) := by
  induction commands generalizing i with
  | nil => rfl
  | cons c rest ih => rw [actionsAll, ih, List.zipIdx_cons, List.flatMap_cons]

/-- What stands in members of a batch stands in the member with the number that the place begins
with. -/
theorem mem_actionsAll {commands : List Command} {e : Place × Command} :
    e ∈ actionsAll 0 commands ↔ ∃ i c below, commands[i]? = some c ∧ (below, e.2) ∈ c.actions ∧
      e.1 = i :: below := by
  rw [actionsAll_eq_flatMap]
  constructor
  · intro h
    obtain ⟨⟨c, i⟩, hmember, he⟩ := List.mem_flatMap.1 h
    obtain ⟨⟨below, d⟩, hmem, rfl⟩ := List.mem_map.1 he
    exact ⟨i, c, below, List.mk_mem_zipIdx_iff_getElem?.1 hmember, hmem, rfl⟩
  · rintro ⟨i, c, below, hmember, hmem, hplace⟩
    refine List.mem_flatMap.2 ⟨(c, i), List.mk_mem_zipIdx_iff_getElem?.2 hmember, ?_⟩
    exact List.mem_map.2 ⟨(below, e.2), hmem, Prod.ext hplace.symm rfl⟩

/-- A command that acts stands at its own root, and below it there is nothing. -/
theorem Acts.alone {c : Command} (h : c.Acts) :
    c.actions = [([], c)] ∧ ∀ i below, c.at? (i :: below) = Option.none := by
  cases c with
  | none => exact absurd rfl h.1
  | batch commands => exact absurd rfl (h.2 commands)
  | redraw => exact ⟨rfl, fun _ _ => rfl⟩
  | dispatch transaction => exact ⟨rfl, fun _ _ => rfl⟩
  | decorate span => exact ⟨rfl, fun _ _ => rfl⟩
  | scrollTo row => exact ⟨rfl, fun _ _ => rfl⟩

/-- A command is nothing, or a batch, or it acts. -/
theorem eq_none_or_batch_or_acts (c : Command) :
    c = none ∨ (∃ commands, c = batch commands) ∨ c.Acts := by
  by_cases hnone : c = none
  · exact .inl hnone
  · by_cases hbatch : ∃ commands, c = batch commands
    · exact .inr (.inl hbatch)
    · exact .inr (.inr ⟨hnone, fun commands h => hbatch ⟨commands, h⟩⟩)

/-- The commands that act are those that stand at a place and act. -/
theorem mem_actions {c d : Command} {place : Place} :
    (place, d) ∈ c.actions ↔ c.at? place = some d ∧ d.Acts := by
  induction place generalizing c with
  | nil =>
    rcases c.eq_none_or_batch_or_acts with rfl | ⟨commands, rfl⟩ | hacts
    · constructor
      · intro h
        cases h
      · rintro ⟨hroot, hd⟩
        exact absurd (Option.some.inj hroot).symm hd.1
    · constructor
      · intro h
        obtain ⟨i, c, below, -, -, hplace⟩ := mem_actionsAll.1 h
        cases hplace
      · rintro ⟨hroot, hd⟩
        exact absurd (Option.some.inj hroot).symm (hd.2 commands)
    · rw [hacts.alone.1, List.mem_singleton, Prod.mk.injEq]
      constructor
      · rintro ⟨-, rfl⟩
        exact ⟨rfl, hacts⟩
      · rintro ⟨hroot, -⟩
        exact ⟨rfl, (Option.some.inj hroot).symm⟩
  | cons i below ih =>
    rcases c.eq_none_or_batch_or_acts with rfl | ⟨commands, rfl⟩ | hacts
    · constructor
      · intro h
        cases h
      · rintro ⟨hroot, -⟩
        cases hroot
    · show (i :: below, d) ∈ actionsAll 0 commands ↔
        (commands[i]?.bind fun c => c.at? below) = some d ∧ d.Acts
      rw [mem_actionsAll, Option.bind_eq_some_iff]
      constructor
      · rintro ⟨j, c, rest, hmember, hmem, hplace⟩
        obtain ⟨rfl, rfl⟩ := List.cons.inj hplace
        obtain ⟨hat, hd⟩ := ih.1 hmem
        exact ⟨⟨c, hmember, hat⟩, hd⟩
      · rintro ⟨⟨c, hmember, hat⟩, hd⟩
        exact ⟨i, c, below, hmember, ih.2 ⟨hat, hd⟩, rfl⟩
    · rw [hacts.alone.1, hacts.alone.2]
      simp

mutual

/-- Flattening lists the commands that act. -/
theorem map_snd_actions : (c : Command) → c.actions.map Prod.snd = c.flatten
  | none => rfl
  | batch commands => map_snd_actionsAll 0 commands
  | redraw => rfl
  | dispatch _ => rfl
  | decorate _ => rfl
  | scrollTo _ => rfl

/-- Flattening several commands lists those that act in them. -/
theorem map_snd_actionsAll (i : Nat) :
    (commands : List Command) → (actionsAll i commands).map Prod.snd = flattenAll commands
  | [] => rfl
  | c :: rest => by
    have hfirst : (c.actions.map fun e => (i :: e.1, e.2)).map Prod.snd = c.flatten := by
      rw [List.map_map]
      exact map_snd_actions c
    rw [actionsAll, List.map_append, hfirst, map_snd_actionsAll (i + 1) rest,
      flattenAll_cons]

end

mutual

/-- The commands that act come in the lexicographic order of their places, so none comes twice. -/
theorem pairwise_actions : (c : Command) → c.actions.Pairwise fun a b => a.1 < b.1
  | none => .nil
  | batch commands => pairwise_actionsAll 0 commands
  | redraw => List.pairwise_singleton _ _
  | dispatch _ => List.pairwise_singleton _ _
  | decorate _ => List.pairwise_singleton _ _
  | scrollTo _ => List.pairwise_singleton _ _

/-- Those that act in several commands come in the order of their places as well. -/
theorem pairwise_actionsAll (i : Nat) :
    (commands : List Command) → (actionsAll i commands).Pairwise fun a b => a.1 < b.1
  | [] => .nil
  | c :: rest => by
    rw [actionsAll, List.pairwise_append, List.pairwise_map]
    refine ⟨(pairwise_actions c).imp fun hlt => ?_, pairwise_actionsAll (i + 1) rest, ?_⟩
    · exact List.cons_lt_cons_iff.2 (.inr ⟨rfl, hlt⟩)
    · -- Places in two different members differ in their first number already.
      intro a ha b hb
      obtain ⟨a, -, rfl⟩ := List.mem_map.1 ha
      rw [actionsAll_eq_flatMap] at hb
      obtain ⟨member, hmember, hb⟩ := List.mem_flatMap.1 hb
      obtain ⟨b, -, rfl⟩ := List.mem_map.1 hb
      have hlt : i < member.2 := (List.mem_zipIdx hmember).1
      exact List.cons_lt_cons_iff.2 (.inl hlt)

end

/-- What is listed of a command that acts is the command. -/
theorem Acts.flatten_eq {c : Command} (h : c.Acts) : c.flatten = [c] := by
  rw [← map_snd_actions, h.alone.1]
  rfl

/-- A list of commands that act is flat. -/
theorem flattenAll_eq_self {commands : List Command} (h : ∀ c ∈ commands, c.Acts) :
    flattenAll commands = commands := by
  induction commands with
  | nil => rfl
  | cons c rest ih =>
    have hfirst : c.flatten = [c] := (h c List.mem_cons_self).flatten_eq
    have hrest : flattenAll rest = rest := ih fun d hd => h d (List.mem_cons_of_mem c hd)
    rw [flattenAll_cons, hfirst, hrest, List.singleton_append]

/-- Everything that is listed acts. -/
theorem acts_of_mem_flatten {c d : Command} (h : d ∈ c.flatten) : d.Acts := by
  rw [← map_snd_actions] at h
  obtain ⟨⟨place, e⟩, hmem, rfl⟩ := List.mem_map.1 h
  exact (mem_actions.1 hmem).2

/-! ## Paint -/

mutual

/-- A command needs paint exactly if a repaint is listed. -/
theorem needsRedraw_iff : (c : Command) → (c.needsRedraw = true ↔ redraw ∈ c.flatten)
  | none => by simp [needsRedraw, flatten, flattenInto]
  | batch commands => anyNeedsRedraw_iff commands
  | redraw => by simp [needsRedraw, flatten, flattenInto]
  | dispatch _ => by simp [needsRedraw, flatten, flattenInto]
  | decorate _ => by simp [needsRedraw, flatten, flattenInto]
  | scrollTo _ => by simp [needsRedraw, flatten, flattenInto]

/-- One of several commands needs paint exactly if a repaint is listed of them. -/
theorem anyNeedsRedraw_iff :
    (commands : List Command) → (anyNeedsRedraw commands = true ↔ redraw ∈ flattenAll commands)
  | [] => by simp [anyNeedsRedraw]
  | c :: rest => by
    rw [anyNeedsRedraw, flattenAll_cons, Bool.or_eq_true, List.mem_append, needsRedraw_iff c,
      anyNeedsRedraw_iff rest]

end

/-! ## The list of a nested command -/

/-- What is listed of a command. Nothing in the list is nothing or a batch; the list of a batch is
the lists of its members one after the other; a list that was flattened stays what it is; a command
needs paint exactly if a repaint is in its list; and there are places, in strictly lexicographic
order, at which the command has what is listed, and these are all places at which it has a command
that acts. -/
theorem flatten_lists_actions (c : Command) :
    (∀ d ∈ c.flatten, d ≠ none ∧ ∀ commands, d ≠ batch commands) ∧
    (∀ commands, (batch commands).flatten = commands.flatMap flatten) ∧
    (batch c.flatten).flatten = c.flatten ∧
    (c.needsRedraw = true ↔ redraw ∈ c.flatten) ∧
    ∃ places : List Place, places.Pairwise (· < ·) ∧
      (∀ place, place ∈ places ↔ ∃ d, c.at? place = some d ∧ d.Acts) ∧
      places.map c.at? = c.flatten.map some := by
  refine ⟨fun d hd => acts_of_mem_flatten hd, flattenAll_eq_flatMap,
    flattenAll_eq_self fun d hd => acts_of_mem_flatten hd, needsRedraw_iff c,
    c.actions.map Prod.fst, List.pairwise_map.2 (pairwise_actions c), fun place => ?_, ?_⟩
  · constructor
    · intro h
      obtain ⟨⟨place, d⟩, hmem, rfl⟩ := List.mem_map.1 h
      exact ⟨d, mem_actions.1 hmem⟩
    · rintro ⟨d, hd⟩
      exact List.mem_map.2 ⟨(place, d), mem_actions.2 hd, rfl⟩
  · rw [← map_snd_actions, List.map_map, List.map_map]
    exact List.map_congr_left fun e hmem => (mem_actions.1 hmem).1

/-- Two batches within a batch, one of them empty, and nothing between two commands. -/
def nestedBatches : Command :=
  batch [redraw, none, batch [decorate Option.none, batch []], scrollTo 3]

/-- Three commands of the nested batches act, and a repaint is one of them. -/
theorem flatten_nestedBatches :
    nestedBatches.flatten = [redraw, decorate Option.none, scrollTo 3] ∧
    (redraw ≠ none ∧ ∀ commands, redraw ≠ batch commands) ∧
    nestedBatches.needsRedraw = true ∧
    (batch nestedBatches.flatten).flatten = nestedBatches.flatten ∧
    ∃ places : List Place, [2, 0] ∈ places ∧ [2, 1] ∉ places ∧
      places.map nestedBatches.at? =
        [some redraw, some (decorate Option.none), some (scrollTo 3)] := by
  obtain ⟨hacts, -, hflat, hpaint, places, -, hplaces, hlist⟩ := flatten_lists_actions nestedBatches
  have hfirst : redraw ∈ nestedBatches.flatten := List.mem_cons_self
  refine ⟨rfl, hacts redraw hfirst, hpaint.2 hfirst, hflat, places, (hplaces [2, 0]).2 ?_, ?_,
    hlist⟩
  · exact ⟨decorate Option.none, rfl, nofun, nofun⟩
  · intro hmem
    obtain ⟨d, hat, hd⟩ := (hplaces [2, 1]).1 hmem
    exact absurd (Option.some.inj hat).symm (hd.2 [])

end TreePanel.Command
