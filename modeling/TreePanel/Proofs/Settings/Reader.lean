import TreePanel.Proofs.Yaml.Mapping
import TreePanel.Proofs.Yaml.Number
import TreePanel.Settings.Stored

/-!
# Settings read from their lines

Every line of stored settings is an entry of two words (`formed_entry`), and every value is read as
it was written (`readField_valueText`). For a size that is so only if its text reads back: it is
rounded to 64 bits first and to 32 after that, and there are numbers that come out as their
neighbour. From what the reader does with one entry follows what it does with any number of them, in
any order (`readEntries_lines`, `readEntries_repeated`). The fields met so far grow with every
entry, so both inductions go over them.
-/

namespace TreePanel.Settings

open Yaml

/-! ## Lines of settings -/

/-- The key and the value in the line of a field. -/
def entry (s : Settings) (field : Field) : Yaml.Entry := ⟨field.name.toList, s.valueText field⟩

/-- The name of a field begins with a letter. -/
theorem Field.begins_name (field : Field) :
    ∃ c more, field.name.toList = c :: more ∧ c.isAlpha = true := by
  cases field <;> exact ⟨_, _, rfl, by decide⟩

/-- The name of a field is a word. -/
theorem Field.word_name (field : Field) : Word field.name.toList := by
  cases field <;> exact Word.of_all rfl rfl

/-- The value of a field is written as a word. -/
theorem word_valueText (s : Settings) (field : Field) : Word (s.valueText field) := by
  have hsize : ∀ x, Word (sizeStyle.floatText x) := by
    have hinfinity : Word sizeStyle.infinity := Word.of_all rfl rfl
    have hnone : Word sizeStyle.notANumber := Word.of_all rfl rfl
    exact word_floatText hinfinity hnone
  have hbool : ∀ b, Word (boolText b) := by
    intro b
    cases b <;> exact Word.of_all rfl rfl
  cases field with
  | dock =>
    show Word s.dock.name.toList
    cases s.dock <;> exact Word.of_all rfl rfl
  | panelSize => exact hsize s.panelSize
  | indentWidth => exact word_natText s.indentWidth
  | rowHeight => exact hsize s.rowHeight
  | showAnonymous => exact hbool s.showAnonymous
  | footer => exact hbool s.footer

/-- The line of a field is well formed. -/
theorem formed_entry (s : Settings) (field : Field) : (s.entry field).Formed where
  key := field.word_name
  begins := field.begins_name
  short := by
    show field.name.toList.length ≤ 1024
    cases field <;> decide
  value := s.word_valueText field

/-! ## Values that read back -/

/-- A size whose text is read as the same size. -/
def SizeReadsBack (x : Float32) : Prop :=
  (Value.float? (sizeStyle.floatText x)).map
    (fun (negative, magnitude) => Decimal.toFloat negative magnitude) = some x

instance (x : Float32) : Decidable (SizeReadsBack x) := inferInstanceAs (Decidable (_ = _))

-- 7.038531e-26 in 64 bits lies halfway between two numbers of 32 bits, as its text does not.
example : ¬SizeReadsBack (Float32.ofBits 0x15ae43fd) := by decide +kernel

/-- Settings whose values read back one by one. -/
structure Storable (s : Settings) : Prop where
  panelSize : SizeReadsBack s.panelSize
  indentWidth : s.indentWidth < Count.bound
  rowHeight : SizeReadsBack s.rowHeight

/-- Settings with some of their fields taken from others. -/
def withFields (t s : Settings) (fields : List Field) : Settings where
  dock := if .dock ∈ fields then s.dock else t.dock
  panelSize := if .panelSize ∈ fields then s.panelSize else t.panelSize
  indentWidth := if .indentWidth ∈ fields then s.indentWidth else t.indentWidth
  rowHeight := if .rowHeight ∈ fields then s.rowHeight else t.rowHeight
  showAnonymous := if .showAnonymous ∈ fields then s.showAnonymous else t.showAnonymous
  footer := if .footer ∈ fields then s.footer else t.footer

/-- Settings without other fields are the same settings. -/
theorem withFields_nil (t s : Settings) : t.withFields s [] = t := by
  simp [withFields]

/-- All fields of settings are the settings. -/
theorem withFields_all (t s : Settings) : t.withFields s Field.all = s := rfl

/-- Fields may be taken one after another. -/
theorem withFields_cons (t s : Settings) (field : Field) (fields : List Field) :
    (t.withFields s [field]).withFields s fields = t.withFields s (field :: fields) := by
  have hvalue : ∀ {α : Type} (other : Field) (a b : α),
      (if other ∈ fields then a else if other ∈ [field] then a else b) =
        if other ∈ field :: fields then a else b := by
    intro α other a b
    by_cases hfields : other ∈ fields
    · rw [if_pos hfields, if_pos (List.mem_cons_of_mem _ hfields)]
    · rw [if_neg hfields]
      simp only [List.mem_cons, hfields, List.not_mem_nil, or_false]
  simp only [withFields, hvalue]

/-- The text of a size is read as the size, if it reads back at all. -/
theorem readSize_floatText {x : Float32} (h : SizeReadsBack x) :
    readSize (.scalar ⟨none, .plain, sizeStyle.floatText x⟩) = .ok x := by
  rw [SizeReadsBack] at h
  simp only [readSize, readScalar, Value.readsAs, if_true, h]

/-- The text of a count that 64 bits hold is read as the count. -/
theorem readCount_natText {n : Nat} (h : n < Count.bound) :
    readCount (.scalar ⟨none, .plain, Decimal.natText n⟩) = .ok n := by
  have hread : (Value.unsigned? (Decimal.natText n)).filter (· < Count.bound) = some n := by
    rw [Value.unsigned?_natText, Option.filter_some, if_pos (decide_eq_true h)]
  simp only [readCount, readScalar, Value.readsAs, if_true, hread]

/-- The text of a truth value is read as the truth value. -/
theorem readBool_boolText (b : Bool) :
    readBool (.scalar ⟨none, .plain, boolText b⟩) = .ok b := by
  cases b <;> rfl

/-- The name of a side is read as the side. -/
theorem readSide_name (root pos : Position) (place : Place) (side : DockSide) :
    readSide root place ⟨.scalar ⟨none, .plain, side.name.toList⟩, pos, none⟩ = .ok side := by
  cases side <;> rfl

/-- A value is read as it was written. -/
theorem readField_valueText {s : Settings} (h : s.Storable) (draft : Settings)
    (root pos : Position) (place : Place) (field : Field) :
    readField draft root place ⟨.scalar ⟨none, .plain, s.valueText field⟩, pos, none⟩ field =
      .ok (draft.withFields s [field]) := by
  cases field with
  | dock =>
    simp only [readField, valueText, readSide_name]
    rfl
  | panelSize =>
    simp only [readField, valueText, readSize_floatText h.panelSize]
    rfl
  | indentWidth =>
    simp only [readField, valueText, readCount_natText h.indentWidth]
    rfl
  | rowHeight =>
    simp only [readField, valueText, readSize_floatText h.rowHeight]
    rfl
  | showAnonymous =>
    simp only [readField, valueText, readBool_boolText]
    rfl
  | footer =>
    simp only [readField, valueText, readBool_boolText]
    rfl

/-! ## Entries one by one -/

section Step

variable {stream : Stream} {root p q : Position} {draft : Draft} {field : Field} {value : List Char}
  {rest : Events}

/-- An entry whose key is the name of a field gives the field its value, unless it was given one
before. -/
theorem readEntry_field :
    readEntry stream root draft
        (⟨.scalar ⟨none, .plain, field.name.toList⟩, p⟩ ::
          ⟨.scalar ⟨none, .plain, value⟩, q⟩ :: rest) =
      if field ∈ draft.given then .error (.misfit ⟨.whole, root, .duplicate field⟩)
      else
        ((readField draft.settings root (.field field)
          ⟨.scalar ⟨none, .plain, value⟩, q, none⟩ field).mapError .misfit).map
            fun settings => (⟨settings, field :: draft.given⟩, rest) := by
  obtain ⟨events, hevents⟩ : ∃ events : Events, events =
      ⟨.scalar ⟨none, .plain, field.name.toList⟩, p⟩ ::
        ⟨.scalar ⟨none, .plain, value⟩, q⟩ :: rest := ⟨_, rfl⟩
  have hkey : stream.item? events = some ⟨.scalar ⟨none, .plain, field.name.toList⟩, p, none⟩ := by
    rw [hevents]
    rfl
  have hvalue : stream.item? (events.drop 1) = some ⟨.scalar ⟨none, .plain, value⟩, q, none⟩ := by
    rw [hevents]
    rfl
  have hrest : (events.drop 1).drop 1 = rest := by
    rw [hevents]
    rfl
  have hname : readKey ⟨.scalar ⟨none, .plain, field.name.toList⟩, p, none⟩ =
      .ok (some (field, .field field)) := by
    simp only [readKey, String.ofList_toList, Field.ofName?_name]
    rfl
  rw [← hevents, readEntry, hkey]
  simp only [hname, hvalue, hrest, Except.mapError, bind, Except.bind, pure, Except.pure,
    List.contains_iff_mem]
  by_cases hgiven : field ∈ draft.given
  · rw [if_pos hgiven, if_pos hgiven]
    rfl
  · rw [if_neg hgiven, if_neg hgiven]
    cases readField draft.settings root (.field field)
      ⟨.scalar ⟨none, .plain, value⟩, q, none⟩ field <;> rfl

/-- A round reads an entry. -/
theorem readEntries_entry (rounds : Nat) (key : Scalar) (events : Events) :
    readEntries stream root (rounds + 1) draft (⟨.scalar key, p⟩ :: events) =
      (readEntry stream root draft (⟨.scalar key, p⟩ :: events)).bind fun (draft, rest) =>
        readEntries stream root rounds draft rest := rfl

/-- A field that was given before is a misfit of the whole. -/
theorem readEntries_given (hgiven : field ∈ draft.given) (rounds : Nat) :
    readEntries stream root (rounds + 1) draft
        (⟨.scalar ⟨none, .plain, field.name.toList⟩, p⟩ ::
          ⟨.scalar ⟨none, .plain, value⟩, q⟩ :: rest) =
      .error (.misfit ⟨.whole, root, .duplicate field⟩) := by
  rw [readEntries_entry, readEntry_field, if_pos hgiven]
  rfl

/-- A value that does not fit is told. -/
theorem readEntries_misfit {misfit : Misfit} (hgiven : field ∉ draft.given)
    (hread : readField draft.settings root (.field field)
      ⟨.scalar ⟨none, .plain, value⟩, q, none⟩ field = .error misfit) (rounds : Nat) :
    readEntries stream root (rounds + 1) draft
        (⟨.scalar ⟨none, .plain, field.name.toList⟩, p⟩ ::
          ⟨.scalar ⟨none, .plain, value⟩, q⟩ :: rest) =
      .error (.misfit misfit) := by
  rw [readEntries_entry, readEntry_field, if_neg hgiven, hread]
  rfl

/-- After a value that fits, reading goes on. -/
theorem readEntries_next {settings : Settings} (hgiven : field ∉ draft.given)
    (hread : readField draft.settings root (.field field)
      ⟨.scalar ⟨none, .plain, value⟩, q, none⟩ field = .ok settings) (rounds : Nat) :
    readEntries stream root (rounds + 1) draft
        (⟨.scalar ⟨none, .plain, field.name.toList⟩, p⟩ ::
          ⟨.scalar ⟨none, .plain, value⟩, q⟩ :: rest) =
      readEntries stream root rounds ⟨settings, field :: draft.given⟩ rest := by
  rw [readEntries_entry, readEntry_field, if_neg hgiven, hread]
  rfl

end Step

/-! ## All entries -/

/-- Different fields get their values. -/
theorem readEntries_lines (stream : Stream) (root : Position) {s : Settings} (hs : s.Storable)
    {fields : List Field} {draft : Draft} (hnodup : (fields ++ draft.given).Nodup) (p : Position)
    (rounds : Nat) :
    readEntries stream root (fields.length + rounds + 1) draft
        (Entry.resolvedFrom p (fields.map s.entry)) =
      .ok (draft.settings.withFields s fields) := by
  induction fields generalizing draft p with
  | nil =>
    rw [withFields_nil]
    rfl
  | cons field more ih =>
    have hgiven : field ∉ draft.given := by
      have hnot : field ∉ more ++ draft.given := (List.nodup_cons.1 hnodup).1
      exact fun h => hnot (List.mem_append_right _ h)
    have hmore : (more ++ field :: draft.given).Nodup := List.perm_middle.nodup_iff.2 hnodup
    have hread := readField_valueText hs draft.settings root ((s.entry field).valuePos p)
      (.field field) field
    have hrounds : (field :: more).length + rounds + 1 = more.length + rounds + 1 + 1 := by
      rw [List.length_cons]
      omega
    rw [hrounds, List.map_cons, Entry.resolvedFrom]
    calc _ = readEntries stream root (more.length + rounds + 1)
          ⟨draft.settings.withFields s [field], field :: draft.given⟩
          (Entry.resolvedFrom ((s.entry field).nextPos p) (more.map s.entry)) :=
          readEntries_next hgiven hread _
      _ = .ok ((draft.settings.withFields s [field]).withFields s more) := ih hmore _
      _ = .ok (draft.settings.withFields s (field :: more)) := by rw [withFields_cons]

/-- A field that is listed twice is a misfit, if no other comes before it. -/
theorem readEntries_repeated (stream : Stream) (root : Position) {lines : List (Settings × Field)}
    {draft : Draft} (hgiven : draft.given.Nodup)
    (hrepeated : ¬(lines.map Prod.snd ++ draft.given).Nodup) (p : Position) (rounds : Nat) :
    ∃ misfit, readEntries stream root (lines.length + rounds + 1) draft
        (Entry.resolvedFrom p (lines.map fun line => line.1.entry line.2)) =
          .error (.misfit misfit) ∧
      ((∀ line ∈ lines, line.1.Storable) →
        ∃ field, 2 ≤ (lines.map Prod.snd ++ draft.given).count field ∧
          misfit = ⟨.whole, root, .duplicate field⟩) := by
  induction lines generalizing draft p with
  | nil => exact absurd hgiven hrepeated
  | cons line more ih =>
    obtain ⟨s, field⟩ := line
    have hrounds : ((s, field) :: more).length + rounds + 1 = more.length + rounds + 1 + 1 := by
      rw [List.length_cons]
      omega
    have hperm : (more.map Prod.snd ++ field :: draft.given).Perm
        (((s, field) :: more).map Prod.snd ++ draft.given) := List.perm_middle
    rw [hrounds]
    by_cases hfield : field ∈ draft.given
    · refine ⟨⟨.whole, root, .duplicate field⟩, readEntries_given hfield _,
        fun _ => ⟨field, ?_, rfl⟩⟩
      have hcount : 1 ≤ draft.given.count field := List.count_pos_iff.2 hfield
      rw [← hperm.count_eq, List.count_append, List.count_cons_self]
      omega
    · cases hread : readField draft.settings root (.field field)
        ⟨.scalar ⟨none, .plain, s.valueText field⟩, (s.entry field).valuePos p, none⟩ field with
      | error misfit =>
        refine ⟨misfit, readEntries_misfit hfield hread _, fun hstorable => ?_⟩
        have hs : s.Storable := hstorable (s, field) List.mem_cons_self
        rw [readField_valueText hs] at hread
        cases hread
      | ok settings =>
        have hrest : ¬(more.map Prod.snd ++ field :: draft.given).Nodup := fun h =>
          hrepeated (hperm.nodup_iff.1 h)
        have hnodup : (⟨settings, field :: draft.given⟩ : Draft).given.Nodup :=
          List.nodup_cons.2 ⟨hfield, hgiven⟩
        obtain ⟨misfit, hmisfit, hduplicate⟩ := ih hnodup hrest ((s.entry field).nextPos p)
        refine ⟨misfit, (readEntries_next hfield hread _).trans hmisfit, fun hstorable => ?_⟩
        obtain ⟨other, hcount, hcause⟩ := hduplicate fun line hline =>
          hstorable line (List.mem_cons_of_mem _ hline)
        exact ⟨other, hcount.trans_eq (hperm.count_eq other), hcause⟩

/-! ## Text -/

/-- A text of lines is read entry by entry, and there are rounds enough for each of them. -/
theorem ofText_lines {α : Type} {items : List α} {entryOf : α → Yaml.Entry}
    (hnonempty : items ≠ []) (hformed : ∀ item, (entryOf item).Formed) :
    ∃ stream, ofText (items.flatMap fun item => (entryOf item).line) =
      readEntries stream .origin (items.length + (items.length + 1) + 1) ⟨{}, []⟩
        (Entry.resolvedFrom .origin (items.map entryOf)) := by
  have hlength : ∀ (entries : List Yaml.Entry) p,
      (Entry.resolvedFrom p entries).length = 2 * entries.length + 1 := by
    intro entries
    induction entries with
    | nil => exact fun _ => rfl
    | cons e more ih =>
      intro p
      rw [Entry.resolvedFrom, List.length_cons, List.length_cons, ih, List.length_cons]
      omega
  obtain ⟨events, hevents⟩ : ∃ events : Events, events =
      ⟨.mappingStart none, .origin⟩ :: Entry.resolvedFrom .origin (items.map entryOf) := ⟨_, rfl⟩
  have hrounds : events.length = items.length + (items.length + 1) + 1 := by
    rw [hevents, List.length_cons, hlength, List.length_map]
    omega
  have hentries : items.map entryOf ≠ [] := fun h => hnonempty (List.map_eq_nil_iff.1 h)
  have hall : ∀ e ∈ items.map entryOf, e.Formed := by
    intro e he
    obtain ⟨item, -, rfl⟩ := List.mem_map.1 he
    exact hformed item
  have hstream : Stream.ofText? (items.flatMap fun item => (entryOf item).line) =
      some ⟨events, []⟩ := by
    rw [hevents, ← Stream.ofText?_lines hentries hall, List.flatMap_map]
  refine ⟨⟨events, []⟩, ?_⟩
  rw [ofText, hstream, ← hrounds, hevents]
  rfl

end TreePanel.Settings
