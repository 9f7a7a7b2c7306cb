import TreePanel.Proofs.Yaml.Line
import TreePanel.Yaml.Content

/-!
# Lines as a mapping

Lines that hold a key and a value each are read as one mapping. What one line takes, three rounds of
the scan and four steps of the parser, is stated once (`Scan.run_line`, `Event.reach?_entry`), and
any number of lines follows by induction, for every position at which they may begin. There are no
anchors, so the events of the mapping are those of its keys and values in order
(`Stream.ofText?_lines`).
-/

namespace TreePanel.Yaml

/-! ## Tokens -/

/-- The tokens of a mapping from one of its lines on, to the end of the stream. -/
def Entry.tokensFrom (p : Position) : List Entry → List Token
  | [] => [⟨.blockEnd, p, p⟩, ⟨.streamEnd, p, p⟩]
  | e :: rest => e.tokens p ++ tokensFrom (e.nextPos p) rest

namespace Scan

variable {e : Entry} {rest : List Char} {p : Position} {columns : List Nat} {tokens : List Token}

/-- A scan goes on after a token that does not end the stream. -/
theorem run_next {s t : Scan} {token : Token} {before : List Token} (rounds : Nat)
    (hnext : s.next = some t) (htokens : t.tokens = token :: before)
    (hkind : token.kind ≠ .streamEnd) : run (rounds + 1) s = run rounds t := by
  rw [run, hnext]
  simp only [Option.bind_eq_bind, Option.bind_some, htokens]
  split
  · next heq => exact absurd (congrArg Token.kind (List.cons.inj heq).1) hkind
  · rfl

/-- Three rounds read a line. -/
theorem run_line (rounds : Nat) (he : e.Formed) (hcolumn : p.column = 0)
    (hcolumns : columns = [] ∨ columns = [0])
    (hnext : rest = [] ∨ ∃ c more, rest = c :: more ∧ isPlainChar c = true) :
    run (rounds + 3) (atLine (e.line ++ rest) p columns tokens) =
      run rounds (atLine rest (e.nextPos p) [0] ((e.tokens p).reverse ++
        if columns = [] then ⟨.blockMappingStart, p, p⟩ :: tokens else tokens)) := by
  obtain ⟨after, hafter⟩ : ∃ after, after = ' ' :: e.value ++ '\n' :: rest := ⟨_, rfl⟩
  obtain ⟨opened, hopened⟩ : ∃ opened, opened =
      if columns = [] then ⟨.blockMappingStart, p, p⟩ :: tokens else tokens := ⟨_, rfl⟩
  have htext : e.line ++ rest = e.key ++ ':' :: after := by
    simp only [hafter, Entry.line, List.append_assoc, List.cons_append, List.nil_append]
  have hblank : blankNext after = true := by
    rw [hafter]
    rfl
  obtain ⟨required, hkey⟩ := next_key tokens he hcolumns hblank
  have hcolon := next_colon tokens required he hblank hcolumn hcolumns
  have hvalue := next_value (⟨.value, e.colonPos p, (e.colonPos p).skip 1⟩ ::
    ⟨.scalar .plain e.key, p, e.colonPos p⟩ :: ⟨.key, p, p⟩ :: opened)
    ((e.colonPos p).skip 1) he hnext
  rw [← hafter] at hvalue
  rw [← hopened] at hcolon ⊢
  rw [htext, run_next _ hkey rfl (by simp), run_next _ hcolon rfl (by simp),
    run_next _ hvalue rfl (by simp)]
  rfl

/-- After a line comes another one, which begins with its key, or nothing. -/
theorem begins_lines {entries : List Entry} (hentries : ∀ e ∈ entries, e.Formed) :
    entries.flatMap Entry.line = [] ∨
      ∃ c more, entries.flatMap Entry.line = c :: more ∧ isPlainChar c = true := by
  cases entries with
  | nil => exact Or.inl rfl
  | cons e others =>
    have he : e.Formed := hentries e List.mem_cons_self
    obtain ⟨c, letters, hkey, hplain, -⟩ := he.key.exists_cons
    have hline : (e :: others).flatMap Entry.line =
        c :: (letters ++ ':' :: ' ' :: e.value ++ ['\n'] ++ others.flatMap Entry.line) := by
      rw [List.flatMap_cons, Entry.line, hkey]
      rfl
    exact Or.inr ⟨c, _, hline, hplain⟩

/-- The lines of a mapping that is open are scanned to the end of the text. -/
theorem run_lines {entries : List Entry} (hentries : ∀ e ∈ entries, e.Formed)
    (hcolumn : p.column = 0) (rounds : Nat) :
    run (3 * entries.length + rounds + 1) (atLine (entries.flatMap Entry.line) p [0] tokens) =
      some (tokens.reverse ++ Entry.tokensFrom p entries) := by
  induction entries generalizing p tokens with
  | nil =>
    have hrounds : 3 * ([] : List Entry).length + rounds + 1 = rounds + 1 := by simp
    rw [hrounds, List.flatMap_nil, run, next_end _ hcolumn]
    simp [Entry.tokensFrom]
  | cons e more ih =>
    obtain ⟨he, hmore⟩ := List.forall_mem_cons.1 hentries
    have hrounds : 3 * (e :: more).length + rounds + 1 = 3 * more.length + rounds + 1 + 3 := by
      rw [List.length_cons]
      omega
    rw [hrounds, List.flatMap_cons, run_line _ he hcolumn (Or.inr rfl) (begins_lines hmore),
      ih hmore rfl]
    simp [Entry.tokensFrom]

end Scan

/-- Every character of a line may stand in a stream. -/
theorem Entry.Formed.isAllowed {e : Entry} (he : e.Formed) : e.line.all isAllowed = true := by
  have hword : ∀ {word : List Char}, Word word → word.all Yaml.isAllowed = true := by
    intro word h
    exact List.all_eq_true.2 fun c hc => isAllowed_of_isPlainChar (h.plain c hc)
  rw [Entry.line, List.all_append, List.all_append, hword he.key, List.all_cons, List.all_cons,
    hword he.value]
  rfl

/-- A line has three characters at least. -/
theorem Entry.length_lines (entries : List Entry) :
    3 * entries.length ≤ (entries.flatMap Entry.line).length := by
  induction entries with
  | nil => exact Nat.zero_le _
  | cons e more ih =>
    have hline : 3 ≤ e.line.length := by
      simp only [Entry.line, List.length_append, List.length_cons]
      omega
    rw [List.flatMap_cons, List.length_append, List.length_cons]
    omega

/-- The tokens of the lines of a mapping. -/
theorem tokens?_lines {entries : List Entry} (hnonempty : entries ≠ [])
    (hentries : ∀ e ∈ entries, e.Formed) :
    tokens? (entries.flatMap Entry.line) =
      some (⟨.blockMappingStart, .origin, .origin⟩ :: Entry.tokensFrom .origin entries) := by
  have hallowed : (entries.flatMap Entry.line).all isAllowed = true := by
    rw [List.all_flatMap, List.all_eq_true]
    exact fun e he => (hentries e he).isAllowed
  obtain ⟨rounds, hrounds⟩ : ∃ rounds,
      (entries.flatMap Entry.line).length = 3 * entries.length + rounds :=
    Nat.exists_eq_add_of_le (Entry.length_lines entries)
  obtain ⟨e, more, rfl⟩ := List.exists_cons_of_ne_nil hnonempty
  obtain ⟨he, hmore⟩ := List.forall_mem_cons.1 hentries
  have hfirst : 3 * (e :: more).length + rounds + 1 = 3 * more.length + rounds + 1 + 3 := by
    rw [List.length_cons]
    omega
  have hstart : Scan.start ((e :: more).flatMap Entry.line) =
      Scan.atLine (e.line ++ more.flatMap Entry.line) .origin [] [] := rfl
  rw [tokens?, if_pos hallowed, hrounds, hfirst, hstart,
    Scan.run_line _ he rfl (Or.inl rfl) (Scan.begins_lines hmore), Scan.run_lines hmore rfl]
  simp [Entry.tokensFrom]

/-! ## Events -/

namespace Entry

/-- The events of a mapping from one of its lines on. -/
def eventsFrom (p : Position) : List Entry → List Event.At
  | [] => [⟨.mappingEnd, p⟩]
  | e :: rest =>
    ⟨.scalar none ⟨none, .plain, e.key⟩, p⟩ ::
      ⟨.scalar none ⟨none, .plain, e.value⟩, e.valuePos p⟩ :: eventsFrom (e.nextPos p) rest

/-- The same events where they are resolved. -/
def resolvedFrom (p : Position) : List Entry → Events
  | [] => [⟨.mappingEnd, p⟩]
  | e :: rest =>
    ⟨.scalar ⟨none, .plain, e.key⟩, p⟩ ::
      ⟨.scalar ⟨none, .plain, e.value⟩, e.valuePos p⟩ :: resolvedFrom (e.nextPos p) rest

end Entry

namespace Event

variable {handles : Handles}

/-- Goals are reached one after another. -/
theorem reach?_step {goal : Goal} {goals : List Goal} {tokens rest : List Token} (step : Step)
    {events : List Event.At} {steps : Nat} (hstep : step? handles goal tokens = some step)
    (hreach : reach? handles steps (step.goals ++ goals) step.rest = some (events, rest)) :
    reach? handles (steps + 1) (goal :: goals) tokens = some (step.events ++ events, rest) := by
  rw [reach?, hstep]
  simp only [Option.bind_eq_bind, Option.bind_some, hreach]
  rfl

/-- Four steps read an entry: its key, its value, and what stands before each of them. -/
theorem reach?_entry {tokens rest : List Token} {events : List Event.At} {steps : Nat} (e : Entry)
    (p : Position) (hreach : reach? handles steps [.blockKey] tokens = some (events, rest)) :
    reach? handles (steps + 4) [.blockKey] (e.tokens p ++ tokens) =
      some (⟨.scalar none ⟨none, .plain, e.key⟩, p⟩ ::
        ⟨.scalar none ⟨none, .plain, e.value⟩, e.valuePos p⟩ :: events, rest) := by
  have hvalue : reach? handles (steps + 1) [.node true true, .blockKey]
      (⟨.scalar .plain e.value, e.valuePos p, e.nextPos p⟩ :: tokens) =
        some (⟨.scalar none ⟨none, .plain, e.value⟩, e.valuePos p⟩ :: events, rest) :=
    reach?_step (one (.scalar none ⟨none, .plain, e.value⟩) (e.valuePos p) [] tokens) rfl
      hreach
  have hcolon : reach? handles (steps + 2) [.blockValue]
      (⟨.value, e.colonPos p, (e.colonPos p).skip 1⟩ ::
        ⟨.scalar .plain e.value, e.valuePos p, e.nextPos p⟩ :: tokens) =
        some (⟨.scalar none ⟨none, .plain, e.value⟩, e.valuePos p⟩ :: events, rest) :=
    reach?_step (⟨[], [.node true true, .blockKey], _⟩) rfl hvalue
  have hkey : reach? handles (steps + 3) [.node true true, .blockValue]
      (⟨.scalar .plain e.key, p, e.colonPos p⟩ :: ⟨.value, e.colonPos p, (e.colonPos p).skip 1⟩ ::
        ⟨.scalar .plain e.value, e.valuePos p, e.nextPos p⟩ :: tokens) =
        some (⟨.scalar none ⟨none, .plain, e.key⟩, p⟩ ::
          ⟨.scalar none ⟨none, .plain, e.value⟩, e.valuePos p⟩ :: events, rest) :=
    reach?_step (one (.scalar none ⟨none, .plain, e.key⟩) p [] _) rfl hcolon
  exact reach?_step (⟨[], [.node true true, .blockValue], _⟩) rfl hkey

/-- The tokens of lines make up the entries of a mapping, and its end. -/
theorem reach?_lines (handles : Handles) (entries : List Entry) (p : Position) (steps : Nat) :
    ∃ q, reach? handles (4 * entries.length + steps + 1) [.blockKey] (Entry.tokensFrom p entries) =
      some (Entry.eventsFrom p entries, [⟨.streamEnd, q, q⟩]) := by
  induction entries generalizing p with
  | nil =>
    have hsteps : 4 * ([] : List Entry).length + steps + 1 = steps + 1 := by simp
    have hdone :
        reach? handles steps [] [⟨.streamEnd, p, p⟩] = some ([], [⟨.streamEnd, p, p⟩]) := by
      cases steps <;> rfl
    refine ⟨p, ?_⟩
    rw [hsteps]
    exact reach?_step (one .mappingEnd p [] [⟨.streamEnd, p, p⟩]) rfl hdone
  | cons e more ih =>
    obtain ⟨q, hmore⟩ := ih (e.nextPos p)
    have hsteps : 4 * (e :: more).length + steps + 1 = 4 * more.length + steps + 1 + 4 := by
      rw [List.length_cons]
      omega
    refine ⟨q, ?_⟩
    rw [hsteps]
    exact reach?_entry e p hmore

/-- The tokens of lines make up a document whose root is a mapping. -/
theorem root?_lines (handles : Handles) (entries : List Entry) (p : Position) :
    ∃ q, root? handles (⟨.blockMappingStart, p, p⟩ :: Entry.tokensFrom p entries) =
      some (⟨.mappingStart ⟨none, none⟩, p⟩ :: Entry.eventsFrom p entries,
        [⟨.streamEnd, q, q⟩]) := by
  have hlength : 4 * entries.length + 2 = (Entry.tokensFrom p entries).length := by
    induction entries generalizing p with
    | nil => rfl
    | cons e more ih =>
      rw [Entry.tokensFrom, List.length_append, ← ih (e.nextPos p), Entry.tokens]
      simp only [List.length_cons, List.length_nil]
      omega
  obtain ⟨steps, hsteps⟩ : ∃ steps,
      8 * ((⟨.blockMappingStart, p, p⟩ :: Entry.tokensFrom p entries).length + 1) =
        4 * entries.length + steps + 1 + 1 := by
    refine ⟨28 * entries.length + 30, ?_⟩
    rw [List.length_cons, ← hlength]
    omega
  obtain ⟨q, hreach⟩ := reach?_lines handles entries p steps
  refine ⟨q, ?_⟩
  rw [root?, hsteps]
  exact reach?_step (one (.mappingStart ⟨none, none⟩) p [.blockKey] _) rfl hreach

end Event

namespace Stream

/-- A scalar without an anchor stays what it is. -/
theorem resolve?_scalar (a : Anchors) (index : Nat) (scalar : Scalar) (pos : Position)
    (rest : List Event.At) :
    resolve? a index (⟨.scalar none scalar, pos⟩ :: rest) =
      (resolve? a (index + 1) rest).map fun (events, a) =>
        (⟨.scalar scalar, pos⟩ :: events, a) := by
  cases h : resolve? a (index + 1) rest <;> simp [resolve?, Anchors.define, h]

/-- Lines have no anchors, so their events stay what they are where aliases are resolved. -/
theorem resolve?_lines (entries : List Entry) (a : Anchors) (index : Nat) (p : Position) :
    resolve? a index (Entry.eventsFrom p entries) = some (Entry.resolvedFrom p entries, a) := by
  induction entries generalizing index p with
  | nil => rfl
  | cons e more ih =>
    rw [Entry.eventsFrom, Entry.resolvedFrom, resolve?_scalar, resolve?_scalar, ih]
    rfl

/-- Lines are read as a mapping of the texts of their keys and values. -/
theorem ofText?_lines {entries : List Entry} (hnonempty : entries ≠ [])
    (hentries : ∀ e ∈ entries, e.Formed) :
    ofText? (entries.flatMap Entry.line) =
      some ⟨⟨.mappingStart none, .origin⟩ :: Entry.resolvedFrom .origin entries, []⟩ := by
  obtain ⟨q, hroot⟩ := Event.root?_lines Event.standardHandles entries .origin
  have hfirst : firstDocument? (⟨.blockMappingStart, .origin, .origin⟩ ::
      Entry.tokensFrom .origin entries) = some (⟨.mappingStart ⟨none, none⟩, .origin⟩ ::
        Entry.eventsFrom .origin entries, [⟨.streamEnd, q, q⟩]) := hroot
  have hresolve : resolve? ⟨[], []⟩ 0 (⟨.mappingStart ⟨none, none⟩, .origin⟩ ::
      Entry.eventsFrom .origin entries) = some (⟨.mappingStart none, .origin⟩ ::
        Entry.resolvedFrom .origin entries, ⟨[], []⟩) := by
    simp [resolve?, Anchors.define, resolve?_lines]
  rw [ofText?, tokens?_lines hnonempty hentries]
  simp only [Option.bind_eq_bind, Option.bind_some, hfirst, hresolve]
  rfl

end Stream

end TreePanel.Yaml
