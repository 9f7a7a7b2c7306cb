import TreePanel.Yaml.Plain

/-!
# Quoted scalars

Between single quotes every character stands for itself, except that two quotes stand for one.
Between double quotes a backslash begins an escape; before a break it joins the lines without a
space. Breaks are folded as in plain scalars.
-/

namespace TreePanel.Yaml.Quoted

/-- Why the characters between white space end. -/
inductive Stop where
  /-- White space, or the end of the text, follows. -/
  | white
  /-- The closing quote follows. -/
  | quote
  /-- A break was escaped. -/
  | escapedBreak
deriving DecidableEq

/-- Characters that were read, and why they end. -/
structure Run where
  text : List Char
  stop : Stop
  source : Source

/-- A run with one more character in front. -/
def Run.cons (c : Char) (r : Run) : Run := { r with text := c :: r.text }

/-! ## Single quotes -/

/-- The characters up to white space or the closing quote. -/
def singleRun : List Char → Position → Run
  | [], pos => ⟨[], .white, ⟨[], pos⟩⟩
  | '\x27' :: '\x27' :: rest, pos => (singleRun rest (pos.skip 2)).cons '\x27'
  | c :: rest, pos =>
    if isBlank c || isBreak c then ⟨[], .white, ⟨c :: rest, pos⟩⟩
    else if c == '\x27' then ⟨[], .quote, ⟨c :: rest, pos⟩⟩
    else (singleRun rest (pos.past c)).cons c

/-! ## Double quotes -/

/-- The character of an escape that is one letter. -/
def escaped? : Char → Option Char
  | '0' => some '\x00'
  | 'a' => some '\x07'
  | 'b' => some '\x08'
  | 't' | '\t' => some '\t'
  | 'n' => some '\n'
  | 'v' => some '\x0b'
  | 'f' => some '\x0c'
  | 'r' => some '\r'
  | 'e' => some '\x1b'
  | ' ' => some ' '
  | '\x22' => some '\x22'
  | '/' => some '/'
  | '\x5c' => some '\x5c'
  | 'N' => some '\u0085'
  | '_' => some '\u00a0'
  | 'L' => some '\u2028'
  | 'P' => some '\u2029'
  | _ => none

/-- How many hexadecimal digits follow the letter of an escape. -/
def hexLength? : Char → Option Nat
  | 'x' => some 2
  | 'u' => some 4
  | 'U' => some 8
  | _ => none

/-- Hexadecimal digits that are still to be read, and the value of those before. -/
structure Hex where
  left : Nat
  value : Nat

/-- The characters up to white space or the closing quote, with their escapes undone; none if an
escape is malformed. Within an escape by number, `hex` says what is still to come. -/
def doubleRun? : Option Hex → List Char → Position → Option Run
  | some _, [], _ => none
  | some hex, c :: rest, pos => do
    let value := 16 * hex.value + (← hexValue? c)
    if hex.left ≤ 1 then
      return (← doubleRun? none rest (pos.skip 1)).cons (← charOf? value)
    else doubleRun? (some ⟨hex.left - 1, value⟩) rest (pos.skip 1)
  | none, [], pos => some ⟨[], .white, ⟨[], pos⟩⟩
  | none, '\x5c' :: '\r' :: '\n' :: rest, pos =>
    some ⟨[], .escapedBreak, ⟨rest, (pos.skip 1).newLine 2⟩⟩
  | none, '\x5c' :: c :: rest, pos =>
    if isBreak c then some ⟨[], .escapedBreak, ⟨rest, (pos.skip 1).newLine c.utf8Size⟩⟩
    else
      match hexLength? c with
      | some length => doubleRun? (some ⟨length, 0⟩) rest (pos.skip 2)
      | none => do return (← doubleRun? none rest (pos.skip 2)).cons (← escaped? c)
  | none, c :: rest, pos =>
    if isBlank c || isBreak c then some ⟨[], .white, ⟨c :: rest, pos⟩⟩
    else if c == '\x22' then some ⟨[], .quote, ⟨c :: rest, pos⟩⟩
    else if c == '\x5c' then none
    else do return (← doubleRun? none rest (pos.past c)).cons c

/-! ## Either kind -/

/-- The characters up to white space or the closing quote. -/
def run? (isSingle : Bool) (s : Source) : Option Run :=
  if isSingle then some (singleRun s.rest s.pos) else doubleRun? none s.rest s.pos

/-- White space in a quoted scalar. After an escaped break the blanks before further breaks are
dropped, and every further break counts. -/
def gap? (afterEscapedBreak : Bool) (s : Source) : Option (List Char × Source) :=
  if afterEscapedBreak then Gap.breaksAfter? 0 s.rest s.pos
  else (Gap.cut? 0 s).map fun (gap, s) => (gap.text, s)

/-- Go on with a quoted scalar of which `text` was read. Each round reads white space or an escaped
break, so the length of the source bounds their number. -/
def more? (isSingle : Bool) : Nat → List Char → Source → Option (List Char × Source)
  | 0, _, _ => none
  | rounds + 1, text, s =>
    if s.atDocumentMark || s.rest.isEmpty then none
    else do
      let run ← run? isSingle s
      let text := text ++ run.text
      if run.source.next (if isSingle then '\x27' else '\x22') then
        return (text, run.source.skip 1)
      else
        let (gap, s) ← gap? (run.stop == .escapedBreak) run.source
        more? isSingle rounds (text ++ gap) s

/-- Read a quoted scalar from its opening quote on. -/
def read? (isSingle : Bool) (s : Source) : Option (List Char × Source) :=
  more? isSingle (s.rest.length + 1) [] (s.skip 1)

end TreePanel.Yaml.Quoted
