import TreePanel.Yaml.Plain

/-!
# Block scalars

After `|` or `>` a scalar is written in lines of its own. Its indentation is given by a digit or
found from its first line. A literal scalar keeps its breaks; a folded one joins two lines by a
space, unless one of them begins with a blank. The header also says what to do with the breaks at
the end: drop them, keep one, or keep them all.
-/

namespace TreePanel.Yaml.Block

/-- What to do with the breaks at the end. -/
inductive Chomping where
  | strip
  | clip
  | keep
deriving DecidableEq

/-- What stands after the indicator. -/
structure Header where
  chomping : Chomping
  /-- Columns of indentation, if given. -/
  indent : Option Nat

/-- The sign of a chomping. -/
def chomping? : Char → Option Chomping
  | '+' => some .keep
  | '-' => some .strip
  | _ => none

/-- The digit of an indentation; zero is none. -/
def indent? (c : Char) : Option (Option Nat) :=
  if c.isDigit then some (if c == '0' then none else some (c.toNat - '0'.toNat)) else none

/-- The header and what follows it: a sign and a digit in any order, either or both missing. -/
def header? (s : Source) : Option (Header × Source) :=
  match s.rest with
  | a :: b :: _ =>
    match chomping? a, indent? a with
    | some chomping, _ =>
      match indent? b with
      | some indent => indent.map fun n => (⟨chomping, some n⟩, s.skip 2)
      | none => some (⟨chomping, none⟩, s.skip 1)
    | none, some indent =>
      indent.map fun n =>
        match chomping? b with
        | some chomping => (⟨chomping, some n⟩, s.skip 2)
        | none => (⟨.clip, some n⟩, s.skip 1)
    | none, none => some (⟨.clip, none⟩, s)
  | [a] =>
    match chomping? a, indent? a with
    | some chomping, _ => some (⟨chomping, none⟩, s.skip 1)
    | none, some indent => indent.map fun n => (⟨.clip, some n⟩, s.skip 1)
    | none, none => some (⟨.clip, none⟩, s)
  | [] => some (⟨.clip, none⟩, s)

/-- Breaks between lines, the widest indentation met, and what follows. -/
structure Breaks where
  values : List Char
  widest : Nat
  source : Source

/-- Leave out indentation and collect the breaks of empty lines. As long as the indentation is not
known, which is what a zero means, all leading spaces belong to it. A tab in it is not allowed. -/
def breaks? (indent widest : Nat) : List Char → Position → Option Breaks
  | [], pos => some ⟨[], max widest pos.column, ⟨[], pos⟩⟩
  | '\r' :: '\n' :: rest, pos => do
    let more ← breaks? indent (max widest pos.column) rest (pos.newLine 2)
    return { more with values := '\n' :: more.values }
  | c :: rest, pos =>
    let inIndent := indent == 0 || pos.column < indent
    if c == ' ' && inIndent then breaks? indent widest rest (pos.skip 1)
    else if c == '\t' && inIndent then none
    else if isBreak c then do
      let more ← breaks? indent (max widest pos.column) rest (pos.newLine c.utf8Size)
      return { more with values := breakValue c :: more.values }
    else some ⟨[], max widest pos.column, ⟨c :: rest, pos⟩⟩

/-- A scalar while its lines are read. -/
structure Lines where
  text : List Char
  /-- The break after the last line. -/
  lineBreak : Option Char
  /-- The breaks of the empty lines after it. -/
  more : List Char
  /-- Whether the last line began with a blank. -/
  indented : Bool
  source : Source

/-- The white space between two lines. -/
def between (isLiteral : Bool) (l : Lines) (nextIndented : Bool) : List Char :=
  if !isLiteral && l.lineBreak == some '\n' && !l.indented && !nextIndented then
    (if l.more.isEmpty then [' '] else l.more)
  else l.lineBreak.toList ++ l.more

/-- Read the lines that stand at column `indent`. Each round reads a line, so the length of the
source bounds their number. -/
def lines? (isLiteral : Bool) (indent : Nat) : Nat → Lines → Option Lines
  | 0, l => some l
  | rounds + 1, l =>
    match l.source.rest with
    | [] => some l
    | c :: _ =>
      if l.source.pos.column ≠ indent then some l
      else do
        let (line, s) := l.source.cutWhile fun c => !isBreak c
        let text := l.text ++ between isLiteral l (isBlank c) ++ line
        let (lineBreak, s) := match s.cutBreak? with
          | some (value, s) => (some value, s)
          | none => (none, s)
        let breaks ← breaks? indent 0 s.rest s.pos
        lines? isLiteral indent rounds ⟨text, lineBreak, breaks.values, isBlank c, breaks.source⟩

/-- Read a block scalar from its indicator on. `parent` is the column of the innermost collection
around it, `-1` at the root. -/
def read? (isLiteral : Bool) (parent : Int) (s : Source) : Option (List Char × Source) := do
  let (header, s) ← header? (s.skip 1)
  let s := s.skipToLineEnd
  if !breakNext s.rest then none
  else
    let s := match s.cutBreak? with
      | some (_, s) => s
      | none => s
    let given := (header.indent.map fun n => ((max parent 0) + n).toNat).getD 0
    let breaks ← breaks? given 0 s.rest s.pos
    let indent := if given = 0 then max (max breaks.widest (parent + 1).toNat) 1 else given
    let l ← lines? isLiteral indent breaks.source.rest.length
      ⟨[], none, breaks.values, false, breaks.source⟩
    let tail := match header.chomping with
      | .strip => []
      | .clip => l.lineBreak.toList
      | .keep => l.lineBreak.toList ++ l.more
    return (l.text ++ tail, l.source)

end TreePanel.Yaml.Block
