import TreePanel.Yaml.Source

/-!
# Plain scalars

A plain scalar is written without quotes. It ends before a colon with a blank, before a comment,
and in brackets before a bracket or a comma. Blanks at its end do not belong to it. Where it goes on
after a break, blanks around the break are dropped and the break becomes a space; of several breaks
all but the first are kept.
-/

namespace TreePanel.Yaml

/-- The white space between two parts of a scalar, as it counts in the value. -/
structure Gap where
  text : List Char
  /-- Whether it holds a break. -/
  folded : Bool

namespace Gap

/-- The value of a break and the breaks after it. A line feed joins the lines by a space, or goes
for the breaks that follow it. -/
def ofBreaks (first : Char) (more : List Char) : List Char :=
  if first == '\n' then (if more.isEmpty then [' '] else more) else first :: more

/-- The values of the breaks that follow a first one, with what comes after the white space. A tab
before column `indent` is not allowed. -/
def breaksAfter? (indent : Int) : List Char → Position → Option (List Char × Source)
  | [], pos => some ([], ⟨[], pos⟩)
  | '\r' :: '\n' :: rest, pos => do
    let (more, s) ← breaksAfter? indent rest (pos.newLine 2)
    return ('\n' :: more, s)
  | c :: rest, pos =>
    if c == ' ' then breaksAfter? indent rest (pos.skip 1)
    else if c == '\t' then
      if pos.column < indent then none else breaksAfter? indent rest (pos.skip 1)
    else if isBreak c then do
      let (more, s) ← breaksAfter? indent rest (pos.newLine c.utf8Size)
      return (breakValue c :: more, s)
    else some ([], ⟨c :: rest, pos⟩)

/-- Cut off white space. After a break, a tab before column `indent` is not allowed. -/
def cut? (indent : Int) (s : Source) : Option (Gap × Source) := do
  let (blanks, s) := s.cutWhile isBlank
  match s.cutBreak? with
  | none => return (⟨blanks, false⟩, s)
  | some (first, s) =>
    let (more, s) ← breaksAfter? indent s.rest s.pos
    return (⟨ofBreaks first more, true⟩, s)

/-- No white space. -/
def empty : Gap := ⟨[], false⟩

end Gap

namespace Plain

/-- The characters that have a meaning of their own between brackets. -/
def isFlowIndicator (c : Char) : Bool :=
  c == ',' || c == '[' || c == ']' || c == '\x7b' || c == '\x7d'

/-- Whether a plain scalar may begin with the character `c` before `rest`. -/
def begins (inFlow : Bool) (c : Char) (rest : List Char) : Bool :=
  if c == '-' then !(match rest with | d :: _ => isBlank d | [] => false)
  else if c == '?' || c == ':' then !inFlow && !blankNext rest
  else
    !(isBlank c || isBreak c || isFlowIndicator c || c == '#' || c == '&' || c == '*' || c == '!'
      || c == '|' || c == '>' || c == '\x27' || c == '\x22' || c == '%' || c == '@' || c == '\x60')

/-- The characters up to white space or the end of the scalar. Between brackets a colon must not
stand directly before an indicator. -/
def run? (inFlow : Bool) : List Char → Option (List Char)
  | [] => some []
  | c :: rest =>
    if isBlank c || isBreak c then some []
    else if inFlow && c == ':' && (rest.head?.any fun d => isFlowIndicator d || d == '?') then none
    else if (c == ':' && blankNext rest) || (inFlow && isFlowIndicator c) then some []
    else (run? inFlow rest).map (c :: ·)

/-- A plain scalar that was read. -/
structure Read where
  text : List Char
  source : Source
  /-- Whether a break was passed after the last character. -/
  onNewLine : Bool

/-- Go on with a plain scalar of which `text` was read and then `gap`. Each round reads white space,
so the length of the source bounds their number. -/
def more? (inFlow : Bool) (indent : Int) : Nat → List Char → Gap → Source → Option Read
  | 0, text, gap, s => some ⟨text, s, gap.folded⟩
  | rounds + 1, text, gap, s =>
    if s.atDocumentMark || s.next '#' then some ⟨text, s, gap.folded⟩
    else do
      let run ← run? inFlow s.rest
      let (text, gap, s) :=
        if run.isEmpty then (text, gap, s)
        else (text ++ gap.text ++ run, Gap.empty, s.pass run)
      if s.rest.isEmpty || !blankNext s.rest then return ⟨text, s, gap.folded⟩
      else
        let (gap, s) ← Gap.cut? indent s
        if !inFlow && s.pos.column < indent then return ⟨text, s, gap.folded⟩
        else more? inFlow indent rounds text gap s

/-- Read a plain scalar. Outside brackets its lines stand at column `indent` or after it. -/
def read? (inFlow : Bool) (indent : Int) (s : Source) : Option Read :=
  more? inFlow indent (s.rest.length + 1) [] .empty s

end Plain

end TreePanel.Yaml
