import TreePanel.Yaml.Block
import TreePanel.Yaml.Quoted
import TreePanel.Yaml.Tag

/-!
# From text to tokens

The scan of a text goes from token to token. It keeps the columns of the open block collections,
and for every level of brackets the place where a key may have begun: only a colon on the same line
shows that a key did begin there, and its mark then goes before the tokens read since.
-/

namespace TreePanel.Yaml

/-- A place where a key may have begun. -/
structure Candidate where
  /-- Number of tokens before it. -/
  number : Nat
  /-- Nothing but a key can stand there. -/
  required : Bool
  pos : Position

/-- A scan in progress. -/
structure Scan where
  source : Source
  /-- The columns of the open block collections, the innermost first. -/
  columns : List Nat
  /-- The candidate of the current level of brackets. -/
  candidate : Option Candidate
  /-- The candidates of the levels around it, the innermost first. -/
  outer : List (Option Candidate)
  /-- Whether a key may begin at the next token. -/
  keyAllowed : Bool
  /-- The tokens read so far, the last one first. -/
  tokens : List Token

namespace Scan

/-- The scan of a text that has not begun yet. -/
def start (text : List Char) : Scan := ⟨⟨text, .origin⟩, [], none, [], true, []⟩

/-- Whether the scan is between brackets. -/
def inFlow (s : Scan) : Bool := !s.outer.isEmpty

/-- Where the scan stands. -/
def pos (s : Scan) : Position := s.source.pos

/-- The column of the innermost block collection, `-1` if there is none. -/
def indent (s : Scan) : Int :=
  match s.columns with
  | [] => -1
  | column :: _ => column

/-- Add a token after all others. -/
def push (s : Scan) (kind : Token.Kind) (start stop : Position) : Scan :=
  { s with tokens := ⟨kind, start, stop⟩ :: s.tokens }

/-- Add a token after the first `number` ones. -/
def insert (s : Scan) (number : Nat) (kind : Token.Kind) (pos : Position) : Scan :=
  let since := s.tokens.length - number
  { s with tokens := s.tokens.take since ++ ⟨kind, pos, pos⟩ :: s.tokens.drop since }

/-- Read `n` characters of one byte each as a token. -/
def take (s : Scan) (kind : Token.Kind) (n : Nat) : Scan :=
  let source := s.source.skip n
  { s.push kind s.pos source.pos with source := source }

/-! ## Block collections -/

/-- End the block collections that begin to the right of a column. Between brackets columns mean
nothing. -/
def endBlocks (column : Int) (s : Scan) : Scan :=
  if s.inFlow then s
  else
    let ended := s.columns.takeWhile fun (begun : Nat) => column < begun
    { s with
      columns := s.columns.drop ended.length
      tokens := (ended.map fun _ => ⟨.blockEnd, s.pos, s.pos⟩) ++ s.tokens }

/-- Begin a block collection at a column, unless one is open there. -/
def beginBlock (s : Scan) (column : Nat) (number : Nat) (kind : Token.Kind) (pos : Position) :
    Scan :=
  if s.inFlow || column ≤ s.indent then s
  else { s.insert number kind pos with columns := column :: s.columns }

/-! ## Candidates for keys -/

/-- Give up the candidate of the current level; a fault if nothing else can stand there. -/
def dropCandidate (s : Scan) : Option Scan :=
  match s.candidate with
  | some c => if c.required then none else some { s with candidate := none }
  | none => some s

/-- A key may begin at the next token, if one is allowed there. It has to, if the token stands in
the column of the innermost block collection. -/
def saveCandidate (s : Scan) : Option Scan :=
  if s.keyAllowed then do
    let required := !s.inFlow && s.indent == s.pos.column
    let s ← s.dropCandidate
    return { s with candidate := some ⟨s.tokens.length, required, s.pos⟩ }
  else return s

/-- A candidate is too far back once the line has ended or more than 1024 bytes have passed. -/
def isStale (pos : Position) (c : Candidate) : Bool :=
  c.pos.line < pos.line || c.pos.index + 1024 < pos.index

/-- What is left of a candidate at a position; a fault if nothing but a key can stand there. -/
def keepFresh (pos : Position) : Option Candidate → Option (Option Candidate)
  | some c => if isStale pos c then (if c.required then none else some none) else some (some c)
  | none => some none

/-- Give up the candidates that are too far back. -/
def dropStale (s : Scan) : Option Scan := do
  let candidate ← keepFresh s.pos s.candidate
  let outer ← s.outer.mapM (keepFresh s.pos)
  return { s with candidate := candidate, outer := outer }

/-! ## White space between tokens -/

/-- Leave out white space and comments, and tell whether a key may begin afterwards. A new line
allows it outside brackets. Where a key may begin, a tab is no white space. A byte order mark is
white space in the first column only. -/
def skipWhite (flow : Bool) : Bool → Bool → List Char → Position → Bool × Source
  | keyAllowed, _, [], pos => (keyAllowed, ⟨[], pos⟩)
  | keyAllowed, _, '\r' :: '\n' :: rest, pos =>
    skipWhite flow (keyAllowed || !flow) false rest (pos.newLine 2)
  | keyAllowed, inComment, c :: rest, pos =>
    if isBreak c then skipWhite flow (keyAllowed || !flow) false rest (pos.newLine c.utf8Size)
    else if inComment || c == '#' then skipWhite flow keyAllowed true rest (pos.past c)
    else if c == '\ufeff' && pos.column == 0 then
      skipWhite flow keyAllowed false rest (pos.past c)
    else if c == ' ' || (c == '\t' && (flow || !keyAllowed)) then
      skipWhite flow keyAllowed false rest (pos.skip 1)
    else (keyAllowed, ⟨c :: rest, pos⟩)

/-- Go to the next token. -/
def toNext (s : Scan) : Scan :=
  let (keyAllowed, source) := skipWhite s.inFlow s.keyAllowed false s.source.rest s.pos
  { s with keyAllowed := keyAllowed, source := source }

/-! ## Tokens -/

/-- The end of the text: it ends every block collection. -/
def atEnd (s : Scan) : Option Scan := do
  let s := if s.pos.column = 0 then s
    else
      { s with
        source := { s.source with pos := { s.pos with line := s.pos.line + 1, column := 0 } } }
  let s ← (s.endBlocks (-1)).dropCandidate
  return { s with keyAllowed := false }.push .streamEnd s.pos s.pos

/-- A directive. -/
def directive (s : Scan) : Option Scan := do
  let s ← (s.endBlocks (-1)).dropCandidate
  let (token, source) ← Directive.read? s.source
  return { s with keyAllowed := false, source := source, tokens := token :: s.tokens }

/-- A line of three dashes or dots. -/
def documentMark (s : Scan) (kind : Token.Kind) : Option Scan := do
  let s ← (s.endBlocks (-1)).dropCandidate
  return { s with keyAllowed := false }.take kind 3

/-- An opening bracket. -/
def openBracket (s : Scan) (kind : Token.Kind) : Option Scan := do
  let s ← s.saveCandidate
  let s := { s with outer := s.candidate :: s.outer, candidate := none, keyAllowed := true }
  return s.take kind 1

/-- A closing bracket. -/
def closeBracket (s : Scan) (kind : Token.Kind) : Option Scan := do
  let s ← s.dropCandidate
  let s := match s.outer with
    | [] => s
    | candidate :: outer => { s with candidate := candidate, outer := outer }
  return { s with keyAllowed := false }.take kind 1

/-- A comma. -/
def comma (s : Scan) : Option Scan := do
  let s ← s.dropCandidate
  return { s with keyAllowed := true }.take .flowEntry 1

/-- A dash before an entry. -/
def dash (s : Scan) : Option Scan := do
  if !s.inFlow && !s.keyAllowed then none
  else
    let s := s.beginBlock s.pos.column s.tokens.length .blockSequenceStart s.pos
    let s ← s.dropCandidate
    return { s with keyAllowed := true }.take .entry 1

/-- A question mark before a key. -/
def questionMark (s : Scan) : Option Scan := do
  if !s.inFlow && !s.keyAllowed then none
  else
    let s := s.beginBlock s.pos.column s.tokens.length .blockMappingStart s.pos
    let s ← s.dropCandidate
    return { s with keyAllowed := !s.inFlow }.take .key 1

/-- A colon. If a key may have begun on this line, it did; the marks of the key and of its mapping
go before it. -/
def colon (s : Scan) : Option Scan :=
  match s.candidate with
  | some c =>
    let s := s.insert c.number .key c.pos
    let s := s.beginBlock c.pos.column c.number .blockMappingStart c.pos
    some ({ s with candidate := none, keyAllowed := false }.take .value 1)
  | none =>
    if !s.inFlow && !s.keyAllowed then none
    else
      let s := s.beginBlock s.pos.column s.tokens.length .blockMappingStart s.pos
      some ({ s with keyAllowed := !s.inFlow }.take .value 1)

/-- An anchor or an alias. -/
def name (s : Scan) (kind : String → Token.Kind) : Option Scan := do
  let s ← s.saveCandidate
  let (name, source) ← cutName? (s.source.skip 1)
  return { s.push (kind name) s.pos source.pos with source := source, keyAllowed := false }

/-- A tag. -/
def tag (s : Scan) : Option Scan := do
  let s ← s.saveCandidate
  let ((handle, rest), source) ← Tag.read? s.inFlow s.source
  return { s.push (.tag handle rest) s.pos source.pos with source := source, keyAllowed := false }

/-- A block scalar. A key may begin after it. -/
def blockScalar (s : Scan) (style : ScalarStyle) : Option Scan := do
  let s ← s.dropCandidate
  let (text, source) ← Block.read? (style == .literal) s.indent s.source
  return { s.push (.scalar style text) s.pos source.pos with source := source, keyAllowed := true }

/-- A quoted scalar. -/
def quotedScalar (s : Scan) (style : ScalarStyle) : Option Scan := do
  let s ← s.saveCandidate
  let (text, source) ← Quoted.read? (style == .singleQuoted) s.source
  return { s.push (.scalar style text) s.pos source.pos with source := source, keyAllowed := false }

/-- A plain scalar. A key may begin after it if it ended on a new line. -/
def plainScalar (s : Scan) : Option Scan := do
  let s ← s.saveCandidate
  let read ← Plain.read? s.inFlow (s.indent + 1) s.source
  return { s.push (.scalar .plain read.text) s.pos read.source.pos with
    source := read.source, keyAllowed := read.onNewLine }

/-- The token that begins with `c` before `rest`. -/
def token (s : Scan) (c : Char) (rest : List Char) : Option Scan :=
  if s.pos.column == 0 && c == '%' then s.directive
  else if s.source.atDocumentMark then
    s.documentMark (if c == '-' then .documentStart else .documentEnd)
  else if c == '[' then s.openBracket .flowSequenceStart
  else if c == '\x7b' then s.openBracket .flowMappingStart
  else if c == ']' then s.closeBracket .flowSequenceEnd
  else if c == '\x7d' then s.closeBracket .flowMappingEnd
  else if c == ',' then s.comma
  else if c == '-' && blankNext rest then s.dash
  else if c == '?' && (s.inFlow || blankNext rest) then s.questionMark
  else if c == ':' && (s.inFlow || blankNext rest) then s.colon
  else if c == '*' then s.name .alias
  else if c == '&' then s.name .anchor
  else if c == '!' then s.tag
  else if c == '|' && !s.inFlow then s.blockScalar .literal
  else if c == '>' && !s.inFlow then s.blockScalar .folded
  else if c == '\x27' then s.quotedScalar .singleQuoted
  else if c == '\x22' then s.quotedScalar .doubleQuoted
  else if Plain.begins s.inFlow c rest then s.plainScalar
  else none

/-- Read the next token. -/
def next (s : Scan) : Option Scan := do
  let s ← s.toNext.dropStale
  let s := s.endBlocks s.pos.column
  match s.source.rest with
  | [] => s.atEnd
  | c :: rest => s.token c rest

/-! ## The whole text -/

/-- Read tokens to the end of the text. Each round but the last reads at least one character. -/
def run : Nat → Scan → Option (List Token)
  | 0, _ => none
  | rounds + 1, s => do
    let s ← s.next
    match s.tokens with
    | ⟨.streamEnd, _, _⟩ :: _ => return s.tokens.reverse
    | _ => run rounds s

end Scan

/-- The tokens of a text, if it is well formed. No stream may hold a character that is not allowed,
not even in a comment. -/
def tokens? (text : List Char) : Option (List Token) :=
  if text.all isAllowed then Scan.run (text.length + 1) (.start text) else none

end TreePanel.Yaml
