/-!
# The text of a YAML stream

A source is the part of a text that is still to be read, with its position. Lines end at CR, LF,
CR LF together, U+0085, U+2028 and U+2029. In the value of a scalar a break counts as a line feed,
except that U+2028 and U+2029 stay what they are.

Columns count characters. How far two places are apart is told in bytes of UTF-8.
-/

namespace TreePanel.Yaml

/-- A place of the text; all three numbers begin at zero. -/
structure Position where
  /-- Number of bytes before it. -/
  index : Nat
  line : Nat
  /-- Number of characters before it on its line. -/
  column : Nat
deriving DecidableEq, Repr

namespace Position

/-- The beginning of the text. -/
def origin : Position := ⟨0, 0, 0⟩

/-- After `n` characters of one byte each, on the same line. -/
def skip (p : Position) (n : Nat) : Position := ⟨p.index + n, p.line, p.column + n⟩

/-- After the character `c`, which is no break. -/
def past (p : Position) (c : Char) : Position := ⟨p.index + c.utf8Size, p.line, p.column + 1⟩

/-- After a break of `n` bytes. -/
def newLine (p : Position) (n : Nat) : Position := ⟨p.index + n, p.line + 1, 0⟩

end Position

/-! ## Characters -/

/-- The characters that end a line. -/
def isBreak (c : Char) : Bool :=
  c == '\n' || c == '\r' || c == '\u0085' || c == '\u2028' || c == '\u2029'

/-- Space and tab. -/
def isBlank (c : Char) : Bool := c == ' ' || c == '\t'

/-- Whether a text ends here or goes on with a blank or a break. -/
def blankNext : List Char → Bool
  | [] => true
  | c :: _ => isBlank c || isBreak c

/-- Whether a text ends here or goes on with a break. -/
def breakNext : List Char → Bool
  | [] => true
  | c :: _ => isBreak c

/-- The characters of anchors, handles and directives. -/
def isWordChar (c : Char) : Bool := c.isAlphanum || c == '_' || c == '-'

/-- The value of a hexadecimal digit. -/
def hexValue? (c : Char) : Option Nat :=
  if c.isDigit then some (c.toNat - '0'.toNat)
  else if 'a' ≤ c && c ≤ 'f' then some (c.toNat - 'a'.toNat + 10)
  else if 'A' ≤ c && c ≤ 'F' then some (c.toNat - 'A'.toNat + 10)
  else none

/-- The character of a number, unless no character has it. -/
def charOf? (n : Nat) : Option Char :=
  if h : n.isValidChar then some (Char.ofNatAux n h) else none

/-- What a break counts as in the value of a scalar. -/
def breakValue (c : Char) : Char := if c == '\u2028' || c == '\u2029' then c else '\n'

/-- The characters that a stream may hold. -/
def isAllowed (c : Char) : Bool :=
  let n := c.toNat
  c == '\t' || c == '\n' || c == '\r' || (0x20 ≤ n && n ≤ 0x7e) || n == 0x85
    || (0xa0 ≤ n && n ≤ 0xd7ff) || (0xe000 ≤ n && n ≤ 0xfffd) || 0x10000 ≤ n

/-! ## Sources -/

/-- What is still to be read. -/
structure Source where
  rest : List Char
  pos : Position

namespace Source

/-- Leave out `n` characters of one byte each, none of which is a break. -/
def skip (s : Source) (n : Nat) : Source := ⟨s.rest.drop n, s.pos.skip n⟩

/-- Leave out the characters that the source begins with, none of which is a break. -/
def pass (s : Source) (chars : List Char) : Source :=
  ⟨s.rest.drop chars.length, chars.foldl .past s.pos⟩

/-- Cut off the leading characters that pass a test, none of which may be a break. -/
def cutWhile (s : Source) (p : Char → Bool) : List Char × Source :=
  let taken := s.rest.takeWhile p
  (taken, s.pass taken)

/-- The break that the source begins with, as a value, and what follows it. -/
def cutBreak? (s : Source) : Option (Char × Source) :=
  match s.rest with
  | '\r' :: '\n' :: rest => some ('\n', ⟨rest, s.pos.newLine 2⟩)
  | c :: rest =>
    if isBreak c then some (breakValue c, ⟨rest, s.pos.newLine c.utf8Size⟩) else none
  | [] => none

/-- Leave out blanks and then a comment, if there is one. -/
def skipToLineEnd (s : Source) : Source :=
  let (_, s) := s.cutWhile isBlank
  match s.rest with
  | '#' :: _ => (s.cutWhile fun c => !isBreak c).2
  | _ => s

/-- A line that begins with `---` or `...` and a blank, in its first column. -/
def atDocumentMark (s : Source) : Bool :=
  s.pos.column == 0 &&
    match s.rest with
    | '-' :: '-' :: '-' :: rest | '.' :: '.' :: '.' :: rest => blankNext rest
    | _ => false

/-- Whether the next character is `c`. -/
def next (s : Source) (c : Char) : Bool := s.rest.head? == some c

end Source

end TreePanel.Yaml
