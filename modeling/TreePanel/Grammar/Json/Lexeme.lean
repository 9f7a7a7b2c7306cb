import TreePanel.Grammar.Json.Part

/-!
# Lexemes of JSON

`lexemes?` cuts a text into gaps, comments, punctuation, strings, numbers and the three words.
Lexemes need nothing between them, so each one is as long as it can be and the next begins right
after it. A text with anything else in it has no lexemes.

A string is a lexeme with parts of its own. Within a string a line feed can only begin a gap, which
stands before a comment or before the closing quote.
-/

namespace TreePanel.Json

/-- The characters that separate lexemes. -/
def isSeparator (c : Char) : Bool :=
  c == ' ' || c == '\t' || c == '\n' || c == '\r' || c == '\x0b' || c == '\x0c'

/-- The characters that may follow a backslash in a string. -/
def isEscape (c : Char) : Bool :=
  c == '\x22' || c == '\x5c' || c == '/' || c == 'b' || c == 'f' || c == 'n' || c == 'r'
    || c == 't' || c == 'u'

/-- The characters that stand for themselves between lexemes. -/
def isMark (c : Char) : Bool :=
  c == '\x7b' || c == '\x7d' || c == '[' || c == ']' || c == ',' || c == ':'

/-! ## Numbers -/

/-- A text that may begin with a minus sign, cut after it. -/
def cutMinus : List Char → List Char × List Char
  | '-' :: rest => (['-'], rest)
  | text => ([], text)

/-- A text cut after its leading digits. -/
def cutDigits (text : List Char) : List Char × List Char := text.span Char.isDigit

/-- The whole part of a number: a zero, or digits that do not begin with one. -/
def cutWhole? : List Char → Option (List Char × List Char)
  | [] => none
  | c :: rest =>
    if c == '0' then some ([c], rest)
    else if c.isDigit then
      let (digits, rest) := cutDigits rest
      some (c :: digits, rest)
    else none

/-- A point with the digits after it, of which there may be none. -/
def cutFraction : List Char → List Char × List Char
  | '.' :: rest =>
    let (digits, rest) := cutDigits rest
    ('.' :: digits, rest)
  | text => ([], text)

/-- An exponent; without a digit there is none. -/
def cutExponent : List Char → List Char × List Char
  | [] => ([], [])
  | c :: rest =>
    if c == 'e' || c == 'E' then
      let (minus, afterMinus) := cutMinus rest
      let (digits, after) := cutDigits afterMinus
      if digits.isEmpty then ([], c :: rest) else (c :: minus ++ digits, after)
    else ([], c :: rest)

/-- A number, and what follows it. -/
def cutNumber? (text : List Char) : Option (List Char × List Char) := do
  let (minus, rest) := cutMinus text
  let (whole, rest) ← cutWhole? rest
  let (fraction, rest) := cutFraction rest
  let (exponent, rest) := cutExponent rest
  return (minus ++ whole ++ fraction ++ exponent, rest)

/-! ## Comments -/

/-- The inside of a comment up to the end mark `*/` and with it, and what follows. -/
def cutBlock? : List Char → Option (List Char × List Char)
  | [] => none
  | '*' :: '/' :: rest => some (['*', '/'], rest)
  | c :: rest => do
    let (inside, rest) ← cutBlock? rest
    return (c :: inside, rest)

/-- A comment after its first slash, and what follows it. A comment to the end of its line leaves
the line feed. -/
def cutComment? : List Char → Option (List Char × List Char)
  | '/' :: rest =>
    let (inside, rest) := rest.span (· ≠ '\n')
    some ('/' :: inside, rest)
  | '*' :: rest => do
    let (inside, rest) ← cutBlock? rest
    return ('*' :: inside, rest)
  | _ => none

/-! ## Strings -/

/-- The characters that a string may hold as they are. -/
def isPlain (c : Char) : Bool := c ≠ '\x22' && c ≠ '\x5c' && c ≠ '\n'

/-- The parts of a string after its opening quote, and what follows the closing one, for a text of
fewer than `bound` characters. A run of plain characters is one part, whatever else it could be
read as. An escape is a backslash and one character, so the digits after `u` are plain characters.
A line feed begins a gap, and after a gap there is a comment or the end of the string. -/
def stringParts? : Nat → List Char → Option (List Part × List Char)
  | 0, _ => none
  | _ + 1, [] => none
  | _ + 1, '\x22' :: rest => some ([.mark '\x22'], rest)
  | bound + 1, '\x5c' :: rest => do
    let c :: rest := rest | none
    if isEscape c then
      let (parts, rest) ← stringParts? bound rest
      return (.token "escape_sequence" true ['\x5c', c] :: parts, rest)
    else none
  | bound + 1, '\n' :: rest =>
    let (blanks, rest) := rest.span isSeparator
    let gap : Part := .gap ('\n' :: blanks)
    match rest with
    | '\x22' :: rest => some ([gap, .mark '\x22'], rest)
    | '/' :: rest => do
      let (comment, rest) ← cutComment? rest
      let (parts, rest) ← stringParts? bound rest
      return (gap :: .token "comment" true ('/' :: comment) :: parts, rest)
    | _ => none
  | bound + 1, c :: rest => do
    let (run, rest) := rest.span isPlain
    let (parts, rest) ← stringParts? bound rest
    return (.token "string_content" true (c :: run) :: parts, rest)

/-! ## Lexemes -/

/-- A text without the word it begins with. -/
def cutWord? (word : List Char) (text : List Char) : Option (List Char) :=
  if word.isPrefixOf text then some (text.drop word.length) else none

/-- The words of JSON. -/
def words : List String := ["true", "false", "null"]

/-- The lexeme that a text of at most `length` characters begins with, and what follows it. -/
def cutLexeme? (length : Nat) : List Char → Option (Part × List Char)
  | [] => none
  | c :: rest =>
    if isSeparator c then
      let (gap, rest) := (c :: rest).span isSeparator
      some (.gap gap, rest)
    else if isMark c then some (.mark c, rest)
    else if c == '\x22' then do
      let (parts, rest) ← stringParts? length rest
      return (.group "string" (.mark '\x22' :: parts), rest)
    else if c == '/' then do
      let (comment, rest) ← cutComment? rest
      return (.token "comment" true ('/' :: comment), rest)
    else
      match cutNumber? (c :: rest) with
      | some (number, rest) => some (.token "number" true number, rest)
      | none =>
        words.findSome? fun word =>
          (cutWord? word.toList (c :: rest)).map fun rest =>
            (.token word true word.toList, rest)

/-- The lexemes of a text of at most `length` characters. -/
def lexemesWithin? : Nat → List Char → Option (List Part)
  | _, [] => some []
  | 0, _ :: _ => none
  | length + 1, c :: text => do
    let (lexeme, rest) ← cutLexeme? (length + 1) (c :: text)
    return lexeme :: (← lexemesWithin? length rest)

/-- The lexemes of a text. A byte order mark at its beginning is a gap. -/
def lexemes? : List Char → Option (List Part)
  | '\ufeff' :: text => return .gap ['\ufeff'] :: (← lexemesWithin? text.length text)
  | text => lexemesWithin? text.length text

end TreePanel.Json
