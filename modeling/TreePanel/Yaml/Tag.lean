import TreePanel.Yaml.Token

/-!
# Tags, anchors and directives

What may stand before a node or a document besides its content. A tag is a handle and a rest, or a
whole name in angle brackets. Characters of a tag may be given by the hexadecimal values of their
bytes.
-/

namespace TreePanel.Yaml

/-! ## Names -/

/-- The name of an anchor or an alias after its sign. It is not empty, and an indicator or white
space must follow. -/
def cutName? (s : Source) : Option (String × Source) :=
  let (name, s) := s.cutWhile isWordChar
  let ends := match s.rest with
    | [] => true
    | c :: _ =>
      isBlank c || isBreak c || c == '?' || c == ':' || c == ',' || c == ']' || c == '\x7d'
        || c == '%' || c == '@' || c == '\x60'
  if name.isEmpty || !ends then none else some (String.ofList name, s)

namespace Tag

/-! ## Characters of tags -/

/-- The characters that may stand in a tag. Brackets and commas may only stand in a whole name. -/
def isTagChar (isWhole : Bool) (c : Char) : Bool :=
  isWordChar c || c == ';' || c == '/' || c == '?' || c == ':' || c == '@' || c == '&' || c == '='
    || c == '+' || c == '$' || c == '.' || c == '%' || c == '!' || c == '~' || c == '*'
    || c == '\x27' || c == '(' || c == ')'
    || (isWhole && (c == ',' || c == '[' || c == ']'))

/-- How many bytes follow the first byte of a character, and what the first byte gives to its
number. -/
def firstByte? (b : Nat) : Option (Nat × Nat) :=
  if b < 0x80 then some (0, b)
  else if b / 0x20 = 0x6 then some (1, b % 0x20)
  else if b / 0x10 = 0xe then some (2, b % 0x10)
  else if b / 0x08 = 0x1e then some (3, b % 0x08)
  else none

/-- A character that is given by `size` bytes: how many of them are still to come, and the number
that those before give. -/
structure Bytes where
  size : Nat
  left : Nat
  number : Nat

/-- The character that complete bytes make up. Every character has one number of bytes only. -/
def Bytes.char? (b : Bytes) : Option Char :=
  (charOf? b.number).filter fun c => c.utf8Size == b.size

/-- The characters of a tag and what follows them; none if a byte is malformed. Within a character
given by bytes, `bytes` says what is still to come. -/
def chars? (isWhole : Bool) : Option Bytes → List Char → Position → Option (TagText × Source)
  | bytes, '%' :: a :: b :: rest, pos => do
    let byte := 16 * (← hexValue? a) + (← hexValue? b)
    let bytes ← match bytes with
      | none => (firstByte? byte).map fun (left, number) => Bytes.mk (left + 1) left number
      | some bytes =>
        if byte / 0x40 = 0x2 then
          some ⟨bytes.size, bytes.left - 1, 0x40 * bytes.number + byte % 0x40⟩
        else none
    if bytes.left = 0 then
      let (text, s) ← chars? isWhole none rest (pos.skip 3)
      return (bytes.char? :: text, s)
    else chars? isWhole (some bytes) rest (pos.skip 3)
  | some _, _, _ => none
  | none, [], pos => some ([], ⟨[], pos⟩)
  | none, c :: rest, pos =>
    if c == '%' then none
    else if isTagChar isWhole c then do
      let (text, s) ← chars? isWhole none rest (pos.skip 1)
      return (some c :: text, s)
    else some ([], ⟨c :: rest, pos⟩)

/-- The characters of a tag. -/
def cut? (isWhole : Bool) (s : Source) : Option (TagText × Source) :=
  chars? isWhole none s.rest s.pos

/-- What counts of a text: U+0000 ends it. -/
def ended (text : TagText) : TagText := text.takeWhile (· ≠ some '\x00')

/-! ## Tags -/

/-- A handle: a mark, word characters, and a second mark if one follows. -/
def cutHandle? (s : Source) : Option (List Char × Source) :=
  match s.rest with
  | '!' :: _ =>
    let (word, s) := (s.skip 1).cutWhile isWordChar
    if s.next '!' then some ('!' :: word ++ ['!'], s.skip 1) else some ('!' :: word, s)
  | _ => none

/-- Handle and rest of a tag, and what follows it. A lone mark is a whole name. -/
def read? (inFlow : Bool) (s : Source) : Option ((String × TagText) × Source) := do
  let (tag, s) ←
    if (s.skip 1).next '<' then do
      let (name, s) ← cut? true (s.skip 2)
      if name.isEmpty || !s.next '>' then none else pure (("", ended name), s.skip 1)
    else do
      let (handle, s) ← cutHandle? s
      let (rest, s) ← cut? false s
      if 1 < handle.length && handle.getLast? == some '!' then
        if rest.isEmpty then none else pure ((String.ofList handle, ended rest), s)
      else
        let rest := (handle.drop 1).map some ++ ended rest
        if rest.isEmpty then pure (("", .ofString "!"), s) else pure (("!", rest), s)
  if blankNext s.rest || (inFlow && s.next ',') then return (tag, s) else none

end Tag

/-! ## Directives -/

namespace Directive

/-- A number of at most nine digits. -/
def cutNumber? (s : Source) : Option (Nat × Source) :=
  let (digits, s) := s.cutWhile Char.isDigit
  if digits.isEmpty || 9 < digits.length then none
  else some (digits.foldl (fun n c => 10 * n + (c.toNat - '0'.toNat)) 0, s)

/-- A version after the name of its directive. -/
def version? (s : Source) : Option (Token.Kind × Source) := do
  let (_, s) := s.cutWhile isBlank
  let (major, s) ← cutNumber? s
  if !s.next '.' then none
  else
    let (minor, s) ← cutNumber? (s.skip 1)
    return (.version major minor, s)

/-- A handle and its meaning after the name of their directive. The handle ends in a mark. -/
def handle? (s : Source) : Option (Token.Kind × Source) := do
  let (_, s) := s.cutWhile isBlank
  let (handle, s) ← Tag.cutHandle? s
  if handle.getLast? ≠ some '!' then none
  else
    let (blanks, s) := s.cutWhile isBlank
    if blanks.isEmpty then none
    else
      let (meaning, s) ← Tag.cut? true s
      if meaning.isEmpty || !blankNext s.rest then none
      else return (.handle (String.ofList handle) (Tag.ended meaning), s)

/-- Read a directive from its percent sign on, to the end of its line. -/
def read? (s : Source) : Option (Token × Source) := do
  let start := s.pos
  let (name, s) := (s.skip 1).cutWhile isWordChar
  if name.isEmpty || !blankNext s.rest then none
  else
    let (kind, s) ← match String.ofList name with
      | "YAML" => version? s
      | "TAG" => handle? s
      | _ => none
    let stop := s.pos
    let s := s.skipToLineEnd
    if !breakNext s.rest then none
    else
      let s := match s.cutBreak? with
        | some (_, s) => s
        | none => s
      return (⟨kind, start, stop⟩, s)

end Directive

end TreePanel.Yaml
