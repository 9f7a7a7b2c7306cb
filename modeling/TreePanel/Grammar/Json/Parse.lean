import TreePanel.Grammar.Json.Lexeme

/-!
# The JSON grammar

A document is any number of values. The lexemes are taken one by one onto a stack of open nodes,
the innermost first: each open node knows what may come next in it. A gap or a comment goes to the
innermost open node. A pair is open from its key to its value, an object or an array from bracket
to bracket.
-/

namespace TreePanel.Json

/-- What may come next in an open node. -/
inductive Slot where
  /-- A value, in the document. -/
  | value
  /-- The first element of an array, or its end. -/
  | firstElement
  /-- An element, after a comma. -/
  | element
  /-- A comma or the end, after an element. -/
  | elementEnd
  /-- The first key of an object, or its end. -/
  | firstKey
  /-- A key, after a comma. -/
  | key
  /-- A comma or the end, after a pair. -/
  | pairEnd
  /-- The colon of a pair. -/
  | colon
  /-- The value of a pair. -/
  | pairValue
deriving DecidableEq, Repr

/-- A node that is still open. -/
structure Frame where
  slot : Slot
  /-- The parts so far, the last one first. -/
  parts : List Part

namespace Frame

/-- Add a part and say what may come next. -/
def push (f : Frame) (part : Part) (slot : Slot) : Frame := ⟨slot, part :: f.parts⟩

/-- The finished node. -/
def close (f : Frame) (kind : String) : Part := .group kind f.parts.reverse

end Frame

/-- Whether a value may come next. -/
def Slot.takesValue : Slot → Bool
  | value | firstElement | element | pairValue => true
  | _ => false

/-- Give a finished value to the open nodes. A value that ends a pair closes it as well. A string
where a key is due opens a pair. -/
def placeValue (v : Part) (isString : Bool) : List Frame → Option (List Frame)
  | [] => none
  | f :: outer =>
    match f.slot with
    | .value => some (f.push v .value :: outer)
    | .firstElement | .element => some (f.push v .elementEnd :: outer)
    | .pairValue =>
      match outer with
      | [] => none
      | object :: outer => some (object.push ((f.push v .pairEnd).close "pair") .pairEnd :: outer)
    | .firstKey | .key => if isString then some (⟨.colon, [v]⟩ :: f :: outer) else none
    | _ => none

/-- Give a punctuation mark to the open nodes. -/
def placeMark (c : Char) : List Frame → Option (List Frame)
  | [] => none
  | f :: outer =>
    let m := Part.mark c
    match c, f.slot with
    | ',', .elementEnd => some (f.push m .element :: outer)
    | ',', .pairEnd => some (f.push m .key :: outer)
    | ':', .colon => some (f.push m .pairValue :: outer)
    | ']', .firstElement | ']', .elementEnd =>
      placeValue ((f.push m .elementEnd).close "array") false outer
    | '\x7d', .firstKey | '\x7d', .pairEnd =>
      placeValue ((f.push m .pairEnd).close "object") false outer
    | '[', slot => if slot.takesValue then some (⟨.firstElement, [m]⟩ :: f :: outer) else none
    | '\x7b', slot => if slot.takesValue then some (⟨.firstKey, [m]⟩ :: f :: outer) else none
    | _, _ => none

/-- Give a lexeme to the open nodes. -/
def place (lexeme : Part) (frames : List Frame) : Option (List Frame) :=
  match lexeme, frames with
  | _, [] => none
  | .gap text, f :: outer => some (f.push (.gap text) f.slot :: outer)
  | .group kind parts, frames => placeValue (.group kind parts) true frames
  | .token kind true text, f :: outer =>
    if kind = "comment" then some (f.push (.token kind true text) f.slot :: outer)
    else placeValue (.token kind true text) false (f :: outer)
  | .token _ false text, frames =>
    match text with
    | [c] => placeMark c frames
    | _ => none

/-- Give several lexemes to the open nodes, one after the other. -/
def placeAll : List Part → List Frame → Option (List Frame)
  | [], frames => some frames
  | lexeme :: rest, frames => do placeAll rest (← place lexeme frames)

/-- The parts of a JSON text, if it is one. -/
def parts? (text : List Char) : Option (List Part) := do
  match ← placeAll (← lexemes? text) [⟨.value, []⟩] with
  | [⟨.value, parts⟩] => some parts.reverse
  | _ => none

/-- The tree of a JSON text over its bytes, if it is one. -/
def parse? (text : List Char) : Option RangeTree :=
  (parts? text).map (Part.document RangeTree.byteLength)

end TreePanel.Json
