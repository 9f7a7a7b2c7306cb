import TreePanel.Decimal.Numeral
import TreePanel.Yaml.Event

/-!
# Values of scalars

What a scalar stands for is told by its text. A plain scalar may be nothing, a Boolean, an integer
or a number; a text that is none of them stands for itself, as every quoted scalar does. Integers
are written in base 10, 16, 8 or 2. Digits after a leading zero are no decimal integer, so that a
code such as `007` stays a text.

A tag with a name of the standard fixes what the text has to be.
-/

namespace TreePanel.Yaml

/-- What a scalar stands for. -/
inductive Value where
  | unit
  | boolean (b : Bool)
  | integer (i : Int)
  /-- A number of 64 bits by its sign and its magnitude. -/
  | float (negative : Bool) (magnitude : Nat)
  | text (text : List Char)
deriving DecidableEq

namespace Value

/-! ## Texts of values -/

/-- The words for nothing. -/
def isNull (text : List Char) : Bool :=
  ["null", "Null", "NULL", "~"].any fun word => word.toList == text

/-- The words for the Booleans. -/
def boolean? (text : List Char) : Option Bool :=
  if ["true", "True", "TRUE"].any fun word => word.toList == text then some true
  else if ["false", "False", "FALSE"].any fun word => word.toList == text then some false
  else none

/-- Whether a text begins with a sign. -/
def hasSign : List Char → Bool
  | '+' :: _ | '-' :: _ => true
  | _ => false

/-- A text without a plus sign before it. -/
def dropPlus : List Char → List Char
  | '+' :: rest => rest
  | unsigned => unsigned

/-- Whether a text consists of a zero, more digits, and maybe a sign before them. -/
def hasLeadingZero (text : List Char) : Bool :=
  match (Decimal.cutSign text).2 with
  | '0' :: c :: rest => (c :: rest).all Char.isDigit
  | _ => false

/-- The number of digits in a base up to 16. -/
def ofDigits? (base : Nat) (digits : List Char) : Option Nat :=
  if digits.isEmpty then none
  else
    digits.foldlM
      (fun n c => do
        let digit ← hexValue? c
        if digit < base then return base * n + digit else none)
      0

/-- The base that a text begins with, and what follows it. -/
def cutBase? : List Char → Option (Nat × List Char)
  | '0' :: 'x' :: rest => some (16, rest)
  | '0' :: 'o' :: rest => some (8, rest)
  | '0' :: 'b' :: rest => some (2, rest)
  | _ => none

/-- The number of digits that may have a base before them. -/
def natural? (text : List Char) : Option Nat :=
  match cutBase? text with
  | some (base, rest) => ofDigits? base rest
  | none => ofDigits? 10 text

/-- An integer without a minus sign. -/
def unsigned? (text : List Char) : Option Nat :=
  if hasLeadingZero text then none else natural? (dropPlus text)

/-- An integer with a minus sign. -/
def negative? : List Char → Option Int
  | '-' :: rest =>
    if hasLeadingZero rest then none else (natural? rest).map fun n => -(n : Int)
  | _ => none

/-- An integer of up to 128 bits. -/
def integer? (text : List Char) : Option Int :=
  let bound := Decimal.twoTo 128
  match (unsigned? text).filter (· < bound) with
  | some n => some n
  | none => (negative? text).filter fun i => 2 * i.natAbs ≤ bound

/-- A number of 64 bits. Only the words for infinity are infinite: a numeral too large for 64 bits
is no number. -/
def float? (text : List Char) : Option (Bool × Nat) :=
  let unsigned := dropPlus text
  if text.head? == some '+' && hasSign unsigned then none
  else if infinities.contains unsigned then some (false, Decimal.double.infinity)
  else if text.head? == some '-' && infinities.contains (text.drop 1) then
    some (true, Decimal.double.infinity)
  else if notNumbers.contains text then some (false, Decimal.double.infinity + 1)
  else do
    let numeral ← Decimal.numeral? unsigned
    let magnitude := numeral.magnitude Decimal.double
    if magnitude < Decimal.double.infinity then return (numeral.negative, magnitude) else none
where
  /-- The words for infinity. -/
  infinities : List (List Char) := [".inf".toList, ".Inf".toList, ".INF".toList]
  /-- The words for what is no number. -/
  notNumbers : List (List Char) := [".nan".toList, ".NaN".toList, ".NAN".toList]

/-! ## Scalars -/

/-- What the text of a plain scalar without a tag stands for. -/
def ofPlain (text : List Char) : Value :=
  if text.isEmpty || isNull text then .unit
  else
    match boolean? text with
    | some b => .boolean b
    | none =>
      match integer? text with
      | some i => .integer i
      | none =>
        match (if hasLeadingZero text then none else float? text) with
        | some (negative, magnitude) => .float negative magnitude
        | none => .text text

/-- The kinds of values that a tag of the standard may ask for. -/
inductive Kind where
  | null
  | boolean
  | integer
  | float
deriving DecidableEq

/-- The tag that asks for a kind. -/
def Kind.tag : Kind → TagText
  | null => .ofString "tag:yaml.org,2002:null"
  | boolean => .ofString "tag:yaml.org,2002:bool"
  | integer => .ofString "tag:yaml.org,2002:int"
  | float => .ofString "tag:yaml.org,2002:float"

/-- The kind that a tag asks for. -/
def Kind.ofTag? (tag : Option TagText) : Option Kind :=
  [null, boolean, integer, float].find? fun kind => tag == some kind.tag

/-- The value of a kind that a text stands for. -/
def ofKind? (kind : Kind) (text : List Char) : Option Value :=
  match kind with
  | .null => if isNull text then some .unit else none
  | .boolean => (boolean? text).map .boolean
  | .integer => (integer? text).map .integer
  | .float => (float? text).map fun (negative, magnitude) => .float negative magnitude

/-- Whether a tag is one's own: it begins with a mark. -/
def isOwnTag : Option TagText → Bool
  | some (some '!' :: _) => true
  | _ => false

/-- The name of a tag of one's own: what follows its mark, or the mark if nothing does. None if it
cannot be read. -/
def ownTag? : Option TagText → Option String
  | some [some '!'] => some "!"
  | some (some '!' :: rest) => (rest.mapM id).map String.ofList
  | _ => none

/-- What a scalar stands for; the kind that its tag asks for if the text is of another. A tag of
one's own says nothing about a plain scalar. -/
def ofScalar (s : Scalar) : Except Kind Value :=
  match Kind.ofTag? s.tag with
  | some kind =>
    match ofKind? kind s.text with
    | some value => .ok value
    | none => .error kind
  | none =>
    if s.style == .plain && (s.tag.isNone || isOwnTag s.tag) then .ok (ofPlain s.text)
    else .ok (.text s.text)

/-- Whether the text of a scalar is read as a value of a kind: a plain scalar always is, a literal
one if its tag asks for the kind. -/
def readsAs (kind : Kind) (s : Scalar) : Bool :=
  match s.style with
  | .plain => true
  | .literal => Kind.ofTag? s.tag == some kind
  | _ => false

end Value

end TreePanel.Yaml
