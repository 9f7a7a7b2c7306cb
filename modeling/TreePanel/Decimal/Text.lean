import TreePanel.Decimal.Shortest

/-!
# Decimal text

How a machine number is written: with the fewest digits that read back, laid out by a `Style`. A
style says between which positions of the point a number is written out in full, and how it calls
the values that have no digits. A whole number keeps its `.0`.
-/

namespace TreePanel.Decimal

/-- The layout of written numbers. -/
structure Style where
  /-- Which of two equally near decimals to write. -/
  tie : Tie
  /-- The least and the greatest point of a number that is written out; none if all are. A number
  beyond them gets an exponent. -/
  writtenOut : Option (Int × Int)
  infinity : List Char
  notANumber : List Char

/-- The character of a decimal digit. -/
def digitChar (d : Nat) : Char := Char.ofNat ('0'.toNat + d)

/-- A natural number in decimal. -/
def natText (n : Nat) : List Char := (digitsOf n).map digitChar

/-- An integer in decimal. -/
def intText (i : Int) : List Char := if i < 0 then '-' :: natText i.natAbs else natText i.natAbs

/-- A decimal written out in full. -/
def Digits.plain (d : Digits) : List Char :=
  let chars := d.digits.map digitChar
  if d.point ≤ 0 then '0' :: '.' :: (List.replicate (-d.point).toNat '0' ++ chars)
  else
    let before := d.point.toNat
    let whole := chars.take before ++ List.replicate (before - chars.length) '0'
    let fraction := chars.drop before
    whole ++ '.' :: (if fraction.isEmpty then ['0'] else fraction)

/-- A decimal with an exponent: one digit before the point, and no point without a digit after. -/
def Digits.scientific (d : Digits) : List Char :=
  let exponent := 'e' :: intText (d.point - 1)
  match d.digits.map digitChar with
  | [] => exponent
  | [c] => c :: exponent
  | c :: rest => c :: '.' :: rest ++ exponent

/-- A decimal in a style. -/
def Style.layout (style : Style) (d : Digits) : List Char :=
  match style.writtenOut with
  | none => d.plain
  | some (least, greatest) =>
    if least ≤ d.point ∧ d.point ≤ greatest then d.plain else d.scientific

/-- The text of a magnitude. -/
def Style.magnitude (style : Style) (f : Format) (pattern : Nat) : List Char :=
  if pattern = 0 then "0.0".toList
  else if pattern < f.infinity then style.layout (f.shortest style.tie (f.decode pattern))
  else style.infinity

/-- The text of a number by its sign and magnitude. What is no number has no sign. -/
def Style.text (style : Style) (f : Format) (negative : Bool) (pattern : Nat) : List Char :=
  if f.infinity < pattern then style.notANumber
  else if negative then '-' :: style.magnitude f pattern
  else style.magnitude f pattern

/-- The text of a number of 32 bits. -/
def Style.floatText (style : Style) (x : Float32) : List Char :=
  let bits := x.toBits.toNat
  style.text single (twoTo 31 ≤ bits) (bits % twoTo 31)

end TreePanel.Decimal
