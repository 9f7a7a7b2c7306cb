import TreePanel.Decimal.Binary

/-!
# Reading decimals

A numeral is a sign, digits with or without a point among them, and an exponent with or without a
sign. At least one digit must stand before the exponent, and one in it. `Numeral.magnitude` rounds
the number that it stands for to a binary format, exactly, however long the numeral is.
-/

namespace TreePanel.Decimal

/-- The number `± digits * 10 ^ exponent`. -/
structure Numeral where
  negative : Bool
  digits : Nat
  exponent : Int
deriving DecidableEq, Repr

/-- The value of a character as a digit. -/
def digitValue (c : Char) : Nat := c.toNat - '0'.toNat

/-- The natural number of a list of digits. -/
def natOfDigits (digits : List Char) : Nat :=
  digits.foldl (fun n c => 10 * n + digitValue c) 0

/-- A sign, if there is one, and what follows it. -/
def cutSign : List Char → Bool × List Char
  | '-' :: rest => (true, rest)
  | '+' :: rest => (false, rest)
  | text => (false, text)

/-- The exponent at the end of a numeral; no text means zero. -/
def exponent? : List Char → Option Int
  | [] => some 0
  | c :: rest =>
    if c == 'e' || c == 'E' then
      let (negative, digits) := cutSign rest
      if !digits.isEmpty && digits.all Char.isDigit then
        let n : Int := natOfDigits digits
        some (if negative then -n else n)
      else none
    else none

/-- Read a numeral. -/
def numeral? (text : List Char) : Option Numeral := do
  let (negative, text) := cutSign text
  let (whole, rest) := text.span Char.isDigit
  let (fraction, rest) := match rest with
    | '.' :: rest => rest.span Char.isDigit
    | rest => ([], rest)
  if whole.isEmpty && fraction.isEmpty then none
  else
    let exponent ← exponent? rest
    return ⟨negative, natOfDigits (whole ++ fraction), exponent - fraction.length⟩

namespace Numeral

/-- A decimal exponent beyond which every number of up to 64 bits is infinite, and below the
negative of which every one is zero. -/
def furthest : Int := 400

/-- The magnitude in a format that is nearest to the numeral. A numeral far out of range is settled
by the position of its first digit, so no power of a huge exponent is formed. -/
def magnitude (f : Format) (n : Numeral) : Nat :=
  let point : Int := n.digits.log2 / 3 + 1 + n.exponent
  if n.digits = 0 then 0
  else if furthest < n.exponent then f.infinity
  else if point < -furthest then 0
  else f.round (n.digits * tenTo n.exponent.toNat) (tenTo (-n.exponent).toNat)

end Numeral

/-- The magnitude in 32 bits that is nearest to one in 64 bits. -/
def narrow (pattern : Nat) : Nat :=
  if pattern < double.infinity then single.roundScaled (double.decode pattern)
  else if pattern = double.infinity then single.infinity
  else single.infinity + 1

/-- The number of 32 bits of a sign and a magnitude in 64 bits. -/
def toFloat (negative : Bool) (pattern : Nat) : Float32 :=
  Float32.ofBits (UInt32.ofNat ((if negative then twoTo 31 else 0) + narrow pattern))

end TreePanel.Decimal
