import TreePanel.Decimal.Binary

/-!
# The fewest digits that read back

All real numbers of an interval around a machine number round to it. `Format.shortest` finds the
decimal with the fewest digits in that interval, and among those the one nearest to the number. For
one digit, two digits and so on it looks at the two neighbours of the number on the decimal grid
with so many digits: if any point of the grid lies in the interval, one of the neighbours does. All
of it is arithmetic of natural numbers. Of two neighbours that are equally near, a format of its
own chooses by `Tie`.
-/

namespace TreePanel.Decimal

/-- The decimal `0.d₁d₂… * 10 ^ point` with the given digits, none of them a final zero. -/
structure Digits where
  digits : List Nat
  point : Int
deriving DecidableEq, Repr

/-- Which of two equally near decimals to take. -/
inductive Tie where
  /-- The one whose last digit is even. -/
  | even
  /-- The larger one. -/
  | up
deriving DecidableEq, Repr

/-- The decimal digits of a positive number, the last one first. -/
def lowDigits (n : Nat) : List Nat :=
  if n < 10 then [n] else n % 10 :: lowDigits (n / 10)

/-- The decimal digits of a number, the first one first. -/
def digitsOf (n : Nat) : List Nat := (lowDigits n).reverse

/-- The decimal of `n * 10 ^ scale`, for positive `n`. -/
def Digits.ofScaled (n : Nat) (scale : Int) : Digits :=
  let low := lowDigits n
  ⟨(low.dropWhile (· = 0)).reverse, low.length + scale⟩

/-- The position of the first digit of `num / den`: the least `p` with `num / den < 10 ^ p`, for
positive `num` and `den`. -/
def pointOf (num den : Nat) : Int :=
  if den ≤ num then (lowDigits (num / den)).length
  else 1 - ((lowDigits ((den - 1) / num)).length : Int)

/-- The interval of real numbers that round to a number. All of its values are multiples of
`num / den`. -/
structure Interval where
  low : Nat
  value : Nat
  high : Nat
  /-- Whether the ends themselves round to the number. -/
  closed : Bool
  num : Nat
  den : Nat

/-- The interval of a positive number. The lower neighbour of a power of two is nearer than the
upper one, except where the exponent is the least. -/
def Format.interval (f : Format) (s : Scaled) : Interval :=
  let atPower := s.m = twoTo f.fractionBits ∧ f.leastExponent < s.q
  { low := if atPower then 4 * s.m - 1 else 4 * s.m - 2
    value := 4 * s.m
    high := 4 * s.m + 2
    closed := s.m % 2 = 0
    num := twoTo (s.q - 2).toNat
    den := twoTo (2 - s.q).toNat }

/-- The point `n * 10 ^ scale` of the interval that is nearest to its value, if a neighbour of the
value on that grid lies in the interval at all. -/
def Interval.neighbour? (i : Interval) (tie : Tie) (scale : Int) : Option Nat :=
  let unit := i.num * tenTo (-scale).toNat
  let grid := i.den * tenTo scale.toNat
  let n := i.value * unit / grid
  let within (a b : Nat) : Bool := if i.closed then a ≤ b else a < b
  let lowFits := within (i.low * unit) (n * grid)
  let highFits := within ((n + 1) * grid) (i.high * unit)
  let below := 2 * (i.value * unit - n * grid)
  match lowFits, highFits with
  | false, false => none
  | true, false => some n
  | false, true => some (n + 1)
  | true, true =>
    if below < grid then some n
    else if grid < below then some (n + 1)
    else
      match tie with
      | .even => some (n + n % 2)
      | .up => some (n + 1)

/-- More digits than any number of a format of up to 64 bits needs. -/
def mostDigits : Nat := 17

/-- The shortest decimal that reads back as `s`, for a positive number. -/
def Format.shortest (f : Format) (tie : Tie) (s : Scaled) : Digits :=
  let i := f.interval s
  let point := pointOf (i.value * i.num) i.den
  let found := (List.range mostDigits).findSome? fun count =>
    let scale : Int := point - (count + 1 : Nat)
    (i.neighbour? tie scale).map fun n => Digits.ofScaled n scale
  found.getD ⟨[0], 0⟩

end TreePanel.Decimal
