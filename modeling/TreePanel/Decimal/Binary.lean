/-!
# Binary formats

The machine keeps a number as `m * 2 ^ q`, with a bounded count of bits for `m` and a bounded `q`.
A format says how many. The magnitude of a number is its bit pattern without the sign: patterns
are in the order of the numbers they stand for. `Format.round` gives the pattern nearest to a
fraction of natural numbers, with ties to the even pattern, in exact arithmetic; a fraction beyond
the largest number gives the pattern of infinity.
-/

namespace TreePanel.Decimal

/-- A power of two. -/
def twoTo (n : Nat) : Nat := Nat.pow 2 n

/-- A power of ten. -/
def tenTo (n : Nat) : Nat := Nat.pow 10 n

/-- A binary format with an implicit leading bit. -/
structure Format where
  /-- Bits of `m` that are stored. -/
  fractionBits : Nat
  /-- Bits of the exponent. -/
  exponentBits : Nat

/-- The format of 32 bits. -/
def single : Format := ⟨23, 8⟩

/-- The format of 64 bits. -/
def double : Format := ⟨52, 11⟩

/-- A magnitude as `m * 2 ^ q`. -/
structure Scaled where
  m : Nat
  q : Int
deriving DecidableEq, Repr

namespace Format

/-- The smallest `q`. -/
def leastExponent (f : Format) : Int := 2 - twoTo (f.exponentBits - 1) - f.fractionBits

/-- The pattern of infinity; all greater ones are no numbers. -/
def infinity (f : Format) : Nat := (twoTo f.exponentBits - 1) * twoTo f.fractionBits

/-- The number of a pattern below infinity. -/
def decode (f : Format) (pattern : Nat) : Scaled :=
  let exponent := pattern / twoTo f.fractionBits
  let fraction := pattern % twoTo f.fractionBits
  if exponent = 0 then ⟨fraction, f.leastExponent⟩
  else ⟨twoTo f.fractionBits + fraction, f.leastExponent + (exponent - 1 : Nat)⟩

/-- The natural number nearest to `num / den`, the even one of two. -/
def nearest (num den : Nat) : Nat :=
  let whole := num / den
  let twice := 2 * (num % den)
  if twice < den then whole
  else if den < twice then whole + 1
  else whole + whole % 2

/-- The greatest `e` with `2 ^ e ≤ num / den`, for positive `num` and `den`. -/
def exponentOf (num den : Nat) : Int :=
  let guess : Int := (num.log2 : Int) - den.log2
  if den * twoTo guess.toNat ≤ num * twoTo (-guess).toNat then guess else guess - 1

/-- The pattern nearest to `num / den`, for positive `den`. A carry out of `m` goes into the
exponent by itself, because patterns are in order. -/
def round (f : Format) (num den : Nat) : Nat :=
  if num = 0 then 0
  else
    let q := max (exponentOf num den - f.fractionBits) f.leastExponent
    let m := nearest (num * twoTo (-q).toNat) (den * twoTo q.toNat)
    min ((q - f.leastExponent).toNat * twoTo f.fractionBits + m) f.infinity

/-- The pattern nearest to `m * 2 ^ q`. -/
def roundScaled (f : Format) (s : Scaled) : Nat :=
  f.round (s.m * twoTo s.q.toNat) (twoTo (-s.q).toNat)

end Format

end TreePanel.Decimal
