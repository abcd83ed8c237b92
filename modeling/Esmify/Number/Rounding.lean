/-!
# Rounding

Quotients rounded to the nearest integer and to the nearest double. **Ties go to the even
neighbour**. A double is given exactly, as a natural number times a power of two; what would need a
larger exponent than doubles have is an overflow.
-/

namespace Esmify.Number

/-- The integer nearest to `n / d`, the even one when two are equally near. -/
def nearest (n d : Nat) : Nat :=
  let q := n / d
  let r := n % d
  if 2 * r < d then q
  else if d < 2 * r then q + 1
  else if q % 2 = 0 then q
  else q + 1

/-- The number `mantissa * 2 ^ exponent`. -/
structure Dyadic where
  mantissa : Nat
  exponent : Int
  deriving DecidableEq, Repr

/-- The numerator of a dyadic number. -/
def Dyadic.num (x : Dyadic) : Nat :=
  x.mantissa * Nat.pow 2 x.exponent.toNat

/-- The denominator of a dyadic number, a power of two. -/
def Dyadic.den (x : Dyadic) : Nat :=
  Nat.pow 2 (-x.exponent).toNat

/-- The nearest multiple of `2 ^ e` to `n / d`. -/
def onGrid (n d : Nat) (e : Int) : Dyadic :=
  ⟨nearest (n * Nat.pow 2 (-e).toNat) (d * Nat.pow 2 e.toNat), e⟩

/-- The exponent of the grid of doubles around `n / d`: 53 binary digits, but no grid finer than
the finest one. -/
def gridExponent (n d : Nat) : Int :=
  let guess : Int := (Nat.log2 n : Int) - (Nat.log2 d : Int) - 52
  let tooFine := n * Nat.pow 2 (-guess).toNat < Nat.pow 2 52 * (d * Nat.pow 2 guess.toNat)
  max (if tooFine then guess - 1 else guess) (-1074)

/-- The double nearest to `n / d`; `none` when it is too large to be one. -/
def double? (n d : Nat) : Option Dyadic :=
  if n = 0 then some ⟨0, 0⟩
  else
    let x := onGrid n d (gridExponent n d)
    if x.num < Nat.pow 2 1024 * x.den then some x else none

end Esmify.Number
