/-!
# `Overrides.Number.Binary64`: finite doubles as exact numbers

A finite double is a sign, a significand `m` and an exponent `q`, and
stands for `m * 2 ^ q`. Rounding a quotient goes to the nearest
double, an exact half to the even significand, and fails where the
nearest one would be infinite. Products and quotients are rounded
from the exact result.
-/

set_option autoImplicit false

namespace Overrides.Number

/-- Two to the power `k`. -/
def twoTo (k : Nat) : Nat := Nat.pow 2 k

/-- Ten to the power `k`. -/
def tenTo (k : Nat) : Nat := Nat.pow 10 k

/-- A finite double. Zero keeps its sign. -/
structure Binary64 where
  negative : Bool
  significand : Nat
  exponent : Int
  deriving DecidableEq, Repr

namespace Binary64

/-- The least exponent, where the subnormal numbers live. -/
def minExponent : Int := -1074

/-- The greatest exponent of a finite double. -/
def maxExponent : Int := 971

/-- Zero with a sign. -/
def zero (negative : Bool) : Binary64 := ⟨negative, 0, minExponent⟩

/-- The quotient rounded to the nearest integer, a half to the even one. -/
def divEven (num den : Nat) : Nat :=
  let q := num / den
  let r := num % den
  if 2 * r < den then q else if den < 2 * r then q + 1 else q + q % 2

/-- The greatest `k` with `2 ^ k ≤ num / den`, both positive. -/
def floorLog2 (num den : Nat) : Int :=
  let k : Int := (num.log2 : Int) - (den.log2 : Int)
  -- The difference of the logarithms is one too great at most.
  if den * twoTo k.toNat ≤ num * twoTo (-k).toNat then k else k - 1

/-- The double nearest to `num / den`, unless that is infinite. -/
def ofQuotient (negative : Bool) (num den : Nat) : Option Binary64 :=
  if num = 0 then some (zero negative)
  else
    -- Below the least exponent the significand gets shorter instead.
    let q := max minExponent (floorLog2 num den - 52)
    let m := divEven (num * twoTo (-q).toNat) (den * twoTo q.toNat)
    -- Rounding up may carry into a bit more than there is.
    let (m, q) := if m = twoTo 53 then (twoTo 52, q + 1) else (m, q)
    if maxExponent < q then none else some ⟨negative, m, q⟩

/-- The magnitude as a quotient of naturals. -/
def quotient (x : Binary64) : Nat × Nat :=
  (x.significand * twoTo x.exponent.toNat, twoTo (-x.exponent).toNat)

/-- The rounded product, unless it is infinite. -/
def mul (x y : Binary64) : Option Binary64 :=
  let (a, b) := x.quotient
  let (c, d) := y.quotient
  ofQuotient (x.negative != y.negative) (a * c) (b * d)

/-- The rounded quotient by a number other than zero, unless it is infinite. -/
def div (x y : Binary64) : Option Binary64 :=
  let (a, b) := x.quotient
  let (c, d) := y.quotient
  ofQuotient (x.negative != y.negative) (a * d) (b * c)

end Binary64

end Overrides.Number
