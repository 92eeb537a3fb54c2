import Overrides.Number.Binary64

/-!
# `Overrides.Number.Shortest`: the fewest digits that read back

A double owns the interval of reals that round to it; the ends belong
to it when its significand is even. The shortest decimal of a double
is the one with the fewest digits inside that interval. Grids of 1,
2, … digits are tried in turn: on each the two grid points around the
value are tested, the nearer one wins, and an exact tie goes to the
even digit.
-/

set_option autoImplicit false

namespace Overrides.Number

/-- The decimal number `digits * 10 ^ exponent`. -/
structure Decimal where
  digits : Nat
  exponent : Int
  deriving DecidableEq, Repr

/-- How many decimal digits a natural number has; zero has one. -/
def digitCount (n : Nat) : Nat := (Nat.toDigits 10 n).length

/-- The greatest `k` with `10 ^ k ≤ num / den`, both positive. -/
def floorLog10 (num den : Nat) : Int :=
  if den ≤ num then (digitCount (num / den) : Int) - 1
  else
    let r := (den + num - 1) / num
    Int.negOfNat (if r ≤ 1 then 0 else digitCount (r - 1))

/-- The same number without zeros at the end of its digits, `fuel` of
them at most. -/
def Decimal.stripped : Nat → Decimal → Decimal
  | 0, d => d
  | fuel + 1, d =>
    if d.digits ≠ 0 ∧ d.digits % 10 = 0 then
      Decimal.stripped fuel ⟨d.digits / 10, d.exponent + 1⟩
    else d

/-- The interval of a double, all numbers over one denominator: lower
end, value, upper end, denominator, and whether the ends count. -/
structure Interval where
  low : Nat
  value : Nat
  high : Nat
  den : Nat
  closed : Bool

/-- The reals that round to `x`. Below a power of two the gap is half
as wide. -/
def Binary64.interval (x : Binary64) : Interval :=
  let m := x.significand
  let up := twoTo (x.exponent - 2).toNat
  let den := twoTo (2 - x.exponent).toNat
  let below := if m = twoTo 52 ∧ minExponent < x.exponent then 4 * m - 1 else 4 * m - 2
  ⟨below * up, 4 * m * up, (4 * m + 2) * up, den, m % 2 == 0⟩

/-- The decimal lies in the interval. -/
def Interval.has (i : Interval) (d : Decimal) : Bool :=
  let a := d.digits * tenTo d.exponent.toNat * i.den
  let b := tenTo (-d.exponent).toNat
  if i.closed then i.low * b ≤ a && a ≤ i.high * b else i.low * b < a && a < i.high * b

/-- The grid point with exponent `p` that the interval holds nearest to
its value, if it holds one. -/
def Interval.onGrid (i : Interval) (p : Int) : Option Decimal :=
  let num := i.value * tenTo (-p).toNat
  let den := i.den * tenTo p.toNat
  let d := num / den
  let r := num % den
  let lower : Decimal := ⟨d, p⟩
  let upper : Decimal := ⟨d + 1, p⟩
  match i.has lower, i.has upper with
  -- Both neighbours are within the interval: the nearer one, or else the even one.
  | true, true =>
    if 2 * r < den then some lower
    else if den < 2 * r then some upper
    else if d % 2 = 0 then some lower else some upper
  | true, false => some lower
  | false, true => some upper
  | false, false => none

/-- The first hit on the grids that follow exponent `p` downward. -/
def Interval.search (i : Interval) : Nat → Int → Decimal
  | 0, p => ⟨i.value * tenTo (-p).toNat / (i.den * tenTo p.toNat), p⟩
  | fuel + 1, p =>
    match i.onGrid p with
    | some d => d
    | none => i.search fuel (p - 1)

/-- The shortest decimal that rounds to the magnitude of `x`. -/
def Binary64.shortest (x : Binary64) : Decimal :=
  if x.significand = 0 then ⟨0, 0⟩
  else
    let i := x.interval
    (i.search 17 (floorLog10 i.value i.den)).stripped 400

end Overrides.Number
