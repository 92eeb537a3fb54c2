import Overrides.Number.Binary64

/-!
# `Overrides.Number.Literal`: reading a decimal literal

A literal is a sign, whole digits, and perhaps a fraction and an
exponent. Without either it is an integer as long as it fits 64 bits:
unsigned when positive, two's complement when negative. Everything
else, minus zero too, is a double. The double is the digits that fit
64 bits, rounded, then multiplied or divided by the rounded power of
ten, so two roundings may pass the nearest double by one place.
-/

set_option autoImplicit false

namespace Overrides.Number

/-- The parts of a literal. Digits are numbers below ten. -/
structure Literal where
  negative : Bool
  whole : List Nat
  fraction : Option (List Nat)
  exponent : Option Int
  deriving DecidableEq, Repr

/-- What a literal stands for. -/
inductive Numeral where
  | integer (value : Int)
  | double (value : Binary64)
  | outOfRange
  deriving DecidableEq, Repr

/-- One past the greatest unsigned integer of 64 bits. -/
def wordSize : Nat := 18446744073709551616

/-- Appends digits to `value` while the result fits 64 bits; the count
of digits taken comes along. -/
def takeDigits : Nat → Nat → List Nat → Nat × Nat
  | value, count, [] => (value, count)
  | value, count, d :: rest =>
    if value * 10 + d < wordSize then takeDigits (value * 10 + d) (count + 1) rest
    else (value, count)

/-- The value of a run of digits. -/
def digitsValue (ds : List Nat) : Nat := ds.foldl (fun n d => n * 10 + d) 0

/-- The power of ten as a double. -/
def powerOfTen (k : Nat) : Option Binary64 := Binary64.ofQuotient false (tenTo k) 1

/-- `x` times ten to the `e`. The largest power at hand is 10^308, so a
smaller exponent divides in rounds. -/
def scaleByTen : Nat → Binary64 → Int → Option Binary64
  | fuel, x, e =>
    if x.significand = 0 then some x
    else if 308 < e then none
    else if 0 ≤ e then do x.mul (← powerOfTen e.toNat)
    else if -308 ≤ e then do x.div (← powerOfTen (-e).toNat)
    else match fuel with
      | 0 => some (Binary64.zero x.negative)
      | fuel + 1 => do scaleByTen fuel (← x.div (← powerOfTen 308)) (e + 308)

/-- The double `digits * 10 ^ e` of a literal. -/
def doubleOf (negative : Bool) (digits : Nat) (e : Int) : Numeral :=
  match Binary64.ofQuotient negative digits 1 with
  | none => .outOfRange
  | some x =>
    match scaleByTen 3 x e with
    | some y => .double y
    | none => .outOfRange

/-- The value of a literal. -/
def Literal.value (l : Literal) : Numeral :=
  let (digits, taken) := takeDigits 0 0 l.whole
  let dropped := l.whole.length - taken
  if dropped = 0 ∧ l.fraction = none ∧ l.exponent = none then
    if !l.negative then .integer digits
    else if 0 < digits ∧ digits ≤ wordSize / 2 then .integer (-digits)
    else doubleOf true digits 0
  else
    let (digits, places) := takeDigits digits 0 (l.fraction.getD [])
    doubleOf l.negative digits (dropped - places + l.exponent.getD 0)

end Overrides.Number
