import Overrides.Number.Shortest

/-!
# `Overrides.Number.Layout`: how the digits of a double are written

The digits are the shortest ones. A layout says between which
exponents they are written out in place, whether a whole number keeps
a point and a zero, and whether a negative zero keeps its sign.
Outside that range one digit stands before the point and a signed
exponent follows.
-/

set_option autoImplicit false

namespace Overrides.Number

/-- The decisions of a number format. -/
structure Layout where
  /-- The least exponent that is written in place. -/
  lowest : Int
  /-- The greatest exponent that is written in place. -/
  highest : Int
  /-- Whole numbers written in place end in a point and a zero. -/
  keepsPoint : Bool
  /-- Negative zero is written with its sign. -/
  signsZero : Bool

/-- The layout of messages: in place from 10^-5 to 10^15. -/
def Layout.plain : Layout := ⟨-5, 15, true, true⟩

/-- The layout of canonical text: in place from 10^-6 to 10^20. -/
def Layout.canonical : Layout := ⟨-6, 20, false, false⟩

/-- `n` zeros. -/
def zeros (n : Nat) : String := String.ofList (List.replicate n '0')

/-- The digits with their first digit at the power `e` of ten, in place. -/
def inPlace (keepsPoint : Bool) (digits : List Char) (e : Int) : String :=
  if e < 0 then "0." ++ zeros (-e - 1).toNat ++ String.ofList digits
  else
    let whole := e.toNat + 1
    if digits.length ≤ whole then
      String.ofList digits ++ zeros (whole - digits.length)
        ++ (if keepsPoint then ".0" else "")
    else String.ofList (digits.take whole) ++ "." ++ String.ofList (digits.drop whole)

/-- One digit, the rest behind a point, and the exponent with its sign. -/
def withExponent (digits : List Char) (e : Int) : String :=
  String.ofList (digits.take 1)
    ++ (if digits.length ≤ 1 then "" else "." ++ String.ofList (digits.drop 1))
    ++ (if e < 0 then "e-" else "e+") ++ Nat.repr e.natAbs

/-- The text of a double under a layout. -/
def Layout.write (l : Layout) (x : Binary64) : String :=
  let d := x.shortest
  let digits := Nat.toDigits 10 d.digits
  let e := if d.digits = 0 then 0 else d.exponent + digits.length - 1
  let sign := if x.negative && (l.signsZero || d.digits != 0) then "-" else ""
  sign ++ (if l.lowest ≤ e && e ≤ l.highest then inPlace l.keepsPoint digits e
    else withExponent digits e)

end Overrides.Number
