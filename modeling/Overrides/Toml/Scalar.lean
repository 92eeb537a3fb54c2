import Overrides.Instant.Calendar
import Overrides.Toml.Value

/-!
# `Overrides.Toml.Scalar`: values that are spelled without quotes

Truth values, integers, floats and dates. Digits may be grouped by
single underscores. A decimal number has no leading zero and may have
a sign; a number with the base in front has neither rule. Seconds may
be left out of a time.
-/

set_option autoImplicit false

namespace Overrides.Toml

open Overrides.Calendar

/-- Digits without the underscores between them; `after` says that a digit
stands before. -/
def ungroup (isDigit : Char → Bool) : Bool → List Char → Option (List Char)
  | after, [] => if after then some [] else none
  | after, c :: cs =>
    if c = '_' then (if after then ungroup isDigit false cs else none)
    else if isDigit c then (c :: ·) <$> ungroup isDigit true cs
    else none

/-- The value of a digit in any base up to sixteen. -/
def digitValue (c : Char) : Nat :=
  if c.isDigit then c.toNat - '0'.toNat
  else if 'a' ≤ c ∧ c ≤ 'f' then c.toNat - 'a'.toNat + 10
  else c.toNat - 'A'.toNat + 10

/-- A hexadecimal digit. -/
def isHexDigit (c : Char) : Bool :=
  c.isDigit || ('a' ≤ c && c ≤ 'f') || ('A' ≤ c && c ≤ 'F')

/-- The number that digits spell in a base. -/
def digitsIn (base : Nat) (ds : List Char) : Nat := ds.foldl (fun n c => n * base + digitValue c) 0

/-- Decimal digits without a leading zero. -/
def decimal? (cs : List Char) : Option (List Char) :=
  match ungroup Char.isDigit false cs with
  | some ['0'] => some ['0']
  | some ('0' :: _) => none
  | o => o

/-- The sign of a number, and what follows it. -/
def splitSign : List Char → Bool × List Char
  | '-' :: cs => (true, cs)
  | '+' :: cs => (false, cs)
  | cs => (false, cs)

/-- The integer that is spelled. -/
def integer? : List Char → Option Int
  | '0' :: 'x' :: cs => (ungroup isHexDigit false cs).map fun ds => digitsIn 16 ds
  | '0' :: 'o' :: cs =>
    (ungroup (fun c => '0' ≤ c && c ≤ '7') false cs).map fun ds => digitsIn 8 ds
  | '0' :: 'b' :: cs =>
    (ungroup (fun c => c = '0' || c = '1') false cs).map fun ds => digitsIn 2 ds
  | cs =>
    let (negative, cs) := splitSign cs
    (decimal? cs).map fun ds =>
      if negative then Int.negOfNat (digitsIn 10 ds) else (digitsIn 10 ds : Int)

/-- The exponent of a float, from its letter on. -/
def isExponent : List Char → Bool
  | c :: cs => (c = 'e' || c = 'E') && (ungroup Char.isDigit false (splitSign cs).2).isSome
  | [] => false

/-- A float is spelled. -/
def isFloat (cs : List Char) : Bool :=
  let cs := (splitSign cs).2
  cs == "inf".toList || cs == "nan".toList ||
    let (whole, rest) := cs.span fun c => c.isDigit || c = '_'
    (decimal? whole).isSome &&
      match rest with
      | '.' :: rest =>
        let (fraction, rest) := rest.span fun c => c.isDigit || c = '_'
        (ungroup Char.isDigit false fraction).isSome && (rest.isEmpty || isExponent rest)
      | rest => isExponent rest

/-- The number that two digits at the front spell, below a bound. -/
def twoDigits? (bound : Nat) : List Char → Option (Nat × List Char)
  | a :: b :: rest =>
    let n := digitsIn 10 [a, b]
    if a.isDigit && b.isDigit && n < bound then some (n, rest) else none
  | _ => none

/-- What follows a date at the front. -/
def afterDate? : List Char → Option (List Char)
  | a :: b :: c :: d :: '-' :: rest => do
    let (month, rest) ← twoDigits? 100 rest
    match rest with
    | '-' :: rest =>
      let (day, rest) ← twoDigits? 100 rest
      if [a, b, c, d].all Char.isDigit && Date.isValid ⟨digitsIn 10 [a, b, c, d], month, day⟩ then
        some rest
      else none
    | _ => none
  | _ => none

/-- What follows a time of day at the front. -/
def afterTime? (cs : List Char) : Option (List Char) := do
  let (_, rest) ← twoDigits? 24 cs
  match rest with
  | ':' :: rest =>
    let (_, rest) ← twoDigits? 60 rest
    match rest with
    | ':' :: rest =>
      let (_, rest) ← twoDigits? 61 rest
      match rest with
      | '.' :: rest =>
        match rest.span Char.isDigit with
        | ([], _) => none
        | (_, rest) => some rest
      | rest => some rest
    | rest => some rest
  | _ => none

/-- The offset of a time, or nothing. -/
def isOffset : List Char → Bool
  | [] => true
  | ['Z'] | ['z'] => true
  | c :: rest =>
    (c = '+' || c = '-') &&
      match twoDigits? 24 rest with
      | some (_, ':' :: rest) =>
        match twoDigits? 60 rest with
        | some (_, []) => true
        | _ => false
      | _ => false

/-- A date, a time or both are spelled. -/
def isMoment (cs : List Char) : Bool :=
  match afterDate? cs with
  | some [] => true
  | some (c :: rest) =>
    (c = 'T' || c = 't' || c = ' ') &&
      match afterTime? rest with
      | some rest => isOffset rest
      | none => false
  | none => afterTime? cs == some []

/-- The least integer of 128 bits. -/
def minInteger : Int := -170141183460469231731687303715884105728

/-- The greatest integer of 128 bits without a sign. -/
def maxInteger : Int := 340282366920938463463374607431768211455

/-- The value that is spelled without quotes. -/
def scalar (cs : List Char) : Except Fault Value :=
  if cs == "true".toList then .ok (.flag true)
  else if cs == "false".toList then .ok (.flag false)
  else match integer? cs with
    | some n =>
      if minInteger ≤ n ∧ n ≤ maxInteger then .ok (.integer n) else .error .integerOutOfRange
    | none =>
      if isFloat cs || isMoment cs then .ok (.special (String.ofList cs)) else .error .badScalar

end Overrides.Toml
