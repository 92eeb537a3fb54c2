import Overrides.Field
import Overrides.Number.Layout

/-!
# `Overrides.Rule.Coercion`: lenient reading of setting values

Administrators submit flags and numbers as texts too. A flag is a
truth value or the text `true` or `false` in any ASCII case. A number
is read from the integer at the front of a text: leading blanks and
one sign may stand before the digits, anything may follow them, and
the result saturates at 64 bits. A number with a fraction or an
exponent is read from its text in the same way. A limit is a positive
number, cut to the ceiling of its field.
-/

set_option autoImplicit false

namespace Overrides

open Overrides.Text Overrides.Number

/-- The greatest signed integer of 64 bits. -/
def maxInt64 : Nat := 9223372036854775807

/-- The value of a run of digits, at most `maxInt64`. -/
def saturatedValue (digits : List Char) : Nat :=
  digits.foldl (fun n c => min (n * 10 + (c.toNat - '0'.toNat)) maxInt64) 0

/-- The integer at the front of a text. -/
def integerPrefix? (text : String) : Option Int :=
  let (negative, rest) := match text.toList.dropWhile isBlank with
    | '-' :: rest => (true, rest)
    | '+' :: rest => (false, rest)
    | rest => (false, rest)
  match rest.takeWhile Char.isDigit with
  | [] => none
  | digits =>
    some (if negative then Int.negOfNat (saturatedValue digits) else saturatedValue digits)

/-- The truth value that a value clearly stands for. -/
def coerceFlag : Json → Option Bool
  | .bool b => some b
  | .string s =>
    if sameAscii s "true" then some true
    else if sameAscii s "false" then some false
    else none
  | _ => none

/-- The integer that a number or a text stands for. -/
def coerceInteger : Json → Option Int
  | .number (.integer n) => some (min n maxInt64)
  | .number (.double x) => integerPrefix? (Layout.plain.write x)
  | .string s => integerPrefix? s
  | _ => none

/-- The limit that a value stands for: none unless it is positive, and
the ceiling at most. -/
def coerceLimit (ceiling : UInt32) (v : Json) : Option UInt32 :=
  match coerceInteger v with
  | some n =>
    if n ≤ 0 then none
    else if n ≤ ceiling.toNat then some (UInt32.ofNat n.toNat)
    else some ceiling
  | none => none

/-- The most media loads at a time that a rule can allow. -/
def mediaLoadsCeiling : UInt32 := 50

/-- The most retries that a rule can allow. -/
def retryCountCeiling : UInt32 := 10

/-- The longest time that a rule can allow a request, in milliseconds. -/
def timeoutCeiling : UInt32 := 120000

/-- The highest threshold that a rule can set for the watchdog, in milliseconds. -/
def watchdogCeiling : UInt32 := 120000

/-- The image quality that a value stands for; what names no tier is
`auto`, and `null` leaves the quality alone. -/
def coerceQuality : Json → Option ImageQuality
  | .null => none
  | .string s => some (ImageQuality.parseLenient s)
  | _ => some .auto

/-- What a submitted value sets a field of this kind to, if to anything. -/
def Kind.coerce : (k : Kind) → Json → Option k.Value
  | .flag => coerceFlag
  | .quality => coerceQuality
  | .limit ceiling => coerceLimit ceiling

end Overrides
