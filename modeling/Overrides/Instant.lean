import Overrides.Instant.Calendar
import Overrides.Json.Record

/-!
# `Overrides.Instant`: points in time

An instant counts nanoseconds from the start of 1970 in UTC and keeps
the offset in which it was written. Instants made from milliseconds
lie in the years -9999 to 9999 and have no offset. The written form is
that of RFC 3339, which has room for the years 0 to 9999 and for
offsets of less than a day: `Z` for no offset, a fraction only where it
is not zero, without zeros at its end.
-/

set_option autoImplicit false

namespace Overrides

open Overrides.Calendar

/-- A point in time. -/
structure Instant where
  /-- Nanoseconds since 1970-01-01T00:00:00 UTC. -/
  nanos : Int
  /-- Minutes that local time is ahead of UTC. -/
  offset : Int
  deriving DecidableEq, Repr, Inhabited

namespace Instant

/-- Nanoseconds in a second. -/
def perSecond : Int := 1000000000

/-- Nanoseconds in a day. -/
def perDay : Int := 86400 * perSecond

/-- The first millisecond of the year -9999. -/
def minMillis : Int := -377705116800000

/-- The last millisecond of the year 9999. -/
def maxMillis : Int := 253402300799999

/-- The instant so many milliseconds after the start of 1970, if its year
is in -9999 to 9999. -/
def ofMillis (millis : Int) : Option Instant :=
  if minMillis ≤ millis ∧ millis ≤ maxMillis then some ⟨millis * 1000000, 0⟩ else none

/-- The milliseconds since the start of 1970, truncated toward zero. -/
def millis (t : Instant) : Int := t.nanos.tdiv 1000000

/-! ### The written form -/

/-- A date, a time of day and an offset. -/
structure Local where
  date : Date
  hour : Nat
  minute : Nat
  second : Nat
  nano : Nat
  offset : Int
  deriving DecidableEq, Repr

/-- What clock and calendar show at the offset of the instant. -/
def toLocal (t : Instant) : Local :=
  let n := t.nanos + t.offset * 60 * perSecond
  let second := (n % perDay / perSecond).toNat
  ⟨Date.ofDays (n / perDay), second / 3600, second / 60 % 60, second % 60,
    (n % perSecond).toNat, t.offset⟩

/-- The instant at which clock and calendar show this. -/
def ofLocal (l : Local) : Instant :=
  let second := l.date.toDays * 86400 + l.hour * 3600 + l.minute * 60 + l.second
  ⟨(second - l.offset * 60) * perSecond + l.nano, l.offset⟩

/-- A number in exactly so many digits; higher digits are left out. -/
def padded : Nat → Nat → List Char
  | 0, _ => []
  | width + 1, n => padded width (n / 10) ++ [Nat.digitChar (n % 10)]

/-- The digits of a fraction without zeros at the end. -/
def fractionDigits (nano : Nat) : List Char :=
  ((padded 9 nano).reverse.dropWhile (· == '0')).reverse

/-- The offset: `Z` where there is none. -/
def offsetText (offset : Int) : List Char :=
  if offset = 0 then ['Z']
  else
    (if offset < 0 then '-' else '+') :: padded 2 (offset.natAbs / 60)
      ++ ':' :: padded 2 (offset.natAbs % 60)

/-- The written form, if the year is in 0 to 9999 and the offset is less
than a day. -/
def written? (t : Instant) : Option String :=
  let l := t.toLocal
  if (0 ≤ l.date.year ∧ l.date.year ≤ 9999) ∧ l.offset.natAbs < 1440 then
    some (String.ofList (
      padded 4 l.date.year.toNat ++ '-' :: padded 2 l.date.month ++ '-' :: padded 2 l.date.day
        ++ 'T' :: padded 2 l.hour ++ ':' :: padded 2 l.minute ++ ':' :: padded 2 l.second
        ++ (if l.nano = 0 then [] else '.' :: fractionDigits l.nano)
        ++ offsetText l.offset))
  else none

/-- The instant for a reader: its written form, or its milliseconds. -/
def display (t : Instant) : String :=
  t.written?.getD (Int.repr t.millis ++ "ms")

/-! ### Reading -/

/-- Why a text is no instant. -/
inductive Fault where
  | badComponent (name : String)
  | badSeparator
  | trailing
  | outOfRange (name : String)
  deriving DecidableEq, Repr

/-- The wording of a fault. -/
def Fault.message : Fault → String
  | .badComponent name => "the '" ++ name ++ "' component could not be parsed"
  | .badSeparator => "a character literal was not valid"
  | .trailing => "unexpected trailing characters; the end of input was expected"
  | .outOfRange name => name ++ " was not in range"

/-- Takes characters off the front of a text. -/
abbrev Parser (α : Type) := StateT (List Char) (Except Fault) α

/-- Reads exactly so many digits. -/
def number (name : String) : Nat → Nat → Parser Nat
  | 0, value => pure value
  | width + 1, value => do
    match ← get with
    | c :: rest =>
      if c.isDigit then
        set rest
        number name width (value * 10 + (c.toNat - '0'.toNat))
      else throw (.badComponent name)
    | [] => throw (.badComponent name)

/-- Reads one given character. -/
def separator (c : Char) : Parser Unit := do
  match ← get with
  | d :: rest => if c = d then set rest else throw .badSeparator
  | [] => throw .badSeparator

/-- Reads the character between date and time: any one of ASCII. -/
def between : Parser Unit := do
  match ← get with
  | d :: rest =>
    if d.toNat < 128 then set rest else throw (.badComponent "hour")
  | [] => throw (.badComponent "separator")

/-- The first nine digits as nanoseconds. -/
def fractionValue (digits : List Char) : Nat :=
  ((digits ++ List.replicate 9 '0').take 9).foldl (fun n c => n * 10 + (c.toNat - '0'.toNat)) 0

/-- Reads a fraction, if there is one; digits after the ninth do not count. -/
def fraction : Parser Nat := do
  match ← get with
  | '.' :: rest =>
    match rest.span Char.isDigit with
    | ([], _) => throw (.badComponent "subsecond")
    | (ds, rest) =>
      set rest
      return fractionValue ds
  | _ => return 0

/-- Reads an offset: `Z` in either case, or a sign, hours and minutes. -/
def offsetPart : Parser Int := do
  match ← get with
  | c :: rest =>
    if c = 'Z' ∨ c = 'z' then
      set rest
      return 0
    else if c = '+' ∨ c = '-' then
      set rest
      let hour ← number "offset hour" 2 0
      if 23 < hour then throw (.badComponent "offset hour")
      separator ':'
      let minute ← number "offset minute" 2 0
      if 59 < minute then throw (.outOfRange "offset minute")
      -- The sign is that of the whole offset, so a minus turns the minutes as well.
      let total : Int := hour * 60 + minute
      return if c = '-' then Int.neg total else total
    else throw (.badComponent "offset hour")
  | [] => throw (.badComponent "offset hour")

/-- The last second of a month in UTC, where a leap second may stand. -/
def endsMonth (t : Instant) : Bool :=
  let l := ({ t with offset := 0 } : Instant).toLocal
  l.hour == 23 && l.minute == 59 && l.second == 59
    && l.date.day == monthLength l.date.year l.date.month

/-- Reads date, time and offset. Second 60 stands for the last
nanosecond before it, at the end of a month in UTC only. -/
def parser : Parser Instant := do
  let year ← number "year" 4 0
  separator '-'
  let month ← number "month" 2 0
  separator '-'
  let day ← number "day" 2 0
  between
  let hour ← number "hour" 2 0
  separator ':'
  let minute ← number "minute" 2 0
  separator ':'
  let second ← number "second" 2 0
  let nano ← fraction
  let offset ← offsetPart
  -- Nothing is checked for its range before the whole text is read.
  unless (← get).isEmpty do throw .trailing
  -- A leap second is kept as the last nanosecond of its minute, and only where one may occur.
  let leap := second == 60
  let second := if leap then 59 else second
  let nano := if leap then 999999999 else nano
  let date : Date := ⟨year, month, day⟩
  unless 1 ≤ month ∧ month ≤ 12 do throw (.outOfRange "month")
  unless date.isValid do throw (.outOfRange "day")
  unless hour < 24 do throw (.outOfRange "hour")
  unless minute < 60 do throw (.outOfRange "minute")
  unless second < 60 do throw (.outOfRange "second")
  let t := ofLocal ⟨date, hour, minute, second, nano, offset⟩
  if leap && !t.endsMonth then throw (.outOfRange "second")
  return t

/-- Reads the written form. -/
def parse (text : String) : Except Fault Instant := parser.run' text.toList

/-! ### Values -/

/-- The instant as a value, if it can be written. -/
def toJson? (t : Instant) : Option Json := t.written?.map .string

/-- Reads an instant from its written form. -/
def ofJson : Json → Except Json.Mismatch Instant
  | .string s =>
    match parse s with
    | .ok t => .ok t
    | .error e => .error (.refused e.message)
  | v => .error (.invalidType (Json.found v) "an RFC3339-formatted `OffsetDateTime`")

end Instant

end Overrides
