import Overrides.Text.Utf8

/-!
# `Overrides.Server.Query`: parameters of a request

A query string is cut at ampersands and every part at its first equals
sign. In names and values a plus stands for a space and a percent sign
with two hexadecimal digits for a byte; any other percent sign stays.
Bytes that are no text become the replacement character.
-/

set_option autoImplicit false

namespace Overrides.Query

open Overrides.Text

/-- The value of a hexadecimal digit. -/
def hexDigit? (b : UInt8) : Option UInt8 :=
  if 0x30 ≤ b && b ≤ 0x39 then some (b - 0x30)
  else if 0x61 ≤ b && b ≤ 0x66 then some (b - 0x57)
  else if 0x41 ≤ b && b ≤ 0x46 then some (b - 0x37)
  else none

/-- The bytes that an encoded name or value stands for. -/
def unescape : List UInt8 → List UInt8
  | [] => []
  | 0x2b :: rest => 0x20 :: unescape rest
  | 0x25 :: a :: b :: rest =>
    match hexDigit? a, hexDigit? b with
    | some x, some y => (x * 16 + y) :: unescape rest
    | _, _ => 0x25 :: unescape (a :: b :: rest)
  | b :: rest => b :: unescape rest

/-- The text that an encoded name or value stands for. -/
def decode (bytes : List UInt8) : String := Utf8.decodeLossy (unescape bytes)

/-- The bytes between separators. -/
def cut (separator : UInt8) (bytes : List UInt8) : List (List UInt8) :=
  match bytes with
  | [] => [[]]
  | b :: rest =>
    match cut separator rest with
    | part :: parts => if b = separator then [] :: part :: parts else (b :: part) :: parts
    | [] => [[b]]

/-- The parameters of a query string in order; empty parts are left out. -/
def parameters (query : String) : List (String × String) :=
  ((cut 0x26 (Utf8.encode query)).filter (!·.isEmpty)).map fun part =>
    let (name, value) := part.span (· ≠ 0x3d)
    (decode name, decode (value.drop 1))

/-- The values of known parameters. A known parameter that stands twice is
refused by its name; others do not count. -/
def known (names : List String) (query : String) : Except String (List (String × String)) :=
  (parameters query).foldlM (fun found p =>
    if !names.contains p.1 then .ok found
    else if (found.lookup p.1).isSome then .error p.1
    else .ok (p :: found)) []

end Overrides.Query
