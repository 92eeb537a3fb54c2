import Overrides.Json.Value
import Overrides.Number.Layout
import Overrides.Text.Quoted

/-!
# `Overrides.Json.Writer`: JSON text without blanks

Strings escape the quote, the backslash and the controls below U+0020;
five of those have a letter, the rest take four lower-case hexadecimal
digits. The compact text keeps the member order of the value. The
canonical text orders the members of an object by the text of their
escaped, quoted names, and writes doubles in the canonical layout, so
that equal values have one text.
-/

set_option autoImplicit false

namespace Overrides.Json

open Overrides.Number Overrides.Text

/-- How a string spells one character. -/
def escapedChar (c : Char) : String :=
  if c == '"' then "\\\""
  else if c == '\\' then "\\\\"
  else if c.toNat == 0x08 then "\\b"
  else if c.toNat == 0x09 then "\\t"
  else if c.toNat == 0x0a then "\\n"
  else if c.toNat == 0x0c then "\\f"
  else if c.toNat == 0x0d then "\\r"
  else if c.toNat < 0x10 then "\\u000" ++ hex c.toNat
  else if c.toNat < 0x20 then "\\u00" ++ hex c.toNat
  else c.toString

/-- A text as a JSON string, quotes included. -/
def stringText (s : String) : String :=
  s.foldl (fun text c => text ++ escapedChar c) "\"" ++ "\""

/-- The text of a number, doubles in the given layout. -/
def Number.text (layout : Layout) : Json.Number → String
  | .integer n => Int.repr n
  | .double x => layout.write x

/-- Texts with commas between them. -/
def commaList (texts : List String) : String := ",".intercalate texts

/-- The text of a member. -/
def memberText (member : String × String) : String := member.1 ++ ":" ++ member.2

mutual

/-- The compact text of a value. -/
def compact : Json → String
  | .null => "null"
  | .bool b => if b then "true" else "false"
  | .number n => n.text Layout.plain
  | .string s => stringText s
  | .array items => "[" ++ commaList (compactItems items) ++ "]"
  | .object members => "\x7b" ++ commaList ((compactMembers members).map memberText) ++ "\x7d"

/-- The compact texts of the values of a list. -/
def compactItems : List Json → List String
  | [] => []
  | v :: rest => compact v :: compactItems rest

/-- The quoted names and the compact texts of members. -/
def compactMembers : List (String × Json) → List (String × String)
  | [] => []
  | (n, v) :: rest => (stringText n, compact v) :: compactMembers rest

end

mutual

/-- The canonical text of a value. -/
def canonical : Json → String
  | .null => "null"
  | .bool b => if b then "true" else "false"
  | .number n => n.text Layout.canonical
  | .string s => stringText s
  | .array items => "[" ++ commaList (canonicalItems items) ++ "]"
  | .object members =>
    "\x7b" ++ commaList ((sortMembers (canonicalMembers members)).map memberText) ++ "\x7d"

/-- The canonical texts of the values of a list. -/
def canonicalItems : List Json → List String
  | [] => []
  | v :: rest => canonical v :: canonicalItems rest

/-- The quoted names and the canonical texts of members, not yet ordered. -/
def canonicalMembers : List (String × Json) → List (String × String)
  | [] => []
  | (n, v) :: rest => (stringText n, canonical v) :: canonicalMembers rest

end

end Overrides.Json
