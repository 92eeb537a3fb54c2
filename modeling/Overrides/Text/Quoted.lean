import Overrides.Text.Unprintable

/-!
# `Overrides.Text.Quoted`: a text between quotes, for messages

Inside the quotes a quote and a backslash take a backslash, four
controls have a letter of their own, and every other unprintable
character is spelled by its number in lower-case hexadecimal between
braces. All else, an apostrophe too, stands for itself.
-/

set_option autoImplicit false

namespace Overrides.Text

/-- A number in lower-case hexadecimal without leading zeros. -/
def hex (n : Nat) : String := String.ofList (Nat.toDigits 16 n)

/-- How a quoted text spells one character. -/
def quotedChar (c : Char) : String :=
  if c == '"' then "\\\""
  else if c == '\\' then "\\\\"
  else if c == '\n' then "\\n"
  else if c == '\r' then "\\r"
  else if c == '\t' then "\\t"
  else if c.toNat == 0 then "\\0"
  else if isUnprintable c then "\\u\x7b" ++ hex c.toNat ++ "\x7d"
  else c.toString

/-- The text between quotes. -/
def quoted (s : String) : String :=
  "\"" ++ String.join (s.toList.map quotedChar) ++ "\""

end Overrides.Text
