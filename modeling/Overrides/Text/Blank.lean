/-!
# `Overrides.Text.Blank`: blank characters and trimming

A character is blank when Unicode gives it the property
`White_Space`. The zero-width space, the byte order mark and the
ASCII separators U+001C to U+001F are not blank. Trimming removes
the longest blank run at either end.

* `trim_toList`: trimming, read on the characters, drops the blank
  run at both ends and nothing else.
-/

set_option autoImplicit false

namespace Overrides.Text

/-- The property `White_Space`: 25 characters. -/
def isBlank (c : Char) : Bool :=
  let n := c.toNat
  (0x09 ≤ n && n ≤ 0x0d) || n == 0x20 || n == 0x85 || n == 0xa0 || n == 0x1680
    || (0x2000 ≤ n && n ≤ 0x200a) || n == 0x2028 || n == 0x2029 || n == 0x202f
    || n == 0x205f || n == 0x3000

/-- The general category `Cc`: the C0 and C1 controls and delete. -/
def isControl (c : Char) : Bool :=
  c.toNat ≤ 0x1f || (0x7f ≤ c.toNat && c.toNat ≤ 0x9f)

/-- The characters left once the blank run at the end is dropped. -/
def dropBlankEnd (cs : List Char) : List Char :=
  (cs.reverse.dropWhile isBlank).reverse

/-- The text without its leading blanks. -/
def trimStart (s : String) : String :=
  String.ofList (s.toList.dropWhile isBlank)

/-- The text without its leading and trailing blanks. -/
def trim (s : String) : String :=
  String.ofList (dropBlankEnd (s.toList.dropWhile isBlank))

/-- The trimmed text, unless nothing is left of it. -/
def nonBlank? (s : String) : Option String :=
  let t := trim s
  if t.isEmpty then none else some t

/-- The text with every ASCII capital in lower case; other characters stay. -/
def lowerAscii (s : String) : String :=
  String.ofList (s.toList.map Char.toLower)

/-- Two texts agree when ASCII case is ignored. -/
def sameAscii (a b : String) : Bool := lowerAscii a == lowerAscii b

/-- The characters of a trimmed text: blanks are dropped in front first, then
behind. -/
theorem trim_toList (s : String) :
    (trim s).toList = dropBlankEnd (s.toList.dropWhile isBlank) := by
  simp [trim]

end Overrides.Text
