/-!
# `Overrides.Files.Path`: limits of paths

A path is a text whose parts stand between slashes. Lengths are counted
in bytes.
-/

set_option autoImplicit false

namespace Overrides.Path

/-- The most bytes a path may have. -/
def maxBytes : Nat := 4096

/-- The most bytes a part of a path may have. -/
def maxPartBytes : Nat := 255

/-- The parts of a path. Empty parts and single dots lead nowhere and are
left out. -/
def parts (path : String) : List String :=
  (path.splitOn "/").filter fun p => p ≠ "" && p ≠ "."

/-- The character NUL stands in a text; no file has it in its name. -/
def hasNul (text : String) : Bool := text.toList.contains '\x00'

/-- The path begins at the root. -/
def isAbsolute (path : String) : Bool := path.toList.head? = some '/'

/-- The path has too many bytes. -/
def isTooLong (path : String) : Bool := maxBytes < path.utf8ByteSize

/-- A part of the path has too many bytes. -/
def hasLongPart (path : String) : Bool := (parts path).any (maxPartBytes < ·.utf8ByteSize)

end Overrides.Path
