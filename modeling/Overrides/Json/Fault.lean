import Overrides.Json.Writer

/-!
# `Overrides.Json.Fault`: why JSON is refused

A text is *malformed* where a byte cannot stand, and *unfinished*
where it ends too early. A well-formed value is a *mismatch* where it
has the wrong shape for what is read from it. `message` gives the
wording of each cause.
-/

set_option autoImplicit false

namespace Overrides.Json

open Overrides.Number Overrides.Text

/-- What a text ends inside of. -/
inductive Unfinished where
  | value
  | string
  | list
  | object
  deriving DecidableEq, Repr

/-- Why a byte cannot stand where it stands. -/
inductive Malformed where
  | expectedValue
  | expectedWord
  | expectedColon
  | expectedListEnd
  | expectedObjectEnd
  | nameNotString
  | trailingComma
  | trailingCharacters
  | invalidEscape
  | invalidNumber
  | numberOutOfRange
  | controlCharacter
  | invalidUtf8
  | loneSurrogate
  | brokenSurrogatePair
  | tooDeep
  deriving DecidableEq, Repr

/-- Why a well-formed value has the wrong shape. -/
inductive Mismatch where
  /-- Another kind of value was found. -/
  | invalidType (found expected : String)
  /-- The kind is right and the value is not. -/
  | invalidValue (found expected : String)
  /-- A list stands for a record and has the wrong length. -/
  | invalidLength (found : Nat) (expected : String)
  | missingField (name : String)
  | duplicateField (name : String)
  | unknownField (name : String) (expected : List String)
  | unknownVariant (name : String) (expected : List String)
  /-- The shape is right and a rule on the content is broken. -/
  | refused (reason : String)
  deriving DecidableEq, Repr

/-- Why reading JSON failed. -/
inductive Fault where
  | malformed (cause : Malformed)
  | unfinished (inside : Unfinished)
  | mismatch (cause : Mismatch)
  deriving DecidableEq, Repr

/-- The wording of an unfinished text. -/
def Unfinished.message : Unfinished → String
  | .value => "EOF while parsing a value"
  | .string => "EOF while parsing a string"
  | .list => "EOF while parsing a list"
  | .object => "EOF while parsing an object"

/-- The wording of a malformed text. -/
def Malformed.message : Malformed → String
  | .expectedValue => "expected value"
  | .expectedWord => "expected ident"
  | .expectedColon => "expected `:`"
  | .expectedListEnd => "expected `,` or `]`"
  | .expectedObjectEnd => "expected `,` or `\x7d`"
  | .nameNotString => "key must be a string"
  | .trailingComma => "trailing comma"
  | .trailingCharacters => "trailing characters"
  | .invalidEscape => "invalid escape"
  | .invalidNumber => "invalid number"
  | .numberOutOfRange => "number out of range"
  | .controlCharacter =>
    "control character (\\u0000-\\u001F) found while parsing a string"
  | .invalidUtf8 => "invalid unicode code point"
  | .loneSurrogate => "lone leading surrogate in hex escape"
  | .brokenSurrogatePair => "unexpected end of hex escape"
  | .tooDeep => "recursion limit exceeded"

/-- A name between backticks. -/
def ticked (name : String) : String := "`" ++ name ++ "`"

/-- The names that were expected: one alone, two with "or", more as a
list. -/
def expectation (names : List String) : String :=
  match names with
  | [] => "there are none"
  | [a] => "expected " ++ ticked a
  | [a, b] => "expected " ++ ticked a ++ " or " ++ ticked b
  | _ => "expected one of " ++ ", ".intercalate (names.map ticked)

/-- The wording of a mismatch. -/
def Mismatch.message : Mismatch → String
  | .invalidType found expected => "invalid type: " ++ found ++ ", expected " ++ expected
  | .invalidValue found expected => "invalid value: " ++ found ++ ", expected " ++ expected
  | .invalidLength found expected =>
    "invalid length " ++ Nat.repr found ++ ", expected " ++ expected
  | .missingField name => "missing field " ++ ticked name
  | .duplicateField name => "duplicate field " ++ ticked name
  | .unknownField name expected => "unknown field " ++ ticked name ++ ", " ++ expectation expected
  | .unknownVariant name expected =>
    "unknown variant " ++ ticked name ++ ", " ++ expectation expected
  | .refused reason => reason

/-- The wording of a fault. -/
def Fault.message : Fault → String
  | .malformed cause => cause.message
  | .unfinished inside => inside.message
  | .mismatch cause => cause.message

/-- How a message names the value that was found. -/
def found : Json → String
  | .null => "null"
  | .bool b => "boolean " ++ ticked (if b then "true" else "false")
  | .number (.integer n) => "integer " ++ ticked (Int.repr n)
  | .number (.double x) => "floating point " ++ ticked (Layout.plain.write x)
  | .string s => "string " ++ quoted s
  | .array _ => "sequence"
  | .object _ => "map"

end Overrides.Json
