import Overrides.Json.Fault
import Overrides.Text.Utf8

/-!
# `Overrides.Json.Reader`: reading JSON text byte by byte

A reader takes bytes off the front of a text and gives a value or the
first fault. Reading is streaming: what a reader has already refused
is never undone by a fault further on. At most 127 lists and objects
may be open at once. A value that nobody asked for is *skipped*: its
shape is checked, its depth, its surrogates and the range of its
numbers are not.
-/

set_option autoImplicit false

namespace Overrides.Json

open Overrides.Number Overrides.Text

/-- Takes bytes off the front of a text. The number at hand is the length
of the whole text, which bounds every loop. -/
abbrev Reader (α : Type) := ReaderT Nat (StateT (List UInt8) (Except Fault)) α

/-- How many lists and objects may be open at once. -/
def maxDepth : Nat := 127

namespace Reader

/-- A byte of white space between tokens. -/
def isGap (b : UInt8) : Bool := b == 0x20 || b == 0x0a || b == 0x09 || b == 0x0d

/-- A decimal digit. -/
def isDigit (b : UInt8) : Bool := 0x30 ≤ b && b ≤ 0x39

/-- Stops with a malformed text. -/
def malformed {α : Type} (cause : Malformed) : Reader α := throw (.malformed cause)

/-- Stops with an unfinished text. -/
def unfinished {α : Type} (inside : Unfinished) : Reader α := throw (.unfinished inside)

/-- Stops with a value of the wrong shape. -/
def mismatch {α : Type} (cause : Mismatch) : Reader α := throw (.mismatch cause)

/-- The next byte, left in place. -/
def peek : Reader (Option UInt8) := do return (← get).head?

/-- The next byte after white space, left in place. -/
def peekToken : Reader (Option UInt8) := do
  modify (·.dropWhile isGap)
  peek

/-- Drops the next byte. -/
def drop : Reader Unit := modify (·.drop 1)

/-! ### Words and numbers -/

/-- Reads the rest of a word whose first letter was seen. -/
def word : List UInt8 → Reader Unit
  | [] => pure ()
  | b :: rest => do
    match ← peek with
    | none => unfinished .value
    | some c =>
      drop
      if c == b then word rest else malformed .expectedWord

/-- The digits at the front of the bytes, added in reverse to `done`. -/
def digitRun : List UInt8 → List Nat → List Nat × List UInt8
  | [], done => (done.reverse, [])
  | b :: rest, done =>
    if isDigit b then digitRun rest ((b.toNat - 0x30) :: done) else (done.reverse, b :: rest)

/-- Reads a run of digits, perhaps empty. -/
def digits : Reader (List Nat) := do
  let (ds, rest) := digitRun (← get) []
  set rest
  return ds

/-- A missing digit: the text ends there, or another byte stands there.
A skipped number does not tell the two apart. -/
def missingDigit {α : Type} (strict : Bool) : Reader α := do
  match ← peek with
  | none => if strict then unfinished .value else malformed .invalidNumber
  | some _ => malformed .invalidNumber

/-- Reads digits, at least one. -/
def someDigits (strict : Bool) : Reader (List Nat) := do
  match ← digits with
  | [] => missingDigit strict
  | ds => return ds

/-- Reads the whole part of a number: a lone zero, or digits that do not
start with zero. -/
def wholePart (strict : Bool) : Reader (List Nat) := do
  match ← peek with
  | some 0x30 =>
    drop
    match ← peek with
    | some b => if isDigit b then malformed .invalidNumber else return [0]
    | none => return [0]
  | _ => someDigits strict

/-- Reads the fraction of a number, if there is one. -/
def fractionPart (strict : Bool) : Reader (Option (List Nat)) := do
  match ← peek with
  | some 0x2e => drop; return some (← someDigits strict)
  | _ => return none

/-- Reads the exponent of a number, if there is one. -/
def exponentPart (strict : Bool) : Reader (Option Int) := do
  match ← peek with
  | some 0x65 | some 0x45 =>
    drop
    let negative := (← peek) == some 0x2d
    if negative || (← peek) == some 0x2b then drop
    let n := digitsValue (← someDigits strict)
    return some (if negative then Int.negOfNat n else n)
  | _ => return none

/-- Reads a number literal. -/
def literal (strict : Bool) : Reader Literal := do
  let negative := (← peek) == some 0x2d
  if negative then drop
  let whole ← wholePart strict
  let fraction ← fractionPart strict
  let exponent ← exponentPart strict
  return ⟨negative, whole, fraction, exponent⟩

/-- Reads a number that must be finite. -/
def number : Reader Json.Number := do
  match (← literal true).value with
  | .integer n => return .integer n
  | .double x => return .double x
  | .outOfRange => malformed .numberOutOfRange

/-! ### Strings -/

/-- The value of a hexadecimal digit. -/
def hexDigit? (b : UInt8) : Option Nat :=
  if isDigit b then some (b.toNat - 0x30)
  else if 0x61 ≤ b && b ≤ 0x66 then some (b.toNat - 0x57)
  else if 0x41 ≤ b && b ≤ 0x46 then some (b.toNat - 0x37)
  else none

/-- Reads the four digits of a numeric escape. -/
def hexEscape : Reader Nat := do
  match ← get with
  | a :: b :: c :: d :: rest =>
    set rest
    match hexDigit? a, hexDigit? b, hexDigit? c, hexDigit? d with
    | some a, some b, some c, some d => return ((a * 16 + b) * 16 + c) * 16 + d
    | _, _, _, _ => malformed .invalidEscape
  | _ => unfinished .string

/-- A leading surrogate. -/
def isHighSurrogate (n : Nat) : Bool := 0xd800 ≤ n && n ≤ 0xdbff

/-- A trailing surrogate. -/
def isLowSurrogate (n : Nat) : Bool := 0xdc00 ≤ n && n ≤ 0xdfff

/-- Expects one byte of the second half of a surrogate pair. -/
def pairByte (b : UInt8) : Reader Unit := do
  match ← peek with
  | none => unfinished .string
  | some c =>
    drop
    if c == b then pure () else malformed .brokenSurrogatePair

/-- Reads the character of a numeric escape. Surrogates come in pairs. -/
def escapedCodePoint : Reader Char := do
  let n ← hexEscape
  if isLowSurrogate n then malformed .loneSurrogate
  else if isHighSurrogate n then
    pairByte 0x5c
    pairByte 0x75
    let m ← hexEscape
    if isLowSurrogate m then
      return Char.ofNat ((n - 0xd800) * 0x400 + (m - 0xdc00) + 0x10000)
    else malformed .loneSurrogate
  else return Char.ofNat n

/-- The byte that a letter after a backslash stands for. -/
def letterEscape? (b : UInt8) : Option UInt8 :=
  if b == 0x22 || b == 0x5c || b == 0x2f then some b
  else if b == 0x62 then some 0x08
  else if b == 0x66 then some 0x0c
  else if b == 0x6e then some 0x0a
  else if b == 0x72 then some 0x0d
  else if b == 0x74 then some 0x09
  else none

/-- Reads one escape, backslash already taken. A skipped string checks
the digits of a numeric escape and nothing more. -/
def escape (strict : Bool) : Reader (List UInt8) := do
  match ← peek with
  | none => unfinished .string
  | some b =>
    drop
    if b == 0x75 then
      if strict then return Utf8.encode (← escapedCodePoint).toString
      else do let _ ← hexEscape; return []
    else match letterEscape? b with
      | some c => return [c]
      | none => malformed .invalidEscape

/-- The bytes of a string up to its closing quote, added in reverse to
`done`; `fuel` bounds the number of characters. -/
def stringBytes (strict : Bool) : Nat → List UInt8 → Reader (List UInt8)
  | 0, _ => unfinished .string
  | fuel + 1, done => do
    match ← get with
    | [] => unfinished .string
    | b :: rest =>
      -- Controls have to be escaped, the line feed too.
      if b < 0x20 then malformed .controlCharacter
      else
        set rest
        if b == 0x22 then return done.reverse
        else if b == 0x5c then
          let piece ← escape strict
          stringBytes strict fuel (piece.reverse ++ done)
        else stringBytes strict fuel (b :: done)

/-- Reads a string, opening quote already taken. -/
def stringBody : Reader String := do
  let bytes ← stringBytes true ((← read) + 1) []
  match Utf8.decode? bytes with
  | some s => return s
  | none => malformed .invalidUtf8

/-- Passes over a string, opening quote already taken. -/
def skipString : Reader Unit := do
  let _ ← stringBytes false ((← read) + 1) []

/-! ### Lists and objects, one element at a time -/

/-- Whether another element of a list follows; the comma before it is
taken, the closing bracket is not. -/
def elementAhead (first : Bool) : Reader Bool := do
  match ← peekToken with
  | none => unfinished .list
  | some 0x5d => return false
  | some b =>
    if first then return true
    else if b == 0x2c then
      drop
      match ← peekToken with
      | none => unfinished .value
      | some 0x5d => malformed .trailingComma
      | some _ => return true
    else malformed .expectedListEnd

/-- Whether another member of an object follows, its opening quote
still in place; the comma before it is taken, the closing brace is
not. -/
def memberAhead (first : Bool) : Reader Bool := do
  match ← peekToken with
  | none => unfinished .object
  | some 0x7d => return false
  | some b =>
    if first then
      if b == 0x22 then return true else malformed .nameNotString
    else if b == 0x2c then
      drop
      match ← peekToken with
      | none => unfinished .object
      | some 0x22 => return true
      | some 0x7d => malformed .trailingComma
      | some _ => malformed .nameNotString
    else malformed .expectedObjectEnd

/-- Closes a list after its last wanted element. -/
def closeList : Reader Unit := do
  match ← peekToken with
  | none => unfinished .list
  | some 0x5d => drop
  | some 0x2c =>
    drop
    match ← peekToken with
    | some 0x5d => malformed .trailingComma
    | _ => malformed .trailingCharacters
  | some _ => malformed .trailingCharacters

/-- Reads the name of a member. -/
def name : Reader String := do
  drop
  stringBody

/-- Reads the colon between a name and its value. -/
def colon : Reader Unit := do
  match ← peekToken with
  | none => unfinished .object
  | some 0x3a => drop
  | some _ => malformed .expectedColon

/-- Reads the elements of a list to its end, opening bracket already
taken, each one into the state `s`. -/
def foldElements {σ : Type} (element : σ → Reader σ) : Nat → Bool → σ → Reader σ
  | 0, _, _ => unfinished .list
  | fuel + 1, first, s => do
    if ← elementAhead first then
      let s ← element s
      foldElements element fuel false s
    else
      drop
      return s

/-- Reads the members of an object to its end, opening brace already
taken. `member` gets the name and reads from the colon on. -/
def foldMembers {σ : Type} (member : String → σ → Reader σ) : Nat → Bool → σ → Reader σ
  | 0, _, _ => unfinished .object
  | fuel + 1, first, s => do
    if ← memberAhead first then
      let n ← name
      let s ← member n s
      foldMembers member fuel false s
    else
      drop
      return s

/-! ### Values -/

/-- Reads a value that is no list and no object, its first byte known. -/
def scalar (b : UInt8) : Reader Json := do
  if b == 0x6e then drop; word [0x75, 0x6c, 0x6c]; return .null
  else if b == 0x74 then drop; word [0x72, 0x75, 0x65]; return .bool true
  else if b == 0x66 then drop; word [0x61, 0x6c, 0x73, 0x65]; return .bool false
  else if b == 0x22 then drop; return .string (← stringBody)
  else if b == 0x2d || isDigit b then return .number (← number)
  else malformed .expectedValue

/-- Reads any value, with room for `room` more open lists and objects. -/
def value : Nat → Reader Json
  -- No room is left, so lists and objects are refused before they are opened.
  | 0 => do
    match ← peekToken with
    | none => unfinished .value
    | some b => if b == 0x5b || b == 0x7b then malformed .tooDeep else scalar b
  | room + 1 => do
    match ← peekToken with
    | none => unfinished .value
    | some b =>
      if b == 0x5b then
        drop
        let items ← foldElements (fun done => do return (← value room) :: done)
          -- The fuel is the length of the whole text, and each item takes a byte at least.
          ((← read) + 1) true []
        return .array items.reverse
      else if b == 0x7b then
        drop
        let members ← foldMembers
          (fun n done => do colon; return (n, ← value room) :: done)
          ((← read) + 1) true []
        return ofMembers members.reverse
      else scalar b

/-- Reads a text. Any other value is a mismatch, which a list or an
object is from its first byte on. -/
def text : Reader String := do
  match ← peekToken with
  | none => unfinished .value
  | some b =>
    if b == 0x5b then mismatch (.invalidType "sequence" "a string")
    else if b == 0x7b then mismatch (.invalidType "map" "a string")
    else match ← scalar b with
      | .string s => return s
      | v => mismatch (.invalidType (found v) "a string")

/-! ### Skipping -/

/-- An open list or object of a skipped value. -/
inductive Frame where
  | list
  | object

/-- Passes over a name and its colon. -/
def skipName : Reader Unit := do
  match ← peekToken with
  | none => unfinished .object
  | some 0x22 => drop; skipString; colon
  | some _ => malformed .nameNotString

/-- Passes over a value that is no list and no object. -/
def skipScalar (b : UInt8) : Reader Unit := do
  if b == 0x22 then drop; skipString
  else if b == 0x2d || isDigit b then let _ ← literal false
  else let _ ← scalar b

/-- Passes over a value inside the open frames, or, if `closed`, over
what follows a value there. -/
def skipFrom : Nat → Bool → List Frame → Reader Unit
  | 0, _, _ => unfinished .value
  -- A value is behind: what follows is decided by the innermost list or object.
  | _ + 1, true, [] => pure ()
  | fuel + 1, true, .list :: frames => do
    match ← peekToken with
    | none => unfinished .list
    | some 0x2c => drop; skipFrom fuel false (.list :: frames)
    | some 0x5d => drop; skipFrom fuel true frames
    | some _ => malformed .expectedListEnd
  | fuel + 1, true, .object :: frames => do
    match ← peekToken with
    | none => unfinished .object
    | some 0x2c => drop; skipName; skipFrom fuel false (.object :: frames)
    | some 0x7d => drop; skipFrom fuel true frames
    | some _ => malformed .expectedObjectEnd
  -- A value is ahead.
  | fuel + 1, false, frames => do
    match ← peekToken with
    | none => unfinished .value
    | some 0x5b =>
      drop
      match ← peekToken with
      | none => unfinished .list
      -- An empty list is over at once.
      | some 0x5d => drop; skipFrom fuel true frames
      | some _ => skipFrom fuel false (.list :: frames)
    | some 0x7b =>
      drop
      match ← peekToken with
      | none => unfinished .object
      | some 0x7d => drop; skipFrom fuel true frames
      | some _ => skipName; skipFrom fuel false (.object :: frames)
    | some b => skipScalar b; skipFrom fuel true frames

/-- Passes over one value. -/
def skip : Reader Unit := do skipFrom (2 * (← read) + 2) false []

/-- Expects nothing but white space. -/
def finish : Reader Unit := do
  match ← peekToken with
  | none => pure ()
  | some _ => malformed .trailingCharacters

/-- Reads a whole text. -/
def run {α : Type} (reader : Reader α) (bytes : List UInt8) : Except Fault α :=
  StateT.run' ((do let a ← reader; finish; return a : Reader α) bytes.length) bytes

end Reader

/-- The value that a text holds. -/
def read (bytes : List UInt8) : Except Fault Json := (Reader.value maxDepth).run bytes

/-- The value that a text holds. -/
def parse (text : String) : Except Fault Json := read (Utf8.encode text)

end Overrides.Json
