import Overrides.Toml.Scalar

/-!
# `Overrides.Toml.Reader`: reading a TOML document

The text is read into sections, a header and its pairs each, and the
sections are then added up to the table of the document. Lines end in
a line feed, with or without a carriage return before it. Inside
brackets and braces lines may end and comments may stand between the
items, and a comma may follow the last item.
-/

set_option autoImplicit false

namespace Overrides.Toml

/-- Takes characters off the front of a text. The number at hand is above
the length of the text, and bounds every loop. -/
abbrev Reader (α : Type) := ReaderT Nat (StateT (List Char) (Except Fault)) α

/-- How deep lists and inline tables may be nested. -/
def maxDepth : Nat := 80

namespace Reader

/-- A blank within a line. -/
def isGap (c : Char) : Bool := c = ' ' || c = '\t'

/-- A control character that may not stand in a text or a comment. -/
def isForbidden (c : Char) : Bool := (c.toNat < 0x20 && c != '\t') || c.toNat = 0x7f

/-- Stops with a fault. -/
def fail {α : Type} (e : Fault) : Reader α := throw e

/-- The next character, left in place. -/
def peek : Reader (Option Char) := do return (← get).head?

/-- Drops the next character. -/
def drop : Reader Unit := modify (·.drop 1)

/-- Passes over blanks within the line. -/
def skipGap : Reader Unit := modify (·.dropWhile isGap)

/-- Expects a character. -/
def expect (c : Char) : Reader Unit := do
  if (← peek) = some c then drop else fail .syntaxError

/-- What follows the blanks, comments and line ends at the front of a
text; `comment` says that the text begins inside of a comment. -/
def afterGaps (comment : Bool) : List Char → Except Fault (List Char)
  | [] => .ok []
  | '\n' :: cs => afterGaps false cs
  | '\r' :: '\n' :: cs => afterGaps false cs
  | c :: cs =>
    if comment then (if isForbidden c then .error .controlCharacter else afterGaps true cs)
    else if isGap c then afterGaps false cs
    else if c = '#' then afterGaps true cs
    else .ok (c :: cs)

/-- Passes over blanks, comments and line ends. -/
def skipGaps : Reader Unit := do set (← afterGaps false (← get))

/-- What follows the end of a line; a comment may stand before it. -/
def afterLine (comment : Bool) : List Char → Except Fault (List Char)
  | [] => .ok []
  | '\n' :: cs => .ok cs
  | '\r' :: '\n' :: cs => .ok cs
  | c :: cs =>
    if comment then (if isForbidden c then .error .controlCharacter else afterLine true cs)
    else if isGap c then afterLine false cs
    else if c = '#' then afterLine true cs
    else .error .syntaxError

/-- Expects the end of a line or of the text. -/
def lineEnd : Reader Unit := do set (← afterLine false (← get))

/-! ### Texts -/

/-- The character that a letter after a backslash stands for. -/
def letterEscape? : Char → Option Char
  | 'b' => some (Char.ofNat 0x08)
  | 't' => some '\t'
  | 'n' => some '\n'
  | 'f' => some (Char.ofNat 0x0c)
  | 'r' => some '\r'
  | 'e' => some (Char.ofNat 0x1b)
  | '"' => some '"'
  | '\\' => some '\\'
  | _ => none

/-- How many digits follow the letter of a numeric escape. -/
def escapeWidth? : Char → Option Nat
  | 'x' => some 2
  | 'u' => some 4
  | 'U' => some 8
  | _ => none

/-- Reads the digits of a numeric escape. Only characters have a number,
surrogates have none. -/
def numericEscape (width : Nat) : Reader Char := do
  let cs ← get
  let ds := cs.take width
  let n := digitsIn 16 ds
  if ds.length = width ∧ ds.all isHexDigit ∧ n.isValidChar then
    set (cs.drop width)
    return Char.ofNat n
  else fail .badEscape

/-- Reads an escape, backslash already taken. -/
def escape : Reader Char := do
  match ← peek with
  | none => fail .syntaxError
  | some c =>
    drop
    match letterEscape? c with
    | some d => return d
    | none =>
      match escapeWidth? c with
      | some width => numericEscape width
      | none => fail .badEscape

/-- Passes over a backslash at the end of a line, with all blanks and line
ends after it, if one stands here. -/
def lineContinued : Reader Bool := do
  match ← get with
  | '\\' :: cs =>
    let rest := cs.dropWhile isGap
    let ends := match rest with
      | '\n' :: _ => true
      | '\r' :: '\n' :: _ => true
      | _ => false
    -- A backslash at the end of a line takes all blanks and line ends behind it.
    if ends then
      set (afterBlank rest)
      return true
    else return false
  | _ => return false
where
  /-- What follows blanks and line ends. -/
  afterBlank : List Char → List Char
    | '\r' :: '\n' :: cs => afterBlank cs
    | c :: cs => if c = '\n' || isGap c then afterBlank cs else c :: cs
    | [] => []

/-- Reads what stands between quotes on one line, opening quote already
taken, added in reverse to `done`. Only `"` knows escapes. -/
def lineBody (quote : Char) : Nat → List Char → Reader (List Char)
  | 0, _ => fail .syntaxError
  | fuel + 1, done => do
    match ← peek with
    | none => fail .syntaxError
    | some c =>
      drop
      if c = quote then return done.reverse
      else if c = '\\' ∧ quote = '"' then lineBody quote fuel ((← escape) :: done)
      else if isForbidden c then fail .controlCharacter
      else lineBody quote fuel (c :: done)

/-- Reads what stands between triple quotes, opening quotes already taken.
Up to two quotes may stand before the closing ones. -/
def blockBody (quote : Char) : Nat → List Char → Reader (List Char)
  | 0, _ => fail .syntaxError
  | fuel + 1, done => do
    let cs ← get
    let run := (cs.takeWhile (· = quote)).length
    -- Up to two quotes may stand before the three that end the text.
    if 3 ≤ run then
      set (cs.drop (min run 5))
      return (List.replicate (min run 5 - 3) quote ++ done).reverse
    else if 0 < run then
      set (cs.drop run)
      blockBody quote fuel (List.replicate run quote ++ done)
    else if quote = '"' && (← lineContinued) then blockBody quote fuel done
    else match cs with
      | [] => fail .syntaxError
      | '\r' :: '\n' :: rest =>
        set rest
        blockBody quote fuel ('\n' :: '\r' :: done)
      | c :: rest =>
        set rest
        if c = '\\' ∧ quote = '"' then blockBody quote fuel ((← escape) :: done)
        else if isForbidden c ∧ c ≠ '\n' then fail .controlCharacter
        else blockBody quote fuel (c :: done)

/-- Reads a text in this quote on one line. -/
def lineText (quote : Char) : Reader String := do
  expect quote
  String.ofList <$> lineBody quote (← read) []

/-- Reads a text in this quote, on one line or between triple quotes. A
line end right after the opening triple quotes does not count. -/
def anyText (quote : Char) : Reader String := do
  let cs ← get
  if cs.take 3 = List.replicate 3 quote then
    match cs.drop 3 with
    | '\n' :: rest => set rest
    | '\r' :: '\n' :: rest => set rest
    | rest => set rest
    String.ofList <$> blockBody quote (← read) []
  else lineText quote

/-! ### Keys -/

/-- A character of a key without quotes. -/
def isBare (c : Char) : Bool := (c.isAlphanum && c.toNat < 128) || c = '_' || c = '-'

/-- Reads one part of a key. -/
def keyPart : Reader String := do
  match ← peek with
  | some '"' => lineText '"'
  | some '\'' => lineText '\''
  | _ =>
    let (name, rest) := (← get).span isBare
    if name.isEmpty then fail .syntaxError
    set rest
    return String.ofList name

/-- Reads the parts of a key after a first one, added in reverse to `done`. -/
def keyParts : Nat → List String → Reader (List String)
  | 0, _ => fail .syntaxError
  | fuel + 1, done => do
    skipGap
    if (← peek) = some '.' then
      drop
      skipGap
      keyParts fuel ((← keyPart) :: done)
    else return done

/-- Reads a key: the way to it, and its last part. -/
def key : Reader (List String × String) := do
  match ← keyParts (← read) [← keyPart] with
  | last :: path => return (path.reverse, last)
  | [] => fail .syntaxError

/-! ### Values -/

/-- A character of a value without quotes. -/
def isScalarChar (c : Char) : Bool := isBare c || c = '+' || c = '.' || c = ':'

/-- Reads a value without quotes. A blank may stand between a date and a
time. -/
def bareValue : Reader Value := do
  let (cs, rest) := (← get).span isScalarChar
  match afterDate? cs, rest with
  | some [], ' ' :: c :: more =>
    if c.isDigit then
      let (time, rest) := (c :: more).span isScalarChar
      set rest
      scalar (cs ++ ' ' :: time)
    else
      set rest
      scalar cs
  | _, _ =>
    set rest
    scalar cs

/-- Reads items up to a closing character, each followed by a comma or by
the end, added in reverse to `done`. -/
def itemsUntil {α : Type} (close : Char) (item : Reader α) : Nat → List α → Reader (List α)
  | 0, _ => fail .syntaxError
  | fuel + 1, done => do
    skipGaps
    if (← peek) = some close then
      drop
      return done.reverse
    else
      let a ← item
      skipGaps
      match ← peek with
      | some c =>
        drop
        if c = close then return (a :: done).reverse
        else if c = ',' then itemsUntil close item fuel (a :: done)
        else fail .syntaxError
      | none => fail .syntaxError

/-- Reads a key and its value. -/
def pair (value : Reader Value) : Reader Pair := do
  let (path, last) ← key
  skipGap
  expect '='
  skipGap
  return ⟨path, last, ← value⟩

/-- Reads a value that is no list and no inline table. -/
def leaf : Reader Value := do
  match ← peek with
  | some '"' => return .text (← anyText '"')
  | some '\'' => return .text (← anyText '\'')
  | _ => bareValue

/-- Reads a value, with room for so many open lists and inline tables. -/
def value : Nat → Reader Value
  | 0 => do
    match ← peek with
    | some '[' => fail .tooDeep
    | some '\x7b' => fail .tooDeep
    | _ => leaf
  | room + 1 => do
    match ← peek with
    | some '[' =>
      drop
      return .list (← itemsUntil ']' (value room) (← read) [])
    | some '\x7b' =>
      drop
      let pairs ← itemsUntil '\x7d' (pair (value room)) (← read) []
      return .table .inline (← Entries.addPairs .inline pairs [])
    | _ => leaf

/-! ### Documents -/

/-- Reads a header, opening bracket in place. -/
def header : Reader Header := do
  expect '['
  let several := (← peek) = some '['
  if several then drop
  skipGap
  let (path, last) ← key
  skipGap
  expect ']'
  if several then expect ']'
  lineEnd
  return ⟨several, path, last⟩

/-- Reads the pairs up to the next header or the end, added in reverse to
`done`. -/
def pairs : Nat → List Pair → Reader (List Pair)
  | 0, _ => fail .syntaxError
  | fuel + 1, done => do
    skipGaps
    match ← peek with
    | none => return done.reverse
    | some '[' => return done.reverse
    | some _ =>
      let p ← pair (value maxDepth)
      lineEnd
      pairs fuel (p :: done)

/-- Reads the sections that have headers, added in reverse to `done`. -/
def sections : Nat → List Section → Reader (List Section)
  | 0, _ => fail .syntaxError
  | fuel + 1, done => do
    match ← peek with
    | none => return done.reverse
    | some _ =>
      let h ← header
      let ps ← pairs (← read) []
      sections fuel (⟨some h, ps⟩ :: done)

/-- Reads the table of a document. -/
def document : Reader Entries := do
  let first ← pairs (← read) []
  let rest ← sections (← read) []
  (⟨none, first⟩ :: rest).foldlM (fun t s => t.addSection s) ([] : Entries)

end Reader

/-- The table of a TOML document. A byte order mark may stand in front. -/
def parse (text : String) : Except Fault Entries :=
  let cs := match text.toList with
    | c :: rest => if c.toNat = 0xfeff then rest else c :: rest
    | [] => []
  StateT.run' (Reader.document (cs.length + 2)) cs

end Overrides.Toml
