import Overrides.Json.Value

/-!
# `Overrides.Toml.Value`: TOML values and how tables are defined

A table remembers how it came to be, because that decides what may
still be added to it: a table under a header is defined once; a table
that a longer header or a dotted key implied may get a header or more
keys of the same sort later; an inline table is complete. Floats and
dates stand here as they are spelled, since no setting takes one.
-/

set_option autoImplicit false

namespace Overrides.Toml

/-- Why a text is no TOML document. -/
inductive Fault where
  /-- A character stands where it cannot, or the text ends too early. -/
  | syntaxError
  | badEscape
  | controlCharacter
  | badScalar
  | integerOutOfRange
  | tooDeep
  /-- A key is defined twice, or a complete table is added to. -/
  | redefined (key : String)
  deriving DecidableEq, Repr

/-- The wording of a fault. -/
def Fault.message : Fault → String
  | .syntaxError => "unexpected character or end of text"
  | .badEscape => "invalid escape"
  | .controlCharacter => "control character"
  | .badScalar => "invalid value"
  | .integerOutOfRange => "integer out of range"
  | .tooDeep => "values are nested too deep"
  | .redefined key => "duplicate key " ++ key

/-- How a table came to be. -/
inductive Origin where
  /-- It has a header of its own. -/
  | header
  /-- A longer header names it on the way. -/
  | implied
  /-- A dotted key names it on the way. -/
  | dotted
  /-- It stands between braces. -/
  | inline
  deriving DecidableEq, Repr

/-- A TOML value. -/
inductive Value where
  | text (s : String)
  | integer (n : Int)
  | flag (b : Bool)
  /-- A float or a date as it is spelled. -/
  | special (spelling : String)
  | list (items : List Value)
  /-- The tables under headers in double brackets. -/
  | tables (items : List (List (String × Value)))
  | table (origin : Origin) (entries : List (String × Value))
  deriving Inhabited

/-- The entries of a table. -/
abbrev Entries := List (String × Value)

/-! ### Defining keys and tables -/

namespace Entries

/-- The entries with another value for a key; a new key comes last. -/
def put (key : String) (v : Value) : Entries → Entries
  | [] => [(key, v)]
  | (k, w) :: rest => if k = key then (k, v) :: rest else (k, w) :: put key v rest

/-- A way may lead through a table of this origin when the tables that it
makes are of origin `fresh`. -/
def isOpen (fresh origin : Origin) : Bool :=
  match origin with
  | .inline => false
  | .header => fresh != .dotted
  | .implied | .dotted => true

/-- Changes the table at the end of a way. Tables missing on the way are
made with origin `fresh`; the way goes through the last of several
tables under one key. -/
def atPath (fresh : Origin) (change : Origin → Entries → Except Fault Entries) :
    Origin → List String → Entries → Except Fault Entries
  | origin, [], t => change origin t
  | _, key :: path, t =>
    match t.lookup key with
    | none => do return t.put key (.table fresh (← atPath fresh change fresh path []))
    | some (.table origin sub) =>
      if isOpen fresh origin then do
        return t.put key (.table origin (← atPath fresh change origin path sub))
      else .error (.redefined key)
    | some (.tables items) =>
      match items.reverse with
      -- A path through an array of tables goes through the last of them.
      | last :: before => do
        let last ← atPath fresh change .header path last
        return t.put key (.tables (last :: before).reverse)
      | [] => .error (.redefined key)
    | some _ => .error (.redefined key)

/-- Defines a key that is not defined yet. -/
def define (key : String) (v : Value) (t : Entries) : Except Fault Entries :=
  match t.lookup key with
  | none => .ok (t ++ [(key, v)])
  | some _ => .error (.redefined key)

/-- Defines a plain or dotted key. A dotted key adds only to tables that
dotted keys made. -/
def definePath (origin : Origin) (path : List String) (key : String) (v : Value) (t : Entries) :
    Except Fault Entries :=
  atPath .dotted (fun o t =>
    if !path.isEmpty && o != .dotted then .error (.redefined key) else define key v t)
    origin path t

end Entries

/-- A key with the way to it, and its value. -/
structure Pair where
  path : List String
  key : String
  value : Value
  deriving Inhabited

/-- The entries with pairs added in order. -/
def Entries.addPairs (origin : Origin) (pairs : List Pair) (t : Entries) : Except Fault Entries :=
  pairs.foldlM (fun t p => Entries.definePath origin p.path p.key p.value t) t

/-- What a header opens: a table, or one more of several tables. -/
structure Header where
  several : Bool
  path : List String
  key : String

/-- The pairs under a header; the first ones of a text have none. -/
structure Section where
  header : Option Header
  pairs : List Pair

/-- Adds a section to the document read so far. -/
def Entries.addSection (t : Entries) (s : Section) : Except Fault Entries :=
  match s.header with
  | none => t.addPairs .header s.pairs
  | some h =>
    Entries.atPath .implied (fun _ t =>
      if h.several then
        match t.lookup h.key with
        | none => do return t.put h.key (.tables [← Entries.addPairs .header s.pairs []])
        | some (.tables items) => do
          return t.put h.key (.tables (items ++ [← Entries.addPairs .header s.pairs []]))
        | some _ => .error (.redefined h.key)
      else
        match t.lookup h.key with
        | none => do return t.put h.key (.table .header (← Entries.addPairs .header s.pairs []))
        -- A table that was only named in longer headers may still get a header of its own.
        | some (.table .implied sub) => do
          return t.put h.key (.table .header (← Entries.addPairs .header s.pairs sub))
        | some _ => .error (.redefined h.key))
      .header h.path t

/-! ### As JSON -/

mutual

/-- The value for a reader of JSON shapes. A float or a date becomes an
object that no shape takes. -/
def Value.toJson : Value → Json
  | .text s => .string s
  | .integer n => Json.ofInt n
  | .flag b => .bool b
  | .special spelling => .object [("$special", .string spelling)]
  | .list items => .array (itemsToJson items)
  | .tables items => .array (tablesToJson items)
  | .table _ entries => Json.ofMembers (entriesToJson entries)

/-- The items of a list. -/
def itemsToJson : List Value → List Json
  | [] => []
  | v :: rest => v.toJson :: itemsToJson rest

/-- The tables under one key. -/
def tablesToJson : List (List (String × Value)) → List Json
  | [] => []
  | t :: rest => Json.ofMembers (entriesToJson t) :: tablesToJson rest

/-- The entries of a table. -/
def entriesToJson : List (String × Value) → List (String × Json)
  | [] => []
  | (k, v) :: rest => (k, v.toJson) :: entriesToJson rest

end

end Overrides.Toml
