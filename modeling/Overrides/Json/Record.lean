import Overrides.Json.Fault

/-!
# `Overrides.Json.Record`: shapes read from values

A record is written as an object, or as the list of its fields in
declaration order. Reading goes through what is present in the order
in which it stands: the members of an object by name, the items of a
list by position. The first item of the wrong shape decides the
mismatch, and only then do missing fields count. A member that is no
field is passed over, or refused where the record is closed.
-/

set_option autoImplicit false

namespace Overrides.Json

open Overrides.Number

/-- What differs between the encodings that values are read from. -/
structure Encoding where
  /-- The content that stands for none, in a choice written as an object. -/
  isUnit : Json → Bool
  /-- A list for a record may go on after the last field. -/
  allowsExcess : Bool

/-- JSON: `null` is no content, and excess items are refused. -/
def Encoding.json : Encoding :=
  ⟨fun v => match v with
    | .null => true
    | _ => false, false⟩

/-- TOML: an empty list or table is no content, and excess items are
passed over. -/
def Encoding.toml : Encoding :=
  ⟨fun v => match v with
    | .array [] | .object [] => true
    | _ => false, true⟩

/-- What is read of a record besides its fields. -/
structure RecordShape where
  /-- How messages name the record. -/
  title : String
  /-- The fields in declaration order. -/
  fields : List String
  /-- Members that are no field are refused. -/
  closed : Bool
  /-- A list may leave out fields at its end. -/
  mayEndEarly : Bool

/-- Reads the items of a list into the fields of the same position. -/
def foldItems {σ : Type} (e : Encoding) (shape : RecordShape)
    (put : σ → String → Json → Except Mismatch σ)
    (count : Nat) : List String → List Json → σ → Except Mismatch σ
  | [], [], s => .ok s
  | [], _ :: _, s =>
    if e.allowsExcess then .ok s else .error (.invalidLength count "fewer elements in array")
  | _ :: _, [], s =>
    if shape.mayEndEarly then .ok s else .error (.invalidLength count shape.title)
  | f :: fields, v :: items, s =>
    match put s f v with
    | .ok s => foldItems e shape put count fields items s
    | .error cause => .error cause

/-- Reads what is present of a record, in the order in which it stands. -/
def foldRecord {σ : Type} (e : Encoding) (shape : RecordShape)
    (put : σ → String → Json → Except Mismatch σ)
    (s : σ) : Json → Except Mismatch σ
  | .object members =>
    members.foldlM (fun s m =>
      if shape.fields.contains m.1 then put s m.1 m.2
      else if shape.closed then .error (.unknownField m.1 shape.fields)
      else .ok s) s
  | .array items => foldItems e shape put items.length shape.fields items s
  | v => .error (.invalidType (found v) shape.title)

/-- A field that has to be there. -/
def required {α : Type} (name : String) : Option α → Except Mismatch α
  | some a => .ok a
  | none => .error (.missingField name)

/-- Reads a text. -/
def asText : Json → Except Mismatch String
  | .string s => .ok s
  | v => .error (.invalidType (found v) "a string")

/-- Reads a truth value. -/
def asFlag : Json → Except Mismatch Bool
  | .bool b => .ok b
  | v => .error (.invalidType (found v) "a boolean")

/-- Reads a natural number of so many bits. -/
def asNatural (bits : Nat) : Json → Except Mismatch Nat
  | .number (.integer n) =>
    if 0 ≤ n ∧ n < (twoTo bits : Int) then .ok n.toNat
    else .error (.invalidValue (found (ofInt n)) ("u" ++ Nat.repr bits))
  | v => .error (.invalidType (found v) ("u" ++ Nat.repr bits))

/-- Reads a number of 32 bits. -/
def asUInt32 (v : Json) : Except Mismatch UInt32 := UInt32.ofNat <$> asNatural 32 v

/-- Reads a number of 64 bits. -/
def asUInt64 (v : Json) : Except Mismatch UInt64 := UInt64.ofNat <$> asNatural 64 v

/-- Reads `null` as nothing, and anything else as `read` does. -/
def asOptional {α : Type} (read : Json → Except Mismatch α) : Json → Except Mismatch (Option α)
  | .null => .ok none
  | v => some <$> read v

/-- Reads the items of a list. -/
def asList {α : Type} (read : Json → Except Mismatch α) : Json → Except Mismatch (List α)
  | .array items => items.mapM read
  | v => .error (.invalidType (found v) "a sequence")

/-- Reads one of the named choices: its name, or an object with no
content under its name. -/
def asChoice {α : Type} (e : Encoding) (choices : List (String × α)) : Json → Except Mismatch α
  | .string s => pick s
  | .object [(s, v)] => do
    let a ← pick s
    if e.isUnit v then .ok a else .error (.invalidType (found v) "unit")
  | .object _ => .error (.invalidValue "map" "map with a single key")
  | v => .error (.invalidType (found v) "string or map")
where
  /-- The choice of this name. -/
  pick (name : String) : Except Mismatch α :=
    match choices.lookup name with
    | some a => .ok a
    | none => .error (.unknownVariant name (choices.map (·.1)))

end Overrides.Json
