import Overrides.Number.Literal

/-!
# `Overrides.Json.Value`: JSON values

An integer is kept exact, every other number is a finite double. The
members of an object stand in the order of their names, each name
once; `Json.ofMembers` puts any list of members into that form, and of
a repeated name the last member counts. Names are ordered by code
point, which is the order of their UTF-8 bytes.
-/

set_option autoImplicit false

namespace Overrides

open Overrides.Number

/-- A JSON number. -/
inductive Json.Number where
  | integer (value : Int)
  | double (value : Binary64)
  deriving DecidableEq, Repr

/-- A JSON value. -/
inductive Json where
  | null
  | bool (value : Bool)
  | number (value : Json.Number)
  | string (value : String)
  | array (items : List Json)
  | object (members : List (String × Json))
  deriving Inhabited, Repr

namespace Json

/-- Puts a member into its place among members in name order; a member
of the same name gives way. -/
def insertMember {α : Type} (name : String) (value : α) :
    List (String × α) → List (String × α)
  | [] => [(name, value)]
  | (n, v) :: rest =>
    if name < n then (name, value) :: (n, v) :: rest
    else if name = n then (name, value) :: rest
    else (n, v) :: insertMember name value rest

/-- The members in name order, the last of each name. -/
def sortMembers {α : Type} (members : List (String × α)) : List (String × α) :=
  members.foldl (fun sorted m => insertMember m.1 m.2 sorted) []

/-- The object with these members. -/
def ofMembers (members : List (String × Json)) : Json := .object (sortMembers members)

/-- The integer as a value. -/
def ofInt (n : Int) : Json := .number (.integer n)

/-- The natural number as a value. -/
def ofNat (n : Nat) : Json := ofInt n

/-- A list of texts as a value. -/
def ofTexts (texts : List String) : Json := .array (texts.map .string)

/-- The value, or `null` where there is none. -/
def ofOption {α : Type} (write : α → Json) : Option α → Json
  | some a => write a
  | none => .null

/-- The member of this name. -/
def member? (name : String) : Json → Option Json
  | .object members => members.lookup name
  | _ => none

end Json

end Overrides
