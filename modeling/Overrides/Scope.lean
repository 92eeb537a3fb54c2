import Overrides.Json.Record
import Overrides.Text.Blank

/-!
# `Overrides.Scope`: the five groups of settings

Every rule writes into one scope, and a snapshot holds one object per
scope, in the order of `Scope.all`.
-/

set_option autoImplicit false

namespace Overrides

open Overrides.Text

/-- A group of settings. -/
inductive Scope where
  | global
  | media
  | network
  | ux
  | ai
  deriving DecidableEq, Repr, Inhabited

namespace Scope

/-- The scopes in the order of a snapshot. -/
def all : List Scope := [.global, .media, .network, .ux, .ai]

/-- The position in `all`. -/
def rank : Scope → Nat
  | .global => 0
  | .media => 1
  | .network => 2
  | .ux => 3
  | .ai => 4

/-- The name on the wire. -/
def name : Scope → String
  | .global => "global"
  | .media => "media"
  | .network => "network"
  | .ux => "ux"
  | .ai => "ai"

/-- The scope of this exact name. -/
def ofName? (name : String) : Option Scope := all.find? (·.name == name)

/-- The scope that an administrator's text names: blanks around it and
the case of ASCII letters do not count. -/
def parse? (raw : String) : Option Scope := ofName? (lowerAscii (trim raw))

/-- The scope as a value. -/
def toJson (s : Scope) : Json := .string s.name

/-- Reads a scope by its exact name. -/
def ofJson : Json → Except Json.Mismatch Scope :=
  Json.asChoice .json (all.map fun s => (s.name, s))

end Scope

end Overrides
