import Overrides.Json.Record
import Overrides.Text.Blank

/-!
# `Overrides.Context`: what a request says about its client

A context has at most one value in each of three dimensions. In a
normalised context every value is trimmed and none is empty;
normalising twice is normalising once.
-/

set_option autoImplicit false

namespace Overrides

open Overrides.Text

/-- A property of the client that a rule can filter on. -/
inductive Dimension where
  | appVersion
  | featureKey
  | networkState
  deriving DecidableEq, Repr, Inhabited

namespace Dimension

/-- The dimensions in order. -/
def all : List Dimension := [.appVersion, .featureKey, .networkState]

/-- The name on the wire. -/
def name : Dimension → String
  | .appVersion => "app_version"
  | .featureKey => "feature_key"
  | .networkState => "network_state"

/-- The dimension of this exact name. -/
def ofName? (name : String) : Option Dimension := all.find? (·.name == name)

/-- The dimension as a value. -/
def toJson (d : Dimension) : Json := .string d.name

/-- Reads a dimension by its exact name. -/
def ofJson : Json → Except Json.Mismatch Dimension :=
  Json.asChoice .json (all.map fun d => (d.name, d))

end Dimension

/-- The values a client supplied. -/
structure Context where
  appVersion : Option String
  featureKey : Option String
  networkState : Option String
  deriving DecidableEq, Repr, Inhabited

namespace Context

/-- The value in a dimension. -/
def value (c : Context) : Dimension → Option String
  | .appVersion => c.appVersion
  | .featureKey => c.featureKey
  | .networkState => c.networkState

/-- The context with these values. -/
def ofValues (v : Dimension → Option String) : Context :=
  ⟨v .appVersion, v .featureKey, v .networkState⟩

/-- Trims every value; a blank value counts as absent. -/
def normalized (c : Context) : Context := ofValues fun d => (c.value d).bind nonBlank?

/-- The normalised context of raw values. -/
def ofRaw (appVersion featureKey networkState : Option String) : Context :=
  normalized ⟨appVersion, featureKey, networkState⟩

/-- The context as a value, absent values as `null`. -/
def toJson (c : Context) : Json :=
  .object (Dimension.all.map fun d => (d.name, Json.ofOption .string (c.value d)))

/-- Reads a context as it stands, without normalising it. -/
def ofJson (v : Json) : Except Json.Mismatch Context :=
  Json.foldRecord .json
    ⟨"a request context", Dimension.all.map Dimension.name, false, false⟩
    (fun c name v => do
      let text ← Json.asOptional Json.asText v
      return ofValues fun d => if d.name = name then text else c.value d)
    ⟨none, none, none⟩ v

/-- A context made of values has these values. -/
theorem value_ofValues (v : Dimension → Option String) (d : Dimension) :
    (ofValues v).value d = v d := by
  cases d <;> rfl

end Context

end Overrides
