import Overrides.Rule.Fault

/-!
# `Overrides.Rule.Filter`: which requests a rule applies to

A filter lists accepted values for each dimension; a dimension
without values is not filtered. A context passes when, in every
filtered dimension, it supplies one of the accepted values. The
values are trimmed, not empty, and stand in order without repetition.
-/

set_option autoImplicit false

namespace Overrides

open Overrides.Text

/-- Puts a text into its place among ordered texts, once. -/
def insertOnce (s : String) : List String → List String
  | [] => [s]
  | t :: rest =>
    if s < t then s :: t :: rest else if s = t then t :: rest else t :: insertOnce s rest

/-- The accepted values of each dimension. -/
structure Filter where
  appVersion : List String
  featureKey : List String
  networkState : List String
  deriving DecidableEq, Repr, Inhabited

namespace Filter

/-- The filter that every context passes. -/
def any : Filter := ⟨[], [], []⟩

/-- The accepted values of a dimension; none when it is not filtered. -/
def values (f : Filter) : Dimension → List String
  | .appVersion => f.appVersion
  | .featureKey => f.featureKey
  | .networkState => f.networkState

/-- The filter with other values for one dimension. -/
def set (f : Filter) (d : Dimension) (vs : List String) : Filter :=
  match d with
  | .appVersion => { f with appVersion := vs }
  | .featureKey => { f with featureKey := vs }
  | .networkState => { f with networkState := vs }

/-- No dimension is filtered. -/
def isUnconditional (f : Filter) : Bool := Dimension.all.all fun d => (f.values d).isEmpty

/-- The context passes the filter. -/
def accepts (f : Filter) (c : Context) : Bool :=
  Dimension.all.all fun d =>
    (f.values d).isEmpty
      || match c.value d with
        | some v => (f.values d).contains v
        | none => false

/-! ### Reading -/

/-- Adds one listed value; a blank one adds nothing. -/
def addValue (d : Dimension) (vs : List String) : Json → Except FilterFault (List String)
  | .string s =>
    let t := trim s
    if maxFilterValueBytes < t.utf8ByteSize then .error (.valueTooLong d)
    else if t.toList.any isControl then .error (.controlCharacter d)
    else .ok (if t.isEmpty then vs else insertOnce t vs)
  | _ => .error (.notText d)

/-- The accepted values of a dimension: a list of texts, a single text,
or `null` for none. -/
def valuesOf (d : Dimension) : Json → Except FilterFault (List String)
  | .null => .ok []
  | .array items =>
    if maxFilterValues < items.length then .error (.tooMany d items.length)
    else items.foldlM (addValue d) []
  | v => addValue d [] v

/-- Reads the filter of a rule. Nothing and `null` filter nothing. -/
def ofJson : Option Json → Except FilterFault Filter
  | none | some .null => .ok any
  | some (.object members) =>
    members.foldlM (fun f m =>
      match Dimension.ofName? m.1 with
      | some d => do return f.set d (← valuesOf d m.2)
      | none => .error (.unknownDimension m.1)) any
  | some _ => .error .notObject

/-- The filter on the wire: the filtered dimensions. -/
def toJson (f : Filter) : Json :=
  .object (Dimension.all.filterMap fun d =>
    if (f.values d).isEmpty then none else some (d.name, Json.ofTexts (f.values d)))

/-- Setting the values of one dimension leaves the others. -/
theorem values_set (f : Filter) (d e : Dimension) (vs : List String) :
    (f.set d vs).values e = if d = e then vs else f.values e := by
  cases d <;> cases e <;> rfl

end Filter

end Overrides
