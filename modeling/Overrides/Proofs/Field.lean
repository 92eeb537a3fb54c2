import Overrides.Field

/-!
# `Overrides.Proofs.Field`: fields and scopes by their names

Every field is listed once, and every scope lists its own fields. No two
fields have one name, and no two scopes.
-/

set_option autoImplicit false

namespace Overrides

namespace Field

/-- No field is left out of the list of all fields. -/
theorem mem_all (f : Field) : f ∈ all := by
  cases f <;> decide

/-- The fields of a scope are those that say so themselves. -/
theorem mem_ofScope {f : Field} {s : Scope} : f ∈ ofScope s ↔ f.scope = s := by
  rw [ofScope, List.mem_filter, decide_eq_true_eq]
  exact and_iff_right f.mem_all

/-- No field stands in the list twice. -/
theorem nodup_all : all.Nodup := by decide

/-- A scope lists each of its fields once. -/
theorem nodup_ofScope (s : Scope) : (ofScope s).Nodup := nodup_all.filter _

/-- Where a property is one of fields of a scope only, no other scope has to
be gone through. -/
theorem filter_all_eq {p : Field → Bool} {s : Scope} (h : ∀ f, p f = true → f.scope = s) :
    all.filter p = (ofScope s).filter p := by
  rw [ofScope, List.filter_filter]
  refine List.filter_congr fun f _ => ?_
  cases hp : p f with
  | false => rfl
  | true => rw [Bool.true_and, decide_eq_true (h f hp)]

/-- Safe mode is alone in its scope. -/
theorem ofScope_global : ofScope .global = [.safeMode] := by decide

/-- Under the name of a field that field is found, since no other field has the name. -/
theorem find?_all_name (f : Field) : all.find? (·.name == f.name) = some f := by
  cases f <;> decide

/-- Fields of one name are the same, also across scopes. So a name in a trace or in an
object says which field is meant. -/
theorem name_injective {f g : Field} (h : f.name = g.name) : f = g := by
  -- Both are what is found under their name.
  have hf := find?_all_name f
  rw [h, find?_all_name g] at hf
  exact (Option.some.inj hf).symm

end Field

/-- Scopes of one name are the same. -/
theorem Scope.name_injective {s t : Scope} (h : s.name = t.name) : s = t := by
  cases s <;> cases t <;> first | rfl | exact absurd h (by decide)

/-- A scope is found under its name. -/
theorem Scope.ofName?_name (s : Scope) : Scope.ofName? s.name = some s := by
  cases s <;> decide

/-- The scope that a text names is the one whose name it has, blanks around it
and ASCII case aside. -/
theorem Scope.parse?_eq_some_iff {raw : String} {s : Scope} :
    parse? raw = some s ↔ s.name = Text.lowerAscii (Text.trim raw) := by
  rw [parse?]
  generalize Text.lowerAscii (Text.trim raw) = name
  constructor
  · intro h
    simpa using List.find?_some h
  · rintro rfl
    exact s.ofName?_name

end Overrides
