import Mathlib.Data.List.Nodup
import Overrides.Proofs.Field
import Overrides.Rule.Action

/-!
# `Overrides.Proofs.Rule.FieldLists`: the lists of fields of an action agree

`Overrides.Rule.Action` spells the fields of a scope out in four places: in
the names that it allows, where it reads values, in the names of what is set,
and in the wire form. A swapped or a forgotten line in one of them would show
for some values only. Here each list is compared with one that none of them
uses, `Field.ofScope`, so they agree with each other, in every scope and for
every choice of values.

* `Action.mem_declared_iff`: the names that are allowed.
* `Action.value_ofMembers`: what is read, field by field.
* `Action.fieldNames_eq`: the names of what is set.
* `Action.members_eq`: the members of the wire form.
-/

set_option autoImplicit false

namespace Overrides

namespace Action

variable {scope : Scope} {a : Action} {f : Field}

/-! ### The names that are allowed -/

/-- The names that an action of a scope declares are the names of the fields of
that scope, in the order in which the fields are listed. -/
theorem declared_eq (scope : Scope) : declared scope = (Field.ofScope scope).map Field.name := by
  cases scope <;> rfl

/-- A name is allowed in a scope when a field of the scope has it. So the list
of allowed names is complete and has no names beyond. -/
theorem mem_declared_iff {name : String} :
    name ∈ declared scope ↔ ∃ f : Field, f.scope = scope ∧ f.name = name := by
  rw [declared_eq, List.mem_map]
  simp only [Field.mem_ofScope]

/-- No member is unknown when every one is named for a field of the scope. What
the values are does not matter for this. -/
theorem unknownMember?_eq_none_iff {members : List (String × Json)} :
    unknownMember? scope members = none ↔
      ∀ m ∈ members, ∃ f : Field, f.scope = scope ∧ f.name = m.1 := by
  rw [unknownMember?, Option.map_eq_none_iff, List.find?_eq_none]
  simp only [Bool.not_eq_true', Bool.not_eq_false, List.contains_iff_mem, mem_declared_iff]

/-! ### What is read -/

/-- Actions of one scope that set every field alike are the same. There is
nothing in an action but its scope and its values. -/
theorem ext_value {b : Action} (hscope : a.scope = b.scope) (hvalue : ∀ f, a.value f = b.value f) :
    a = b := by
  obtain ⟨scope, values, howned⟩ := a
  obtain ⟨scope', values', howned'⟩ := b
  have hvalues : values = values' := Table.ext_get hvalue
  cases hscope
  cases hvalues
  rfl

/-- Each field of the scope is read under its own name and by its own kind of
coercion, and lands in its own slot. Fields of other scopes are not set. -/
theorem value_ofMembers (member : String → Option Json) (f : Field) :
    (ofMembers scope member).value f
      = if f.scope = scope then (member f.name).bind f.kind.coerce else none := by
  cases scope <;> cases f <;> rfl

/-- Reading an object makes an action of its members, unless one is unknown. -/
theorem ofJson_object (scope : Scope) (members : List (String × Json)) :
    ofJson scope (some (.object members))
      = match unknownMember? scope members with
        | some name => .error (.unknownField name)
        | none => .ok (ofMembers scope fun name => members.lookup name) :=
  rfl

/-- Whatever an action was read from, it was made of the members there. Nothing
and `null` have none. -/
theorem eq_ofMembers_of_ofJson {v : Option Json} (h : ofJson scope v = .ok a) :
    a = ofMembers scope fun name => v.bind (Json.member? name) := by
  match v, h with
  | none, h | some .null, h => exact (Except.ok.inj h).symm
  | some (.object members), h =>
    rw [ofJson_object] at h
    split at h
    · exact nomatch h
    · exact (Except.ok.inj h).symm
  | some (.bool _), h | some (.number _), h | some (.string _), h | some (.array _), h =>
    exact nomatch h

/-! ### The names of what is set -/

/-- What an action sets belongs to its scope. -/
theorem scope_of_value (h : (a.value f).isSome = true) : a.scope = f.scope := by
  refine Decidable.byContradiction fun hne => ?_
  rw [value, a.owned f (Ne.symm hne)] at h
  cases h

/-- All fields that an action sets are of its scope. -/
theorem fields_eq (a : Action) :
    a.fields = (Field.ofScope a.scope).filter fun f => (a.value f).isSome :=
  Field.filter_all_eq fun _ h => (scope_of_value h).symm

/-- The marks, which are spelled out scope by scope, say of each field of the
scope whether it is set. Nothing is marked twice and no field of the scope is
left out. -/
theorem marks_eq (a : Action) :
    a.marks = (Field.ofScope a.scope).map fun f => (f.name, (a.value f).isSome) := by
  obtain ⟨scope, values, howned⟩ := a
  cases scope <;> rfl

/-- The names that an action gives for what it sets are the names of the
fields that have a value, in declaration order. -/
theorem fieldNames_eq (a : Action) : a.fieldNames = a.fields.map Field.name := by
  rw [fieldNames, marks_eq, fields_eq, List.filter_map, List.map_map]
  rfl

/-- An action sets a field once. -/
theorem nodup_fields (a : Action) : a.fields.Nodup :=
  Field.nodup_all.filter _

/-- No name is given twice. -/
theorem nodup_fieldNames (a : Action) : a.fieldNames.Nodup := by
  rw [fieldNames_eq]
  exact a.nodup_fields.map fun f g => Field.name_injective

/-! ### The wire form -/

/-- The member that an action writes for a field, if it sets it. -/
def member (a : Action) (f : Field) : Option (String × Json) :=
  (a.value f).map fun v => (f.name, f.kind.valueToJson v)

/-- The slots of the wire form, which are spelled out as well, hold each field
of the scope under its own name with the value in its own form. -/
theorem slots_eq (a : Action) :
    a.slots = (Field.ofScope a.scope).map fun f =>
      (f.name, (a.value f).map f.kind.valueToJson) := by
  obtain ⟨scope, values, howned⟩ := a
  cases scope <;> rfl

/-- The wire form has a member for each field that is set, in declaration order
until they are put in the order of their names. None is written for a field that
is not set. -/
theorem members_eq (a : Action) : a.members = (Field.ofScope a.scope).filterMap a.member := by
  rw [members, slots_eq, List.filterMap_map]
  refine List.filterMap_congr fun f _ => ?_
  rw [Function.comp_apply, Option.map_map]
  rfl

/-- What is written is what has a name in the list of what is set. The two lists
are spelled out apart from each other, in the same order. -/
theorem marks_eq_map_slots (a : Action) : a.marks = a.slots.map fun s => (s.1, s.2.isSome) := by
  rw [marks_eq, slots_eq, List.map_map]
  refine List.map_congr_left fun f _ => ?_
  rw [Function.comp_apply, Option.isSome_map]

/-- The members are named as the action names what it sets, in that order. So
the trace and the wire form of a rule cannot name different fields. -/
theorem map_fst_members (a : Action) : a.members.map Prod.fst = a.fieldNames := by
  rw [members, fieldNames, marks_eq_map_slots]
  induction a.slots with
  | nil => rfl
  | cons s slots ih =>
    obtain ⟨name, _ | v⟩ := s
    · exact ih
    · exact congrArg (name :: ·) ih

end Action

end Overrides
