import Overrides.Proofs.Field
import Overrides.Proofs.Instant.Written
import Overrides.Proofs.Json.Members
import Overrides.Proofs.Json.Record
import Overrides.Proofs.Rule.Content
import Overrides.Rule

/-!
# `Overrides.Proofs.Rule.Wire`: the wire form of a rule is read back

A rule is read like a draft, and so validated again. What validation
establishes is what it takes to pass it once more: trimmed texts are
trimmed, ordered values are in order, and a limit in range is not cut.

* `Filter.ofJson_toJson`, `Action.ofJson_toJson`: the two parts with a
  wire form of their own.
* `Rule.ofJson_of_toJson?`: the rule.
-/

set_option autoImplicit false

namespace Overrides

open Overrides.Text Overrides.Number

/-! ### Filters -/

/-- An accepted value that comes after all others is put at the end. It is
trimmed and short and printable already, so reading does not change it. -/
theorem addValue_last {d : Dimension} {s : String} {vs : List String} (hs : AcceptedValue s)
    (hlast : ∀ t ∈ vs, t < s) : Filter.addValue d vs (.string s) = .ok (vs ++ [s]) := by
  have hinsert : insertOnce s vs = vs ++ [s] := by
    induction vs with
    | nil => rfl
    | cons v vs ih =>
      have hv := hlast v (List.mem_cons_self ..)
      rw [insertOnce, if_neg (String.lt_asymm hv), if_neg (String.ne_of_lt hv).symm,
        ih fun t ht => hlast t (List.mem_cons_of_mem _ ht)]
      rfl
  rw [Filter.addValue, (trim_eq_self_iff s).mpr hs.trimmed]
  simp only [Nat.not_lt_of_le hs.short, hs.printable, hs.nonempty, if_false, Bool.false_eq_true,
    hinsert]

/-- Valid values are read back in their order. They ascend, so each is inserted
behind those that were read before it. -/
theorem valuesOf_ofTexts {d : Dimension} {vs : List String} (h : ValidValues vs) :
    Filter.valuesOf d (Json.ofTexts vs) = .ok vs := by
  -- What is done comes before all that is left, so each value goes to the end.
  have hfold : ∀ (rest done : List String), (done ++ rest).Pairwise (· < ·) →
      (∀ s ∈ rest, AcceptedValue s) →
      (rest.map Json.string).foldlM (Filter.addValue d) done = .ok (done ++ rest) := by
    intro rest
    induction rest with
    | nil =>
      intro done _ _
      rw [List.append_nil]
      rfl
    | cons s rest ih =>
      intro done hordered haccepted
      have hlast : ∀ t ∈ done, t < s := fun t ht =>
        (List.pairwise_append.mp hordered).2.2 t ht s (List.mem_cons_self ..)
      rw [List.map_cons, List.foldlM_cons,
        addValue_last (haccepted s (List.mem_cons_self ..)) hlast]
      have hnext := ih (done ++ [s]) (by simpa using hordered) fun t ht =>
        haccepted t (List.mem_cons_of_mem _ ht)
      rw [List.append_assoc] at hnext
      exact hnext
  rw [Json.ofTexts, Filter.valuesOf, List.length_map, if_neg (Nat.not_lt_of_le h.few)]
  exact hfold vs [] h.ordered h.accepted

/-- A filter is its values in the three dimensions. -/
theorem Filter.ext_values {f g : Filter} (h : ∀ d, f.values d = g.values d) : f = g := by
  obtain ⟨a, b, c⟩ := f
  obtain ⟨a', b', c'⟩ := g
  have ha : a = a' := h .appVersion
  have hb : b = b' := h .featureKey
  have hc : c = c' := h .networkState
  rw [ha, hb, hc]

/-- The filter that asks for nothing has no values in any dimension. -/
theorem Filter.values_any (d : Dimension) : Filter.any.values d = [] := by
  cases d <;> rfl

/-- A filter without values is the one that every context passes. -/
theorem Filter.eq_any_of_isUnconditional {f : Filter} (h : f.isUnconditional = true) :
    f = Filter.any := by
  apply Filter.ext_values
  intro d
  have hd : d ∈ Dimension.all := by cases d <;> decide
  have hempty := List.all_eq_true.mp h d hd
  rw [List.isEmpty_iff.mp hempty, Filter.values_any]

/-- A dimension is found under its own name, so no two of them share one. -/
theorem Dimension.ofName?_name (d : Dimension) : Dimension.ofName? d.name = some d := by
  cases d <;> decide

/-- Reads one member of a filter. -/
def Filter.readMember (f : Filter) (m : String × Json) : Except FilterFault Filter :=
  match Dimension.ofName? m.1 with
  | some d => do return f.set d (← valuesOf d m.2)
  | none => .error (.unknownDimension m.1)

/-- A filter is read from an object one member after the other, each of them
putting the values of its dimension. -/
theorem Filter.ofJson_object (members : List (String × Json)) :
    Filter.ofJson (some (.object members)) = members.foldlM readMember any := rfl

/-- The wire form of one dimension, if it is filtered. -/
def Filter.dimensionMember (f : Filter) (d : Dimension) : Option (String × Json) :=
  if (f.values d).isEmpty then none else some (d.name, Json.ofTexts (f.values d))

/-- The wire form of a filter leaves out the dimensions without values. -/
theorem Filter.toJson_eq (f : Filter) :
    f.toJson = .object (Dimension.all.filterMap f.dimensionMember) := rfl

/-- Reading the wire form of some dimensions puts their values. A dimension
without values is not written, and the fold on the right leaves it alone as
well. -/
theorem Filter.foldlM_readMember {f : Filter} (h : f.Valid) (ds : List Dimension) (g : Filter) :
    (ds.filterMap f.dimensionMember).foldlM readMember g
      = .ok (ds.foldl (fun g d => if (f.values d).isEmpty then g else g.set d (f.values d)) g) := by
  induction ds generalizing g with
  | nil => rfl
  | cons d ds ih =>
    cases hempty : (f.values d).isEmpty with
    | true =>
      have hmember : f.dimensionMember d = none := if_pos hempty
      -- Nothing is written for the dimension and nothing is put.
      rw [List.filterMap_cons_none hmember, ih, List.foldl_cons, hempty, if_pos rfl]
    | false =>
      -- The member is written, read again, and puts the values it was written from.
      have hmember : f.dimensionMember d = some (d.name, Json.ofTexts (f.values d)) :=
        if_neg (by rw [hempty]; decide)
      have hread : g.readMember (d.name, Json.ofTexts (f.values d))
          = .ok (g.set d (f.values d)) := by
        rw [readMember, Dimension.ofName?_name]
        simp only [valuesOf_ofTexts (h d)]
        rfl
      rw [List.filterMap_cons_some hmember, List.foldlM_cons, hread, List.foldl_cons, hempty,
        if_neg (by decide), ← ih]
      rfl

/-- A valid filter is read back from its wire form. Dimensions without values
are left out there, and the reader starts from the filter that has none. -/
theorem Filter.ofJson_toJson {f : Filter} (h : f.Valid) :
    Filter.ofJson (some f.toJson) = .ok f := by
  rw [Filter.toJson_eq, Filter.ofJson_object, foldlM_readMember h]
  obtain ⟨a, b, c⟩ := f
  -- A dimension has a member when its list is not empty.
  cases a <;> cases b <;> cases c <;> rfl

/-! ### Actions -/

/-- A valid value is read back. The coercion is lenient, but a value in its own
form is taken as it is. -/
theorem coerce_valueToJson {k : Kind} {v : k.Value} (h : k.InRange v) :
    k.coerce (k.valueToJson v) = some v := by
  cases k with
  | flag => rfl
  | quality =>
    show some (ImageQuality.parseLenient v.name) = some v
    cases v <;> decide
  | limit ceiling =>
    obtain ⟨hpos, hle⟩ : 0 < UInt32.toNat v ∧ UInt32.toNat v ≤ ceiling.toNat := h
    have hsize := UInt32.toNat_lt v
    have hinteger : coerceInteger (Json.ofNat (UInt32.toNat v)) = some (UInt32.toNat v : Int) := by
      -- A number of 32 bits is far below the cap of the coercion.
      show some (min ((UInt32.toNat v : Nat) : Int) (maxInt64 : Int)) = _
      rw [maxInt64]
      congr 1
      omega
    show coerceLimit ceiling (Json.ofNat (UInt32.toNat v)) = some v
    rw [coerceLimit, hinteger]
    simp only
    rw [if_neg (by omega), if_pos (by omega), Int.toNat_natCast, UInt32.ofNat_toNat]

/-- The wire form of an action is an object whose members are those of its
fields, sorted by name. -/
theorem Action.toJson_eq (a : Action) :
    a.toJson = .object (Json.sortMembers ((Field.ofScope a.scope).filterMap a.member)) :=
  congrArg Json.ofMembers a.members_eq

/-- What stands under the name of a field among the members of some
fields. -/
theorem Action.lookup_members (a : Action) (fields : List Field) (f : Field) :
    (fields.filterMap a.member).lookup f.name
      = if f ∈ fields then (a.value f).map f.kind.valueToJson else none := by
  induction fields with
  | nil => rfl
  | cons g fields ih =>
    cases hg : a.value g with
    | none =>
      -- A field that is not set has no member.
      have hmember : a.member g = none := by rw [member, hg]; rfl
      rw [List.filterMap_cons_none hmember, ih]
      by_cases hfg : f = g
      · rw [hfg, hg, if_pos (List.mem_cons_self ..)]
        split <;> rfl
      · simp only [List.mem_cons, hfg, false_or]
    | some v =>
      have hmember : a.member g = some (g.name, g.kind.valueToJson v) := by rw [member, hg]; rfl
      rw [List.filterMap_cons_some hmember, Json.lookup_cons_eq_ite, ih]
      by_cases hfg : f = g
      · subst hfg
        rw [if_pos rfl, if_pos (List.mem_cons_self ..), hg]
        rfl
      · -- Another field has another name, so its member is passed over.
        rw [if_neg fun hname => hfg (Field.name_injective hname)]
        simp only [List.mem_cons, hfg, false_or]

/-- What stands under the name of a field in the wire form of an action. -/
theorem Action.lookup_toJson (a : Action) {f : Field} (h : f.scope = a.scope) :
    (Json.sortMembers ((Field.ofScope a.scope).filterMap a.member)).lookup f.name
      = (a.value f).map f.kind.valueToJson := by
  have hmem : f ∈ (Field.ofScope a.scope).reverse :=
    List.mem_reverse.mpr (Field.mem_ofScope.mpr h)
  rw [Json.lookup_sortMembers, ← List.filterMap_reverse, lookup_members, if_pos hmem]

/-- Every member of the wire form of an action is named after a field of
its scope. -/
theorem Action.exists_field_of_mem {a : Action} {m : String × Json}
    (h : m ∈ Json.sortMembers ((Field.ofScope a.scope).filterMap a.member)) :
    ∃ f v, f.scope = a.scope ∧ a.value f = some v ∧ m = (f.name, f.kind.valueToJson v) := by
  obtain ⟨f, hf, hm⟩ := List.mem_filterMap.mp (Json.mem_of_mem_sortMembers h)
  obtain ⟨v, hv, rfl⟩ := Option.map_eq_some_iff.mp hm
  exact ⟨f, v, Field.mem_ofScope.mp hf, hv, rfl⟩

/-- A valid action is read back from its wire form. Fields that are not set have
no member there, and those that are set are in range, so the coercion changes
none of them. -/
theorem Action.ofJson_toJson {a : Action} (h : a.Valid) :
    Action.ofJson a.scope (some a.toJson) = .ok a := by
  -- Every member is named for a field of the scope, so the reader refuses none.
  have hknown : unknownMember? a.scope
      (Json.sortMembers ((Field.ofScope a.scope).filterMap a.member)) = none := by
    refine unknownMember?_eq_none_iff.mpr fun m hm => ?_
    obtain ⟨f, v, hscope, -, rfl⟩ := exists_field_of_mem hm
    exact ⟨f, hscope, rfl⟩
  rw [Action.toJson_eq, ofJson_object, hknown]
  refine congrArg Except.ok (Action.ext_value rfl fun f => ?_)
  rw [value_ofMembers]
  split
  · rename_i hscope
    rw [lookup_toJson a hscope]
    cases hv : a.value f with
    | none => rfl
    | some v => exact coerce_valueToJson (h f v hv)
  · -- Fields of other scopes are not read, and the action does not set them.
    rename_i hscope
    exact (a.owned f hscope).symm

/-! ### Drafts -/

/-- A scope is parsed from its own name. -/
theorem Scope.parse?_name (s : Scope) : Scope.parse? s.name = some s := by
  cases s <;> decide

/-- A priority is read back from the number it is written as. Every word is
within the limit, so none of the checks on reading stops it. -/
theorem priorityOf_ofNat (n : UInt32) :
    Draft.priorityOf (some (Json.ofNat n.toNat)) = .ok n := by
  have hsize := n.toNat_lt
  have hinteger : Draft.priorityInteger (Json.ofNat n.toNat) = .ok (n.toNat : Int) := by
    show (if (n.toNat : Int) ≤ maxInt64 then _ else _ : Except PriorityFault Int) = _
    rw [maxInt64, if_pos (by omega)]
  show (Draft.priorityInteger (Json.ofNat n.toNat) >>= fun n => _) = _
  rw [hinteger]
  show (if (n.toNat : Int) < 0 then Except.error (PriorityFault.negative n.toNat)
    else if (maxPriority : Int) < n.toNat then .error (.tooLarge n.toNat)
    else .ok (UInt32.ofNat (n.toNat : Int).toNat)) = _
  rw [maxPriority, if_neg (by omega), if_neg (by omega), Int.toNat_natCast, UInt32.ofNat_toNat]

/-- The filter of a rule on the wire. -/
def Content.filterJson (c : Content) : Json :=
  if c.filter.isUnconditional then .null else c.filter.toJson

/-- The draft that the wire form of a rule holds. -/
def Content.toDraft (c : Content) : Draft where
  ruleKey := c.ruleKey.text
  scope := c.scope.name
  enabled := c.enabled
  priority := Draft.part (Json.ofNat c.priority.toNat)
  filter := Draft.part c.filterJson
  action := Draft.part c.action.toJson

/-- Valid content passes validation again. So a rule can be stored as a draft
and be validated whenever it is read. -/
theorem Content.validate_toDraft {c : Content} (h : c.Valid) : c.toDraft.validate = .ok c := by
  rw [Draft.validate_eq_ok_iff]
  refine ⟨h.key.parse_text, Scope.parse?_name _, priorityOf_ofNat _, ?_,
    Action.ofJson_toJson h.action, rfl⟩
  show Filter.ofJson (Draft.part c.filterJson) = _
  rw [filterJson]
  split
  · rename_i huncond
    rw [Filter.eq_any_of_isUnconditional huncond]
    rfl
  · exact Filter.ofJson_toJson h.filter

/-! ### Rules -/

namespace Rule

/-- The members of the wire form that make up the draft. -/
def draftMembers (c : Content) : List (String × Json) :=
  [("action", c.action.toJson), ("enabled", .bool c.enabled), ("match", c.filterJson),
    ("priority", Json.ofNat c.priority.toNat), ("rule_key", .string c.ruleKey.text),
    ("scope", c.scope.toJson)]

/-- The members of the wire form, with the values of the two instants. -/
def members (r : Rule) (createdAt updatedAt : Json) : List (String × Json) :=
  [("action", r.content.action.toJson), ("created_at", createdAt),
    ("created_by", Json.ofOption .string r.createdBy), ("enabled", .bool r.content.enabled),
    ("match", r.content.filterJson), ("priority", Json.ofNat r.content.priority.toNat),
    ("revision", Json.ofNat r.revision.toNat), ("rule_key", .string r.content.ruleKey.text),
    ("scope", r.content.scope.toJson), ("updated_at", updatedAt),
    ("updated_by", Json.ofOption .string r.updatedBy)]

/-- A rule can be written when both of its instants can, and its wire form then
has the same members in the same order for all rules. -/
theorem toJson?_eq_some_iff {r : Rule} {v : Json} :
    r.toJson? = some v ↔ ∃ createdAt updatedAt, r.createdAt.toJson? = some createdAt ∧
      r.updatedAt.toJson? = some updatedAt ∧ v = .object (r.members createdAt updatedAt) := by
  rw [toJson?]
  cases r.createdAt.toJson? with
  | none =>
    constructor
    · exact fun h => nomatch h
    · rintro ⟨_, _, h, -⟩
      exact nomatch h
  | some createdAt =>
    cases r.updatedAt.toJson? with
    | none =>
      constructor
      · exact fun h => nomatch h
      · rintro ⟨_, _, -, h, -⟩
        exact nomatch h
    | some updatedAt =>
      constructor
      · intro h
        exact ⟨createdAt, updatedAt, rfl, rfl, (Option.some.inj h).symm⟩
      · rintro ⟨_, _, ⟨⟩, ⟨⟩, rfl⟩
        rfl

/-- The draft is found among its members. -/
theorem draftOf_draftMembers (c : Content) : draftOf (draftMembers c) = .ok c.toDraft := by
  simp [draftMembers, draftOf, Draft.shape, Draft.put, Draft.empty, Json.asText, Scope.toJson,
    coerceFlag]
  rfl

/-- Reading the members of the wire form one after the other. -/
theorem foldlM_put_members {r : Rule} {createdAt updatedAt : Json}
    (hcreated : Instant.ofJson createdAt = .ok r.createdAt)
    (hupdated : Instant.ofJson updatedAt = .ok r.updatedAt) :
    (r.members createdAt updatedAt).foldlM (fun p m => p.put m.1 m.2) Parts.empty
      = .ok ⟨some r.revision, some r.createdAt, some r.updatedAt, some r.createdBy,
          some r.updatedBy, (draftMembers r.content).reverse⟩ := by
  simp [members, draftMembers, Parts.put, Parts.empty, once, hcreated, hupdated, asUInt64_ofNat,
    asOptional_ofOption]

/-- What was read of a rule makes up the rule. -/
theorem finish_members {r : Rule} (h : r.content.Valid) :
    (Parts.mk (some r.revision) (some r.createdAt) (some r.updatedAt) (some r.createdBy)
      (some r.updatedBy) (draftMembers r.content).reverse).finish = .ok r := by
  rw [Parts.finish, List.reverse_reverse, draftOf_draftMembers]
  simp only [Json.required, ok_bind, Content.validate_toDraft h]
  rfl

/-- A rule with valid content is read back from its wire form. -/
theorem ofJson_of_toJson? {r : Rule} {v : Json} (h : r.content.Valid) (hv : r.toJson? = some v) :
    ofJson v = .ok r := by
  obtain ⟨createdAt, updatedAt, hcreated, hupdated, rfl⟩ := toJson?_eq_some_iff.mp hv
  have hparts := foldlM_put_members (Instant.ofJson_of_toJson? hcreated)
    (Instant.ofJson_of_toJson? hupdated)
  rw [ofJson, hparts, ok_bind, finish_members h]

end Rule

end Overrides
