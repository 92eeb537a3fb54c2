import Mathlib.Data.List.Perm.Subperm
import Mathlib.Tactic.Linarith
import Overrides.Proofs.Json.Lengths
import Overrides.Proofs.Rule.Text

/-!
# `Overrides.Proofs.Rule.Size`: how long the text of a rule gets

The parts that validation lets pass are short: a key of 128 bytes, three
dimensions of 32 values of 128 bytes each, thirteen fields. Instants and
numbers have a fixed room. Only the names of the writers are not looked at
by validation, so the bound for the text of a rule leaves them open.

* `Action.length_toJson_le`, `Filter.length_toJson_le`,
  `Instant.length_toJson?_le`: the parts.
* `Rule.length_text_le`: the text of a rule with valid content.
-/

set_option autoImplicit false

namespace Overrides

open Overrides.Json Overrides.Text Overrides.Text.Utf8

/-! ### Actions -/

/-- No name of a field is longer than the one of 26 characters, and the quotes make 28
bytes. -/
theorem Field.length_name_le (f : Field) : (encode (stringText f.name)).length ≤ 28 := by
  rw [encode_stringText]
  cases f <;> decide +kernel

/-- A value that an action sets takes 20 bytes at most: a flag and a quality are shorter,
and 20 is the room of a natural number of 64 bits. -/
theorem length_valueToJson_le {k : Kind} (v : k.Value) :
    (canonicalBytes (k.valueToJson v)).length ≤ 20 := by
  cases k with
  | flag => cases v <;> decide +kernel
  | quality =>
    show (canonicalBytes (.string (ImageQuality.name v))).length ≤ 20
    rw [canonicalBytes_string, encode_stringText]
    cases v <;> decide +kernel
  | limit ceiling =>
    have hsize := UInt32.toNat_lt v
    exact length_ofNat_le (by omega)

/-- An action has thirteen members at most, one for each field. With 49 bytes for each
member the bound holds for all scopes at once, so no scope is looked at. -/
theorem Action.length_toJson_le (a : Action) : (canonicalBytes a.toJson).length ≤ 652 := by
  have hsorted := pairwise_sortMembers ((Field.ofScope a.scope).filterMap a.member)
  rw [Action.toJson_eq]
  refine length_object_le (n := 49) (k := 13) hsorted (fun m hm => ?_) ?_ fun m hm => ?_
  · obtain ⟨f, v, -, -, rfl⟩ := exists_field_of_mem hm
    exact f.plainName
  · -- The names are different, and they are names of fields.
    have hnodup : ((sortMembers ((Field.ofScope a.scope).filterMap a.member)).map (·.1)).Nodup :=
      (List.pairwise_map.mpr hsorted).imp String.ne_of_lt
    have hsubset : (sortMembers ((Field.ofScope a.scope).filterMap a.member)).map (·.1)
        ⊆ Field.all.map Field.name := by
      intro n hn
      obtain ⟨m, hm, rfl⟩ := List.mem_map.mp hn
      obtain ⟨f, v, -, -, rfl⟩ := exists_field_of_mem hm
      exact List.mem_map_of_mem f.mem_all
    have hle := (List.subperm_of_subset hnodup hsubset).length_le
    rwa [List.length_map, List.length_map] at hle
  · obtain ⟨f, v, -, -, rfl⟩ := exists_field_of_mem hm
    have hname := f.length_name_le
    have hvalue := length_valueToJson_le v
    show (encode (stringText f.name) ++ 0x3a :: canonicalBytes (f.kind.valueToJson v)).length ≤ 49
    rw [List.length_append, List.length_cons]
    omega

/-! ### Filters -/

/-- No name of a dimension is longer than thirteen characters, and the quotes make 15
bytes. -/
theorem Dimension.length_name_le (d : Dimension) : (encode (stringText d.name)).length ≤ 15 := by
  rw [encode_stringText]
  cases d <;> decide +kernel

/-- The values of a dimension: as many of them as there may be, as long as they may be,
every character escaped. Validation lets no control character pass, so an escape takes two
bytes and not six. -/
theorem ValidValues.length_ofTexts_le {vs : List String} (h : ValidValues vs) :
    (canonicalBytes (ofTexts vs)).length ≤ 8290 := by
  refine length_array_le (n := 258) (k := 32) ?_ fun v hv => ?_
  · rw [List.length_map]
    exact h.few
  · obtain ⟨s, hs, rfl⟩ := List.mem_map.mp hv
    -- A value of 128 bytes, two bytes for each, in quotes.
    have hshort : s.utf8ByteSize ≤ 128 := (h.accepted s hs).short
    have hstring := length_string_le_two (h.accepted s hs).printable
    omega

/-- A filter that passed validation has three dimensions at most, so its text has 24923
bytes at most, with names and punctuation. -/
theorem Filter.length_toJson_le {f : Filter} (h : f.Valid) :
    (canonicalBytes f.toJson).length ≤ 24923 := by
  -- Every member is a dimension with its values.
  have hmember : ∀ m ∈ Dimension.all.filterMap f.dimensionMember,
      ∃ d : Dimension, m = (d.name, ofTexts (f.values d)) := by
    intro m hm
    obtain ⟨d, -, hd⟩ := List.mem_filterMap.mp hm
    exact ⟨d, Filter.eq_of_dimensionMember hd⟩
  rw [Filter.toJson_eq]
  refine length_object_le (n := 8306) (k := 3) f.pairwise_members (fun m hm => ?_) ?_ fun m hm => ?_
  · obtain ⟨d, rfl⟩ := hmember m hm
    exact d.plainName
  · exact List.length_filterMap_le ..
  · obtain ⟨d, rfl⟩ := hmember m hm
    have hname := d.length_name_le
    have hvalues := (h d).length_ofTexts_le
    show (encode (stringText d.name) ++ 0x3a :: canonicalBytes (ofTexts (f.values d))).length ≤ 8306
    rw [List.length_append, List.length_cons]
    omega

/-! ### Instants -/

/-- A number written with padding takes the width that it is padded to, whatever its
value. -/
theorem Instant.length_padded (width n : Nat) : (padded width n).length = width := by
  -- One digit is taken off the end at each step, so the number changes too.
  induction width generalizing n with
  | zero => rfl
  | succ width ih => rw [padded, List.length_append, ih, List.length_singleton]

/-- A fraction of a second has a point and nine digits at most. -/
theorem Instant.length_fractionText_le (nano : Nat) : (fractionText nano).length ≤ 10 := by
  rw [fractionText]
  split
  · exact Nat.zero_le _
  · -- Dropping zeros makes the nine digits fewer.
    have hdigits : (fractionDigits nano).length ≤ (padded 9 nano).length :=
      (List.rdropWhile_prefix ..).length_le
    rw [length_padded] at hdigits
    rw [List.length_cons]
    omega

/-- An offset is `Z`, or a sign with two hours, a colon and two minutes. -/
theorem Instant.length_offsetText_le (offset : Int) : (offsetText offset).length ≤ 6 := by
  rw [offsetText]
  split
  · show 1 ≤ 6
    decide
  · rw [List.length_append, List.length_cons, List.length_cons, length_padded, length_padded]

/-- A date and a time of day with all parts at their longest take 35 characters. -/
theorem Instant.length_localText_le (l : Local) : (localText l).length ≤ 35 := by
  have hfraction := length_fractionText_le l.nano
  have hoffset := length_offsetText_le l.offset
  simp only [localText, List.length_append, List.length_cons, length_padded]
  omega

/-- The text of an instant takes 842 bytes at most. The bound is a rough one: no character
takes more than four bytes, and none of these more than six. -/
theorem Instant.length_toJson?_le {t : Instant} {v : Json} (h : t.toJson? = some v) :
    (canonicalBytes v).length ≤ 842 := by
  obtain ⟨s, hs, rfl⟩ := Option.map_eq_some_iff.mp h
  obtain ⟨-, rfl⟩ := written?_eq_some_iff.mp hs
  have hchars := length_localText_le t.toLocal
  have hbytes := utf8ByteSize_le (String.ofList (localText t.toLocal))
  have hstring := length_string_le_six (String.ofList (localText t.toLocal))
  rw [String.toList_ofList] at hbytes
  omega

/-! ### Rules -/

/-- What stands for the filter of a rule is no longer than a filter. A filter that lets
everything pass is written as `null`. -/
theorem Content.length_filterJson_le {c : Content} (h : c.filter.Valid) :
    (canonicalBytes c.filterJson).length ≤ 24923 := by
  rw [filterJson]
  split
  · decide +kernel
  · exact Filter.length_toJson_le h

/-- The longest name of a scope has seven letters. -/
theorem Scope.length_toJson_le (s : Scope) : (canonicalBytes s.toJson).length ≤ 9 := by
  rw [toJson, canonicalBytes_string, encode_stringText]
  cases s <;> decide +kernel

/-- The names and the punctuation of a rule take the same room in every one, 132 bytes. So
the length of the text is that and the lengths of its eleven values. -/
theorem Rule.length_object_members (r : Rule) (createdAt updatedAt : Json) :
    (canonicalBytes (.object (r.members createdAt updatedAt))).length
      = 132 + ((r.members createdAt updatedAt).map fun m => (canonicalBytes m.2).length).sum := by
  -- Folding over a text is opaque to evaluation, so the texts are spelled out first.
  have hnames : (encode (stringText "action")).length
      + (encode (stringText "created_at")).length + (encode (stringText "created_by")).length
      + (encode (stringText "enabled")).length + (encode (stringText "match")).length
      + (encode (stringText "priority")).length + (encode (stringText "revision")).length
      + (encode (stringText "rule_key")).length + (encode (stringText "scope")).length
      + (encode (stringText "updated_at")).length + (encode (stringText "updated_by")).length
      = 109 := by
    simp only [encode_stringText]
    decide +kernel
  rw [canonicalBytes_object (r.pairwise_members _ _) (r.plainName_members _ _)]
  simp only [members, List.map_cons, List.map_nil, List.sum_cons, List.sum_nil, memberBytes,
    listed, commaBefore, List.flatMap_cons, List.flatMap_nil, List.length_append,
    List.length_cons, List.length_nil]
  linarith

/-- The text of a rule with valid content is short, but for the names of those who wrote
it. They stand in the bound as they are, since validation does not look at them. -/
theorem Rule.length_text_le {r : Rule} {v : Json} (hvalid : r.content.Valid)
    (hv : r.toJson? = some v) :
    (canonicalBytes v).length ≤ 28300 + (canonicalBytes (ofOption .string r.createdBy)).length
      + (canonicalBytes (ofOption .string r.updatedBy)).length := by
  obtain ⟨createdAt, updatedAt, hcreated, hupdated, rfl⟩ := toJson?_eq_some_iff.mp hv
  have haction := r.content.action.length_toJson_le
  have hcreated := Instant.length_toJson?_le hcreated
  have hupdated := Instant.length_toJson?_le hupdated
  -- One bound for each of the other members, to be added up at the end.
  have henabled : (canonicalBytes (.bool r.content.enabled)).length ≤ 5 := by
    cases r.content.enabled <;> decide +kernel
  have hfilter := Content.length_filterJson_le hvalid.filter
  have hpriority : (canonicalBytes (ofNat r.content.priority.toNat)).length ≤ 20 := by
    have := r.content.priority.toNat_lt
    exact length_ofNat_le (by omega)
  have hrevision : (canonicalBytes (ofNat r.revision.toNat)).length ≤ 20 :=
    length_ofNat_le r.revision.toNat_lt
  have hkey : (canonicalBytes (.string r.content.ruleKey.text)).length ≤ 770 := by
    have hshort : r.content.ruleKey.text.utf8ByteSize ≤ 128 := hvalid.key.short
    have hstring := length_string_le_six r.content.ruleKey.text
    omega
  have hscope := r.content.scope.length_toJson_le
  rw [length_object_members]
  simp only [members, List.map_cons, List.map_nil, List.sum_cons, List.sum_nil]
  linarith

end Overrides
