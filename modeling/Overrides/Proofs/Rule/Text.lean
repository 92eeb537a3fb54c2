import Overrides.Proofs.Json.RoundTrip
import Overrides.Proofs.Rule.Wire

/-!
# `Overrides.Proofs.Rule.Text`: the canonical text of a rule is read back

The reader of stored rules goes through the members of the text one by
one. On canonical text it does the same as the reader of values does
with the value, and gives every valid rule back.

* `reader_canonicalBytes`: the two readers agree on canonical text.
* `reader_of_toJson?`: a valid rule is read back from its text.
-/

set_option autoImplicit false

namespace Overrides

open Overrides.Json Overrides.Number Overrides.Text
open Json.Reader

/-! ### The wire form is writable -/

/-- A number of 64 bits fits, whatever it counts. -/
theorem fits_natCast {n : Nat} (h : n < 18446744073709551616) : Fits (n : Int) := by
  rw [Fits]
  omega

/-- A count of 64 bits is written as an integer and read back, however little
room is left. -/
theorem writable_ofNat {n : Nat} (h : n < 18446744073709551616) (room : Nat) :
    Writable room (Json.ofNat n) :=
  .integer (fits_natCast h)

/-- The value of a field is a flag, a name or a number, so it can be written
without nesting. -/
theorem writable_valueToJson {k : Kind} (v : k.Value) (room : Nat) :
    Writable room (k.valueToJson v) := by
  cases k with
  | flag => exact .bool v
  | quality => exact .string _
  | limit ceiling =>
    have hsize := UInt32.toNat_lt v
    exact writable_ofNat (by omega) room

/-- The name of a field has nothing in it that would be escaped. -/
theorem Field.plainName (f : Field) : PlainName f.name := by
  cases f <;> decide

/-- An action takes one level of nesting: it is an object of plain values. -/
theorem Action.writable_toJson (a : Action) (room : Nat) : Writable (room + 1) a.toJson := by
  rw [Action.toJson_eq]
  refine .object (pairwise_sortMembers _) (fun m hm => ?_) fun m hm => ?_
  all_goals obtain ⟨f, v, -, -, rfl⟩ := exists_field_of_mem hm
  -- First the names of the members, then their values.
  · exact f.plainName
  · exact writable_valueToJson v room

/-- The dimensions are listed in the order of their names, which is why the wire
form of a filter needs no sorting. -/
theorem Dimension.pairwise_name :
    Dimension.all.Pairwise fun d e => d.name < e.name := by
  decide

/-- The name of a dimension has nothing in it that would be escaped. -/
theorem Dimension.plainName (d : Dimension) : PlainName d.name := by
  cases d <;> decide

/-- What stands for a dimension is its name with its values. -/
theorem Filter.eq_of_dimensionMember {f : Filter} {d : Dimension} {m : String × Json}
    (h : f.dimensionMember d = some m) : m = (d.name, Json.ofTexts (f.values d)) := by
  rw [dimensionMember] at h
  split at h
  · exact nomatch h
  · exact (Option.some.inj h).symm

/-- The members of a filter stand in the order of their names. -/
theorem Filter.pairwise_members (f : Filter) :
    (Dimension.all.filterMap f.dimensionMember).Pairwise fun a b => a.1 < b.1 := by
  rw [List.pairwise_filterMap]
  refine Dimension.pairwise_name.imp fun hde m hm n hn => ?_
  rw [eq_of_dimensionMember hm, eq_of_dimensionMember hn]
  exact hde

/-- A filter takes two levels of nesting, the object and the list of values
under each name. -/
theorem Filter.writable_toJson (f : Filter) (room : Nat) : Writable (room + 2) f.toJson := by
  rw [Filter.toJson_eq]
  refine .object f.pairwise_members (fun m hm => ?_) fun m hm => ?_
  all_goals
    obtain ⟨d, -, hd⟩ := List.mem_filterMap.mp hm
    rw [eq_of_dimensionMember hd]
  · exact d.plainName
  · refine .array fun v hv => ?_
    obtain ⟨s, -, rfl⟩ := List.mem_map.mp hv
    exact .string s

/-- The filter as it stands in a rule, where `null` stands for the one without
conditions. -/
theorem Content.writable_filterJson (c : Content) (room : Nat) :
    Writable (room + 2) c.filterJson := by
  rw [Content.filterJson]
  split
  · exact .null
  · exact c.filter.writable_toJson room

/-- A text that may be missing is written as itself or as `null`. -/
theorem writable_ofOption (o : Option String) (room : Nat) :
    Writable room (Json.ofOption .string o) := by
  cases o with
  | none => exact .null
  | some s => exact .string s

/-- An instant that can be written is written as a text. -/
theorem Instant.writable_toJson? {t : Instant} {v : Json} (h : t.toJson? = some v) (room : Nat) :
    Writable room v := by
  obtain ⟨s, -, rfl⟩ := Option.map_eq_some_iff.mp h
  exact .string s

/-- The members of the wire form stand in the order of their names. -/
theorem Rule.pairwise_members (r : Rule) (createdAt updatedAt : Json) :
    (r.members createdAt updatedAt).Pairwise fun a b => a.1 < b.1 := by
  have hnames : ((r.members createdAt updatedAt).map (·.1)).Pairwise (· < ·) := by
    show List.Pairwise (· < ·) ["action", "created_at", "created_by", "enabled", "match",
      "priority", "revision", "rule_key", "scope", "updated_at", "updated_by"]
    decide
  exact List.pairwise_map.mp hnames

/-- The names of the members of a rule have nothing in them that would be
escaped. -/
theorem Rule.plainName_members (r : Rule) (createdAt updatedAt : Json) :
    ∀ m ∈ r.members createdAt updatedAt, PlainName m.1 := by
  have hnames : ∀ n ∈ (r.members createdAt updatedAt).map (·.1), PlainName n := by
    show ∀ n ∈ ["action", "created_at", "created_by", "enabled", "match",
      "priority", "revision", "rule_key", "scope", "updated_at", "updated_by"], PlainName n
    decide
  exact fun m hm => hnames m.1 (List.mem_map_of_mem hm)

/-- The wire form of every rule can be written as canonical text. It needs room
for three levels, of which the filter takes two. -/
theorem Rule.writable_of_toJson? {r : Rule} {v : Json} (h : r.toJson? = some v) (room : Nat) :
    Writable (room + 3) v := by
  obtain ⟨createdAt, updatedAt, hcreated, hupdated, rfl⟩ := Rule.toJson?_eq_some_iff.mp h
  have hpriority := r.content.priority.toNat_lt
  have hrevision := r.revision.toNat_lt
  refine .object (r.pairwise_members _ _) (r.plainName_members _ _) ?_
  simp only [Rule.members, List.forall_mem_cons]
  exact ⟨r.content.action.writable_toJson _, Instant.writable_toJson? hcreated _,
    writable_ofOption _ _, .bool _, r.content.writable_filterJson _,
    writable_ofNat (by omega) _, writable_ofNat (by omega) _, .string _, .string _,
    Instant.writable_toJson? hupdated _, writable_ofOption _ _, List.forall_mem_nil _⟩

/-! ### Reading a rule from canonical text -/

/-- What the reader does with one member. -/
def Rule.putMember (p : Rule.Parts) (m : String × Json) : Except Json.Fault Rule.Parts :=
  (p.put m.1 m.2).mapError .mismatch

/-- Reads one member, its name already taken. -/
def Rule.readMember (name : String) (p : Rule.Parts) : Json.Reader Rule.Parts := do
  colon
  match p.put name (← value (maxDepth - 1)) with
  | .ok p => return p
  | .error cause => mismatch cause

/-- Gives the rule that was read, or what is wrong with it. -/
def Rule.readFinish (parts : Rule.Parts) : Json.Reader Rule :=
  match parts.finish with
  | .ok r => return r
  | .error cause => mismatch cause

/-- The reader of members does with the text of a value what `putMember`
does with the value. -/
theorem run_readMember {name : String} {v : Json} {limit : Nat} {rest : List UInt8}
    (hread : ReadBack (maxDepth - 1) limit v) (hrest : Ends rest) (p : Rule.Parts) :
    Rule.readMember name p limit (0x3a :: (canonicalBytes v ++ rest))
      = (Rule.putMember p (name, v)).map (·, rest) := by
  rw [Rule.readMember, run_bind_ok run_colon, run_bind_ok (hread rest hrest), Rule.putMember]
  cases p.put name v <;> rfl

/-- On canonical text the reader of stored rules does what it does on the value.
It goes through the members as they come, and these are the members of the value
in their order. -/
theorem Rule.reader_canonicalBytes {members : List (String × Json)}
    (h : Writable maxDepth (.object members)) :
    Rule.reader.run (canonicalBytes (.object members))
      = (Rule.ofJson (.object members)).mapError .mismatch := by
  obtain _ | _ | _ | _ | _ | @⟨_, _, hsorted, hplain, hmembers⟩ := h
  obtain ⟨hcount, hlength⟩ := object_bounds hsorted hplain (Nat.le_refl _)
  -- The reader takes each member for what `putMember` makes of it, so its
  -- fold over the text is the fold over the members.
  have htakes : TakesMembers readMember (fun m => (m.1, canonicalBytes m.2)) putMember
      (canonicalBytes (.object members)).length members := by
    intro m hm
    obtain ⟨hname, hvalue⟩ := hlength m hm
    exact ⟨hname, fun p rest hrest =>
      run_readMember (run_value_canonical (hmembers m hm) hvalue) hrest p⟩
  have hfold := run_foldMembers htakes (Nat.lt_add_one_of_le hcount) Parts.empty []
  have hput : members.foldlM putMember Parts.empty
      = (members.foldlM (fun p m => Parts.put p m.1 m.2) Parts.empty).mapError .mismatch :=
    foldlM_mapError members Parts.empty
  rw [hput] at hfold
  dsimp only at hfold
  show StateT.run' ((Rule.reader >>= fun r => finish >>= fun _ => pure r : Json.Reader Rule)
    (canonicalBytes (.object members)).length) (canonicalBytes (.object members)) = _
  generalize (canonicalBytes (.object members)).length = limit at hfold
  have hrun : Rule.reader limit (canonicalBytes (.object members))
      = ((Rule.ofJson (.object members)).mapError .mismatch).map (·, []) := by
    rw [canonicalBytes_object hsorted hplain, Rule.reader, run_peekToken_bind (by decide)]
    show (drop >>= fun _ => _) limit (0x7b :: _) = _
    rw [run_drop_bind, run_read_bind, run_bind]
    show (foldMembers readMember (limit + 1) true Parts.empty limit _).bind _ = _
    rw [hfold, Rule.ofJson]
    -- Either a member is refused, or the parts are put together at the end.
    cases members.foldlM (fun p m => Parts.put p m.1 m.2) Parts.empty with
    | error e => rfl
    | ok parts =>
      show readFinish parts limit [] = (parts.finish.mapError .mismatch).map (·, [])
      rw [readFinish]
      cases parts.finish <;> rfl
  show ((Rule.reader >>= fun r => finish >>= fun _ => pure r : Json.Reader Rule) limit
    (canonicalBytes (.object members))).map Prod.fst = _
  rw [run_bind, hrun]
  cases Rule.ofJson (.object members) <;> rfl

/-- A rule with valid content is read back from the canonical text of its wire
form, which is what a database keeps of it. -/
theorem Rule.reader_of_toJson? {r : Rule} {v : Json} (h : r.content.Valid)
    (hv : r.toJson? = some v) :
    Rule.reader.run (canonicalBytes v) = .ok r := by
  obtain ⟨createdAt, updatedAt, -, -, hobject⟩ := Rule.toJson?_eq_some_iff.mp hv
  have hwritable : Writable maxDepth v := Rule.writable_of_toJson? hv 124
  rw [hobject] at hwritable
  have hread := Rule.reader_canonicalBytes hwritable
  rw [← hobject, Rule.ofJson_of_toJson? h hv] at hread
  exact hread

end Overrides
