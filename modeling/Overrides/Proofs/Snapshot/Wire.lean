import Overrides.Proofs.Field
import Overrides.Proofs.Instant.Written
import Overrides.Proofs.Json.Members
import Overrides.Proofs.Json.Record
import Overrides.Snapshot

/-!
# `Overrides.Proofs.Snapshot.Wire`: the wire form of a snapshot is read back

A snapshot is one object with the five scope objects among its members.
The settings are read from it by going through all members and passing
over those that name no scope; the other parts are looked up by name.

* `Settings.ofJson_of_members`: settings are read from every object that
  has the scope objects among its members.
* `Snapshot.ofJson_of_toJson?`: the snapshot.
-/

set_option autoImplicit false

namespace Overrides

open Overrides.Json

/-! ### One setting -/

/-- A setting is read back from its wire form, strictly: a number is not coerced
here. -/
theorem readSetting_settingToJson {k : Kind} (x : k.Setting) :
    k.readSetting .json (k.settingToJson x) = .ok x := by
  cases k with
  | flag => rfl
  | quality =>
    show ImageQuality.ofJson .json (ImageQuality.toJson x) = _
    cases x <;> rfl
  | limit ceiling =>
    cases x with
    | none => rfl
    | some n =>
      show some <$> asUInt32 (Json.ofNat n.toNat) = _
      rw [asUInt32_ofNat, map_ok]

/-- A field is found under its scope and its name. -/
theorem Field.find?_scope_name (f : Field) : Field.find? f.scope f.name = some f := by
  cases f <;> decide

/-! ### Settings -/

namespace Settings

/-- The member of a setting. -/
def fieldMember (u : Settings) (f : Field) : String × Json :=
  (f.name, f.kind.settingToJson (u.get f))

/-- The members that are spelled out for a scope are those of its fields, each
with the setting and the name of the field, in declaration order. -/
theorem scopeMembers_eq (u : Settings) (s : Scope) :
    u.scopeMembers s = (Field.ofScope s).map u.fieldMember := by
  cases s <;> rfl

/-- The object of a scope has one member for each of its fields, sorted by name.
-/
theorem scopeToJson_eq (u : Settings) (s : Scope) :
    u.scopeToJson s = .object (sortMembers ((Field.ofScope s).map u.fieldMember)) :=
  congrArg ofMembers (u.scopeMembers_eq s)

/-- Reading the member of a field puts the setting of that field. -/
theorem putField_fieldMember (u : Settings) (f : Field) (t : Partial) :
    putField f.scope t (u.fieldMember f).1 (u.fieldMember f).2
      = .ok (t.set f (some (u.get f))) := by
  rw [putField, fieldMember, Field.find?_scope_name]
  simp only [readSetting_settingToJson, ok_bind]
  rfl

/-- Reading the members of some fields of a scope puts their settings. A field
whose name does not occur keeps what it had. -/
theorem foldlM_putField (u : Settings) {s : Scope} {members : List (String × Json)}
    (h : ∀ m ∈ members, ∃ f, f.scope = s ∧ m = u.fieldMember f) (t : Partial) :
    ∃ t', members.foldlM (fun t m => putField s t m.1 m.2) t = .ok t' ∧
      ∀ f, t'.get f = if f.name ∈ members.map (·.1) then some (u.get f) else t.get f := by
  induction members generalizing t with
  | nil => exact ⟨t, rfl, fun f => rfl⟩
  | cons m members ih =>
    obtain ⟨g, rfl, rfl⟩ := h m (List.mem_cons_self ..)
    obtain ⟨t', hfold, hget⟩ :=
      ih (fun b hb => h b (List.mem_cons_of_mem _ hb)) (t.set g (some (u.get g)))
    refine ⟨t', ?_, fun f => ?_⟩
    · rw [List.foldlM_cons, putField_fieldMember, ok_bind, hfold]
    · rw [hget f, List.map_cons, Table.get_set]
      simp only [List.mem_cons]
      by_cases hfg : g = f
      · subst hfg
        simp [fieldMember]
      -- Another field has another name, so this member did not put its setting.
      · have hname : ¬ f.name = (u.fieldMember g).1 := fun hname =>
          hfg (Field.name_injective hname).symm
        simp only [dif_neg hfg, hname, false_or]

/-- Nothing is filled in where nothing was left out. -/
theorem fillScope_of_isSome {s : Scope} {t : Partial}
    (h : ∀ f, f.scope = s → ∃ x, t.get f = some x) : fillScope s t = .ok t := by
  rw [fillScope]
  refine foldlM_eq_self fun f hf => ?_
  obtain ⟨x, hx⟩ := h f (Field.mem_ofScope.mp hf)
  simp only [hx]

/-- Reading the object of a scope puts the settings of that scope. All of its
fields occur there, so the reader misses none, and the other scopes stay. -/
theorem readScope_scopeToJson (u : Settings) (s : Scope) (t : Partial) :
    ∃ t', readScope s t (u.scopeToJson s) = .ok t' ∧
      ∀ f, t'.get f = if f.scope = s then some (u.get f) else t.get f := by
  have hmembers : ∀ m ∈ sortMembers ((Field.ofScope s).map u.fieldMember),
      ∃ f, f.scope = s ∧ m = u.fieldMember f := by
    intro m hm
    obtain ⟨f, hf, rfl⟩ := List.mem_map.mp (mem_of_mem_sortMembers hm)
    exact ⟨f, Field.mem_ofScope.mp hf, rfl⟩
  -- The names among the members are those of the fields of the scope.
  have hnames : ∀ f : Field, f.name ∈ (sortMembers ((Field.ofScope s).map u.fieldMember)).map (·.1)
      ↔ f.scope = s := by
    intro f
    rw [mem_names_sortMembers, List.map_map, ← Field.mem_ofScope]
    constructor
    · intro hf
      obtain ⟨g, hg, hname⟩ := List.mem_map.mp hf
      rwa [← Field.name_injective hname]
    · exact fun hf => List.mem_map_of_mem hf
  obtain ⟨t', hfold, hget⟩ := foldlM_putField u hmembers t
  simp only [hnames] at hget
  refine ⟨t', ?_, hget⟩
  rw [readScope, scopeToJson_eq, foldRecord_object, hfold, ok_bind, fillScope_of_isSome]
  · intro f hf
    exact ⟨u.get f, by rw [hget f, if_pos hf]⟩
  · intro m hm
    obtain ⟨f, hf, rfl⟩ := hmembers m hm
    exact List.mem_map_of_mem (Field.mem_ofScope.mpr hf)

/-- Reads one member of the object that holds the scope objects. -/
def readMember (p : Partial × List Scope) (m : String × Json) :
    Except Mismatch (Partial × List Scope) :=
  if (Scope.all.map Scope.name).contains m.1 then
    match Scope.ofName? m.1 with
    | some s => do return (← readScope s p.1 m.2, s :: p.2)
    | none => .ok p
  else .ok p

/-- Reading the object of a scope puts its settings, and remembers the scope.
The settings of other scopes stay as they were read. -/
theorem readMember_of_scope (u : Settings) (s : Scope) (t : Partial) (seen : List Scope) :
    ∃ t', readMember (t, seen) (s.name, u.scopeToJson s) = .ok (t', s :: seen) ∧
      ∀ f, t'.get f = if f.scope = s then some (u.get f) else t.get f := by
  obtain ⟨t', hread, hget⟩ := readScope_scopeToJson u s t
  refine ⟨t', ?_, hget⟩
  have hname : (Scope.all.map Scope.name).contains s.name = true := by
    cases s <;> decide
  rw [readMember, if_pos hname, Scope.ofName?_name]
  simp only [hread, ok_bind]
  rfl

/-- A member that names no scope is passed over. -/
theorem readMember_of_other {m : String × Json} (h : ∀ s : Scope, m.1 ≠ s.name)
    (p : Partial × List Scope) : readMember p m = .ok p := by
  rw [readMember, if_neg]
  intro hname
  obtain ⟨s, -, hs⟩ := List.mem_map.mp (List.contains_iff_mem.mp hname)
  exact h s hs.symm

/-- Reading the members of an object puts the settings of the scopes that
they name, and remembers these scopes. -/
theorem foldlM_readMember (u : Settings) {members : List (String × Json)}
    (h : ∀ m ∈ members, ∀ s : Scope, m.1 = s.name → m.2 = u.scopeToJson s) (t : Partial)
    (seen : List Scope) :
    ∃ t' seen', members.foldlM readMember (t, seen) = .ok (t', seen') ∧
      (∀ f, t'.get f = if f.scope.name ∈ members.map (·.1) then some (u.get f) else t.get f) ∧
      ∀ s, s ∈ seen' ↔ s.name ∈ members.map (·.1) ∨ s ∈ seen := by
  induction members generalizing t seen with
  | nil => exact ⟨t, seen, rfl, fun f => rfl, fun s => by simp⟩
  | cons m members ih =>
    have hrest := fun b hb => h b (List.mem_cons_of_mem m hb)
    simp only [List.foldlM_cons, List.map_cons, List.mem_cons]
    by_cases hscope : ∃ s : Scope, m.1 = s.name
    · -- Should a later member name this scope again, it has the same object.
      obtain ⟨s, hs⟩ := hscope
      obtain rfl : m = (s.name, u.scopeToJson s) :=
        Prod.ext hs (h m (List.mem_cons_self ..) s hs)
      obtain ⟨t₁, hread, hget₁⟩ := readMember_of_scope u s t seen
      obtain ⟨t', seen', hfold, hget, hseen⟩ := ih hrest t₁ (s :: seen)
      have hname : ∀ s' : Scope, s'.name = s.name ↔ s' = s := fun s' =>
        ⟨Scope.name_injective, congrArg Scope.name⟩
      refine ⟨t', seen', by rw [hread, ok_bind, hfold], fun f => ?_, fun s' => ?_⟩
      · rw [hget f, hget₁ f]
        simp only [hname]
        by_cases hf : f.scope = s
        · simp [hf]
        · simp only [hf, if_false, false_or]
      · rw [hseen s', List.mem_cons, hname]
        exact or_left_comm.trans or_assoc.symm
    · have hother : ∀ s : Scope, m.1 ≠ s.name := fun s hs => hscope ⟨s, hs⟩
      obtain ⟨t', seen', hfold, hget, hseen⟩ := ih hrest t seen
      refine ⟨t', seen', by rw [readMember_of_other hother, ok_bind, hfold], fun f => ?_,
        fun s => ?_⟩
      · rw [hget f]
        simp only [(hother f.scope).symm, false_or]
      · rw [hseen s]
        simp only [(hother s).symm, false_or]

/-- Settings are read from an object that has the objects of all scopes
among its members. -/
theorem ofJson_of_members (u : Settings) {members : List (String × Json)}
    (h : ∀ m ∈ members, ∀ s : Scope, m.1 = s.name → m.2 = u.scopeToJson s)
    (hall : ∀ s : Scope, s.name ∈ members.map (·.1)) :
    Settings.ofJson (.object members) = .ok u := by
  obtain ⟨t, seen, hfold, hget, hseen⟩ := foldlM_readMember u h (Table.ofFn fun _ => none) []
  have hmem : ∀ s : Scope, seen.contains s = true := fun s =>
    List.contains_iff_mem.mpr ((hseen s).mpr (.inl (hall s)))
  -- The loop over the scopes finds each of them seen, so no field is missing.
  have hrecord : Settings.ofJson (.object members)
      = members.foldlM readMember (Table.ofFn fun _ => none, []) >>= fun p => do
        for s in Scope.all do
          unless p.2.contains s do .error (.missingField s.name)
        return Table.ofFn fun f => (p.1.get f).getD f.kind.initial := rfl
  rw [hrecord, hfold, ok_bind]
  simp only [Scope.all, hmem, if_true]
  refine congrArg Except.ok (Table.ext_get fun f => ?_)
  rw [Table.get_ofFn, hget f, if_pos (hall f.scope)]
  rfl

end Settings

/-! ### The other parts -/

/-- A context is read back from its wire form, with `null` for the values that
it lacks. -/
theorem Context.ofJson_toJson (c : Context) : Context.ofJson c.toJson = .ok c := by
  obtain ⟨a, b, d⟩ := c
  have hfields : ∀ m ∈ Dimension.all.map fun e => (e.name, Json.ofOption .string
      (Context.value ⟨a, b, d⟩ e)), m.1 ∈ Dimension.all.map Dimension.name := by
    intro m hm
    obtain ⟨e, he, rfl⟩ := List.mem_map.mp hm
    exact List.mem_map_of_mem he
  rw [Context.ofJson, Context.toJson, foldRecord_object hfields]
  simp only [Dimension.all, List.map_cons, List.map_nil, List.foldlM_cons, List.foldlM_nil,
    asOptional_ofOption, ok_bind]
  rfl

/-- A digest is read back from its wire form. -/
theorem Digest.ofJson_toJson (d : Digest) : Digest.ofJson d.toJson = .ok d := by
  obtain ⟨⟨⟩, value⟩ := d
  rfl

/-- A scope is read back from its name. -/
theorem Scope.ofJson_toJson (s : Scope) : Scope.ofJson s.toJson = .ok s := by
  cases s <;> rfl

/-- An entry of the trace is read back from its wire form. -/
theorem Applied.ofJson_toJson (a : Applied) : Applied.ofJson a.toJson = .ok a := by
  rw [Applied.ofJson, Applied.toJson, foldRecord_object (by simp)]
  simp [Applied.Parts.put, asList_ofTexts, asUInt32_ofNat, asUInt64_ofNat, Scope.ofJson_toJson,
    Json.asText, Json.required]

/-- A trace is read back entry by entry. -/
theorem Applied.asList_toJson (entries : List Applied) :
    Json.asList Applied.ofJson (.array (entries.map Applied.toJson)) = .ok entries := by
  have hread : ∀ a ∈ entries, (Applied.ofJson ∘ Applied.toJson) a = .ok a := fun a _ =>
    a.ofJson_toJson
  rw [Json.asList, List.mapM_map, mapM_eq_ok hread, List.map_id']

namespace Snapshot

/-- The members of the wire form in the order in which they are written. -/
def members (s : Snapshot) (compiledAt : Json) : List (String × Json) :=
  [("version", Json.ofNat s.version.toNat), ("context", s.context.toJson)]
    ++ s.settings.members ++ [
    ("applied", .array (s.applied.map Applied.toJson)),
    ("safe_mode_forced", .bool s.safeModeForced),
    ("config_hash", s.configHash.toJson),
    ("compiled_at", compiledAt),
    ("ttl_seconds", Json.ofNat s.ttlSeconds.toNat)]

/-- A snapshot can be written when its instant can, and its members are sorted
then. -/
theorem toJson?_eq_some_iff {s : Snapshot} {v : Json} :
    s.toJson? = some v ↔ ∃ compiledAt, s.compiledAt.toJson? = some compiledAt ∧
      v = .object (sortMembers (s.members compiledAt)) := by
  have hmap : s.toJson? = s.compiledAt.toJson?.map fun compiledAt =>
      .object (sortMembers (s.members compiledAt)) := by
    rw [toJson?]
    cases s.compiledAt.toJson? <;> rfl
  rw [hmap, Option.map_eq_some_iff]
  exact exists_congr fun _ => and_congr_right fun _ => eq_comm

/-- The names of the parts differ. -/
theorem nodup_names (s : Snapshot) (compiledAt : Json) :
    ((s.members compiledAt).map (·.1)).Nodup := by
  show ["version", "context", "global", "media", "network", "ux", "ai", "applied",
    "safe_mode_forced", "config_hash", "compiled_at", "ttl_seconds"].Nodup
  decide

/-- The object of every scope is among the members. -/
theorem mem_members_scope (s : Snapshot) (compiledAt : Json) (t : Scope) :
    (t.name, s.settings.scopeToJson t) ∈ s.members compiledAt := by
  cases t <;> simp [members, Settings.members, Scope.all]

/-- The scope objects are read from the object of the snapshot. Its other
members, the version and the context among them, are passed over. -/
theorem settings_ofJson (s : Snapshot) (compiledAt : Json) :
    Settings.ofJson (.object (sortMembers (s.members compiledAt))) = .ok s.settings := by
  refine Settings.ofJson_of_members s.settings (fun m hm t ht => ?_) fun t => ?_
  · have hsame := List.inj_on_of_nodup_map (s.nodup_names compiledAt) (mem_of_mem_sortMembers hm)
      (s.mem_members_scope compiledAt t) ht
    rw [hsame]
  · rw [mem_names_sortMembers]
    exact List.mem_map_of_mem (s.mem_members_scope compiledAt t)

/-- Every part is found under its name. -/
theorem required_member {s : Snapshot} {compiledAt : Json} {name : String} {v : Json}
    (h : (name, v) ∈ s.members compiledAt) :
    required name ((Json.object (sortMembers (s.members compiledAt))).member? name) = .ok v := by
  rw [Json.member?, lookup_sortMembers_of_mem (s.nodup_names compiledAt) h]
  rfl

/-- A snapshot is read back from its wire form. The members are sorted there,
and the reader finds each under its name. -/
theorem ofJson_of_toJson? {s : Snapshot} {v : Json} (h : s.toJson? = some v) :
    Snapshot.ofJson v = .ok s := by
  obtain ⟨compiledAt, hcompiled, rfl⟩ := toJson?_eq_some_iff.mp h
  have hversion : ("version", Json.ofNat s.version.toNat) ∈ s.members compiledAt := by
    simp [members]
  have hcontext : ("context", s.context.toJson) ∈ s.members compiledAt := by simp [members]
  have happlied : ("applied", .array (s.applied.map Applied.toJson)) ∈ s.members compiledAt := by
    simp [members]
  have hforced : ("safe_mode_forced", .bool s.safeModeForced) ∈ s.members compiledAt := by
    simp [members]
  have hhash : ("config_hash", s.configHash.toJson) ∈ s.members compiledAt := by simp [members]
  have htime : ("compiled_at", compiledAt) ∈ s.members compiledAt := by simp [members]
  have httl : ("ttl_seconds", Json.ofNat s.ttlSeconds.toNat) ∈ s.members compiledAt := by
    simp [members]
  -- The reader asks for one member after the other, and each of them is there.
  rw [Snapshot.ofJson]
  beta_reduce
  rw [required_member hversion, ok_bind, asUInt32_ofNat, ok_bind, required_member hcontext, ok_bind,
    Context.ofJson_toJson, ok_bind, settings_ofJson, ok_bind, required_member happlied, ok_bind,
    Applied.asList_toJson, ok_bind, required_member hforced, ok_bind, Json.asFlag, ok_bind,
    required_member hhash, ok_bind, Digest.ofJson_toJson, ok_bind, required_member htime, ok_bind,
    Instant.ofJson_of_toJson? hcompiled, ok_bind, required_member httl, ok_bind, asUInt32_ofNat]
  rfl

end Snapshot

end Overrides
