import Overrides.Proofs.Outcome
import Overrides.Proofs.Rule.FieldLists
import Overrides.Proofs.Text.Blank
import Overrides.Rule.Draft

/-!
# `Overrides.Proofs.Rule.Content`: what validation establishes

The content of a valid rule is in a normal form: its key and the
values of its filter are trimmed, not empty and short, the values
stand in order without repetition, and every limit is in range.
-/

set_option autoImplicit false

namespace Overrides

open Overrides.Text

/-! ### Keys -/

/-- The keys that submitted texts stand for: trimmed, not empty, and of a
bounded number of bytes. There are no other conditions, so a key may have blanks
and controls inside. -/
structure RuleKey.Valid (k : RuleKey) : Prop where
  trimmed : Trimmed k.text
  nonempty : k.text.isEmpty = false
  short : k.text.utf8ByteSize ≤ maxKeyBytes

/-- A text has bytes when it is not empty. -/
theorem one_le_utf8ByteSize_iff {s : String} : 1 ≤ s.utf8ByteSize ↔ s.isEmpty = false := by
  rw [Nat.one_le_iff_ne_zero, ne_eq, String.utf8ByteSize_eq_zero_iff, ← String.isEmpty_iff,
    Bool.not_eq_true]

/-- A key is its text, trimmed, which has some bytes and not too many. The limit
is on what is left after trimming. -/
theorem RuleKey.parse_eq_ok_iff {raw : String} {k : RuleKey} :
    parse raw = .ok k ↔ k.text = trim raw ∧
      1 ≤ (trim raw).utf8ByteSize ∧ (trim raw).utf8ByteSize ≤ maxKeyBytes := by
  obtain ⟨text⟩ := k
  rw [parse, ite_error_eq_ok_iff, ite_error_eq_ok_iff, Except.ok.injEq, RuleKey.mk.injEq,
    Bool.not_eq_true, ← one_le_utf8ByteSize_iff, Nat.not_lt]
  constructor
  · rintro ⟨hpos, hshort, rfl⟩
    exact ⟨rfl, hpos, hshort⟩
  · rintro ⟨rfl, hpos, hshort⟩
    exact ⟨hpos, hshort, rfl⟩

/-- A key that was parsed is valid. It is the trimmed text, so it needs no
second trimming. -/
theorem RuleKey.valid_of_parse {raw : String} {k : RuleKey} (h : RuleKey.parse raw = .ok k) :
    k.Valid := by
  obtain ⟨htext, hpos, hshort⟩ := RuleKey.parse_eq_ok_iff.mp h
  rw [← htext] at hpos hshort
  exact ⟨htext ▸ trimmed_trim raw, one_le_utf8ByteSize_iff.mp hpos, hshort⟩

/-- A valid key is the key of its own text. -/
theorem RuleKey.Valid.parse_text {k : RuleKey} (h : k.Valid) : RuleKey.parse k.text = .ok k := by
  have htrim : trim k.text = k.text := (trim_eq_self_iff _).mpr h.trimmed
  rw [RuleKey.parse_eq_ok_iff, htrim]
  exact ⟨rfl, one_le_utf8ByteSize_iff.mpr h.nonempty, h.short⟩

/-! ### Filters -/

/-- The values that a filter may list: trimmed, not empty, short and free of
controls. -/
structure AcceptedValue (s : String) : Prop where
  trimmed : Trimmed s
  nonempty : s.isEmpty = false
  short : s.utf8ByteSize ≤ maxFilterValueBytes
  printable : s.toList.any isControl = false

/-- The lists of values that a dimension may have. They ascend strictly, so the
same values are always listed in the same way. -/
structure ValidValues (vs : List String) : Prop where
  ordered : vs.Pairwise (· < ·)
  few : vs.length ≤ maxFilterValues
  accepted : ∀ s ∈ vs, AcceptedValue s

/-- The filters that submitted values stand for. -/
def Filter.Valid (f : Filter) : Prop := ∀ d, ValidValues (f.values d)

/-- An insertion adds one value and loses none. Membership does not see where
the value was put, so the order is settled apart from this. -/
theorem mem_insertOnce {s t : String} {vs : List String} :
    t ∈ insertOnce s vs ↔ t = s ∨ t ∈ vs := by
  induction vs with
  | nil => simp [insertOnce]
  | cons v vs ih =>
    rw [insertOnce]
    split
    · simp
    · split
      · rename_i heq
        simp [heq]
      · simp only [List.mem_cons, ih]
        exact or_left_comm

/-- An insertion makes the list longer by one at most; a value that is there
already adds nothing. -/
theorem length_insertOnce_le (s : String) (vs : List String) :
    (insertOnce s vs).length ≤ vs.length + 1 := by
  induction vs with
  | nil => exact Nat.le_refl 1
  | cons v vs ih =>
    rw [insertOnce]
    split
    · exact Nat.le_refl _
    · split
      · exact Nat.le_succ _
      · exact Nat.succ_le_succ ih

/-- An insertion keeps the list strictly ascending, and so free of repetitions.
-/
theorem pairwise_insertOnce {s : String} {vs : List String} (h : vs.Pairwise (· < ·)) :
    (insertOnce s vs).Pairwise (· < ·) := by
  induction h with
  | nil => exact List.pairwise_singleton ..
  | @cons v vs hv hvs ih =>
    rw [insertOnce]
    split
    -- The value stands first, or else further on, and then it is new or the head itself.
    · rename_i hlt
      refine List.pairwise_cons.mpr ⟨fun t ht => ?_, List.pairwise_cons.mpr ⟨hv, hvs⟩⟩
      rcases List.mem_cons.mp ht with rfl | ht
      · exact hlt
      · exact String.lt_trans hlt (hv t ht)
    · rename_i hle
      split
      · exact List.pairwise_cons.mpr ⟨hv, hvs⟩
      · rename_i hne
        refine List.pairwise_cons.mpr ⟨fun t ht => ?_, ih⟩
        rcases mem_insertOnce.mp ht with rfl | ht
        · exact String.not_le.mp fun hge => hne (String.le_antisymm hge (String.not_lt.mp hle))
        · exact hv t ht

/-- What it takes for one listed value to be added. The value is trimmed before
it is measured, and a blank one is accepted and not added. -/
theorem addValue_eq_ok {d : Dimension} {vs vs' : List String} {v : Json}
    (h : Filter.addValue d vs v = .ok vs') :
    ∃ s, v = .string s ∧ (trim s).utf8ByteSize ≤ maxFilterValueBytes ∧
      (trim s).toList.any isControl = false ∧
      vs' = if (trim s).isEmpty then vs else insertOnce (trim s) vs := by
  cases v with
  | string s =>
    rw [Filter.addValue] at h
    split at h
    · exact nomatch h
    · rename_i hshort
      split at h
      · exact nomatch h
      · rename_i hcontrol
        exact ⟨s, rfl, Nat.le_of_not_lt hshort, Bool.eq_false_iff.mpr hcontrol,
          (Except.ok.inj h).symm⟩
  -- Only texts can be listed.
  | _ => exact nomatch h

/-- Adding a value keeps the values in order and acceptable, and makes
them one more at most. -/
theorem addValue_keeps {d : Dimension} {vs vs' : List String} {v : Json}
    (h : Filter.addValue d vs v = .ok vs') (hordered : vs.Pairwise (· < ·))
    (haccepted : ∀ s ∈ vs, AcceptedValue s) :
    vs'.Pairwise (· < ·) ∧ (∀ s ∈ vs', AcceptedValue s) ∧ vs'.length ≤ vs.length + 1 := by
  obtain ⟨s, -, hshort, hprintable, rfl⟩ := addValue_eq_ok h
  cases hempty : (trim s).isEmpty with
  | true => exact ⟨hordered, haccepted, Nat.le_succ _⟩
  | false =>
    rw [if_neg (by decide)]
    refine ⟨pairwise_insertOnce hordered, fun t ht => ?_, length_insertOnce_le _ _⟩
    rcases mem_insertOnce.mp ht with rfl | ht
    · exact ⟨trimmed_trim s, hempty, hshort, hprintable⟩
    · exact haccepted t ht

/-- A run of additions keeps them so, and adds one value an item at most. With a
bound on the items this gives the bound on the values. -/
theorem foldlM_addValue_keeps {d : Dimension} {items : List Json} {vs vs' : List String}
    (h : items.foldlM (Filter.addValue d) vs = .ok vs') (hordered : vs.Pairwise (· < ·))
    (haccepted : ∀ s ∈ vs, AcceptedValue s) :
    vs'.Pairwise (· < ·) ∧ (∀ s ∈ vs', AcceptedValue s) ∧
      vs'.length ≤ vs.length + items.length := by
  induction items generalizing vs with
  | nil =>
    rw [← Except.ok.inj h]
    exact ⟨hordered, haccepted, Nat.le_refl _⟩
  | cons v items ih =>
    rw [List.foldlM_cons] at h
    obtain ⟨ws, hws, hrest⟩ := bind_eq_ok_iff.mp h
    -- One step keeps the three properties and the induction carries them through the others.
    obtain ⟨hordered, haccepted, hlength⟩ := addValue_keeps hws hordered haccepted
    obtain ⟨hordered, haccepted, htotal⟩ := ih hrest hordered haccepted
    rw [List.length_cons]
    exact ⟨hordered, haccepted, by omega⟩

/-- A dimension without values is valid: it meets every context. -/
theorem validValues_nil : ValidValues [] :=
  ⟨List.Pairwise.nil, Nat.zero_le _, fun _ h => nomatch h⟩

/-- Whatever the values of a dimension are read from, they come out ascending,
few, and each of them trimmed, short and printable. -/
theorem validValues_of_valuesOf {d : Dimension} {v : Json} {vs : List String}
    (h : Filter.valuesOf d v = .ok vs) : ValidValues vs := by
  -- A value that is no list is read as the only one.
  have hsingle : ∀ v, Filter.addValue d [] v = .ok vs → ValidValues vs := by
    intro v hv
    obtain ⟨hordered, haccepted, hlength⟩ :=
      addValue_keeps hv List.Pairwise.nil fun _ h => nomatch h
    exact ⟨hordered, Nat.le_trans hlength (by decide), haccepted⟩
  cases v with
  | null =>
    rw [← Except.ok.inj h]
    exact validValues_nil
  | array items =>
    rw [Filter.valuesOf] at h
    split at h
    · exact nomatch h
    · rename_i hfew
      obtain ⟨hordered, haccepted, hlength⟩ :=
        foldlM_addValue_keeps h List.Pairwise.nil fun _ h => nomatch h
      rw [List.length_nil] at hlength
      exact ⟨hordered, by omega, haccepted⟩
  | bool b => exact hsingle (.bool b) h
  | number n => exact hsingle (.number n) h
  | string s => exact hsingle (.string s) h
  | object members => exact hsingle (.object members) h

/-- The filter that asks for nothing is valid. -/
theorem Filter.valid_any : Filter.any.Valid := by
  intro d
  cases d <;> exact validValues_nil

/-- A filter that was read is valid. The members are read one after the other,
and each replaces the values of one dimension by valid ones. -/
theorem Filter.valid_of_ofJson {v : Option Json} {f : Filter} (h : Filter.ofJson v = .ok f) :
    f.Valid := by
  match v, h with
  | none, h | some .null, h =>
    rw [← Except.ok.inj h]
    exact valid_any
  | some (.object members), h =>
    refine foldlM_invariant (p := Filter.Valid) ?_ valid_any h
    -- Each member puts values that were read in the place of those of one dimension.
    intro f m f' _ hf hstep
    cases hd : Dimension.ofName? m.1 with
    | none =>
      simp only [hd] at hstep
      exact nomatch hstep
    | some d =>
      simp only [hd] at hstep
      obtain ⟨vs, hvs, hset⟩ := bind_eq_ok_iff.mp hstep
      rw [← Except.ok.inj hset]
      intro e
      rw [Filter.values_set]
      split
      · exact validValues_of_valuesOf hvs
      · exact hf e
  | some (.bool _), h | some (.number _), h | some (.string _), h | some (.array _), h =>
    exact nomatch h

/-! ### Actions -/

/-- The values that a field of this kind can be set to. Only limits are
restricted, from one up to their ceiling. -/
def Kind.InRange : (k : Kind) → k.Value → Prop
  | .flag, _ => True
  | .quality, _ => True
  | .limit ceiling, n => 0 < UInt32.toNat n ∧ UInt32.toNat n ≤ ceiling.toNat

/-- The actions that submitted values stand for. -/
def Action.Valid (a : Action) : Prop :=
  ∀ (f : Field) (v : f.Value), a.value f = some v → f.kind.InRange v

/-- A limit that was read is in range, provided the ceiling is. Zero and less
set nothing, so one is the least that comes out. -/
theorem coerceLimit_inRange {ceiling n : UInt32} {v : Json} (hceiling : 0 < ceiling.toNat)
    (h : coerceLimit ceiling v = some n) : 0 < n.toNat ∧ n.toNat ≤ ceiling.toNat := by
  rw [coerceLimit] at h
  split at h
  · rename_i i hi
    split at h
    · exact nomatch h
    · rename_i hpos
      split at h
      · rename_i hle
        -- The ceiling is a machine word, so the number below it is one and is kept exactly.
        have hsize : i.toNat < 4294967296 := by
          have := ceiling.toNat_lt
          omega
        rw [← Option.some.inj h, UInt32.toNat_ofNat_of_lt' hsize]
        omega
      -- Above the ceiling the ceiling is taken.
      · rw [← Option.some.inj h]
        exact ⟨hceiling, Nat.le_refl _⟩
  · exact nomatch h

/-- Every ceiling lets some limit pass. -/
theorem Field.ceiling_pos {f : Field} {ceiling : UInt32} (h : f.kind = .limit ceiling) :
    0 < ceiling.toNat := by
  cases f <;> cases h
  all_goals decide

/-- A value that was read for a field is in range. For a limit the ceiling is
that of the field, and it is positive for each of them. -/
theorem coerce_inRange {f : Field} {v : Json} {a : f.Value} (h : f.kind.coerce v = some a) :
    f.kind.InRange a := by
  -- The kind is a variable here because the type of the value depends on it.
  have hkind : ∀ (k : Kind) (a : k.Value), (∀ c, k = .limit c → 0 < c.toNat) →
      k.coerce v = some a → k.InRange a := by
    intro k a hk ha
    cases k with
    | flag => trivial
    | quality => trivial
    | limit ceiling => exact coerceLimit_inRange (hk ceiling rfl) ha
  exact hkind f.kind a (fun c => Field.ceiling_pos) h

/-- An action that was read is valid and of the scope it was read in. A value
without a meaning for its field is dropped, so it cannot be out of range. -/
theorem Action.valid_of_ofJson {scope : Scope} {v : Option Json} {a : Action}
    (h : Action.ofJson scope v = .ok a) : a.scope = scope ∧ a.Valid := by
  rw [Action.eq_ofMembers_of_ofJson h]
  refine ⟨rfl, fun f x hx => ?_⟩
  rw [Action.value_ofMembers] at hx
  split at hx
  · obtain ⟨m, -, hm⟩ := Option.bind_eq_some_iff.mp hx
    exact coerce_inRange hm
  · exact nomatch hx

/-! ### Rules -/

/-- What validation establishes. The priority is any number of 32 bits and the
flag any flag, so nothing is said of them. -/
structure Content.Valid (c : Content) : Prop where
  key : c.ruleKey.Valid
  filter : c.filter.Valid
  action : c.action.Valid

/-- A draft stands for a content when each of its parts stands for the
part of the content, the action in the scope that the draft names. -/
theorem Draft.validate_eq_ok_iff {d : Draft} {c : Content} :
    d.validate = .ok c ↔
      RuleKey.parse d.ruleKey = .ok c.ruleKey ∧ Scope.parse? d.scope = some c.scope ∧
      Draft.priorityOf d.priority = .ok c.priority ∧ Filter.ofJson d.filter = .ok c.filter ∧
      Action.ofJson c.scope d.action = .ok c.action ∧ d.enabled = c.enabled := by
  cases hscope : Scope.parse? d.scope with
  | none =>
    constructor
    · intro h
      rw [Draft.validate, hscope] at h
      obtain ⟨key, -, h⟩ := bind_eq_ok_iff.mp h
      exact nomatch h
    · rintro ⟨-, h, -⟩
      exact nomatch h
  | some scope =>
    rw [Draft.validate, hscope]
    constructor
    · intro h
      obtain ⟨key, hkey, hrest⟩ := bind_eq_ok_iff.mp h
      obtain ⟨_, ⟨⟩, hrest⟩ := bind_eq_ok_iff.mp hrest
      obtain ⟨priority, hpriority, hrest⟩ := bind_eq_ok_iff.mp hrest
      obtain ⟨filter, hfilter, hrest⟩ := bind_eq_ok_iff.mp hrest
      obtain ⟨action, haction, hc⟩ := bind_eq_ok_iff.mp hrest
      rw [mapError_eq_ok_iff] at hpriority hfilter haction
      -- The action keeps the scope that it is read in, so the content has it too.
      have hsame : action.scope = scope := (Action.valid_of_ofJson haction).1
      rw [← Except.ok.inj hc]
      refine ⟨hkey, ?_, hpriority, hfilter, ?_, rfl⟩
      · rw [← hsame]
        rfl
      · rw [← hsame] at haction
        exact haction
    · rintro ⟨hkey, hs, hpriority, hfilter, haction, henabled⟩
      cases hs
      rw [hkey, hpriority, hfilter, henabled]
      show (Except.mapError _ (Action.ofJson c.scope d.action) >>= fun _ => _) = _
      rw [haction]
      rfl

/-- The content of a draft that passes validation is valid. -/
theorem Content.valid_of_validate {d : Draft} {c : Content} (h : d.validate = .ok c) :
    c.Valid := by
  obtain ⟨hkey, -, -, hfilter, haction, -⟩ := Draft.validate_eq_ok_iff.mp h
  exact ⟨RuleKey.valid_of_parse hkey, Filter.valid_of_ofJson hfilter,
    (Action.valid_of_ofJson haction).2⟩

end Overrides
