import Mathlib.Data.List.Sort
import Mathlib.Logic.Relation
import Overrides.Proofs.Precedence.InputOrder
import Overrides.Proofs.Rule.Grammar

/-!
# `Overrides.Proofs.Precedence.Eligibility`: where filters and contexts meet

A filter is normalised when it is read, and a context before it is used, by
different code. `Filter.Mentions` and `Filter.Meets` say on the raw forms of
both what that comes to: wherever the filter mentions a text that is not
blank, the context has to supply one that trims alike.

How the texts of a dimension are written down does not matter. The values that
are read are in order and without repetition, so they are determined by which
texts they are. `Filter.Rewritten` lists the ways of writing the same.

* `Filter.valuesOf_eq_ok_iff`: what is read of a dimension.
* `Filter.mem_values_of_ofJson`: what is read of a filter.
* `Filter.accepts_normalized_iff`: which contexts pass.
* `Filter.Respelled.ofJson_eq_ok_iff`: respelled filters are read alike.
* `eligible_where_filter_meets_context`: what this says of rules.
-/

set_option autoImplicit false

namespace Overrides

open Overrides.Text

namespace Filter

/-! ### What a dimension mentions -/

/-- The text is the value, or one of its items. It is the text as it was
submitted, with its blanks. -/
inductive HasText : Json → String → Prop where
  | single {s : String} : HasText (.string s) s
  | item {items : List Json} {s : String} : .string s ∈ items → HasText (.array items) s

/-- The value has a text that is not blank and that this one is left of. So
blank texts yield nothing, and a text that is listed twice yields the same. -/
def Yields (v : Json) (t : String) : Prop := ∃ s, HasText v s ∧ ¬ Blank s ∧ t = trim s

variable {d : Dimension} {v v' : Json} {vs vs' : List String} {t : String}

/-- A text by itself leaves its trimmed form, or nothing if it is blank. -/
theorem yields_single {s : String} : Yields (.string s) t ↔ ¬ Blank s ∧ t = trim s := by
  constructor
  · rintro ⟨_, ⟨⟩, hblank, rfl⟩
    exact ⟨hblank, rfl⟩
  · rintro ⟨hblank, rfl⟩
    exact ⟨s, .single, hblank, rfl⟩

/-- A list leaves what its texts leave. Items that are not texts leave nothing.
-/
theorem yields_array {items : List Json} :
    Yields (.array items) t ↔ ∃ v ∈ items, ∃ s, v = .string s ∧ ¬ Blank s ∧ t = trim s := by
  constructor
  · rintro ⟨s, ⟨⟩, hblank, rfl⟩
    exact ⟨_, ‹_›, s, rfl, hblank, rfl⟩
  · rintro ⟨_, hmem, s, rfl, hblank, rfl⟩
    exact ⟨s, .item hmem, hblank, rfl⟩

/-- A listed value adds the text that is left of it, if any is. It adds nothing
that is there already, which membership does not see. -/
theorem mem_addValue (h : addValue d vs v = .ok vs') :
    t ∈ vs' ↔ t ∈ vs ∨ ∃ s, v = .string s ∧ ¬ Blank s ∧ t = trim s := by
  obtain ⟨s, rfl, -, -, rfl⟩ := addValue_eq_ok h
  split
  · rename_i hempty
    have hblank := trim_eq_empty_iff.mp (String.isEmpty_iff.mp hempty)
    simp [hblank]
  · rename_i hempty
    have hblank : ¬ Blank s := fun h => hempty (String.isEmpty_iff.mpr (trim_eq_empty_iff.mpr h))
    simp [mem_insertOnce, hblank, or_comm]

/-- A list adds what is left of its texts. A text that is blank is left out and
is no fault. -/
theorem mem_foldlM_addValue {items : List Json} (h : items.foldlM (addValue d) vs = .ok vs') :
    t ∈ vs' ↔ t ∈ vs ∨ ∃ v ∈ items, ∃ s, v = .string s ∧ ¬ Blank s ∧ t = trim s := by
  induction items generalizing vs with
  | nil =>
    rw [← Except.ok.inj h]
    simp
  | cons v items ih =>
    rw [List.foldlM_cons] at h
    obtain ⟨ws, hws, hrest⟩ := bind_eq_ok_iff.mp h
    rw [ih hrest, mem_addValue hws, or_assoc, List.exists_mem_cons_iff]

/-- What is read of a dimension is what its texts leave. This holds of every
form that a value may have, as long as it is read at all. -/
theorem mem_valuesOf (h : valuesOf d v = .ok vs) : t ∈ vs ↔ Yields v t := by
  -- A value that is neither `null` nor a list is read as the only one.
  have hsingle : ∀ v, addValue d [] v = .ok vs → (t ∈ vs ↔ Yields v t) := by
    intro v hv
    obtain ⟨s, rfl, -⟩ := addValue_eq_ok hv
    rw [mem_addValue hv, yields_single]
    simp
  cases v with
  | null =>
    rw [← Except.ok.inj h]
    refine iff_of_false List.not_mem_nil ?_
    rintro ⟨s, ⟨⟩, -⟩
  | array items =>
    rw [valuesOf] at h
    split at h
    · cases h
    · rw [mem_foldlM_addValue h, yields_array]
      simp
  | bool b => exact hsingle (.bool b) h
  | number n => exact hsingle (.number n) h
  | string s => exact hsingle (.string s) h
  | object members => exact hsingle (.object members) h

/-- What is read of a dimension is determined by which texts it leaves: it can
be read, and its values are these texts in order. -/
theorem valuesOf_eq_ok_iff :
    valuesOf d v = .ok vs ↔ Accepts v ∧ vs.Pairwise (· < ·) ∧ ∀ t, t ∈ vs ↔ Yields v t := by
  constructor
  · intro h
    exact ⟨exists_valuesOf_iff.mp ⟨vs, h⟩, (validValues_of_valuesOf h).ordered,
      fun t => mem_valuesOf h⟩
  · rintro ⟨haccepts, hordered, hmem⟩
    obtain ⟨ws, hws⟩ := exists_valuesOf_iff.mpr haccepts
    have hsame : ws = vs := (validValues_of_valuesOf hws).ordered.eq_of_mem_iff hordered fun t => by
      rw [mem_valuesOf hws, hmem]
    rw [hws, hsame]

/-! ### What a filter mentions -/

/-- The value of a dimension in a raw filter: the last one under its name. -/
def entry? (raw : Option Json) (d : Dimension) : Option Json :=
  match raw with
  | some (.object members) => members.reverse.lookup d.name
  | _ => none

/-- The text is listed for the dimension. If the dimension is named more than
once in the filter, the last list counts. -/
def Mentions (raw : Option Json) (d : Dimension) (s : String) : Prop :=
  ∃ v, entry? raw d = some v ∧ HasText v s

/-- For every dimension for which the filter mentions a text that is not blank,
the context supplies one that is not blank and trims like one of the texts. -/
def Meets (raw : Option Json) (c : Context) : Prop :=
  ∀ d, (∃ s, Mentions raw d s ∧ ¬ Blank s) →
    ∃ v, c.value d = some v ∧ ¬ Blank v ∧ ∃ s, Mentions raw d s ∧ trim v = trim s

variable {raw raw' : Option Json} {f g : Filter} {members members' : List (String × Json)}
  {m m' : String × Json}

/-- A member is read when it is named for a dimension and its values can be
read. Those values then replace the ones that the dimension had. -/
theorem readMember_eq_ok_iff :
    readMember f m = .ok g ↔
      ∃ d vs, m.1 = Dimension.name d ∧ valuesOf d m.2 = .ok vs ∧ g = f.set d vs := by
  rw [readMember]
  constructor
  · intro h
    split at h
    · rename_i d hd
      obtain ⟨vs, hvs, hg⟩ := bind_eq_ok_iff.mp h
      have hname : d.name = m.1 := by simpa using List.find?_some hd
      exact ⟨d, vs, hname.symm, hvs, (Except.ok.inj hg).symm⟩
    · cases h
  · rintro ⟨d, vs, hname, hvs, rfl⟩
    rw [hname, Dimension.ofName?_name]
    exact bind_eq_ok_iff.mpr ⟨vs, hvs, rfl⟩

/-- The values of a dimension are those of its last member, and without one
they stay. The induction is from the end of the members, where the last one is. -/
theorem values_of_foldlM (h : members.foldlM readMember f = .ok g) (d : Dimension) :
    match members.reverse.lookup d.name with
    | some v => valuesOf d v = .ok (g.values d)
    | none => g.values d = f.values d := by
  induction members using List.reverseRecOn generalizing g with
  | nil =>
    rw [← Except.ok.inj h]
    rfl
  | append_singleton members m ih =>
    rw [List.foldlM_append] at h
    obtain ⟨g', hg', hlast⟩ := bind_eq_ok_iff.mp h
    rw [List.foldlM_cons] at hlast
    obtain ⟨_, hstep, hdone⟩ := bind_eq_ok_iff.mp hlast
    obtain rfl := Except.ok.inj hdone
    obtain ⟨e, vs, hname, hvs, rfl⟩ := readMember_eq_ok_iff.mp hstep
    rw [List.reverse_append, List.reverse_singleton, List.singleton_append, ← Prod.mk.eta (p := m),
      List.lookup_cons, hname, values_set]
    -- The last member is for this dimension, or for another one and then the values are older.
    by_cases hde : d = e
    · subst hde
      simpa using hvs
    · have hother : (d.name == e.name) = false := by
        rw [beq_eq_false_iff_ne]
        cases d <;> cases e <;> simp_all [Dimension.name]
      rw [hother, if_neg (Ne.symm hde)]
      exact ih hg'

/-- The values of a filter that was read are what the mentioned texts leave. A
dimension that the filter does not name has none. -/
theorem mem_values_of_ofJson (h : ofJson raw = .ok f) (d : Dimension) :
    t ∈ f.values d ↔ ∃ s, Mentions raw d s ∧ ¬ Blank s ∧ t = trim s := by
  have hvalues : match entry? raw d with
      | some v => valuesOf d v = .ok (f.values d)
      | none => f.values d = [] := by
    -- Where there is no object there are no members, and the filter has no values.
    have hany : f = any → f.values d = [] := by
      rintro rfl
      exact values_any d
    match raw, h with
    | none, h | some .null, h => exact hany (Except.ok.inj h).symm
    | some (.object members), h =>
      have hread := values_of_foldlM h d
      rwa [values_any] at hread
    | some (.bool _), h | some (.number _), h | some (.string _), h | some (.array _), h => cases h
  cases hentry : entry? raw d with
  | none =>
    rw [hentry] at hvalues
    rw [show f.values d = [] from hvalues]
    refine iff_of_false List.not_mem_nil ?_
    rintro ⟨s, ⟨v, hv, -⟩, -⟩
    cases hentry.symm.trans hv
  | some v =>
    rw [hentry] at hvalues
    rw [mem_valuesOf hvalues, Yields]
    simp [Mentions, hentry]

/-- A context passes when it has a value of every dimension that has some. The
other dimensions are open, whether the context has a value there or not. -/
theorem accepts_iff {c : Context} :
    f.accepts c = true ↔ ∀ d, f.values d = [] ∨ ∃ v, c.value d = some v ∧ v ∈ f.values d := by
  rw [accepts, List.all_eq_true]
  constructor
  · intro h d
    have hd := h d (by cases d <;> decide)
    rw [Bool.or_eq_true, List.isEmpty_iff] at hd
    refine hd.imp_right fun hlisted => ?_
    -- Without a value in the dimension the context meets no list.
    cases hv : c.value d with
    | none =>
      rw [hv] at hlisted
      cases hlisted
    | some v =>
      rw [hv] at hlisted
      exact ⟨v, rfl, List.contains_iff_mem.mp hlisted⟩
  · intro h d _
    rw [Bool.or_eq_true, List.isEmpty_iff]
    refine (h d).imp_right ?_
    rintro ⟨v, hv, hlisted⟩
    rw [hv]
    exact List.contains_iff_mem.mpr hlisted

/-- The contexts that pass a filter, once they are normalised, are those that
the raw filter and the raw context meet in. -/
theorem accepts_normalized_iff (h : ofJson raw = .ok f) (c : Context) :
    f.accepts c.normalized = true ↔ Meets raw c := by
  rw [accepts_iff, Meets]
  refine forall_congr' fun d => ?_
  -- The dimension is filtered when a mentioned text leaves something.
  have hfiltered : f.values d = [] ↔ ¬ ∃ s, Mentions raw d s ∧ ¬ Blank s := by
    rw [List.eq_nil_iff_forall_not_mem]
    simp only [mem_values_of_ofJson h]
    constructor
    · rintro hnone ⟨s, hs, hblank⟩
      exact hnone (trim s) ⟨s, hs, hblank, rfl⟩
    · rintro hnone t ⟨s, hs, hblank, -⟩
      exact hnone ⟨s, hs, hblank⟩
  have hsupplied : (∃ t, c.normalized.value d = some t ∧ t ∈ f.values d) ↔
      ∃ v, c.value d = some v ∧ ¬ Blank v ∧ ∃ s, Mentions raw d s ∧ trim v = trim s := by
    simp only [Context.normalized, Context.value_ofValues, Option.bind_eq_some_iff,
      nonBlank?_eq_some_iff, mem_values_of_ofJson h]
    constructor
    · rintro ⟨_, ⟨v, hv, hblank, rfl⟩, s, hs, -, htrim⟩
      exact ⟨v, hv, hblank, s, hs, htrim⟩
    · rintro ⟨v, hv, hblank, s, hs, htrim⟩
      refine ⟨trim v, ⟨v, hv, hblank, rfl⟩, s, hs, fun hs => hblank ?_, htrim⟩
      rw [← trim_eq_empty_iff, htrim]
      exact trim_eq_empty_iff.mpr hs
  rw [hfiltered, hsupplied, ← imp_iff_not_or]

/-! ### Ways of writing the same -/

/-- Another way of writing the values of a dimension, within the limit on how
many there may be. What is said of the first value holds of every one, since
they may be reordered. -/
inductive Rewritten : Json → Json → Prop where
  | reordered {items items' : List Json} : items.Perm items' →
      Rewritten (.array items) (.array items')
  | repeated {v : Json} {items : List Json} : v ∈ items → items.length < maxFilterValues →
      Rewritten (.array items) (.array (v :: items))
  | padded {before s after : String} {rest : List Json} : Blank before → Blank after →
      Rewritten (.array (.string s :: rest)) (.array (.string (before ++ s ++ after) :: rest))
  | blankAdded {s : String} {items : List Json} : Blank s → items.length < maxFilterValues →
      Rewritten (.array items) (.array (.string s :: items))
  | bare {s : String} : Rewritten (.array [.string s]) (.string s)
  | nothing : Rewritten (.array []) .null

/-- Another way of writing a filter: the same members, with the values of each
written in other ways. -/
inductive Respelled : Option Json → Option Json → Prop where
  | same (raw : Option Json) : Respelled raw raw
  | object {members members' : List (String × Json)} :
      List.Forall₂ (fun m m' => m.1 = m'.1 ∧ Relation.EqvGen Rewritten m.2 m'.2) members members' →
      Respelled (some (.object members)) (some (.object members'))

/-- Whether a text can be listed depends on what is left of it between the
blanks. -/
theorem lists_iff_of_trim_eq {s s' : String} (h : trim s = trim s') :
    Lists (.string s) ↔ Lists (.string s') := by
  have hcongr : ∀ {s s' : String}, trim s = trim s' → Lists (.string s) → Lists (.string s') := by
    rintro s s' h ⟨hshort, hprintable⟩
    rw [h] at hshort hprintable
    exact .text hshort hprintable
  exact ⟨hcongr h, hcongr h.symm⟩

/-- A blank text can be listed. It adds no value, but it is not refused. -/
theorem lists_of_blank {s : String} (h : Blank s) : Lists (.string s) := by
  have hempty := trim_eq_empty_iff.mpr h
  refine .text ?_ fun c hc => ?_
  · rw [hempty]
    exact Nat.zero_le _
  · rw [hempty] at hc
    cases hc

/-- A list is accepted when it is short and each of its items can be listed. A
list in a list cannot, so there is one way only to accept one. -/
theorem accepts_array {items : List Json} :
    Accepts (.array items) ↔ items.length ≤ maxFilterValues ∧ ∀ v ∈ items, Lists v := by
  constructor
  · intro h
    cases h with
    | single h => cases h
    | list hfew hitems => exact ⟨hfew, hitems⟩
  · rintro ⟨hfew, hitems⟩
    exact .list hfew hitems

/-- Both ways can be read, or neither can. The bound on the number of items is
why a repetition needs room. -/
theorem Rewritten.accepts_iff (h : Rewritten v v') : Accepts v ↔ Accepts v' := by
  cases h with
  | reordered hperm =>
    rw [accepts_array, accepts_array, hperm.length_eq]
    simp only [hperm.mem_iff]
  -- A repeated item is refused only if there is no room for one more.
  | repeated hmem hroom =>
    rw [accepts_array, accepts_array, List.forall_mem_cons, List.length_cons]
    constructor
    · rintro ⟨-, hitems⟩
      exact ⟨hroom, hitems _ hmem, hitems⟩
    · rintro ⟨-, -, hitems⟩
      exact ⟨Nat.le_of_lt hroom, hitems⟩
  | @padded before s after rest hbefore hafter =>
    rw [accepts_array, accepts_array, List.forall_mem_cons, List.forall_mem_cons,
      lists_iff_of_trim_eq (trim_padded s hbefore hafter)]
    rfl
  | blankAdded hblank hroom =>
    rw [accepts_array, accepts_array, List.forall_mem_cons, List.length_cons]
    constructor
    · rintro ⟨-, hitems⟩
      exact ⟨hroom, lists_of_blank hblank, hitems⟩
    · rintro ⟨-, -, hitems⟩
      exact ⟨Nat.le_of_lt hroom, hitems⟩
  | bare =>
    rw [accepts_array, List.forall_mem_singleton]
    constructor
    · rintro ⟨-, h⟩
      exact .single h
    · intro h
      cases h with
      | single h => exact ⟨by show 1 ≤ maxFilterValues; decide, h⟩
  | nothing => exact iff_of_true (accepts_array.mpr ⟨by decide, nofun⟩) .null

/-- Both ways leave the same texts. Reading sorts what is left and drops
repetitions, so the values are the same as well. -/
theorem Rewritten.yields_iff (h : Rewritten v v') (t : String) : Yields v t ↔ Yields v' t := by
  cases h with
  | reordered hperm =>
    rw [yields_array, yields_array]
    simp only [hperm.mem_iff]
  -- What the repeated item leaves is left by the other occurrence as well.
  | repeated hmem =>
    rw [yields_array, yields_array, List.exists_mem_cons_iff]
    constructor
    · exact .inr
    · rintro (h | h)
      · exact ⟨_, hmem, h⟩
      · exact h
  | @padded before s after rest hbefore hafter =>
    have hpadded := trim_padded s hbefore hafter
    have hblank : Blank (before ++ s ++ after) ↔ Blank s := by
      rw [← trim_eq_empty_iff, hpadded, trim_eq_empty_iff]
    rw [yields_array, yields_array, List.exists_mem_cons_iff, List.exists_mem_cons_iff]
    simp [hblank, hpadded]
  | blankAdded hblank =>
    rw [yields_array, yields_array, List.exists_mem_cons_iff]
    simp [hblank]
  | bare => simp [yields_array, yields_single]
  | nothing =>
    rw [yields_array]
    refine iff_of_false (by simp) ?_
    rintro ⟨_, ⟨⟩, -⟩

/-- Values that are written in other ways are read alike. Ways of writing may be
combined, one after the other and in both directions. -/
theorem valuesOf_of_rewritten (h : Relation.EqvGen Rewritten v v') :
    valuesOf d v = .ok vs ↔ valuesOf d v' = .ok vs := by
  induction h with
  | rel v v' h =>
    rw [valuesOf_eq_ok_iff, valuesOf_eq_ok_iff, h.accepts_iff]
    simp only [h.yields_iff]
  | refl => exact Iff.rfl
  | symm _ _ _ ih => exact ih.symm
  | trans _ _ _ _ _ ih ih' => exact ih.trans ih'

/-- Filters that are written in other ways are read alike. The members are
compared one by one, under the same names. -/
theorem Respelled.ofJson_eq_ok_iff (h : Respelled raw raw') :
    ofJson raw = .ok f ↔ ofJson raw' = .ok f := by
  cases h with
  | same => exact Iff.rfl
  | @object members members' h =>
    rw [ofJson_object, ofJson_object]
    -- The members are gone through side by side, from the same filter.
    generalize any = start
    induction h generalizing start with
    | nil => exact Iff.rfl
    | @cons m m' members members' hm _ ih =>
      have hstep : ∀ g, readMember start m = .ok g ↔ readMember start m' = .ok g := by
        intro g
        rw [readMember_eq_ok_iff, readMember_eq_ok_iff, hm.1]
        simp only [valuesOf_of_rewritten hm.2]
      rw [List.foldlM_cons, List.foldlM_cons, bind_eq_ok_iff, bind_eq_ok_iff]
      simp only [hstep, ih]

end Filter

/-! ### Rules -/

open Overrides.Filter

/-- **A rule is eligible where its filter meets the context.** Read the filter of
an enabled rule from whatever raw value, and normalise whatever raw context.
The rule is eligible exactly if, in every dimension for which the value lists a
text that is not blank, the context has a text that is not blank and trims like
one of the listed ones. Normalising the context again changes nothing. The
filter is the same when the value lists its texts in another order, repeatedly,
with blanks around or between them, or a single text without a list, and when
the filter is written and read back, alone or as a part of the rule. -/
theorem eligible_where_filter_meets_context {raw : Option Json} {r : Rule}
    (henabled : r.content.enabled = true) (hread : Filter.ofJson raw = .ok r.content.filter) :
    (∀ (rules : List Rule) (appVersion featureKey networkState : Option String), r ∈ rules →
      (r ∈ eligible rules (Context.ofRaw appVersion featureKey networkState) ↔
        Meets raw ⟨appVersion, featureKey, networkState⟩)) ∧
    (∀ (rules : List Rule) (appVersion featureKey networkState : Option String),
      eligible rules (Context.ofRaw appVersion featureKey networkState).normalized
        = eligible rules (Context.ofRaw appVersion featureKey networkState)) ∧
    (∀ raw', Respelled raw raw' → Filter.ofJson raw' = .ok r.content.filter) ∧
    Filter.ofJson (some r.content.filter.toJson) = .ok r.content.filter ∧
    Filter.ofJson (some r.content.filterJson) = .ok r.content.filter := by
  have hvalid := Filter.valid_of_ofJson hread
  refine ⟨fun rules a b c hr => ?_, fun rules a b c => ?_,
    fun raw' h => h.ofJson_eq_ok_iff.mp hread, Filter.ofJson_toJson hvalid, ?_⟩
  · rw [eligible, List.mem_filter, Context.ofRaw, henabled, Bool.true_and,
      accepts_normalized_iff hread]
    exact and_iff_right hr
  · rw [Context.ofRaw, Context.normalized_normalized]
  -- The filter without conditions is written as `null`, which is read as that filter.
  · rw [Content.filterJson]
    split
    · rename_i huncond
      rw [Filter.eq_any_of_isUnconditional huncond]
      rfl
    · exact Filter.ofJson_toJson hvalid

/-- A filter that is written with blanks, with a repetition and with an empty text. -/
def spacedFilter : Json :=
  .object [("app_version", .null),
    ("network_state", .array [.string " slow ", .string "", .string "slow"])]

/-- A rule with this filter. -/
def slowRule : Rule where
  content := ⟨⟨"slow"⟩, true, 0, ⟨[], [], ["slow"]⟩, .ofFn .media fun _ => none⟩
  revision := 1
  createdAt := ⟨0, 0⟩
  updatedAt := ⟨0, 0⟩
  createdBy := none
  updatedBy := none

/-- The rule is eligible for a slow client of any version, and not for one that
says nothing of its network. -/
theorem slowRule_where_slow :
    Filter.ofJson (some spacedFilter) = .ok slowRule.content.filter ∧
    Meets (some spacedFilter) ⟨some "2.3.0", none, some "slow\t"⟩ ∧
    ¬ Meets (some spacedFilter) ⟨some "2.3.0", none, some " "⟩ ∧
    Filter.ofJson (some slowRule.content.filterJson) = .ok slowRule.content.filter := by
  have hread : Filter.ofJson (some spacedFilter) = .ok slowRule.content.filter := by
    decide
  have hself : slowRule ∈ [slowRule] := List.mem_singleton_self _
  obtain ⟨hmeets, -, -, -, hwire⟩ := eligible_where_filter_meets_context rfl hread
  refine ⟨hread, ?_, fun h => ?_, hwire⟩
  · refine (hmeets _ _ _ _ hself).mp (List.mem_filter.mpr ⟨hself, ?_⟩)
    decide
  · have hpasses := (List.mem_filter.mp ((hmeets _ _ _ _ hself).mpr h)).2
    exact absurd hpasses (by decide)

end Overrides
