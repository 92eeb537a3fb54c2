import Mathlib.Data.Nat.Digits.Defs
import Overrides.Proofs.Rule.Wire

/-!
# `Overrides.Proofs.Rule.Grammar`: which drafts are accepted

Validation goes through a draft part by part and stops at the first fault.
`Draft.Grammatical` says what a draft has to look like, each part for itself,
and without saying how it is read. A draft is accepted exactly when it looks
like that. Names are taken strictly there and values leniently, so no value in
the action of a draft makes a difference, and neither does the flag.

* `Draft.Spells`: how an integer is spelled.
* `Draft.integer?_eq_some_iff`: the texts that are read as one of 64 bits.
* `Draft.priorityOf_eq_ok_iff`, `Filter.exists_ofJson_iff`,
  `Action.exists_ofJson_iff`: the parts.
* `validation_accepts_exactly_grammatical`: the whole draft.
-/

set_option autoImplicit false

namespace Overrides

open Overrides.Text Overrides.Number

/-! ### Priorities -/

namespace Draft

/-- Digits, one at least. -/
def Digits (ds : List Char) : Prop := ds ≠ [] ∧ ∀ c ∈ ds, c.isDigit = true

/-- The number that digits stand for, the last one counting the ones. -/
def decimal (ds : List Char) : Nat := Nat.ofDigits 10 (ds.map fun c => c.toNat - '0'.toNat).reverse

/-- The characters spell the integer: digits, perhaps with a sign in front of
them, and nothing else. -/
inductive Spells : List Char → Int → Prop where
  | plain {ds : List Char} : Digits ds → Spells ds (decimal ds)
  | plus {ds : List Char} : Digits ds → Spells ('+' :: ds) (decimal ds)
  | minus {ds : List Char} : Digits ds → Spells ('-' :: ds) (-(decimal ds : Int))

/-- The value that the loop computes from the front is the value of the digits
in base ten. The library counts from the other end, hence the reversal. -/
theorem digitsValue_eq_ofDigits (ds : List Nat) : digitsValue ds = Nat.ofDigits 10 ds.reverse := by
  rw [digitsValue, Nat.ofDigits_eq_foldr, List.foldr_reverse]
  congr 1
  funext n d
  rw [Nat.cast_id]
  omega

/-- What the parser checks first is that there is a digit and nothing else. -/
theorem digits_iff {ds : List Char} :
    (ds.isEmpty || !ds.all Char.isDigit) = false ↔ Digits ds := by
  rw [Bool.or_eq_false_iff, Bool.not_eq_false', List.all_eq_true, List.isEmpty_eq_false_iff]
  rfl

/-- No digit is a sign. -/
theorem Digits.head_ne {c : Char} {ds : List Char} (h : Digits (c :: ds)) : c ≠ '-' ∧ c ≠ '+' := by
  have hc := h.2 c (List.mem_cons_self ..)
  constructor <;> rintro rfl <;> exact absurd hc (by decide)

/-- The integer has 64 bits, one of them for its sign. -/
def FitsInt64 (n : Int) : Prop := -9223372036854775808 ≤ n ∧ n ≤ 9223372036854775807

/-- What is read behind the sign. -/
def signed? (negative : Bool) (ds : List Char) : Option Int :=
  if ds.isEmpty || !ds.all Char.isDigit then none
  else
    let n := digitsValue (ds.map fun c => c.toNat - '0'.toNat)
    if negative then (if n ≤ maxInt64 + 1 then some (Int.negOfNat n) else none)
    else (if n ≤ maxInt64 then some n else none)

/-- A signed number is parsed when its digits are digits and its value fits into
64 bits. The negative bound is one further out than the positive one. -/
theorem signed?_eq_some_iff {negative : Bool} {ds : List Char} {n : Int} :
    signed? negative ds = some n ↔
      Digits ds ∧ n = (if negative then -(decimal ds : Int) else decimal ds) ∧ FitsInt64 n := by
  have hbound : maxInt64 = 9223372036854775807 := rfl
  rw [signed?, ← digits_iff, digitsValue_eq_ofDigits, ← decimal, FitsInt64, hbound]
  -- Only the value matters from here on, not the digits it came from.
  generalize decimal ds = m
  cases (ds.isEmpty || !ds.all Char.isDigit) with
  | true => simp
  | false =>
    cases negative with
    | true =>
      simp only [Bool.false_eq_true, if_false, if_true, Option.ite_none_right_eq_some,
        Option.some.injEq, Int.negOfNat_eq, Int.ofNat_eq_natCast, true_and]
      omega
    | false =>
      simp only [Bool.false_eq_true, if_false, Option.ite_none_right_eq_some, Option.some.injEq,
        true_and]
      omega

/-- A text is read as an integer of 64 bits when it spells one. The sign is
optional, and behind it there are digits to the end. -/
theorem integer?_eq_some_iff {text : String} {n : Int} :
    integer? text = some n ↔ Spells text.toList n ∧ FitsInt64 n := by
  rw [integer?]
  generalize text.toList = cs
  split
  rename_i negative ds hsplit
  show signed? negative ds = some n ↔ _
  rw [signed?_eq_some_iff]
  -- The sign is looked for first, and what is behind it has to be digits.
  split at hsplit
  · obtain ⟨rfl, rfl⟩ := Prod.mk.inj hsplit
    constructor
    · rintro ⟨hds, rfl, hfits⟩
      exact ⟨.minus hds, hfits⟩
    · rintro ⟨hspells, hfits⟩
      cases hspells with
      | plain hds => exact absurd rfl hds.head_ne.1
      | minus hds => exact ⟨hds, rfl, hfits⟩
  · obtain ⟨rfl, rfl⟩ := Prod.mk.inj hsplit
    constructor
    · rintro ⟨hds, rfl, hfits⟩
      exact ⟨.plus hds, hfits⟩
    · rintro ⟨hspells, hfits⟩
      cases hspells with
      | plain hds => exact absurd rfl hds.head_ne.2
      | plus hds => exact ⟨hds, rfl, hfits⟩
  · rename_i hminus hplus
    obtain ⟨rfl, rfl⟩ := Prod.mk.inj hsplit
    constructor
    · rintro ⟨hds, rfl, hfits⟩
      exact ⟨.plain hds, hfits⟩
    · rintro ⟨hspells, hfits⟩
      cases hspells with
      | plain hds => exact ⟨hds, rfl, hfits⟩
      | plus _ => exact absurd rfl (hplus _)
      | minus _ => exact absurd rfl (hminus _)

/-- The value stands for the priority; nothing and `null` stand for zero. A text
may have blanks around the number and a sign in front of it, and a double stands
for none. -/
inductive StandsForPriority : Option Json → Nat → Prop where
  | absent : StandsForPriority none 0
  | null : StandsForPriority (some .null) 0
  | integer {n : Nat} : n ≤ maxPriority → StandsForPriority (some (.number (.integer n))) n
  | text {s : String} {n : Nat} : Spells (trim s).toList n → n ≤ maxPriority →
      StandsForPriority (some (.string s)) n

/-- What is checked of the integer of a priority. -/
def checkPriority (n : Int) : Except PriorityFault UInt32 :=
  if n < 0 then .error (.negative n)
  else if (maxPriority : Int) < n then .error (.tooLarge n)
  else .ok (UInt32.ofNat n.toNat)

/-- The check accepts the 32-bit numbers and keeps them as they are. -/
theorem checkPriority_eq_ok_iff {n : Int} {p : UInt32} :
    checkPriority n = .ok p ↔ n = p.toNat := by
  have hbound : maxPriority = 4294967295 := rfl
  have hp := p.toNat_lt
  rw [checkPriority, hbound, ite_error_eq_ok_iff, ite_error_eq_ok_iff, Except.ok.injEq,
    ← UInt32.toNat_inj, UInt32.toNat_ofNat']
  omega

/-- The integer of a priority is written as a number or spelled by a text. A
number beyond 64 bits is refused here, before the range of priorities is looked
at. -/
theorem priorityInteger_eq_ok_iff {v : Json} {n : Int} :
    priorityInteger v = .ok n ↔ (v = .number (.integer n) ∧ n ≤ maxInt64) ∨
      ∃ s, v = .string s ∧ integer? (trim s) = some n := by
  cases v with
  | number x =>
    cases x with
    -- A number that is not an integer is refused, even if its value is one.
    | double x => exact iff_of_false (fun h => nomatch h) (by simp)
    | integer m =>
      rw [priorityInteger, Json.number.injEq, Json.Number.integer.injEq]
      split
      · rename_i hm
        rw [Except.ok.injEq]
        constructor
        · rintro rfl
          exact .inl ⟨rfl, hm⟩
        · rintro (⟨rfl, -⟩ | ⟨_, h, -⟩)
          · rfl
          · exact nomatch h
      · rename_i hm
        refine iff_of_false (fun h => nomatch h) ?_
        rintro (⟨rfl, hle⟩ | ⟨_, h, -⟩)
        · exact hm hle
        · exact nomatch h
  | string s =>
    rw [priorityInteger]
    cases hread : integer? (trim s) with
    | none => exact iff_of_false (fun h => nomatch h) (by simp [hread])
    | some m => simp [hread]
  | _ => exact iff_of_false (fun h => nomatch h) (by simp)

/-- A priority that is there and is not `null` is read in two steps, the integer
and its check. -/
theorem priorityOf_some {v : Json} (h : v ≠ .null) :
    priorityOf (some v) = priorityInteger v >>= checkPriority := by
  cases v with
  | null => exact absurd rfl h
  | _ => rfl

/-- Once the integer is known the check alone decides. -/
theorem priorityOf_of_integer {v : Json} {n : Int} (h : priorityInteger v = .ok n) :
    priorityOf (some v) = checkPriority n := by
  have hv : v ≠ .null := by
    rintro rfl
    exact nomatch h
  rw [priorityOf_some hv, h, ok_bind]

/-- A priority is read from what stands for one, and from nothing else. The
grammar has one rule for each of the four forms, and these are the cases of the
proof. -/
theorem priorityOf_eq_ok_iff {v : Option Json} {p : UInt32} :
    priorityOf v = .ok p ↔ StandsForPriority v p.toNat := by
  have hp : p.toNat ≤ maxPriority := Nat.le_of_lt_succ p.toNat_lt
  constructor
  · intro h
    rcases v with _ | v
    · rw [← Except.ok.inj h]
      exact .absent
    by_cases hnull : v = .null
    · subst hnull
      rw [← Except.ok.inj h]
      exact .null
    rw [priorityOf_some hnull] at h
    obtain ⟨n, hread, hcheck⟩ := bind_eq_ok_iff.mp h
    obtain rfl := checkPriority_eq_ok_iff.mp hcheck
    obtain ⟨rfl, -⟩ | ⟨s, rfl, hs⟩ := priorityInteger_eq_ok_iff.mp hread
    · exact .integer hp
    · exact .text (integer?_eq_some_iff.mp hs).1 hp
  · intro h
    -- What is in the range of priorities has 64 bits.
    have hbound : maxPriority = 4294967295 := rfl
    have hint : maxInt64 = 9223372036854775807 := rfl
    generalize hn : p.toNat = n at h hp
    have hzero : n = 0 → p = 0 := fun h => UInt32.toNat_inj.mp (hn.trans h)
    cases h with
    | absent => exact congrArg Except.ok (hzero rfl).symm
    | null => exact congrArg Except.ok (hzero rfl).symm
    | integer hle =>
      rw [priorityOf_of_integer (priorityInteger_eq_ok_iff.mpr (.inl ⟨rfl, by omega⟩)),
        checkPriority_eq_ok_iff, hn]
    | @text s _ hspells hle =>
      have hread := integer?_eq_some_iff.mpr ⟨hspells, ⟨by omega, by omega⟩⟩
      rw [priorityOf_of_integer (priorityInteger_eq_ok_iff.mpr (.inr ⟨s, rfl, hread⟩)),
        checkPriority_eq_ok_iff, hn]

/-- A priority can be read from what stands for one. That it is the priority
which is stood for is `priorityOf_eq_ok_iff`; the number fits its word since it
is within the limit. -/
theorem exists_priorityOf_iff {v : Option Json} :
    (∃ p, priorityOf v = .ok p) ↔ ∃ n, StandsForPriority v n := by
  constructor
  · rintro ⟨p, hp⟩
    exact ⟨_, priorityOf_eq_ok_iff.mp hp⟩
  · rintro ⟨n, hn⟩
    have hle : n ≤ maxPriority := by
      cases hn with
      | absent | null => exact Nat.zero_le _
      | integer hle | text _ hle => exact hle
    refine ⟨UInt32.ofNat n, priorityOf_eq_ok_iff.mpr ?_⟩
    rwa [UInt32.toNat_ofNat_of_lt' (Nat.lt_succ_of_le hle)]

end Draft

/-! ### Filters -/

namespace Filter

/-- The value is a text that a filter may list: once it is trimmed, it is not
too long and has no control character. -/
inductive Lists : Json → Prop where
  | text {s : String} : (trim s).utf8ByteSize ≤ maxFilterValueBytes →
      (∀ c ∈ (trim s).toList, isControl c = false) → Lists (.string s)

/-- The value says which texts a dimension accepts: none at all, a single one,
or a list of few. -/
inductive Accepts : Json → Prop where
  | null : Accepts .null
  | single {v : Json} : Lists v → Accepts v
  | list {items : List Json} : items.length ≤ maxFilterValues → (∀ v ∈ items, Lists v) →
      Accepts (.array items)

/-- The value describes a filter: nothing, or members named for dimensions. The
values of one dimension do not depend on those of another. -/
inductive Describes : Option Json → Prop where
  | absent : Describes none
  | null : Describes (some .null)
  | object {members : List (String × Json)} :
      (∀ m ∈ members, (∃ d : Dimension, d.name = m.1) ∧ Accepts m.2) →
      Describes (some (.object members))

variable {d : Dimension} {v : Json}

/-- Whether a value can be listed does not depend on the values listed before
it. -/
theorem exists_addValue_iff {vs : List String} :
    (∃ vs', addValue d vs v = .ok vs') ↔ Lists v := by
  constructor
  · rintro ⟨vs', h⟩
    obtain ⟨s, rfl, hshort, hprintable, -⟩ := addValue_eq_ok h
    exact .text hshort fun c hc => by simpa using List.any_eq_false.mp hprintable c hc
  · rintro @⟨s, hshort, hprintable⟩
    have hnone : ¬ (trim s).toList.any isControl = true := by
      rw [Bool.not_eq_true, List.any_eq_false]
      intro c hc
      rw [hprintable c hc]
      exact Bool.false_ne_true
    -- Short and printable: both refusals are passed by.
    rw [addValue, if_neg (Nat.not_lt_of_le hshort), if_neg hnone]
    exact ⟨_, rfl⟩

/-- Whether the values of a dimension can be read is a matter of each of them
and, for a list, of how many there are. -/
theorem exists_valuesOf_iff : (∃ vs, valuesOf d v = .ok vs) ↔ Accepts v := by
  -- A value that is neither `null` nor a list is read as the only one.
  have hsingle : ∀ v, (∀ items, v ≠ .array items) → v ≠ .null →
      ((∃ vs, addValue d [] v = .ok vs) ↔ Accepts v) := by
    intro v harray hnull
    rw [exists_addValue_iff]
    constructor
    · exact .single
    · intro h
      cases h with
      | null => exact absurd rfl hnull
      | single h => exact h
      | list => exact absurd rfl (harray _)
  cases v with
  | null => exact iff_of_true ⟨[], rfl⟩ .null
  | array items =>
    rw [valuesOf]
    split
    -- Too many: only the rule for lists could accept the value, and it asks for few.
    · rename_i hmany
      refine iff_of_false not_exists_ok fun h => ?_
      cases h with
      | single h => cases h
      | list hfew => exact absurd hfew (Nat.not_le_of_lt hmany)
    · rename_i hfew
      have hitems : (∃ vs, items.foldlM (addValue d) [] = .ok vs) ↔ ∀ v ∈ items, Lists v := by
        refine exists_foldlM_eq_ok_iff fun vs v => ?_
        exact exists_addValue_iff
      rw [hitems]
      constructor
      · exact .list (Nat.le_of_not_lt hfew)
      · intro h
        cases h with
        | single h => cases h
        | list _ hitems => exact hitems
  | bool b => exact hsingle (.bool b) (by rintro _ ⟨⟩) (by rintro ⟨⟩)
  | number n => exact hsingle (.number n) (by rintro _ ⟨⟩) (by rintro ⟨⟩)
  | string s => exact hsingle (.string s) (by rintro _ ⟨⟩) (by rintro ⟨⟩)
  | object members => exact hsingle (.object members) (by rintro _ ⟨⟩) (by rintro ⟨⟩)

/-- A member is read where it is named for a dimension and its value can be.
What was read before it does not matter. -/
theorem exists_readMember_iff {f : Filter} {m : String × Json} :
    (∃ f', readMember f m = .ok f') ↔ (∃ d : Dimension, d.name = m.1) ∧ Accepts m.2 := by
  rw [readMember]
  constructor
  · rintro ⟨f', h⟩
    split at h
    · rename_i d hd
      obtain ⟨vs, hvs, -⟩ := bind_eq_ok_iff.mp h
      exact ⟨⟨d, by simpa using List.find?_some hd⟩, exists_valuesOf_iff.mp ⟨vs, hvs⟩⟩
    · cases h
  · rintro ⟨⟨d, hd⟩, haccepts⟩
    obtain ⟨vs, hvs⟩ := exists_valuesOf_iff.mpr haccepts
    rw [← hd, Dimension.ofName?_name]
    exact ⟨f.set d vs, bind_eq_ok_iff.mpr ⟨vs, hvs, rfl⟩⟩

/-- A filter can be read from what describes one. The members are folded one by
one, and whether each can be read does not depend on those before it. -/
theorem exists_ofJson_iff {v : Option Json} : (∃ f, ofJson v = .ok f) ↔ Describes v := by
  rcases v with _ | v
  · exact iff_of_true ⟨_, rfl⟩ .absent
  cases v with
  | null => exact iff_of_true ⟨_, rfl⟩ .null
  | object members =>
    have hmembers : (∃ f, ofJson (some (.object members)) = .ok f) ↔
        ∀ m ∈ members, (∃ d : Dimension, d.name = m.1) ∧ Accepts m.2 := by
      rw [ofJson_object]
      refine exists_foldlM_eq_ok_iff fun f m => ?_
      exact exists_readMember_iff
    rw [hmembers]
    constructor
    · exact .object
    · intro h
      cases h with
      | object h => exact h
  | bool _ | number _ | string _ | array _ => exact iff_of_false not_exists_ok (by rintro ⟨⟩)

end Filter

/-! ### Actions -/

namespace Action

/-- The value describes an action of the scope: nothing, or members named for
fields of the scope. Their values may be any. -/
inductive Describes (scope : Scope) : Option Json → Prop where
  | absent : Describes scope none
  | null : Describes scope (some .null)
  | object {members : List (String × Json)} :
      (∀ m ∈ members, ∃ f : Field, f.scope = scope ∧ f.name = m.1) →
      Describes scope (some (.object members))

variable {scope : Scope}

/-- An action can be read from what describes one of the scope. Values make no
difference: what has no meaning for a field sets nothing and is no fault. -/
theorem exists_ofJson_iff {v : Option Json} :
    (∃ a, ofJson scope v = .ok a) ↔ Describes scope v := by
  rcases v with _ | v
  · exact iff_of_true ⟨_, rfl⟩ .absent
  cases v with
  | null => exact iff_of_true ⟨_, rfl⟩ .null
  | object members =>
    rw [ofJson_object]
    constructor
    · rintro ⟨a, h⟩
      split at h
      · cases h
      · rename_i hknown
        exact .object (unknownMember?_eq_none_iff.mp hknown)
    · intro h
      cases h with
      | object h =>
        rw [unknownMember?_eq_none_iff.mpr h]
        exact ⟨_, rfl⟩
  | bool _ | number _ | string _ | array _ => exact iff_of_false not_exists_ok (by rintro ⟨⟩)

/-- Both are the same, or both are members with the same names. Their values
may differ. -/
inductive SameNames : Option Json → Option Json → Prop where
  | same (v : Option Json) : SameNames v v
  | object {members members' : List (String × Json)} :
      members.map Prod.fst = members'.map Prod.fst →
      SameNames (some (.object members)) (some (.object members'))

/-- Names decide alone whether a value describes an action. So the values in an
action may be replaced by any others. -/
theorem SameNames.describes_iff {v w : Option Json} (h : SameNames v w) :
    Describes scope v ↔ Describes scope w := by
  cases h with
  | same => exact Iff.rfl
  | @object members members' hnames =>
    have hobject : ∀ ms : List (String × Json), Describes scope (some (.object ms)) ↔
        ∀ name ∈ ms.map Prod.fst, ∃ f : Field, f.scope = scope ∧ f.name = name := by
      intro ms
      rw [List.forall_mem_map]
      constructor
      · intro h
        cases h with
        | object h => exact h
      · exact .object
    rw [hobject, hobject, hnames]

end Action

/-! ### Drafts -/

namespace Draft

/-- What a draft has to look like. The conditions are on the texts and values as
they were submitted, and none of them mentions how they are read. -/
structure Grammatical (d : Draft) : Prop where
  key : 1 ≤ (trim d.ruleKey).utf8ByteSize ∧ (trim d.ruleKey).utf8ByteSize ≤ maxKeyBytes
  priority : ∃ n, StandsForPriority d.priority n
  filter : Filter.Describes d.filter
  /-- There is a scope of the given name, and the action is one of that scope. -/
  action : ∃ scope : Scope, scope.name = lowerAscii (trim d.scope) ∧
    Action.Describes scope d.action

/-- A draft is accepted when it looks like that. Validation stops at the first
part with a fault; whether there is one does not depend on the order. -/
theorem exists_validate_iff {d : Draft} : (∃ c, d.validate = .ok c) ↔ d.Grammatical := by
  constructor
  · rintro ⟨c, h⟩
    obtain ⟨hkey, hscope, hpriority, hfilter, haction, -⟩ := validate_eq_ok_iff.mp h
    exact ⟨(RuleKey.parse_eq_ok_iff.mp hkey).2, ⟨_, priorityOf_eq_ok_iff.mp hpriority⟩,
      Filter.exists_ofJson_iff.mp ⟨_, hfilter⟩, _, Scope.parse?_eq_some_iff.mp hscope,
      Action.exists_ofJson_iff.mp ⟨_, haction⟩⟩
  -- Each part of the grammar yields the part of the content that is read from it.
  · rintro ⟨hkey, hpriority, hfilter, scope, hscope, haction⟩
    have hkey : RuleKey.parse d.ruleKey = .ok ⟨trim d.ruleKey⟩ :=
      RuleKey.parse_eq_ok_iff.mpr ⟨rfl, hkey⟩
    obtain ⟨priority, hpriority⟩ := exists_priorityOf_iff.mpr hpriority
    obtain ⟨filter, hfilter⟩ := Filter.exists_ofJson_iff.mpr hfilter
    obtain ⟨action, haction⟩ := Action.exists_ofJson_iff.mpr haction
    obtain ⟨rfl, -⟩ := Action.valid_of_ofJson haction
    exact ⟨⟨⟨trim d.ruleKey⟩, d.enabled, priority, filter, action⟩, validate_eq_ok_iff.mpr
      ⟨hkey, Scope.parse?_eq_some_iff.mpr hscope, hpriority, hfilter, haction, rfl⟩⟩

end Draft

/-- The content is what the draft says, in normal form. The values of the action
are not tied to those of the draft here; what a submitted value is coerced to is
a matter of its own. -/
structure Content.Normalizes (c : Content) (d : Draft) : Prop where
  key : c.ruleKey.text = trim d.ruleKey
  enabled : c.enabled = d.enabled
  priority : Draft.StandsForPriority d.priority c.priority.toNat
  scope : c.action.scope.name = lowerAscii (trim d.scope)
  /-- Every limit is positive and no more than its ceiling. -/
  limits : ∀ (f : Field) (v : f.Value), c.action.value f = some v → f.kind.InRange v
  few : ∀ dimension, (c.filter.values dimension).length ≤ maxFilterValues
  values : ∀ dimension, ∀ s ∈ c.filter.values dimension,
    trim s = s ∧ s ≠ "" ∧ ∀ ch ∈ s.toList, isControl ch = false

/-- What is accepted is in normal form: the key is trimmed, the values of the
filter are trimmed and not empty, and the values of the action are in range. -/
theorem Content.normalizes_of_validate {d : Draft} {c : Content} (h : d.validate = .ok c) :
    c.Normalizes d := by
  have hvalid := Content.valid_of_validate h
  obtain ⟨hkey, hscope, hpriority, -, -, henabled⟩ := Draft.validate_eq_ok_iff.mp h
  refine ⟨(RuleKey.parse_eq_ok_iff.mp hkey).1, henabled.symm,
    Draft.priorityOf_eq_ok_iff.mp hpriority, Scope.parse?_eq_some_iff.mp hscope, hvalid.action,
    fun dimension => (hvalid.filter dimension).few, fun dimension s hs => ?_⟩
  have haccepted := (hvalid.filter dimension).accepted s hs
  refine ⟨(trim_eq_self_iff s).mpr haccepted.trimmed, ?_, fun ch hch => ?_⟩
  · rintro rfl
    exact absurd haccepted.nonempty (by decide)
  · simpa using List.any_eq_false.mp haccepted.printable ch hch

/-- **Validation accepts exactly its grammar.** A draft is accepted exactly when
its key has 1 to 128 bytes once it is trimmed, its scope is named up to blanks
and ASCII case, its priority stands for an integer from 0 to 4294967295, its
filter and its action are left out or have only members that are named for
dimensions and for fields of the scope, and the texts of the filter are few,
short and free of control characters. The flag of the draft and the values in
its action make no difference. What is accepted is kept in normal form. -/
theorem validation_accepts_exactly_grammatical (d : Draft) :
    ((∃ c, d.validate = .ok c) ↔ d.Grammatical) ∧
    (∀ (enabled : Bool) (action : Option Json), Action.SameNames d.action action →
      ((∃ c, { d with enabled := enabled, action := action }.validate = .ok c) ↔
        ∃ c, d.validate = .ok c)) ∧
    ∀ c, d.validate = .ok c → c.Normalizes d := by
  refine ⟨Draft.exists_validate_iff, fun enabled action hnames => ?_,
    fun c => Content.normalizes_of_validate⟩
  rw [Draft.exists_validate_iff, Draft.exists_validate_iff]
  -- The grammar reads the names of the action only, so the same proof goes both ways.
  constructor
  · rintro ⟨hkey, hpriority, hfilter, scope, hscope, haction⟩
    exact ⟨hkey, hpriority, hfilter, scope, hscope, hnames.describes_iff.mpr haction⟩
  · rintro ⟨hkey, hpriority, hfilter, scope, hscope, haction⟩
    exact ⟨hkey, hpriority, hfilter, scope, hscope, hnames.describes_iff.mp haction⟩

end Overrides
