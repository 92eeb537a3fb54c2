import Overrides.Proofs.Precedence.Scopes
import Overrides.Proofs.Rule.Content
import Overrides.Proofs.Rule.Wire
import Overrides.Proofs.Snapshot.Wire

/-!
# `Overrides.Proofs.Precedence.Sole`: what a rule does on its own

The fields that an action sets show in four places: in the names that it
gives, in its wire form, in the trace, and in the settings that come of it.
Each place has a list of fields of its own. Where a rule is the only eligible
one, it wins all that it sets, so the four have to say the same. In the settings
this is an object written over another one: `Json.overlay` puts the members of
the action in the place of the initial ones.

* `Action.fieldNames_of_ofJson`: the names that an action gives once it was read.
* `Action.perm_names_toJson`: the names in its wire form.
* `applied_sole`: the entry of a rule on its own.
* `scopeToJson_sole`: the settings that come of it, on the wire.
* `action_fields_agree`: all of it together.
-/

set_option autoImplicit false

namespace Overrides

open Resolved

/-! ### One object over another -/

namespace Json

/-- The object with the members of another one in the place of its own. Members
that only the other one has are not added, so nothing is hidden if it has too
many. -/
def overlay (base patch : Json) : Json :=
  match base with
  | .object members => .object (members.map fun m => (m.1, (patch.member? m.1).getD m.2))
  | other => other

variable {g : String × Json → String × Json}

/-- Where a member goes depends on its name only. So its value may be changed
before or after the insertion. -/
theorem insertMember_map (hg : ∀ m, (g m).1 = m.1) (m : String × Json)
    (members : List (String × Json)) :
    (insertMember m.1 m.2 members).map g = insertMember m.1 (g m).2 (members.map g) := by
  have hm : g m = (m.1, (g m).2) := Prod.ext (hg m) rfl
  induction members with
  | nil => exact congrArg (· :: []) hm
  | cons b members ih =>
    have hb : g b = (b.1, (g b).2) := Prod.ext (hg b) rfl
    rw [List.map_cons, hb, insertMember, insertMember]
    -- The new member goes in front, takes the place of the first one, or goes further.
    split
    · rw [List.map_cons, List.map_cons, ← hb]
      exact congrArg (· :: g b :: members.map g) hm
    · split
      · rw [List.map_cons]
        exact congrArg (· :: members.map g) hm
      · rw [List.map_cons, ih, ← hb]

/-- Members can be changed before they are put in order, if their names stay.
This is how the members of an action are laid over those of the initial object.
-/
theorem sortMembers_map (hg : ∀ m, (g m).1 = m.1) (members : List (String × Json)) :
    (sortMembers members).map g = sortMembers (members.map g) := by
  -- Said of any members that are in order already, as the fold has more of them at each step.
  have hfold : ∀ sorted : List (String × Json),
      (members.foldl (fun sorted m => insertMember m.1 m.2 sorted) sorted).map g
        = (members.map g).foldl (fun sorted m => insertMember m.1 m.2 sorted) (sorted.map g) := by
    induction members with
    | nil => exact fun _ => rfl
    | cons m members ih =>
      intro sorted
      rw [List.foldl_cons, ih, insertMember_map hg, List.map_cons, List.foldl_cons, hg m]
  exact hfold []

/-- Members can be replaced before they are put in order. -/
theorem overlay_sortMembers (members : List (String × Json)) (patch : Json) :
    (object (sortMembers members)).overlay patch
      = object (sortMembers (members.map fun m => (m.1, (patch.member? m.1).getD m.2))) := by
  rw [← sortMembers_map (g := fun m => (m.1, (patch.member? m.1).getD m.2)) fun _ => rfl, overlay]

/-- Where the names differ, none is lost and none is added by the order. -/
theorem perm_names_sortMembers {members : List (String × Json)}
    (h : (members.map Prod.fst).Nodup) :
    ((sortMembers members).map Prod.fst).Perm (members.map Prod.fst) := by
  have hsorted : ((sortMembers members).map Prod.fst).Nodup := by
    rw [List.Nodup, List.pairwise_map]
    exact (pairwise_sortMembers members).imp fun hlt => String.ne_of_lt hlt
  exact (List.perm_ext_iff_of_nodup hsorted h).mpr fun n => mem_names_sortMembers

end Json

/-! ### The fields of an action -/

namespace Action

/-- An action that was read sets the fields of the scope under whose name
something with a meaning was submitted, and names them in declaration order. -/
theorem fieldNames_of_ofJson {scope : Scope} {submitted : Option Json} {a : Action}
    (h : Action.ofJson scope submitted = .ok a) :
    a.fieldNames = ((Field.ofScope scope).filter fun f =>
      ((submitted.bind (Json.member? f.name)).bind f.kind.coerce).isSome).map Field.name := by
  rw [eq_ofMembers_of_ofJson h, fieldNames_eq, fields_eq]
  refine congrArg (List.map Field.name) (List.filter_congr fun f hf => ?_)
  have hscope : f.scope = scope := Field.mem_ofScope.mp hf
  rw [value_ofMembers, if_pos hscope]

/-- The names of what is set are among those that the scope allows, and stand in
the same order. -/
theorem fieldNames_sublist_declared (a : Action) : a.fieldNames.Sublist (declared a.scope) := by
  rw [fieldNames_eq, fields_eq, declared_eq]
  exact List.filter_sublist.map Field.name

/-- The members of the wire form are named as the action names what it sets. -/
theorem perm_names_toJson (a : Action) :
    ∃ members, a.toJson = .object members ∧ (members.map Prod.fst).Perm a.fieldNames := by
  refine ⟨_, rfl, ?_⟩
  rw [← map_fst_members]
  refine Json.perm_names_sortMembers ?_
  rw [map_fst_members]
  exact a.nodup_fieldNames

/-- What the wire form has under the name of a field. -/
theorem member?_toJson (a : Action) {f : Field} (h : f.scope = a.scope) :
    a.toJson.member? f.name = (a.value f).map f.kind.valueToJson := by
  rw [toJson_eq]
  exact a.lookup_toJson h

end Action

/-! ### The walk over one rule -/

namespace Resolved

variable {r : Rule} {f : Field}

/-- If no other rule requests safe mode, all that a rule sets is on offer. A
rule that switches safe mode off by itself does not request it, so it offers
that. -/
theorem offer_sole (r : Rule) (f : Field) :
    offer (requestsSafeMode r) r.content.action f = r.content.action.value f := by
  by_cases hf : f = .safeMode
  · subst hf
    cases hreq : requestsSafeMode r with
    | false => rfl
    | true =>
      have hon : r.content.action.value .safeMode = some true := by
        simpa [requestsSafeMode] using hreq
      rw [offer, if_pos rfl, hon]
      rfl
  · exact offer_of_ne hf _

/-- At the start no field has a winner. -/
theorem get_winners_start (f : Field) : start.winners.get f = none := Table.get_ofFn _ f

/-- A rule on its own wins all that it sets. -/
theorem won_sole (r : Rule) : won (requestsSafeMode r) start r = r.content.action.fields := by
  refine List.filter_congr fun f _ => ?_
  rw [get_winners_start, offer_sole]
  rfl

/-- One rule needs no sorting: the resolution is its claims on free slots. -/
theorem ofEligible_singleton (r : Rule) :
    ofEligible [r] = claim (requestsSafeMode r) start r := by
  rw [ofEligible, Rule.sortByPrecedence, List.mergeSort_singleton, List.any_cons, List.any_nil,
    Bool.or_false]
  rfl

/-- The entry of a rule on its own, if it sets anything. Nothing is there to win
a field before it, so the entry names all fields of its action. -/
theorem applied_sole (r : Rule) :
    (ofEligible [r]).applied
      = if r.content.action.fieldNames = [] then []
        else [Applied.ofNames r r.content.action.fieldNames] := by
  rw [ofEligible_singleton, applied_claim, entry, won_sole, Action.fieldNames_eq]
  cases r.content.action.fields with
  | nil => rfl
  | cons f fields => rfl

/-- The settings that come of a rule on its own. -/
theorem settings_sole (r : Rule) (f : Field) :
    (ofEligible [r]).settings.get f
      = ((r.content.action.value f).map f.kind.settingOf).getD f.kind.initial := by
  rw [ofEligible_singleton, get_settings, get_winners_claim, get_winners_start, offer_sole]
  cases r.content.action.value f <;> rfl

end Resolved

/-- What is written for a setting is what is written for the value that brings
it about. -/
theorem settingToJson_settingOf {k : Kind} (v : k.Value) :
    k.settingToJson (k.settingOf v) = k.valueToJson v := by
  cases k <;> rfl

/-- The object of a scope, with the members of the action over it if the action
is of that scope. The object, the action and the settings list their fields each
for themselves, and no member is missed or put under another name. -/
theorem scopeToJson_sole (r : Rule) (s : Scope) :
    (ofEligible [r]).settings.scopeToJson s
      = if s = r.content.action.scope then
          (Settings.initial.scopeToJson s).overlay r.content.action.toJson
        else Settings.initial.scopeToJson s := by
  have hinitial : ∀ f : Field, Settings.initial.get f = f.kind.initial := fun f =>
    Table.get_ofFn _ f
  split
  · rename_i hs
    -- Field by field: what the action has under the name, or else the initial setting.
    have hmember : ∀ f ∈ Field.ofScope s,
        ((Settings.initial.fieldMember f).1, (r.content.action.toJson.member?
          (Settings.initial.fieldMember f).1).getD (Settings.initial.fieldMember f).2)
          = (ofEligible [r]).settings.fieldMember f := by
      intro f hf
      have hscope := (Field.mem_ofScope.mp hf).trans hs
      rw [Settings.fieldMember, Settings.fieldMember, Action.member?_toJson _ hscope, settings_sole,
        hinitial]
      cases r.content.action.value f with
      | none => rfl
      | some v => exact congrArg (f.name, ·) (settingToJson_settingOf v).symm
    rw [Settings.scopeToJson_eq, Settings.scopeToJson_eq, Json.overlay_sortMembers, List.map_map]
    exact congrArg (fun members => Json.object (Json.sortMembers members))
      (List.map_congr_left hmember).symm
  · rename_i hs
    -- The action sets nothing in the scope.
    have hmember : ∀ f ∈ Field.ofScope s,
        (ofEligible [r]).settings.fieldMember f = Settings.initial.fieldMember f := by
      intro f hf
      have hnone : r.content.action.value f = none :=
        r.content.action.owned f fun h => hs ((Field.mem_ofScope.mp hf).symm.trans h)
      rw [Settings.fieldMember, Settings.fieldMember, settings_sole, hinitial, hnone]
      rfl
    rw [Settings.scopeToJson_eq, Settings.scopeToJson_eq, List.map_congr_left hmember]

/-- The trace of a rule on its own is its entry, if safe mode is forced or not:
where it is, the rule is a global one. -/
theorem trace_sole (r : Rule) :
    Snapshot.trace ((ofEligible [r]).settings.get .safeMode) (ofEligible [r]).applied
      = (ofEligible [r]).applied := by
  have hglobal : (ofEligible [r]).settings.get .safeMode = true → r.scope = .global := by
    intro hforced
    -- Nothing but this rule can have forced it, and only a global action sets it.
    refine Action.scope_of_value (f := .safeMode) ?_
    rw [settings_sole] at hforced
    cases hvalue : r.content.action.value .safeMode with
    | none =>
      rw [hvalue] at hforced
      exact nomatch hforced
    | some b => rfl
  rw [applied_sole]
  split
  · rw [Snapshot.trace, List.filter_nil, ite_self, List.mergeSort_nil]
  · cases hforced : (ofEligible [r]).settings.get .safeMode with
    | false => rw [Snapshot.trace_false, List.mergeSort_singleton]
    | true =>
      rw [Snapshot.trace, if_pos rfl, List.filter_cons_of_pos, List.filter_nil,
        List.mergeSort_singleton]
      exact decide_eq_true (hglobal hforced)

/-- **The lists of fields agree.** Take an action that was read in a scope. It
names the fields of the scope that were submitted with a meaning, in the order in
which they are declared, and the members of its wire form have exactly these
names. Let a rule with this action be the only eligible one. Then the trace has
one entry, with exactly these names, or none if there are none. The compiled
object of the scope, before safe mode has its say, is the initial one with the
members of the wire form in the place of its own, and the objects of the other
scopes are the initial ones. -/
theorem action_fields_agree {scope : Scope} {submitted : Option Json} {a : Action}
    (h : Action.ofJson scope submitted = .ok a) :
    (a.fieldNames = ((Field.ofScope scope).filter fun f =>
          ((submitted.bind (Json.member? f.name)).bind f.kind.coerce).isSome).map Field.name
        ∧ a.fieldNames.Sublist (Action.declared scope))
      ∧ (∃ members, a.toJson = .object members ∧ (members.map Prod.fst).Perm a.fieldNames)
      ∧ ∀ (rules : List Rule) (c : Context) (r : Rule),
          eligible rules c.normalized = [r] → r.content.action = a →
            (∀ (compiler : Compiler) (time : Instant),
              (Snapshot.compile compiler rules c time).applied
                = if a.fieldNames = [] then []
                  else [⟨r.key, scope, r.priority, r.revision, a.fieldNames⟩])
            ∧ ∀ s, (compiledSettings rules c).scopeToJson s
                = if s = scope then (Settings.initial.scopeToJson s).overlay a.toJson
                  else Settings.initial.scopeToJson s := by
  obtain ⟨rfl, -⟩ := Action.valid_of_ofJson h
  refine ⟨⟨Action.fieldNames_of_ofJson h, a.fieldNames_sublist_declared⟩, a.perm_names_toJson, ?_⟩
  rintro rules c r hsole rfl
  refine ⟨fun compiler time => ?_, fun s => ?_⟩
  · have happlied : (Snapshot.compile compiler rules c time).applied
        = Snapshot.trace ((ofEligible (eligible rules c.normalized)).settings.get .safeMode)
            (ofEligible (eligible rules c.normalized)).applied := rfl
    rw [happlied, hsole, trace_sole, applied_sole]
    rfl
  · rw [compiledSettings, hsole, scopeToJson_sole]

/-- What is submitted for the action of `patientRule`: a number in a text, and a
time that means nothing. -/
def patientAction : Json :=
  .object [("disable_retries", .bool false), ("retry_count", .string " 3"),
    ("timeout_ms", .number (.integer (-1)))]

/-- A rule that sets two of the three network settings. -/
def patientRule : Rule where
  content := ⟨⟨"patient"⟩, true, 7, .any, .ofFn .network fun
    | .disableRetries => some false
    | .retryCount => some 3
    | _ => none⟩
  revision := 2
  createdAt := ⟨0, 0⟩
  updatedAt := ⟨0, 0⟩
  createdBy := none
  updatedBy := none

/-- The rule and the same one disabled. -/
def patientRules : List Rule :=
  [patientRule, { patientRule with content := { patientRule.content with enabled := false } }]

/-- The trace names the setting that is the initial one anyway, and not the one
that was left out. -/
theorem patientRule_fields :
    Action.ofJson .network (some patientAction) = .ok patientRule.content.action ∧
    ∀ c : Context,
      eligible patientRules c.normalized = [patientRule] ∧
      (∀ (compiler : Compiler) (time : Instant),
        (Snapshot.compile compiler patientRules c time).applied
          = [⟨⟨"patient"⟩, .network, 7, 2, ["disable_retries", "retry_count"]⟩]) ∧
      (compiledSettings patientRules c).scopeToJson .network
        = .object [("disable_retries", .bool false), ("retry_count", .number (.integer 3)),
            ("timeout_ms", .null)] := by
  have hread : Action.ofJson .network (some patientAction) = .ok patientRule.content.action := by
    rfl
  refine ⟨hread, fun c => ?_⟩
  have hsole : eligible patientRules c.normalized = [patientRule] := by
    rfl
  obtain ⟨-, -, hall⟩ := action_fields_agree hread
  obtain ⟨happlied, hobject⟩ := hall patientRules c patientRule hsole rfl
  refine ⟨hsole, happlied, ?_⟩
  rw [hobject .network, if_pos rfl]
  rfl

end Overrides
