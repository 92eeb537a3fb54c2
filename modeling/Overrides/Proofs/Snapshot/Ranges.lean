import Overrides.Config.Check
import Overrides.Proofs.Precedence.Trace
import Overrides.Proofs.Service.Limit
import Overrides.Proofs.Store.Reachable
import Overrides.Proofs.Store.Reads

/-!
# `Overrides.Proofs.Snapshot.Ranges`: every delivered number is in range

Limits are cut to their ceilings where a rule is read, and nowhere after.
A policy is not cut but refused. So a setting is in range for one of
three reasons: some rule set it, and rules come from validation or from
reading only; nobody set it, and then there is no limit; or a policy that
was checked forces it.

* `settingInRange_compiled`: what rules bring about.
* `settingInRange_of_outOfRange?`: what a policy forces.
* `Backend.Served.admitted`: a store lists rules that were validated or
  read, and nothing else, whatever happened to it.
* `delivered_numbers_in_range`: what this says of snapshots.
-/

set_option autoImplicit false

namespace Overrides

open Placed Resolved

/-- There is no limit, or one from 1 to its ceiling. Settings of the other kinds
have no range. -/
def Kind.SettingInRange : (k : Kind) → k.Setting → Prop
  | .flag, _ => True
  | .quality, _ => True
  | .limit ceiling, n => ∀ m ∈ n, 0 < UInt32.toNat m ∧ UInt32.toNat m ≤ ceiling.toNat

/-- The four numbers of a snapshot, with their ranges in full. -/
structure Settings.NumbersInRange (t : Settings) : Prop where
  mediaLoads : ∀ n, t.get .maxConcurrentMediaLoads = some n → 1 ≤ n.toNat ∧ n.toNat ≤ 50
  retryCount : ∀ n, t.get .retryCount = some n → 1 ≤ n.toNat ∧ n.toNat ≤ 10
  timeoutMs : ∀ n, t.get .timeoutMs = some n → 1 ≤ n.toNat ∧ n.toNat ≤ 120000
  uxWatchdogThresholdMs : ∀ n, t.get .uxWatchdogThresholdMs = some n →
    1 ≤ n.toNat ∧ n.toNat ≤ 120000

/-- Where a rule may come from: its content was validated, or it was read
from a stored value or a stored text. -/
inductive Rule.Admitted (r : Rule) : Prop where
  | validated (draft : Draft) : draft.validate = .ok r.content → Admitted r
  | fromValue (v : Json) : Rule.ofJson v = .ok r → Admitted r
  | fromText (bytes : List UInt8) : Rule.reader.run bytes = .ok r → Admitted r

/-- The stores that a service may have behind it: a store of either kind
after any writes, and a database with whatever tables. -/
inductive Backend.Served : Backend → Prop where
  | reachable {s : Backend} : s.Reachable → Served s
  | altered (d : Database) : Served (.disk d)

variable {rules : List Rule} {c : Context} {f : Field}

/-! ### Settings by their kinds -/

/-- The four numbers are in range when all settings are, each below its own
ceiling. -/
theorem Field.numbersInRange {t : Settings} (h : ∀ f : Field, f.kind.SettingInRange (t.get f)) :
    t.NumbersInRange where
  mediaLoads := h .maxConcurrentMediaLoads
  retryCount := h .retryCount
  timeoutMs := h .timeoutMs
  uxWatchdogThresholdMs := h .uxWatchdogThresholdMs

namespace Kind

/-- What a field is set to initially is in range: no number is set. -/
theorem settingInRange_initial (k : Kind) : k.SettingInRange k.initial := by
  cases k with
  | flag => trivial
  | quality => trivial
  | limit ceiling => exact fun _ h => nomatch h

/-- A value in range brings about a setting in range. For a limit the setting is
the value, where it may also be missing. -/
theorem InRange.setting {k : Kind} {v : k.Value} (h : k.InRange v) :
    k.SettingInRange (k.settingOf v) := by
  cases k with
  | flag => trivial
  | quality => trivial
  | limit ceiling =>
    intro m hm
    rw [← Option.some.inj hm]
    exact h

/-- What passes the check of policies is in range. The check is made on words
and the range is stated in numbers, which is all that stands between them. -/
theorem settingInRange_of_isOutOfRange {k : Kind} {x : k.Setting} (h : k.isOutOfRange x = false) :
    k.SettingInRange x := by
  cases k with
  | flag => trivial
  | quality => trivial
  | limit ceiling =>
    intro m hm
    obtain rfl : x = some m := hm
    -- The check refuses zero and whatever exceeds the ceiling.
    have hcheck : (m == 0 || decide (ceiling < m)) = false := h
    rw [Bool.or_eq_false_iff, beq_eq_false_iff_ne, decide_eq_false_iff_not] at hcheck
    obtain ⟨hzero, hceiling⟩ := hcheck
    rw [ne_eq, ← UInt32.toNat_inj] at hzero
    rw [UInt32.lt_iff_toNat_lt] at hceiling
    exact ⟨Nat.pos_of_ne_zero hzero, Nat.le_of_not_lt hceiling⟩

end Kind

/-! ### What rules and policies bring about -/

/-- The content of a rule is valid, wherever the rule comes from. -/
theorem Rule.Admitted.valid {r : Rule} (h : r.Admitted) : r.content.Valid := by
  cases h with
  | validated draft h => exact Content.valid_of_validate h
  | fromValue v h => exact (hasWireForm_of_ofJson h).valid
  | fromText bytes h => exact (hasWireForm_of_reader h).valid

/-- Rules that were admitted bring about settings in range. A setting is the
initial one or comes from the action of a single rule, so no combination of
rules has to be looked at. -/
theorem settingInRange_compiled (h : ∀ r ∈ rules, r.Admitted) (c : Context) (f : Field) :
    f.kind.SettingInRange ((compiledSettings rules c).get f) := by
  have hdecided := decided_compiled (increasing_zipIdx rules) c f
  rw [List.zipIdx_map_fst] at hdecided
  rcases hdecided with ⟨p, v, hp, hv, hx⟩ | ⟨-, hx⟩
  · have hvalid := (h p.1 (List.fst_mem_of_mem_zipIdx hp.1)).valid
    rw [hx]
    exact (hvalid.action f v hv).setting
  · rw [hx]
    exact f.kind.settingInRange_initial

/-- A policy that passes its check forces settings in range. The check goes
through all fields and names the first that is not. -/
theorem settingInRange_of_outOfRange? {p : Policy} (h : p.outOfRange? = none) (f : Field) :
    f.kind.SettingInRange (p.forced.get f) := by
  by_cases hf : f = .safeMode
  · -- Safe mode itself is a flag, and no policy sets it.
    subst hf
    trivial
  · have hmem : f ∈ Policy.fields :=
      List.mem_filter.mpr ⟨f.mem_all, decide_eq_true hf⟩
    have hpasses := List.find?_eq_none.mp h f hmem
    exact Kind.settingInRange_of_isOutOfRange (Bool.eq_false_iff.mpr hpasses)

/-- The settings of a snapshot are in range, forced or not. Forced ones are
those of the policy, and the others come from the rules. -/
theorem numbersInRange_compile {compiler : Compiler} (hpolicy : compiler.policy.outOfRange? = none)
    (hrules : ∀ r ∈ rules, r.Admitted) (c : Context) (time : Instant) :
    (Snapshot.compile compiler rules c time).settings.NumbersInRange := by
  refine Field.numbersInRange fun f => ?_
  cases hforced : (compiledSettings rules c).get .safeMode with
  | true =>
    rw [compile_of_forced hforced]
    exact settingInRange_of_outOfRange? hpolicy f
  | false =>
    rw [compile_of_not_forced hforced]
    exact settingInRange_compiled hrules c f

/-! ### What a store lists -/

/-- A store lists rules that were validated or read. Rows that somebody altered
are read like any others, and what is read has been validated again. -/
theorem Backend.Served.admitted {s : Backend} (h : s.Served) {q : Query}
    (hlist : RuleStore.list s q = .ok rules) : ∀ r ∈ rules, r.Admitted := by
  cases h with
  | reachable h =>
    -- Every rule of a reachable store was validated when it was written.
    obtain ⟨recent, hrecent⟩ := h.recalls
    rw [hrecent.list] at hlist
    intro r hr
    rw [← Except.ok.inj hlist, Rule.sortByPrecedence, List.mem_mergeSort, List.mem_filter] at hr
    obtain ⟨draft, hdraft⟩ := hrecent.validated r hr.1
    exact .validated draft hdraft
  | altered d =>
    -- Every rule of a database was read from the text of a row.
    have hrows : List.Forall₂ RuleRow.VouchesFor (d.chosen q) rules :=
      Database.list_eq_ok_iff.mp hlist
    intro r hr
    obtain ⟨i, hi, rfl⟩ := List.getElem_of_mem hr
    exact .fromText _ (hrows.get (hrows.length_eq ▸ hi) hi).text

/-- A configuration without flaws has a policy without. The check of the policy
is the last one, so the others have passed before it. -/
theorem Config.outOfRange?_of_check {config : Config} (h : config.check = .ok ()) :
    config.policy.outOfRange? = none := by
  rw [check] at h
  obtain ⟨-, -, h⟩ := bind_eq_ok_iff.mp h
  obtain ⟨-, -, h⟩ := bind_eq_ok_iff.mp h
  obtain ⟨-, -, h⟩ := bind_eq_ok_iff.mp h
  rw [checkPolicy] at h
  split at h
  · exact nomatch h
  · assumption

/-- **Every delivered number is in range.** Whatever rules a snapshot is
compiled from, as long as each of them was validated or read, and
whatever policy passes its check, the four numbers are absent or in their
ranges, forced or not. So they are in every snapshot that a service serves
by a configuration without flaws, after any writes to a store of either
kind, and from a database whose rows somebody altered. -/
theorem delivered_numbers_in_range :
    (∀ (compiler : Compiler) (rules : List Rule) (c : Context) (time : Instant),
      compiler.policy.outOfRange? = none → (∀ r ∈ rules, r.Admitted) →
      (Snapshot.compile compiler rules c time).settings.NumbersInRange) ∧
    ∀ (config : Config) (s : Backend) (c : Context) (time : Instant) (snapshot : Snapshot),
      config.check = .ok () → s.Served → config.service.snapshot s c time = .ok snapshot →
      snapshot.settings.NumbersInRange := by
  constructor
  · intro compiler rules c time hpolicy hrules
    exact numbersInRange_compile hpolicy hrules c time
  · intro config s c time snapshot hcheck hserved hsnapshot
    obtain ⟨rules, hlist, rfl⟩ := Service.compile_of_snapshot hsnapshot
    exact numbersInRange_compile (Config.outOfRange?_of_check hcheck) (hserved.admitted hlist) c
      time

/-! ### A rule that asks for too much -/

/-- A submission that asks for more retries than there may be. -/
def manyRetries : Submission where
  draft := { Draft.empty with
    ruleKey := "retries"
    scope := "network"
    action := some (.object [("retry_count", Json.ofNat 4000000000)]) }
  actor := none
  time := ⟨0, 0⟩

/-- Its content: the number is cut. -/
def manyRetriesContent : Content where
  ruleKey := ⟨"retries"⟩
  enabled := true
  priority := 0
  filter := .any
  action := .ofFn .network fun
    | .retryCount => some 10
    | _ => none

/-- The submission is valid, and its number is cut to the ceiling. -/
theorem validate_manyRetries : manyRetries.draft.validate = .ok manyRetriesContent := by
  rw [Draft.validate_eq_ok_iff]
  refine ⟨?_, ?_, rfl, rfl, ?_, rfl⟩
  · decide +kernel
  · decide +kernel
  · show Action.ofJson .network _ = .ok manyRetriesContent.action
    refine congrArg Except.ok (Action.ext_value rfl fun f => ?_)
    cases f <;> rfl

/-- The default configuration has no flaw. -/
theorem Config.check_default : Config.default.check = .ok () := by decide +kernel

/-- A snapshot of the rule has ten retries at most, and so has every snapshot
that the default service serves after the submission. -/
theorem manyRetries_in_range :
    (∀ (c : Context) (time : Instant),
      (Snapshot.compile Config.default.compiler
        [⟨manyRetriesContent, 1, ⟨0, 0⟩, ⟨0, 0⟩, none, none⟩] c time).settings.NumbersInRange) ∧
    ∀ (c : Context) (time : Instant), ∃ snapshot,
      Config.default.service.snapshot
        (Config.default.service.submitEach (.memory .empty) [manyRetries]) c time = .ok snapshot ∧
      snapshot.settings.NumbersInRange := by
  obtain ⟨hcompiled, hserved⟩ := delivered_numbers_in_range
  constructor
  · intro c time
    refine hcompiled _ _ c time (Config.outOfRange?_of_check Config.check_default) ?_
    intro r hr
    obtain rfl := List.mem_singleton.mp hr
    exact .validated manyRetries.draft validate_manyRetries
  · intro c time
    have hreachable := (Backend.Reachable.fresh .memory).submitEach Config.default.service
      [manyRetries]
    have hbounded := (Service.bounded_of_fresh Config.default.service .memory).submitEach
      [manyRetries]
    obtain ⟨snapshot, hsnapshot⟩ := hbounded.snapshot c time
    exact ⟨snapshot, hsnapshot,
      hserved _ _ c time snapshot Config.check_default (.reachable hreachable) hsnapshot⟩

end Overrides
