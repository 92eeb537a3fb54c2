import Overrides.Proofs.Store.Holding
import Overrides.Service

/-!
# `Overrides.Proofs.Service.Limit`: the number of enabled rules is bounded

A service counts the enabled rules under other keys before it writes an
enabled one, and all enabled rules before it compiles a snapshot. Both
counts are taken from what the store holds. `enabledAfter` says how many
rules a submission would leave enabled.

* `Service.submit_of_disabled`, `Service.submit_of_enabled`: what the service
  does with a valid submission.
* `Service.Bounded`: the invariant of the service.
* `Service.Bounded.submit`: its step.
* `enabled_rules_bounded`: every run of submissions.
-/

set_option autoImplicit false

namespace Overrides

/-- A draft, by whom and when it is submitted. -/
structure Submission where
  draft : Draft
  actor : Option String
  time : Instant

/-- How many rules are enabled once `content` stands under its key. The rule
that has the key now is not counted, so replacing an enabled rule by another one
does not need more room. -/
def enabledAfter (rules : List Rule) (content : Content) : Nat :=
  ((rules.filter (·.content.enabled)).filter (·.key ≠ content.ruleKey)).length
    + if content.enabled then 1 else 0

/-! ### Counting -/

section

variable {rules : List Rule}

/-- The query for enabled rules accepts a rule by its flag, in every scope. -/
theorem accepts_enabled : Query.enabled.accepts = fun r => r.content.enabled := by
  funext r
  exact Bool.true_and _

/-- The query for all rules leaves none out. -/
theorem filter_accepts_all (rules : List Rule) : rules.filter Query.all.accepts = rules :=
  List.filter_eq_self.mpr fun _ _ => rfl

/-- Sorting does not change how many rules there are of a kind. -/
theorem length_filter_sortByPrecedence (keep : Rule → Bool) (rules : List Rule) :
    ((Rule.sortByPrecedence rules).filter keep).length = (rules.filter keep).length :=
  ((List.mergeSort_perm rules _).filter keep).length_eq

/-- The order of the rules does not matter for the count. -/
theorem enabledAfter_sortByPrecedence (rules : List Rule) (content : Content) :
    enabledAfter (Rule.sortByPrecedence rules) content = enabledAfter rules content := by
  rw [enabledAfter, List.filter_filter, length_filter_sortByPrecedence, ← List.filter_filter,
    ← enabledAfter]

/-- Putting a rule in its place leaves so many enabled rules. -/
theorem length_enabled_putRule {r : Rule} {content : Content} (hcontent : r.content = content)
    (h : (rules.map Rule.key).Nodup) :
    ((Ledger.putRule r rules).filter (·.content.enabled)).length = enabledAfter rules content := by
  subst hcontent
  rw [((Ledger.perm_putRule r h).filter _).length_eq, List.filter_cons, enabledAfter,
    List.filter_comm]
  cases r.content.enabled <;> rfl

/-- Writing to a key that has an enabled rule leaves no more of them. The old
rule goes when the new one comes. -/
theorem enabledAfter_le {content : Content} {old : Rule} (hold : old ∈ rules)
    (henabled : old.content.enabled = true) (hkey : old.key = content.ruleKey) :
    enabledAfter rules content ≤ (rules.filter (·.content.enabled)).length := by
  -- The old rule is one of those that are left out.
  have hfewer : ((rules.filter (·.content.enabled)).filter (·.key ≠ content.ruleKey)).length
      < (rules.filter (·.content.enabled)).length := by
    rw [List.length_filter_lt_length_iff_exists]
    exact ⟨old, List.mem_filter.mpr ⟨hold, henabled⟩, by simp [hkey]⟩
  rw [enabledAfter]
  split
  · exact hfewer
  · exact Nat.le_of_lt hfewer

/-- Writing a disabled rule leaves no more enabled rules. -/
theorem enabledAfter_le_of_disabled {content : Content} (h : content.enabled = false) :
    enabledAfter rules content ≤ (rules.filter (·.content.enabled)).length := by
  rw [enabledAfter, h]
  exact List.length_filter_le ..

end

namespace Service

variable {service : Service} {s : Backend} {rules : List Rule} {draft : Draft} {content : Content}
  {actor : Option String} {time : Instant}

/-! ### What the service does with a valid draft -/

/-- A disabled rule is handed to the store without a look at the limit. It takes
no room among the enabled ones. -/
theorem submit_of_disabled {σ : Type} [RuleStore σ] (s : σ) (hvalid : draft.validate = .ok content)
    (hdisabled : content.enabled = false) :
    service.submit s draft actor time
      = ((RuleStore.write s ⟨content, actor, time⟩).1.mapError .store,
        (RuleStore.write s ⟨content, actor, time⟩).2) := by
  have hrequest : service.requestOf s draft actor time = .ok ⟨content, actor, time⟩ := by
    rw [requestOf, hvalid]
    show (if content.enabled = true then _ else _ : Except ServiceFault WriteRequest) = _
    rw [if_neg (by rw [hdisabled]; decide)]
    rfl
  rw [submit, hrequest]

/-- For an enabled rule there has to be room. -/
theorem requestOf_of_enabled {σ : Type} [RuleStore σ] (s : σ)
    (hvalid : draft.validate = .ok content) (henabled : content.enabled = true) :
    service.requestOf s draft actor time
      = (service.checkRoom s content.ruleKey).map fun _ => ⟨content, actor, time⟩ := by
  rw [requestOf, hvalid]
  show (if content.enabled = true then _ else _ : Except ServiceFault WriteRequest) = _
  rw [if_pos henabled]
  cases service.checkRoom s content.ruleKey <;> rfl

/-- An enabled rule is refused if the enabled rules under other keys fill the
limit, and handed to the store otherwise. -/
theorem submit_of_enabled (h : s.Holds rules) (hvalid : draft.validate = .ok content)
    (henabled : content.enabled = true) :
    service.submit s draft actor time
      = if service.maxRules < enabledAfter rules content
        then (.error (.ruleLimitReached service.maxRules), s)
        else ((RuleStore.write s ⟨content, actor, time⟩).1.mapError .store,
          (RuleStore.write s ⟨content, actor, time⟩).2) := by
  have hroom : service.checkRoom s content.ruleKey
      = if service.maxRules < enabledAfter rules content
        then .error (.ruleLimitReached service.maxRules) else .ok () := by
    rw [checkRoom, h.list, accepts_enabled]
    show (if service.maxRules ≤ ((Rule.sortByPrecedence _).filter _).length then _ else _
      : Except ServiceFault Unit) = _
    -- The service counts the other enabled rules, and the bound counts the new one too.
    rw [length_filter_sortByPrecedence, enabledAfter, henabled, if_pos rfl]
    simp only [Nat.lt_add_one_iff]
    rfl
  rw [submit, requestOf_of_enabled s hvalid henabled, hroom]
  by_cases hfull : service.maxRules < enabledAfter rules content
  · rw [if_pos hfull, if_pos hfull]
    rfl
  · rw [if_neg hfull, if_neg hfull]
    rfl

/-- An invalid draft is refused before anything else. -/
theorem submit_of_invalid {σ : Type} [RuleStore σ] (s : σ) {e : RuleFault}
    (h : draft.validate = .error e) :
    service.submit s draft actor time = (.error (.rule e), s) := by
  have hrequest : service.requestOf s draft actor time = .error (.rule e) := by
    rw [requestOf, h]
    rfl
  rw [submit, hrequest]

/-- A fault of the store is not the limit. -/
theorem mapError_store_ne (outcome : Except StoreFault Written) (limit : Nat) :
    outcome.mapError ServiceFault.store ≠ .error (.ruleLimitReached limit) := by
  cases outcome <;> exact fun h => nomatch h

/-! ### The invariant -/

/-- The store holds no more enabled rules than the service allows. Disabled
rules are not counted; there may be any number of them. -/
def Bounded (service : Service) (s : Backend) : Prop :=
  ∃ rules, s.Holds rules ∧ (rules.filter (·.content.enabled)).length ≤ service.maxRules

/-- A write that leaves no more enabled rules than allowed keeps the bound. One
that fails changes nothing, so it keeps it too. -/
theorem bounded_write (h : s.Holds rules)
    (hbound : (rules.filter (·.content.enabled)).length ≤ service.maxRules)
    {request : WriteRequest} (hrequest : request.Proper)
    (hroom : enabledAfter rules request.content ≤ service.maxRules) :
    service.Bounded (RuleStore.write s request).2 := by
  obtain ⟨e, hfails⟩ | ⟨w, next, hwrites, hcontent, hnext⟩ := h.write hrequest
  · rw [hfails]
    exact ⟨rules, h, hbound⟩
  · rw [hwrites]
    refine ⟨_, hnext, ?_⟩
    rw [length_enabled_putRule hcontent h.distinct]
    exact hroom

/-- Every submission keeps the bound. It is refused, or it writes a disabled
rule, or it writes an enabled one within the limit, or the store fails. -/
theorem Bounded.submit (h : service.Bounded s) (draft : Draft) (actor : Option String)
    (time : Instant) : service.Bounded (service.submit s draft actor time).2 := by
  obtain ⟨rules, hholds, hbound⟩ := h
  cases hvalid : draft.validate with
  | error e =>
    rw [submit_of_invalid s hvalid]
    exact ⟨rules, hholds, hbound⟩
  | ok content =>
    have hrequest : (⟨content, actor, time⟩ : WriteRequest).Proper := ⟨draft, hvalid⟩
    cases henabled : content.enabled with
    | false =>
      -- The limit is not checked, but a disabled rule adds nothing to the count.
      rw [submit_of_disabled s hvalid henabled]
      exact bounded_write hholds hbound hrequest
        (Nat.le_trans (enabledAfter_le_of_disabled henabled) hbound)
    | true =>
      rw [submit_of_enabled hholds hvalid henabled]
      split
      · exact ⟨rules, hholds, hbound⟩
      · rename_i hroom
        exact bounded_write hholds hbound hrequest (Nat.le_of_not_lt hroom)

/-- The store after submissions one after the other, those that fail too. -/
def submitEach (service : Service) (s : Backend) (submissions : List Submission) : Backend :=
  submissions.foldl (fun s u => (service.submit s u.draft u.actor u.time).2) s

/-- A run of submissions keeps the bound. -/
theorem Bounded.submitEach (h : service.Bounded s) (submissions : List Submission) :
    service.Bounded (service.submitEach s submissions) := by
  induction submissions generalizing s with
  | nil => exact h
  | cons u rest ih =>
    rw [Service.submitEach, List.foldl_cons, ← Service.submitEach]
    exact ih (h.submit u.draft u.actor u.time)

/-- A new store is within every limit, since it has no rules. -/
theorem bounded_of_fresh (service : Service) (h : s.Fresh) : service.Bounded s :=
  ⟨[], h.holds, Nat.zero_le _⟩

/-! ### What the bound gives -/

/-- The enabled rules of a bounded store are listed, and not too many. -/
theorem Bounded.list (h : service.Bounded s) :
    ∃ rules, RuleStore.list s .enabled = .ok rules ∧ rules.length ≤ service.maxRules := by
  obtain ⟨rules, hholds, hbound⟩ := h
  refine ⟨_, hholds.list .enabled, ?_⟩
  rw [accepts_enabled, Rule.sortByPrecedence, List.length_mergeSort]
  exact hbound

/-- What a service makes of the enabled rules that a store lists: a snapshot, or
a fault if they are more than it allows. -/
theorem snapshot_of_list {σ : Type} [RuleStore σ] {s : σ}
    (h : RuleStore.list s .enabled = .ok rules) (c : Context) (time : Instant) :
    service.snapshot s c time
      = if service.maxRules < rules.length then .error (.tooManyRules rules.length service.maxRules)
        else .ok (Snapshot.compile service.compiler rules c time) := by
  rw [Service.snapshot, h]
  show (if service.maxRules < rules.length then _ else _ : Except ServiceFault Snapshot) = _
  split <;> rfl

/-- Every snapshot is compiled from the enabled rules that the store lists.
There is no other way to get one from a service. -/
theorem compile_of_snapshot {σ : Type} [RuleStore σ] {s : σ} {c : Context} {snapshot : Snapshot}
    (h : service.snapshot s c time = .ok snapshot) :
    ∃ rules, RuleStore.list s .enabled = .ok rules ∧
      snapshot = Snapshot.compile service.compiler rules c time := by
  cases hlist : RuleStore.list s .enabled with
  | error e =>
    rw [Service.snapshot, hlist] at h
    exact nomatch h
  | ok rules =>
    rw [snapshot_of_list hlist] at h
    split at h
    · exact nomatch h
    · exact ⟨rules, rfl, (Except.ok.inj h).symm⟩

/-- A bounded store has a snapshot for every context. -/
theorem Bounded.snapshot (h : service.Bounded s) (c : Context) (time : Instant) :
    ∃ snapshot, service.snapshot s c time = .ok snapshot := by
  obtain ⟨rules, hlist, hbound⟩ := h.list
  refine ⟨Snapshot.compile service.compiler rules c time, ?_⟩
  rw [snapshot_of_list hlist, if_neg (Nat.not_lt_of_le hbound)]

/-- A valid draft is refused for the limit only if it is enabled and would
leave too many enabled rules. -/
theorem submit_ne_ruleLimitReached (h : s.Holds rules) (hvalid : draft.validate = .ok content)
    (hroom : enabledAfter rules content ≤ service.maxRules) (limit : Nat) :
    (service.submit s draft actor time).1 ≠ .error (.ruleLimitReached limit) := by
  cases henabled : content.enabled with
  | false =>
    rw [submit_of_disabled s hvalid henabled]
    exact mapError_store_ne _ limit
  | true =>
    rw [submit_of_enabled h hvalid henabled, if_neg (Nat.not_lt_of_le hroom)]
    exact mapError_store_ne _ limit

end Service

open Service

/-- **The number of enabled rules is bounded, and no tighter than it says.**
Submissions to a new store of either kind leave no more enabled rules than
the service allows, so every snapshot can be compiled, and a key that has
an enabled rule can be written again. After any writes, however many
enabled rules they left, a valid enabled draft is refused for the limit
exactly when writing it would leave more enabled rules than allowed. A
disabled one is never refused for the limit, in no state of any store. -/
theorem enabled_rules_bounded (service : Service) {start : Backend} (hfresh : start.Fresh) :
    (∀ submissions : List Submission,
      let s := service.submitEach start submissions
      (∃ rules, RuleStore.list s .enabled = .ok rules ∧ rules.length ≤ service.maxRules ∧
        ∀ (u : Submission) (content : Content), u.draft.validate = .ok content →
          content.ruleKey ∈ rules.map Rule.key → ∀ limit,
          (service.submit s u.draft u.actor u.time).1 ≠ .error (.ruleLimitReached limit)) ∧
      ∀ (c : Context) (time : Instant), ∃ snapshot, service.snapshot s c time = .ok snapshot) ∧
    (∀ requests : List WriteRequest, (∀ request ∈ requests, request.Proper) →
      let s := start.after requests
      ∃ rules, RuleStore.list s .all = .ok rules ∧
        ∀ (u : Submission) (content : Content), u.draft.validate = .ok content →
          content.enabled = true →
          ((service.submit s u.draft u.actor u.time).1
              = .error (.ruleLimitReached service.maxRules) ↔
            service.maxRules < enabledAfter rules content) ∧
          (∀ w next, RuleStore.write s ⟨content, u.actor, u.time⟩ = (.ok w, next) →
            ∃ left, RuleStore.list next .enabled = .ok left ∧
              left.length = enabledAfter rules content)) ∧
    ∀ (s : Backend) (u : Submission) (content : Content), u.draft.validate = .ok content →
      content.enabled = false → ∀ limit,
      (service.submit s u.draft u.actor u.time).1 ≠ .error (.ruleLimitReached limit) := by
  refine ⟨fun submissions => ?_, fun requests hrequests => ?_,
    fun s u content hvalid hdisabled limit => ?_⟩
  · have hbounded := (bounded_of_fresh service hfresh).submitEach submissions
    -- The rules that are held and those that are listed differ in order only.
    obtain ⟨rules, hholds, hbound⟩ := id hbounded
    obtain ⟨listed, hlist, hlength⟩ := hbounded.list
    refine ⟨⟨listed, hlist, hlength, fun u content hvalid hkey limit => ?_⟩, hbounded.snapshot⟩
    obtain ⟨old, hold, hsame⟩ := List.mem_map.mp hkey
    rw [hholds.list, accepts_enabled] at hlist
    rw [← Except.ok.inj hlist, Rule.sortByPrecedence, List.mem_mergeSort, List.mem_filter] at hold
    exact submit_ne_ruleLimitReached hholds hvalid
      (Nat.le_trans (enabledAfter_le hold.1 hold.2 hsame) hbound) limit
  · obtain ⟨rules, hholds⟩ := hfresh.holds.run hrequests
    refine ⟨_, hholds.list .all, fun u content hvalid henabled => ?_⟩
    rw [filter_accepts_all, enabledAfter_sortByPrecedence]
    constructor
    · rw [submit_of_enabled hholds hvalid henabled]
      split
      · rename_i hfull
        exact iff_of_true rfl hfull
      · rename_i hroom
        exact iff_of_false (mapError_store_ne _ _) hroom
    · intro w next hwrites
      have hproper : (⟨content, u.actor, u.time⟩ : WriteRequest).Proper := ⟨u.draft, hvalid⟩
      obtain ⟨e, hfails⟩ | ⟨w', next', hwrites', hcontent, hnext⟩ := hholds.write hproper
      · rw [hfails] at hwrites
        exact nomatch hwrites
      · rw [hwrites'] at hwrites
        obtain ⟨hw, rfl⟩ := Prod.mk.inj hwrites
        refine ⟨_, hnext.list .enabled, ?_⟩
        rw [accepts_enabled, Rule.sortByPrecedence, List.length_mergeSort,
          length_enabled_putRule hcontent hholds.distinct]
  · rw [submit_of_disabled s hvalid hdisabled]
    exact mapError_store_ne _ limit

/-! ### A service that allows no enabled rule -/

/-- A service whose limit is zero. -/
def closedService : Service := ⟨default, 0⟩

/-- The submission of a rule that is enabled. -/
def calmFeedSubmission : Submission where
  draft := { Draft.empty with ruleKey := " calm-feed ", scope := "ux" }
  actor := some "ops"
  time := ⟨1000000, 0⟩

/-- Its content: the key is trimmed, and nothing is set. -/
def calmFeedContent : Content := ⟨⟨"calm-feed"⟩, true, 0, .any, .ofFn .ux fun _ => none⟩

/-- The submission is valid, and its key is trimmed. -/
theorem validate_calmFeedSubmission :
    calmFeedSubmission.draft.validate = .ok calmFeedContent := by
  rw [Draft.validate_eq_ok_iff]
  refine ⟨?_, ?_, rfl, rfl, ?_, rfl⟩
  · decide +kernel
  · decide +kernel
  · rfl

/-- A new database refuses it for the limit of zero, and compiles snapshots
before and after. -/
theorem calmFeed_refused_by_closedService :
    (closedService.submit (.disk .empty : Backend) calmFeedSubmission.draft
      calmFeedSubmission.actor calmFeedSubmission.time).1 = .error (.ruleLimitReached 0) ∧
    ∀ (c : Context) (time : Instant), ∃ snapshot,
      closedService.snapshot (closedService.submitEach (.disk .empty) [calmFeedSubmission]) c time
        = .ok snapshot := by
  obtain ⟨hbound, hexact, -⟩ := enabled_rules_bounded closedService Backend.Fresh.disk
  obtain ⟨rules, -, hrefused⟩ := hexact [] fun _ h => nomatch h
  refine ⟨(hrefused _ _ validate_calmFeedSubmission rfl).1.mpr ?_,
    (hbound [calmFeedSubmission]).2⟩
  exact Nat.succ_pos _

end Overrides
