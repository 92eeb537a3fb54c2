import Overrides.Proofs.Precedence.Contents
import Overrides.Proofs.Precedence.InputOrder
import Overrides.Proofs.Service.Limit
import Overrides.RuleFile

/-!
# `Overrides.Proofs.Store.Reachable`: what is known of a store in every state

A store of either kind is reached from a new one by writes, those that
fail too. `Backend.Recalls` is what every such state satisfies. It names
the rules that the store holds in the order of their writes, the last
one first. A write puts its rule in front and drops the rule of its key,
wherever that one stood, so the order of the others never changes.

* `Backend.Recalls.write`: the step.
* `Backend.Reachable.recalls`: every reachable state.
* `Backend.Recalls.list`: what such a store lists.
* `Backend.Reachable.submit`, `Backend.Reachable.submitFile`: what a service
  does with submissions and with rule files leads to no other states.
-/

set_option autoImplicit false

namespace Overrides.Backend

/-- The states that writes to a new store lead to. Writes that fail are among
them, since callers cannot tell beforehand which ones will. -/
inductive Reachable : Backend → Prop where
  | fresh {s : Backend} : s.Fresh → Reachable s
  | write {s : Backend} {request : WriteRequest} : Reachable s → request.Proper →
      Reachable (RuleStore.write s request).2

/-- The store holds these rules, the one written last coming first. In memory
and on disk the rules stand in another order, the one in which their keys were
first written. -/
structure Recalls (s : Backend) (recent : List Rule) : Prop where
  holds : ∃ rules, s.Holds rules ∧ recent.Perm rules
  counted : s.Counted
  descending : Descending recent
  validated : ∀ r ∈ recent, ∃ draft : Draft, draft.validate = .ok r.content

variable {s next : Backend} {recent : List Rule} {request : WriteRequest}

/-- A new store recalls nothing. -/
theorem Fresh.recalls (h : s.Fresh) : s.Recalls [] :=
  ⟨⟨[], h.holds, .nil⟩, h.counted, .nil, fun _ hr => nomatch hr⟩

/-- A write fails and changes nothing, or its rule comes first from then on
and the rule of its key is gone. -/
theorem Recalls.write (h : s.Recalls recent) (hrequest : request.Proper) :
    (∃ e, RuleStore.write s request = (.error e, s)) ∨
    ∃ w next, RuleStore.write s request = (.ok w, next) ∧ w.rule.content = request.content ∧
      next.Recalls (w.rule :: recent.filter (·.key ≠ request.key)) := by
  obtain ⟨rules, hholds, hperm⟩ := h.holds
  obtain hfails | ⟨w, next, hwrites, hcontent, hnext⟩ := hholds.write hrequest
  · exact .inl hfails
  · obtain ⟨hless, hcounted⟩ := hholds.lt_of_write h.counted hwrites
    have hkey : w.rule.key = request.key := congrArg Content.ruleKey hcontent
    refine .inr ⟨w, next, hwrites, hcontent, ⟨_, hnext, ?_⟩, hcounted, ?_, ?_⟩
    -- The rule of the key is replaced where it stands, and here it moves to the front.
    · refine List.Perm.trans ?_ (Ledger.perm_putRule w.rule hholds.distinct).symm
      rw [hkey]
      exact (hperm.filter _).cons _
    · refine List.pairwise_cons.mpr ⟨fun r hr => ?_, h.descending.filter _⟩
      exact hless r (hperm.mem_iff.mp (List.mem_filter.mp hr).1)
    · intro r hr
      rcases List.mem_cons.mp hr with rfl | hr
      · rw [hcontent]
        exact hrequest
      · exact h.validated r (List.mem_filter.mp hr).1

/-- A write that succeeds puts its rule in front. The rule of its key, if there
was one, is left out of the rest. -/
theorem Recalls.of_write (h : s.Recalls recent) (hrequest : request.Proper) {w : Written}
    (hwrites : RuleStore.write s request = (.ok w, next)) :
    w.rule.content = request.content ∧
      next.Recalls (w.rule :: recent.filter (·.key ≠ request.key)) := by
  obtain ⟨e, hfails⟩ | ⟨w', next', hwrites', hcontent, hnext⟩ := h.write hrequest
  · rw [hfails] at hwrites
    exact nomatch (Prod.mk.inj hwrites).1
  · rw [hwrites'] at hwrites
    obtain ⟨hw, rfl⟩ := Prod.mk.inj hwrites
    obtain rfl := Except.ok.inj hw
    exact ⟨hcontent, hnext⟩

/-- Every reachable state recalls its rules. The induction is on the writes, and
one that fails leaves what was recalled. -/
theorem Reachable.recalls (h : s.Reachable) : ∃ recent, s.Recalls recent := by
  induction h with
  | fresh hfresh => exact ⟨[], hfresh.recalls⟩
  | write _ hrequest ih =>
    obtain ⟨recent, hrecent⟩ := ih
    obtain ⟨e, hfails⟩ | ⟨w, next, hwrites, -, hnext⟩ := hrecent.write hrequest
    · rw [hfails]
      exact ⟨recent, hrecent⟩
    · rw [hwrites]
      exact ⟨_, hnext⟩

/-! ### Listings -/

/-- The revisions tell the rules apart. -/
theorem Recalls.distinctlyRanked (h : s.Recalls recent) : DistinctlyRanked recent := by
  refine distinctlyRanked_of_revisions (List.pairwise_map.mpr (h.descending.imp ?_))
  intro a b hless hsame
  rw [hsame] at hless
  exact Nat.lt_irrefl _ hless

/-- The store lists the rules that it recalls. -/
theorem Recalls.list (h : s.Recalls recent) (q : Query) :
    RuleStore.list s q = .ok (Rule.sortByPrecedence (recent.filter q.accepts)) := by
  obtain ⟨rules, hholds, hperm⟩ := h.holds
  rw [hholds.list, sortByPrecedence_perm (h.distinctlyRanked.filter _) (hperm.symm.filter _)]

/-! ### What a service does -/

variable {service : Service} {draft : Draft} {actor : Option String} {time : Instant}

/-- What a service asks the store to write is the content of the draft. A
request is made only if the draft is valid, so stores see valid content only. -/
theorem requestOf_eq_ok {σ : Type} [RuleStore σ] {s : σ}
    (h : service.requestOf s draft actor time = .ok request) :
    ∃ content, draft.validate = .ok content ∧ request = ⟨content, actor, time⟩ := by
  obtain ⟨content, hvalid, hrest⟩ := bind_eq_ok_iff.mp h
  refine ⟨content, mapError_eq_ok_iff.mp hvalid, ?_⟩
  dsimp only at hrest
  split at hrest
  · obtain ⟨-, -, hrequest⟩ := bind_eq_ok_iff.mp hrest
    exact (Except.ok.inj hrequest).symm
  · exact (Except.ok.inj hrest).symm

/-- A submission leads to a reachable state, refused or not. If it is refused
before the write, the state is the one it was. -/
theorem Reachable.submit (h : s.Reachable) (service : Service) (draft : Draft)
    (actor : Option String) (time : Instant) :
    (service.submit s draft actor time).2.Reachable := by
  rw [Service.submit]
  cases hrequest : service.requestOf s draft actor time with
  | error e => exact h
  | ok request =>
    obtain ⟨content, hvalid, rfl⟩ := requestOf_eq_ok hrequest
    exact h.write ⟨draft, hvalid⟩

/-- Any submissions lead from a reachable store to one, whether they succeed or
not. -/
theorem Reachable.submitEach (h : s.Reachable) (service : Service)
    (submissions : List Submission) : (service.submitEach s submissions).Reachable := by
  induction submissions generalizing s with
  | nil => exact h
  | cons u rest ih =>
    rw [Service.submitEach, List.foldl_cons, ← Service.submitEach]
    exact ih (h.submit service u.draft u.actor u.time)

/-- A submission that fails ends the run. -/
theorem submitAll_of_error {e : ServiceFault}
    (h : service.submit s draft actor time = (.error e, next)) (rest : List Draft) :
    RuleFile.submitAll service actor time (draft :: rest) s = (.error e, next) := by
  rw [RuleFile.submitAll, h]

/-- One that succeeds is followed by the others. -/
theorem submitAll_of_ok {w : Written}
    (h : service.submit s draft actor time = (.ok w, next)) (rest : List Draft) :
    RuleFile.submitAll service actor time (draft :: rest) s
      = ((RuleFile.submitAll service actor time rest next).1.map (w :: ·),
        (RuleFile.submitAll service actor time rest next).2) := by
  rw [RuleFile.submitAll, h]

/-- The submissions of a file lead from a reachable store to one, wherever they
stop. -/
theorem Reachable.submitAll (h : s.Reachable) (service : Service) (actor : Option String)
    (time : Instant) (drafts : List Draft) :
    (RuleFile.submitAll service actor time drafts s).2.Reachable := by
  induction drafts generalizing s with
  | nil => exact h
  | cons draft rest ih =>
    have hnext := h.submit service draft actor time
    cases hsubmit : service.submit s draft actor time with
    | mk outcome next =>
      rw [hsubmit] at hnext
      cases outcome with
      | error e =>
        rw [submitAll_of_error hsubmit]
        exact hnext
      | ok w =>
        rw [submitAll_of_ok hsubmit]
        exact ih hnext

/-- A rule file leads to a reachable state, also where it is given up halfway. -/
theorem Reachable.submitFile (h : s.Reachable) (service : Service) (drafts : List Draft)
    (actor : Option String) (time : Instant) :
    (RuleFile.submit service s drafts actor time).2.Reachable := by
  rw [RuleFile.submit]
  split
  · exact h
  · exact h.submitAll service actor time drafts

end Overrides.Backend
