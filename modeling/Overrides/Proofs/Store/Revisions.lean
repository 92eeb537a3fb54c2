import Overrides.Proofs.Store.Rollback
import Overrides.Proofs.Store.Holding

/-!
# `Overrides.Proofs.Store.Revisions`: revisions are never given out twice

A listing is ordered by priority and then by revision, and this order is
strict only if no two rules have one revision. Nothing compares revisions
when a rule is written: a store counts them up, in memory from a counter
and on disk from the greatest revision column. `Backend.Counted` says
that the counter in memory is not below the revision of any rule; a
database needs no such thing, since it counts from the rows themselves.

* `Backend.Holds.lt_of_write`: a write gives its rule a revision above those
  of all rules that the store holds.
* `Backend.holds_after`: after any run of writes to a new store, the rules
  that it holds have different revisions.
-/

set_option autoImplicit false

namespace Overrides.Backend

/-- No rule in memory has a revision above the last one given out. -/
def Counted : Backend → Prop
  | .memory l => ∀ r ∈ l.rules, r.revision.toNat ≤ l.lastRevision.toNat
  | .disk _ => True

/-- A new store has no revision above its counter, since it has none. -/
theorem Fresh.counted {s : Backend} (h : s.Fresh) : s.Counted := by
  cases h with
  | memory =>
    intro r hr
    exact nomatch hr
  | disk => trivial

variable {s next : Backend} {rules : List Rule} {request : WriteRequest} {w : Written}

/-- A write gives its rule a new revision, and the counter keeps up. In memory
the counter is what makes it new, and on disk it is the greatest revision in the
table. -/
theorem Holds.lt_of_write (h : s.Holds rules) (hcounted : s.Counted)
    (hwrite : RuleStore.write s request = (.ok w, next)) :
    (∀ r ∈ rules, r.revision.toNat < w.rule.revision.toNat) ∧ next.Counted := by
  cases h with
  | @memory l _ =>
    change ((l.write request).1, Backend.memory (l.write request).2) = _ at hwrite
    by_cases hroom : l.lastRevision.toNat + 1 < UInt64.size
    · rw [Ledger.write_eq hroom] at hwrite
      obtain ⟨hw, rfl⟩ := Prod.mk.inj hwrite
      have hrevision : w.rule.revision.toNat = l.lastRevision.toNat + 1 := by
        rw [← Except.ok.inj hw, Ledger.nextRule, WriteRequest.revision_rule,
          Ledger.toNat_succ hroom]
      have hless : ∀ r ∈ l.rules, r.revision.toNat < w.rule.revision.toNat := by
        intro r hr
        have hle := hcounted r hr
        omega
      refine ⟨hless, ?_⟩
      intro r hr
      show r.revision.toNat ≤ (l.lastRevision + 1).toNat
      rw [Ledger.toNat_succ hroom, ← hrevision]
      obtain rfl | hold := (Ledger.putsByKey_putRule _).mem hr
      · rw [← Except.ok.inj hw]
      · exact Nat.le_of_lt (hless r hold)
    · rw [Ledger.write_of_exhausted hroom] at hwrite
      cases (Prod.mk.inj hwrite).1
  | @disk d _ hrows _ _ =>
    change ((settle d (d.transaction request)).1,
      Backend.disk (settle d (d.transaction request)).2) = _ at hwrite
    cases htransaction : d.transaction request with
    | error e =>
      rw [htransaction] at hwrite
      cases (Prod.mk.inj hwrite).1
    | ok p =>
      rw [htransaction] at hwrite
      obtain ⟨hw, rfl⟩ := Prod.mk.inj hwrite
      obtain ⟨before, revision, -, -, -, -, hrevision, -, -, -, -, hp, -⟩ :=
        Database.transaction_eq_ok_iff.mp htransaction
      refine ⟨fun r hr => ?_, trivial⟩
      -- The row of a rule has the revision of the rule in its column.
      have hrow : r.row ∈ d.rules := by
        rw [hrows]
        exact List.mem_map_of_mem hr
      have hless : (r.revision.toNat : Int) < revision.toNat :=
        Database.lt_of_nextRevision hrevision hrow
      have hnew : w.rule.revision = revision := by
        rw [← Except.ok.inj hw, hp, WriteRequest.revision_rule]
      rw [hnew]
      omega

/-- Putting a rule with a new revision in its place keeps revisions different.
The rule that it replaces takes its revision along. -/
theorem nodup_revisions_putRule {r : Rule} (hkeys : (rules.map Rule.key).Nodup)
    (hrevisions : (rules.map Rule.revision).Nodup)
    (hnew : ∀ s ∈ rules, s.revision.toNat < r.revision.toNat) :
    ((Ledger.putRule r rules).map Rule.revision).Nodup := by
  rw [((Ledger.perm_putRule r hkeys).map Rule.revision).nodup_iff, List.map_cons, List.nodup_cons]
  constructor
  · intro hmem
    obtain ⟨s, hs, hsame⟩ := List.mem_map.mp hmem
    have hless := hnew s (List.mem_filter.mp hs).1
    rw [hsame] at hless
    omega
  · exact hrevisions.sublist (List.filter_sublist.map _)

/-- A run of writes leaves a store that holds rules of different revisions.
The induction is on the requests; the counter is the part of the
invariant that the next write needs. -/
theorem Holds.after (h : s.Holds rules) (hcounted : s.Counted)
    (hrevisions : (rules.map Rule.revision).Nodup) {requests : List WriteRequest}
    (hrequests : ∀ request ∈ requests, request.Proper) :
    ∃ rules', (s.after requests).Holds rules' ∧ (rules'.map Rule.revision).Nodup := by
  induction requests generalizing s rules with
  | nil => exact ⟨rules, h, hrevisions⟩
  | cons request rest ih =>
    have hrest : ∀ request ∈ rest, request.Proper := fun r hr =>
      hrequests r (List.mem_cons_of_mem _ hr)
    rw [Backend.after, List.foldl_cons, ← Backend.after]
    obtain ⟨e, hfails⟩ | ⟨w, next, hwrites, -, hnext⟩ :=
      h.write (hrequests request (List.mem_cons_self ..))
    · rw [hfails]
      exact ih h hcounted hrevisions hrest
    · obtain ⟨hless, hnextCounted⟩ := h.lt_of_write hcounted hwrites
      rw [hwrites]
      exact ih hnext hnextCounted (nodup_revisions_putRule h.distinct hrevisions hless) hrest

/-- After any writes, a new store holds rules of different revisions. -/
theorem holds_after (h : s.Fresh) {requests : List WriteRequest}
    (hrequests : ∀ request ∈ requests, request.Proper) :
    ∃ rules, (s.after requests).Holds rules ∧ (rules.map Rule.revision).Nodup :=
  h.holds.after h.counted List.nodup_nil hrequests

end Overrides.Backend
