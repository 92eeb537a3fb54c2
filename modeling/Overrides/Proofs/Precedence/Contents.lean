import Overrides.Proofs.Precedence.Scopes

/-!
# `Overrides.Proofs.Precedence.Contents`: what revisions do to a snapshot

A revision breaks ties between rules of one priority and is copied into
the trace. Otherwise a snapshot depends on the contents of its rules. So
two lists of rules have the same snapshot, up to the revisions in the
trace, if in every scope the contents stand in the same order of
precedence. Since scopes do not interfere, the order across scopes may
differ.

* `Alike.claim`, `Alike.foldl`: walks over rules with the same contents
  side by side.
* `SameContents.unrevised_compile`: what this says of snapshots.
* `sameContents_of_descending`: where rules are given by falling revisions,
  it is enough to compare those of one scope and one priority.
-/

set_option autoImplicit false

namespace Overrides

open Placed Resolved

/-- The entry without its revision. -/
def Applied.unrevised (a : Applied) : Applied := { a with revision := 0 }

/-- The snapshot without the revisions in its trace. Two stores that were
written to in different orders have given out different revisions, so this is as
much as they can agree on. -/
def Snapshot.unrevised (s : Snapshot) : Snapshot :=
  { s with applied := s.applied.map Applied.unrevised }

/-- In every scope the rules have the same contents, in the same order of
precedence. -/
def SameContents (rules others : List Rule) : Prop :=
  ∀ s, ((Rule.sortByPrecedence rules).filter (·.scope = s)).map Rule.content
    = ((Rule.sortByPrecedence others).filter (·.scope = s)).map Rule.content

/-- The revisions fall along the list, strictly. A store recalls its rules in
this order, the one that was written last coming first. -/
def Descending (rules : List Rule) : Prop :=
  rules.Pairwise fun a b => b.revision.toNat < a.revision.toNat

/-- In every scope and at every priority the contents stand in the same order.
Contents that do not compete, since they differ in scope or priority, may stand
in any order to each other. -/
def SameRanks (contents others : List Content) : Prop :=
  ∀ (s : Scope) (p : UInt32), contents.filter (fun c => c.scope = s ∧ c.priority = p)
    = others.filter (fun c => c.scope = s ∧ c.priority = p)

/-! ### Walks side by side -/

namespace Resolved

/-- Two states of the walk have the same values, and entries that differ in
their revisions only. -/
structure Alike (a b : Resolved) : Prop where
  values : ∀ f, (a.winners.get f).map Contribution.value
    = (b.winners.get f).map Contribution.value
  applied : a.applied.map Applied.unrevised = b.applied.map Applied.unrevised

variable {a b : Resolved} {p : Bool} {r t : Rule} {rules others : List Rule}

/-- A resolution is like itself. -/
theorem Alike.refl (a : Resolved) : Alike a a := ⟨fun _ => rfl, rfl⟩

/-- The same fields have been won. -/
theorem Alike.isNone (h : Alike a b) (f : Field) :
    (a.winners.get f).isNone = (b.winners.get f).isNone := by
  have hvalues := congrArg Option.isNone (h.values f)
  rwa [Option.isNone_map, Option.isNone_map] at hvalues

/-- Rules with the same content win the same. -/
theorem Alike.won (h : Alike a b) (hcontent : r.content = t.content) :
    Resolved.won p a r = Resolved.won p b t := by
  refine List.filter_congr fun f _ => ?_
  rw [h.isNone, hcontent]

/-- The entries of rules with the same content differ in the revision only. -/
theorem unrevised_ofRule (hcontent : r.content = t.content) (won : List Field) :
    (Applied.ofRule r won).unrevised = (Applied.ofRule t won).unrevised := by
  simp only [Applied.unrevised, Applied.ofRule, Rule.key, Rule.scope, Rule.priority, hcontent]

/-- One step, with rules of the same content. What a rule claims is in its
content; its revision and its writers only show in the trace and in what is
noted of the winner. -/
theorem Alike.claim (h : Alike a b) (hcontent : r.content = t.content) :
    Alike (Resolved.claim p a r) (Resolved.claim p b t) where
  values f := by
    have hvalues := h.values f
    rw [get_winners_claim, get_winners_claim, hcontent]
    cases ha : a.winners.get f with
    | none =>
      cases hb : b.winners.get f with
      | none =>
        rw [Option.map_map, Option.map_map]
        rfl
      -- One slot cannot be taken and the other free, because the values agree.
      | some k => simp [ha, hb] at hvalues
    | some k =>
      cases hb : b.winners.get f with
      | none => simp [ha, hb] at hvalues
      | some l => simpa [ha, hb] using hvalues
  applied := by
    rw [applied_claim, applied_claim, List.map_append, List.map_append, h.applied, entry, entry,
      h.won hcontent]
    split
    · rfl
    · rw [List.map_singleton, List.map_singleton, unrevised_ofRule hcontent]

/-- Walks over rules with the same contents stay alike, step by step, when they
start alike. The lists are compared item by item, so both have to be in order of
precedence already. -/
theorem Alike.foldl (h : Alike a b) (hcontents : rules.map Rule.content = others.map Rule.content) :
    Alike (rules.foldl (Resolved.claim p) a) (others.foldl (Resolved.claim p) b) := by
  induction rules generalizing others a b with
  | nil =>
    obtain rfl := List.map_eq_nil_iff.mp hcontents.symm
    exact h
  | cons r rules ih =>
    cases others with
    | nil => exact nomatch hcontents
    | cons t others =>
      obtain ⟨hfirst, hrest⟩ := List.cons.inj hcontents
      rw [List.foldl_cons, List.foldl_cons]
      exact ih (h.claim hfirst) hrest

/-- Whether safe mode is requested can be seen from the contents. -/
theorem any_requestsSafeMode (rules : List Rule) :
    rules.any requestsSafeMode
      = ((Rule.sortByPrecedence rules).map Rule.content).any
        fun c => c.action.value .safeMode == some true := by
  rw [List.any_map, ← (List.mergeSort_perm rules _).any_eq]
  rfl

/-- Resolutions of rules with the same contents in the order of precedence. -/
theorem alike_ofEligible
    (h : (Rule.sortByPrecedence rules).map Rule.content
      = (Rule.sortByPrecedence others).map Rule.content) :
    Alike (ofEligible rules) (ofEligible others) := by
  rw [ofEligible, ofEligible, any_requestsSafeMode, any_requestsSafeMode, h]
  exact (Alike.refl start).foldl h

/-- The values are all that settings depend on. -/
theorem Alike.settings (h : Alike a b) (f : Field) : a.settings.get f = b.settings.get f := by
  have hvalues := h.values f
  rw [get_settings, get_settings]
  cases ha : a.winners.get f <;> cases hb : b.winners.get f <;> simp [ha, hb] at hvalues ⊢
  rw [hvalues]

end Resolved

/-! ### Snapshots of rules with the same contents -/

namespace Snapshot

/-- Dropping revisions leaves the scopes, and so the entries of a scope. -/
theorem filter_map_unrevised (applied : List Applied) (s : Scope) :
    (applied.map Applied.unrevised).filter (·.scope = s)
      = (applied.filter (·.scope = s)).map Applied.unrevised := List.filter_map

/-- Revisions may be dropped before the trace is put together. It is sorted by
scope, and no revision is looked at. -/
theorem trace_map_unrevised (forced : Bool) (applied : List Applied) :
    trace forced (applied.map Applied.unrevised)
      = (trace forced applied).map Applied.unrevised := by
  symm
  cases forced with
  | true =>
    rw [trace, trace, if_pos rfl, if_pos rfl, filter_map_unrevised]
    exact List.map_mergeSort fun _ _ _ _ => rfl
  | false => exact List.map_mergeSort fun _ _ _ _ => rfl

end Snapshot

namespace SameContents

variable {rules others : List Rule}

/-- Eligible rules are known by their contents: by the flag and the filter. So
lists with the same contents have eligible rules with the same contents. -/
theorem eligible (h : SameContents rules others) (c : Context) :
    SameContents (eligible rules c) (eligible others c) := by
  have heligible : ∀ (rs : List Rule) (s : Scope),
      ((Rule.sortByPrecedence (Overrides.eligible rs c)).filter (·.scope = s)).map Rule.content
        = (((Rule.sortByPrecedence rs).filter (·.scope = s)).map Rule.content).filter
          fun d => d.enabled && d.filter.accepts c := by
    intro rs s
    rw [Overrides.eligible, sortByPrecedence_filter, List.filter_comm, List.filter_map]
    rfl
  intro s
  rw [heligible, heligible, h s]

/-- The walks over the rules of a scope are alike. -/
theorem alike (h : SameContents rules others) (s : Scope) :
    Alike (ofEligible (rules.filter (·.scope = s))) (ofEligible (others.filter (·.scope = s))) := by
  refine alike_ofEligible ?_
  rw [sortByPrecedence_filter, sortByPrecedence_filter]
  exact h s

/-- The settings of every scope come from its own rules. Hence lists that have
the same contents scope by scope have the same settings. -/
theorem settings (h : SameContents rules others) :
    (ofEligible rules).settings = (ofEligible others).settings := by
  refine Table.ext_get fun f => ?_
  calc (ofEligible rules).settings.get f
      = (ofEligible (rules.filter (·.scope = f.scope))).settings.get f :=
        (agreeOn_ofEligible f.scope rules).settings rfl
    _ = (ofEligible (others.filter (·.scope = f.scope))).settings.get f :=
        (h.alike f.scope).settings f
    _ = (ofEligible others).settings.get f :=
        ((agreeOn_ofEligible f.scope others).settings rfl).symm

/-- The entries of every scope come from its own rules. -/
theorem applied (h : SameContents rules others) (s : Scope) :
    ((ofEligible rules).applied.map Applied.unrevised).filter (·.scope = s)
      = ((ofEligible others).applied.map Applied.unrevised).filter (·.scope = s) := by
  rw [Snapshot.filter_map_unrevised, Snapshot.filter_map_unrevised,
    (agreeOn_ofEligible s rules).applied, (agreeOn_ofEligible s others).applied,
    ← Snapshot.filter_map_unrevised, ← Snapshot.filter_map_unrevised, (h.alike s).applied]

/-- Rules with the same contents have the same snapshot up to revisions. The
digest is the same too, since it is taken of the settings. -/
theorem unrevised_compile (h : SameContents rules others) (compiler : Compiler) (c : Context)
    (time : Instant) :
    (Snapshot.compile compiler rules c time).unrevised
      = (Snapshot.compile compiler others c time).unrevised := by
  have hel := h.eligible c.normalized
  have htrace : ∀ forced, (Snapshot.trace forced
        (ofEligible (Overrides.eligible rules c.normalized)).applied).map Applied.unrevised
      = (Snapshot.trace forced
        (ofEligible (Overrides.eligible others c.normalized)).applied).map Applied.unrevised := by
    intro forced
    rw [← Snapshot.trace_map_unrevised, ← Snapshot.trace_map_unrevised]
    exact Snapshot.trace_congr forced hel.applied
  simp only [Snapshot.unrevised, Snapshot.compile, hel.settings, htrace]

end SameContents

/-! ### Rules given by falling revisions -/

section

variable {rules others : List Rule}

/-- At one priority the order of precedence is the one of falling revisions.
Here that is the order of the list, so the sort leaves it. -/
theorem filter_rank_sortByPrecedence (h : Descending rules) (s : Scope) (p : UInt32) :
    (Rule.sortByPrecedence rules).filter (fun r => r.scope = s ∧ r.priority = p)
      = rules.filter (fun r => r.scope = s ∧ r.priority = p) := by
  rw [← sortByPrecedence_filter]
  refine List.mergeSort_of_pairwise ?_
  refine (List.Pairwise.filter _ h).imp_of_mem ?_
  intro a b ha hb hless
  have hap : a.priority = p := (of_decide_eq_true (List.mem_filter.mp ha).2).2
  have hbp : b.priority = p := (of_decide_eq_true (List.mem_filter.mp hb).2).2
  rw [Rule.precedes_iff, hap, hbp]
  omega

/-- The contents of a scope stand in the order of their priorities. What remains
open is the order at one priority, which the revisions decide. -/
theorem pairwise_priority (rules : List Rule) (s : Scope) :
    (((Rule.sortByPrecedence rules).filter (·.scope = s)).map Rule.content).Pairwise
      fun c d => d.priority.toNat ≤ c.priority.toNat := by
  rw [List.pairwise_map]
  have hsorted := List.pairwise_mergeSort Rule.precedes_trans Rule.precedes_total rules
  refine (hsorted.filter _).imp ?_
  intro a b hab
  rw [Rule.precedes_iff] at hab
  show b.priority.toNat ≤ a.priority.toNat
  omega

/-- Where revisions fall, contents that stand in the same order in every scope
and at every priority have the same order of precedence. Among rules of one
scope and one priority the revision decides, and it falls along the list, so the
order of the list is the order there. -/
theorem sameContents_of_descending (hrules : Descending rules) (hothers : Descending others)
    (h : SameRanks (rules.map Rule.content) (others.map Rule.content)) :
    SameContents rules others := by
  -- Sorting a scope does not move the rules of one priority among themselves.
  have hrank : ∀ rs : List Rule, Descending rs → ∀ (s : Scope) (p : UInt32),
      (((Rule.sortByPrecedence rs).filter (·.scope = s)).map Rule.content).filter (·.priority = p)
        = (rs.map Rule.content).filter fun c => c.scope = s ∧ c.priority = p := by
    intro rs hrs s p
    calc (((Rule.sortByPrecedence rs).filter (·.scope = s)).map Rule.content).filter
          (·.priority = p)
        = ((Rule.sortByPrecedence rs).filter fun r => r.scope = s ∧ r.priority = p).map
            Rule.content := by
          rw [List.filter_map, List.filter_filter]
          refine congrArg (List.map Rule.content) (List.filter_congr fun r _ => ?_)
          rw [Bool.decide_and, Bool.and_comm]
          rfl
      _ = (rs.filter fun r => r.scope = s ∧ r.priority = p).map Rule.content := by
          rw [filter_rank_sortByPrecedence hrs]
      _ = (rs.map Rule.content).filter fun c => c.scope = s ∧ c.priority = p := by
          rw [List.filter_map]
          rfl
  intro s
  refine eq_of_classes Content.priority (fun p q => q.toNat ≤ p.toNat)
    (fun p q hpq hqp => UInt32.toNat_inj.mp (Nat.le_antisymm hqp hpq))
    (pairwise_priority rules s) (pairwise_priority others s) fun p => ?_
  rw [hrank rules hrules, hrank others hothers]
  exact h s p

end

end Overrides
