import Overrides.Proofs.Precedence.Order
import Overrides.Proofs.Store.Revisions
import Overrides.Proofs.Text.Blank
import Overrides.Snapshot

/-!
# `Overrides.Proofs.Precedence.InputOrder`: the order of the rules does not matter

A snapshot is compiled from a list of rules, and the sort by precedence
is stable, so the position of a rule counts where priority and revision
are both equal. Nowhere else does it: where no two rules have both in
common, every permutation of the list is sorted into the same list, and
the rest of the compilation works on that.

* `sortByPrecedence_perm`: permuted rules are sorted alike.
* `Context.normalized_normalized`: a context is normalised once and for all.
* `compilation_ignores_input_order`: what this says of snapshots, and that
  the rules of a store are such rules.
-/

set_option autoImplicit false

namespace Overrides

/-! ### Contexts -/

namespace Text

/-- A text that is left of another one after trimming is left as it is. -/
theorem nonBlank?_of_nonBlank? {s t : String} (h : nonBlank? s = some t) :
    nonBlank? t = some t := by
  unfold nonBlank? at h ⊢
  cases hempty : (trim s).isEmpty with
  | true => simp [hempty] at h
  | false =>
    obtain rfl : trim s = t := by simpa [hempty] using h
    simp [trim_trim, hempty]

end Text

/-- Normalising twice is normalising once: what is left of a value is not blank
and has no blanks around it. -/
theorem Context.normalized_normalized (c : Context) : c.normalized.normalized = c.normalized := by
  have hvalue : ∀ d, (c.normalized.value d).bind Text.nonBlank? = c.normalized.value d := by
    intro d
    simp only [normalized, value_ofValues]
    cases hraw : (c.value d).bind Text.nonBlank? with
    | none => rfl
    | some t =>
      obtain ⟨s, -, hs⟩ := Option.bind_eq_some_iff.mp hraw
      rw [Option.bind_some]
      exact Text.nonBlank?_of_nonBlank? hs
  show ofValues (fun d => (c.normalized.value d).bind Text.nonBlank?) = c.normalized
  simp only [hvalue]
  rfl

/-! ### Sorting -/

/-- No two rules of the list have both priority and revision in common. Then the
position in the list never decides between two rules. -/
def DistinctlyRanked (rules : List Rule) : Prop :=
  (rules.map fun r => (r.priority, r.revision)).Nodup

/-- Rules of different revisions are distinctly ranked. -/
theorem distinctlyRanked_of_revisions {rules : List Rule}
    (h : (rules.map Rule.revision).Nodup) : DistinctlyRanked rules := by
  refine List.Nodup.of_map Prod.snd ?_
  rw [List.map_map]
  exact h

variable {rules others : List Rule}

/-- Being distinctly ranked does not depend on the order of the list. -/
theorem DistinctlyRanked.perm (h : DistinctlyRanked rules) (hperm : others.Perm rules) :
    DistinctlyRanked others := (hperm.map _).nodup_iff.mpr h

/-- Some of distinctly ranked rules are distinctly ranked. -/
theorem DistinctlyRanked.filter (h : DistinctlyRanked rules) (keep : Rule → Bool) :
    DistinctlyRanked (rules.filter keep) := List.Nodup.sublist (List.filter_sublist.map _) h

/-- Of two rules that may stand in either order, neither is ranked above the other. -/
theorem Rule.rank_eq_of_precedes {a b : Rule} (hab : a.precedes b = true)
    (hba : b.precedes a = true) : (a.priority, a.revision) = (b.priority, b.revision) := by
  rw [Rule.precedes_iff] at hab hba
  rw [Prod.mk.injEq, ← UInt32.toNat_inj, ← UInt64.toNat_inj]
  omega

/-- Permuted rules are sorted alike: a sorted list in which no two items may be
exchanged is determined by its items. Where two rules rank alike the sort keeps
their order, and then this would be false. -/
theorem sortByPrecedence_perm (h : DistinctlyRanked rules) (hperm : others.Perm rules) :
    Rule.sortByPrecedence others = Rule.sortByPrecedence rules := by
  have hsorted : ∀ rs : List Rule,
      (Rule.sortByPrecedence rs).Pairwise fun a b => a.precedes b = true := fun rs =>
    List.pairwise_mergeSort Rule.precedes_trans Rule.precedes_total rs
  refine List.Perm.eq_of_pairwise (fun a b ha hb hab hba => ?_) (hsorted others) (hsorted rules) ?_
  · have hmem : a ∈ rules := hperm.mem_iff.mp (List.mem_mergeSort.mp ha)
    exact List.inj_on_of_nodup_map h hmem (List.mem_mergeSort.mp hb)
      (Rule.rank_eq_of_precedes hab hba)
  · exact (List.mergeSort_perm others _).trans (hperm.trans (List.mergeSort_perm rules _).symm)

/-! ### Compiling -/

/-- The eligible rules of a permuted list are the eligible rules, permuted. -/
theorem eligible_perm (hperm : others.Perm rules) (c : Context) :
    (eligible others c).Perm (eligible rules c) := hperm.filter _

/-- Resolution does not depend on the order of the rules. -/
theorem ofEligible_perm (h : DistinctlyRanked rules) (hperm : others.Perm rules) :
    Resolved.ofEligible others = Resolved.ofEligible rules := by
  have hany : others.any Resolved.requestsSafeMode = rules.any Resolved.requestsSafeMode :=
    hperm.any_eq
  unfold Resolved.ofEligible
  rw [sortByPrecedence_perm h hperm, hany]

variable {compiler : Compiler} {c : Context} {time : Instant}

/-- A snapshot depends on its rules through the resolution of the eligible
ones. -/
theorem compile_eq_of_ofEligible
    (h : Resolved.ofEligible (eligible others c.normalized)
      = Resolved.ofEligible (eligible rules c.normalized)) :
    Snapshot.compile compiler others c time = Snapshot.compile compiler rules c time := by
  simp only [Snapshot.compile, h]

/-- A context may be normalised before it is handed over. -/
theorem compile_normalized (rules : List Rule) :
    Snapshot.compile compiler rules c.normalized time = Snapshot.compile compiler rules c time := by
  simp only [Snapshot.compile, Context.normalized_normalized]

/-- **Compilation ignores the order of its input.** Where no two rules have
priority and revision in common, every permutation of the rules gives the
same snapshot. So does a context that was normalised before. The rules
that a store of either kind lists after any writes are such rules. -/
theorem compilation_ignores_input_order :
    (∀ (compiler : Compiler) (rules others : List Rule) (c : Context) (time : Instant),
      DistinctlyRanked rules → others.Perm rules →
      Snapshot.compile compiler others c time = Snapshot.compile compiler rules c time) ∧
    (∀ (compiler : Compiler) (rules : List Rule) (c : Context) (time : Instant),
      Snapshot.compile compiler rules c.normalized time
        = Snapshot.compile compiler rules c time) ∧
    ∀ (start : Backend) (requests : List WriteRequest), start.Fresh →
      (∀ request ∈ requests, request.Proper) → ∀ q : Query, ∃ listed,
      RuleStore.list (start.after requests) q = .ok listed ∧ DistinctlyRanked listed := by
  refine ⟨?_, ?_, ?_⟩
  · intro compiler rules others c time h hperm
    exact compile_eq_of_ofEligible (ofEligible_perm (h.filter _) (eligible_perm hperm _))
  · intro compiler rules c time
    exact compile_normalized rules
  · intro start requests hfresh hrequests q
    -- A store gives every write a revision of its own, so no two of its rules rank alike.
    obtain ⟨held, hholds, hrevisions⟩ := Backend.holds_after hfresh hrequests
    have hranked := (distinctlyRanked_of_revisions hrevisions).filter q.accepts
    exact ⟨_, hholds.list q, hranked.perm (List.mergeSort_perm ..)⟩

end Overrides
