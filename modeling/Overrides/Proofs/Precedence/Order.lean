import Mathlib.Data.List.Basic
import Overrides.Rule

/-!
# `Overrides.Proofs.Precedence.Order`: the order of precedence, declared

`Rule.sortByPrecedence` is a stable sort. What it computes is said here
without it. A *placed* rule is a rule with its position in the list it
came from, and `ComesFirst` compares placed rules by priority, then by
revision, then by position. `Leads` says that one placed rule comes
before all others with some property.

* `pairwise_ranking`: the sorted list of placed rules stands in the order
  `ComesFirst`.
* `ranking_filter`: leaving rules out leaves the order of the others.
* `leads_of_find?_ranking`: the first rule of the sorted list with a
  property is the one that leads the rules with that property.
* `Leads.unique`: at most one placed rule leads.
-/

set_option autoImplicit false

namespace Overrides

/-- A rule and its position in a list of rules, as `List.zipIdx` pairs them.
Equal rules at two positions are two placed rules, which is how one tells what
each of them wins. -/
abbrev Placed := Rule × Nat

namespace Placed

/-- The order of precedence: higher priority first, then higher revision, then
the earlier position. The position makes it strict, which is how a stable sort
settles ties. -/
def ComesFirst (p q : Placed) : Prop :=
  q.1.priority < p.1.priority ∨ q.1.priority = p.1.priority ∧
    (q.1.revision < p.1.revision ∨ q.1.revision = p.1.revision ∧ p.2 < q.2)

/-- The positions grow along the list, as in `List.zipIdx` and its sublists. -/
def Increasing (ps : List Placed) : Prop := ps.Pairwise fun p q => p.2 < q.2

/-- The comparison of the sort, which does not look at positions. Rules of the
same rank precede each other, and a stable sort leaves these as they stand. -/
def precedes (p q : Placed) : Bool := p.1.precedes q.1

/-- Placed rules in order of precedence. -/
def ranking (ps : List Placed) : List Placed := ps.mergeSort precedes

/-- Among the placed rules with a property this one comes first. The definition
compares with every other place and does not sort, so it can be read without
knowing the walk. -/
def Leads (ps : List Placed) (cand : Rule → Prop) (p : Placed) : Prop :=
  p ∈ ps ∧ cand p.1 ∧ ∀ q ∈ ps, cand q.1 → q ≠ p → p.ComesFirst q

end Placed

/-! ### The comparison -/

/-- Precedence in numbers: a greater priority, or the same one and a revision at
least as great. -/
theorem Rule.precedes_iff (a b : Rule) :
    a.precedes b = true ↔ b.priority.toNat < a.priority.toNat ∨
      b.priority.toNat = a.priority.toNat ∧ b.revision.toNat ≤ a.revision.toNat := by
  rw [Rule.precedes, Bool.or_eq_true, Bool.and_eq_true, decide_eq_true_iff, decide_eq_true_iff,
    beq_iff_eq, UInt32.lt_iff_toNat_lt, UInt64.le_iff_toNat_le, ← UInt32.toNat_inj, eq_comm]

/-- Precedence is transitive, which the sort asks for. -/
theorem Rule.precedes_trans (a b c : Rule) (hab : a.precedes b = true)
    (hbc : b.precedes c = true) : a.precedes c = true := by
  rw [Rule.precedes_iff] at hab hbc ⊢
  omega

/-- Of two rules one precedes the other. Both do if they have priority and
revision in common. -/
theorem Rule.precedes_total (a b : Rule) : (a.precedes b || b.precedes a) = true := by
  rw [Bool.or_eq_true, Rule.precedes_iff, Rule.precedes_iff]
  omega

namespace Placed

/-- The precedence of placed rules is that of their rules; the positions do not
count. -/
theorem precedes_iff (p q : Placed) :
    p.precedes q = true ↔ q.1.priority.toNat < p.1.priority.toNat ∨
      q.1.priority.toNat = p.1.priority.toNat ∧ q.1.revision.toNat ≤ p.1.revision.toNat :=
  Rule.precedes_iff p.1 q.1

/-- The sort asks for transitivity of placed rules as well. -/
theorem precedes_trans (p q r : Placed) (hpq : p.precedes q = true)
    (hqr : q.precedes r = true) : p.precedes r = true :=
  Rule.precedes_trans p.1 q.1 r.1 hpq hqr

/-- Of two placed rules one precedes the other. -/
theorem precedes_total (p q : Placed) : (p.precedes q || q.precedes p) = true :=
  Rule.precedes_total p.1 q.1

/-- The strict order in numbers. Position decides between rules of the same
rank, so two different places are never even. -/
theorem comesFirst_iff (p q : Placed) :
    p.ComesFirst q ↔ q.1.priority.toNat < p.1.priority.toNat ∨
      q.1.priority.toNat = p.1.priority.toNat ∧ (q.1.revision.toNat < p.1.revision.toNat ∨
        q.1.revision.toNat = p.1.revision.toNat ∧ p.2 < q.2) := by
  rw [ComesFirst, UInt32.lt_iff_toNat_lt, UInt64.lt_iff_toNat_lt, ← UInt32.toNat_inj,
    ← UInt64.toNat_inj]

/-- A rule that the sort puts strictly before another one comes first,
whatever the positions. -/
theorem comesFirst_of_not_precedes {p q : Placed} (h : ¬ q.precedes p = true) :
    p.ComesFirst q := by
  rw [precedes_iff] at h
  rw [comesFirst_iff]
  omega

/-- A rule that the sort may put before another one comes first when its
position is the earlier one. -/
theorem comesFirst_of_precedes {p q : Placed} (h : p.precedes q = true) (hpos : p.2 < q.2) :
    p.ComesFirst q := by
  rw [precedes_iff] at h
  rw [comesFirst_iff]
  omega

/-- Of two placed rules at most one comes first. -/
theorem ComesFirst.asymm {p q : Placed} (h : p.ComesFirst q) : ¬ q.ComesFirst p := by
  rw [comesFirst_iff] at h ⊢
  omega

/-- Nothing comes before itself. -/
theorem ComesFirst.ne {p q : Placed} (h : p.ComesFirst q) : p ≠ q := by
  rintro rfl
  exact h.asymm h

/-! ### The sorted list -/

/-- The places of a list increase. -/
theorem increasing_zipIdx (rules : List Rule) : Increasing rules.zipIdx := by
  have h : (rules.zipIdx.map Prod.snd).Pairwise (· < ·) := by
    rw [List.zipIdx_map_snd]
    exact List.pairwise_lt_range'
  exact List.pairwise_map.mp h

/-- Places that increase still do when some are left out. -/
theorem Increasing.filter {ps : List Placed} (h : Increasing ps) (keep : Placed → Bool) :
    Increasing (ps.filter keep) := List.Pairwise.filter keep h

/-- Ranking moves the places and loses none. -/
@[simp] theorem mem_ranking {ps : List Placed} {p : Placed} : p ∈ ranking ps ↔ p ∈ ps :=
  List.mem_mergeSort

/-- Forgetting the positions, `ranking` is `Rule.sortByPrecedence`. -/
theorem map_fst_ranking (ps : List Placed) :
    (ranking ps).map Prod.fst = Rule.sortByPrecedence (ps.map Prod.fst) :=
  List.map_mergeSort fun _ _ _ _ => rfl

/-- Sorted placed rules stand in order of precedence. The induction is on
the list: the sort puts its head behind rules that strictly precede it,
and before rules that stand at later positions. -/
theorem pairwise_ranking {ps : List Placed} (h : Increasing ps) :
    (ranking ps).Pairwise ComesFirst := by
  induction ps with
  | nil => simp [ranking]
  | cons p ps ih =>
    obtain ⟨hhead, htail⟩ := List.pairwise_cons.mp h
    obtain ⟨l₁, l₂, hcons, hsort, hbefore⟩ :=
      List.mergeSort_cons precedes_trans precedes_total p ps
    have hsorted := List.pairwise_mergeSort precedes_trans precedes_total (p :: ps)
    rw [hcons] at hsorted
    have hpair : (l₁ ++ l₂).Pairwise ComesFirst := by
      rw [← hsort]
      exact ih htail
    -- What stands before the head is not preceded by it, and what stands behind is later.
    have hl₁ : ∀ q ∈ l₁, q.ComesFirst p := fun q hq =>
      comesFirst_of_not_precedes (by simpa using hbefore q hq)
    have hl₂ : ∀ q ∈ l₂, p.ComesFirst q := fun q hq => by
      have hmem : q ∈ ps := by
        rw [← mem_ranking, ranking, hsort]
        exact List.mem_append_right l₁ hq
      exact comesFirst_of_precedes
        ((List.pairwise_cons.mp (List.pairwise_append.mp hsorted).2.1).1 q hq) (hhead q hmem)
    rw [ranking, hcons]
    obtain ⟨h₁, h₂, h₁₂⟩ := List.pairwise_append.mp hpair
    refine List.pairwise_append.mpr ⟨h₁, List.pairwise_cons.mpr ⟨hl₂, h₂⟩, ?_⟩
    intro a ha b hb
    rcases List.mem_cons.mp hb with rfl | hb
    · exact hl₁ a ha
    · exact h₁₂ a ha b hb

/-- Leaving rules out leaves the ranking of the others: both lists stand in the
strict order of precedence, and they have the same places. -/
theorem ranking_filter {ps : List Placed} (h : Increasing ps) (keep : Placed → Bool) :
    ranking (ps.filter keep) = (ranking ps).filter keep := by
  have hperm : (ranking (ps.filter keep)).Perm ((ranking ps).filter keep) :=
    (List.mergeSort_perm _ _).trans ((List.mergeSort_perm ps _).filter keep).symm
  refine List.Perm.eq_of_pairwise ?_ (pairwise_ranking (h.filter keep))
    ((pairwise_ranking h).filter keep) hperm
  intro p q _ _ hpq hqp
  exact absurd hqp hpq.asymm

/-- Leaving out rules by what they are is leaving them out at every place. -/
theorem map_fst_filter_zipIdx (rules : List Rule) (keep : Rule → Bool) :
    (rules.zipIdx.filter fun p => keep p.1).map Prod.fst = rules.filter keep := by
  conv => rhs; rw [← List.zipIdx_map_fst 0 rules, List.filter_map]
  rfl

/-- A stable sort of some rules is a part of the stable sort of all. Positions
are put beside the rules for the proof, so that the order is strict. -/
theorem sortByPrecedence_filter (rules : List Rule) (keep : Rule → Bool) :
    Rule.sortByPrecedence (rules.filter keep) = (Rule.sortByPrecedence rules).filter keep := by
  calc Rule.sortByPrecedence (rules.filter keep)
      = (ranking (rules.zipIdx.filter fun p => keep p.1)).map Prod.fst := by
        rw [map_fst_ranking, map_fst_filter_zipIdx]
    _ = ((ranking rules.zipIdx).filter fun p => keep p.1).map Prod.fst := by
        rw [ranking_filter (increasing_zipIdx rules)]
    _ = ((ranking rules.zipIdx).map Prod.fst).filter keep := List.filter_map.symm
    _ = (Rule.sortByPrecedence rules).filter keep := by
        rw [map_fst_ranking, List.zipIdx_map_fst]

/-- The rules of a sorted list stand at different positions. -/
theorem nodup_positions_ranking {ps : List Placed} (h : Increasing ps) :
    ((ranking ps).map Prod.snd).Nodup := by
  refine ((List.mergeSort_perm ps _).map Prod.snd).nodup_iff.mpr ?_
  exact List.pairwise_map.mpr (h.imp fun hlt => Nat.ne_of_lt hlt)

/-! ### The leading rule -/

/-- At most one place leads, since places are never even. -/
theorem Leads.unique {ps : List Placed} {cand : Rule → Prop} {p q : Placed}
    (hp : Leads ps cand p) (hq : Leads ps cand q) : p = q := by
  by_contra hne
  exact (hp.2.2 q hq.1 hq.2.1 (Ne.symm hne)).asymm (hq.2.2 p hp.1 hp.2.1 hne)

/-- The first sorted rule with a property leads the rules with it. This is the
step from the walk, which takes the first offer, to the comparison of all
places. -/
theorem leads_of_find?_ranking {ps : List Placed} (h : Increasing ps) {cand : Rule → Bool}
    {p : Placed} (hfind : (ranking ps).find? (fun q => cand q.1) = some p) :
    Leads ps (fun r => cand r = true) p := by
  obtain ⟨hp, before, after, hsplit, hbefore⟩ := List.find?_eq_some_iff_append.mp hfind
  have hpair := pairwise_ranking h
  rw [hsplit] at hpair
  have hafter := (List.pairwise_cons.mp (List.pairwise_append.mp hpair).2.1).1
  refine ⟨mem_ranking.mp (List.mem_of_find?_eq_some hfind), hp, fun q hq hcand hne => ?_⟩
  have hmem : q ∈ before ++ p :: after := by
    rw [← hsplit]
    exact mem_ranking.mpr hq
  -- A rule before the one that was found lacks the property, and one behind
  -- it comes later.
  rcases List.mem_append.mp hmem with hmem | hmem
  · have hnot := hbefore q hmem
    simp [hcand] at hnot
  · rcases List.mem_cons.mp hmem with hmem | hmem
    · exact absurd hmem hne
    · exact hafter q hmem

/-- Rules that do not have the property do not matter for who leads. They may be
left out, or be asked for and passed over. -/
theorem leads_filter_iff {ps : List Placed} {cand : Rule → Prop} {keep : Placed → Bool}
    (hkeep : ∀ q ∈ ps, cand q.1 → keep q = true) (p : Placed) :
    Leads (ps.filter keep) cand p ↔ Leads ps cand p := by
  simp only [Leads, List.mem_filter]
  constructor
  · rintro ⟨⟨hp, -⟩, hc, hfirst⟩
    exact ⟨hp, hc, fun q hq hcq hne => hfirst q ⟨hq, hkeep q hq hcq⟩ hcq hne⟩
  · rintro ⟨hp, hc, hfirst⟩
    exact ⟨⟨hp, hkeep p hp hc⟩, hc, fun q hq hcq hne => hfirst q hq.1 hcq hne⟩

end Placed

end Overrides
