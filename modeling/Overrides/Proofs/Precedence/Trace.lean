import Mathlib.Data.List.Nodup
import Overrides.Proofs.Field
import Overrides.Proofs.Precedence.Fields

/-!
# `Overrides.Proofs.Precedence.Trace`: the trace explains the settings

The walk keeps winners and entries apart. `Explains` ties them together:
there is one win for every entry, and every winner of a field is the rule
of exactly one win that names it.

* `explains_ofRanked`: the outcome of the walk is explained by its wins.
* `filter_scope_trace`: ordering the trace by scope keeps the order within
  a scope.
* `trace_explains_settings`: what this says about resolution and about a
  snapshot that safe mode did not force.
-/

set_option autoImplicit false

namespace Overrides

open Placed Resolved

/-- The wins explain the outcome of a resolution of placed rules: they are
behind its entries, in order of precedence, and each field with a winner is
named by exactly one of them. -/
structure Explains (ps : List Placed) (s : Resolved) (ws : List Win) : Prop where
  /-- Every entry stands for one win. -/
  applied : s.applied = ws.map Win.entry
  /-- Wins belong to rules of the list. -/
  placed : ∀ w ∈ ws, w.placed ∈ ps
  /-- Wins stand in order of precedence, so no rule has two. -/
  ordered : ws.Pairwise fun v w => v.placed.ComesFirst w.placed
  /-- Every win names some field. -/
  nonempty : ∀ w ∈ ws, w.fields ≠ []
  /-- The fields of a win belong to the scope of its rule and stand in
  declaration order. -/
  declared : ∀ w ∈ ws, w.fields.Sublist (Field.ofScope w.placed.1.scope)
  /-- A field with a winner is named by one win, the one of the rule that
  contributed the value. -/
  named : ∀ f k, s.winners.get f = some k →
    ∃ w v, ws.filter (fun w => f ∈ w.fields) = [w] ∧
      w.placed.1.content.action.value f = some v ∧ k = Contribution.ofRule w.placed.1 v
  /-- A field without a winner is named by none. -/
  unnamed : ∀ f, s.winners.get f = none → ∀ w ∈ ws, f ∉ w.fields

namespace Explains

variable {ps : List Placed} {s : Resolved} {ws : List Win} {f : Field}

/-- A field that a win names has the value that the rule of the win sets. It has
no other winner, since one win alone names it. -/
theorem contributed (h : Explains ps s ws) {w : Win} (hw : w ∈ ws) (hf : f ∈ w.fields) :
    ∃ v, w.placed.1.content.action.value f = some v ∧
      s.winners.get f = some (Contribution.ofRule w.placed.1 v) := by
  cases hk : s.winners.get f with
  | none => exact absurd hf (h.unnamed f hk w hw)
  | some k =>
    obtain ⟨w', v, hone, hv, rfl⟩ := h.named f k hk
    have hmem : w ∈ ws.filter (fun w => f ∈ w.fields) := by simp [hw, hf]
    rw [hone, List.mem_singleton] at hmem
    subst hmem
    exact ⟨v, hv, rfl⟩

end Explains

/-! ### The wins of the walk -/

namespace Resolved

variable {b : Bool} {ranked : List Placed} {f : Field}

/-- The fields won at a position are those whose winner stands there. -/
theorem mem_fieldsWon {n : Nat} :
    f ∈ fieldsWon b ranked n ↔ ∃ p, winner b ranked f = some p ∧ p.2 = n := by
  simp [fieldsWon, Field.mem_all]

/-- A win is a place of the ranking with the fields that it won, provided it won
some. -/
theorem mem_wins {w : Win} :
    w ∈ wins b ranked ↔
      w.placed ∈ ranked ∧ w.fields = fieldsWon b ranked w.placed.2 ∧ w.fields ≠ [] := by
  obtain ⟨p, fields⟩ := w
  simp only [wins, List.mem_filterMap, win?]
  constructor
  · rintro ⟨q, hq, hw⟩
    split at hw
    · cases hw
    · rename_i hempty
      cases hw
      exact ⟨hq, rfl, by simpa using hempty⟩
  · rintro ⟨hp, rfl, hne⟩
    exact ⟨p, hp, by simp [hne]⟩

/-- A win names a field when its rule is the winner. Rules are told apart by
their positions here, as they might be equal otherwise. -/
theorem mem_fields_iff_winner (hpos : (ranked.map Prod.snd).Nodup) {w : Win}
    (hw : w ∈ wins b ranked) : f ∈ w.fields ↔ winner b ranked f = some w.placed := by
  obtain ⟨hmem, hfields, -⟩ := mem_wins.mp hw
  rw [hfields, mem_fieldsWon]
  constructor
  · rintro ⟨p, hp, hsnd⟩
    rwa [← List.inj_on_of_nodup_map hpos (List.mem_of_find?_eq_some hp) hmem hsnd]
  · intro hp
    exact ⟨w.placed, hp, rfl⟩

/-- The fields of a win, cut to one scope in declaration order. A rule wins only
what its action sets, which lies in the scope of the rule. -/
theorem fields_sublist_ofScope (hpos : (ranked.map Prod.snd).Nodup) {w : Win}
    (hw : w ∈ wins b ranked) : w.fields.Sublist (Field.ofScope w.placed.1.scope) := by
  have hscope : ∀ f ∈ w.fields, f.scope = w.placed.1.scope := by
    intro f hf
    obtain ⟨k, hk⟩ := exists_contribution_of_winner ((mem_fields_iff_winner hpos hw).mp hf)
    obtain ⟨v, hv, -⟩ := Option.map_eq_some_iff.mp hk
    have hval := value_of_offer hv
    exact (Action.scope_of_value (f := f) (by rw [hval]; rfl)).symm
  have hall : w.fields.Sublist Field.all := by
    rw [(mem_wins.mp hw).2.1]
    exact List.filter_sublist
  rw [← List.filter_eq_self.mpr (fun f hf => decide_eq_true (hscope f hf))]
  exact hall.filter _

/-- Wins of ranked rules stand in the order of the rules. Rules that win nothing
are left out, which keeps the order. -/
theorem pairwise_wins (h : ranked.Pairwise ComesFirst) :
    (wins b ranked).Pairwise fun v w => v.placed.ComesFirst w.placed := by
  refine List.Pairwise.filterMap _ (fun p q hpq v hv w hw => ?_) h
  simp only [win?] at hv hw
  split at hv
  · cases hv
  · split at hw
    · cases hw
    · cases hv
      cases hw
      exact hpq

/-- A list without repetition in which one element has a property. -/
theorem filter_eq_singleton {α : Type} {l : List α} {q : α → Bool} {a : α} (hl : l.Nodup)
    (ha : a ∈ l) (hq : ∀ x ∈ l, q x = true ↔ x = a) : l.filter q = [a] := by
  refine List.perm_singleton.mp ?_
  rw [List.perm_ext_iff_of_nodup (hl.filter q) (List.nodup_singleton a)]
  intro x
  rw [List.mem_filter, List.mem_singleton]
  constructor
  · rintro ⟨hx, hqx⟩
    exact (hq x hx).mp hqx
  · rintro rfl
    exact ⟨ha, (hq x ha).mpr rfl⟩

/-- The walk over ranked rules is explained by its wins. Positions differ, so
what stands at the position of a win is the rule that won. -/
theorem explains_ofRanked {ps : List Placed} (h : Increasing ps) :
    Explains ps (ofRanked b (ranking ps)) (wins b (ranking ps)) := by
  have hpair := pairwise_ranking h
  have hpos : ((ranking ps).map Prod.snd).Nodup := nodup_positions_ranking h
  have hordered : (wins b (ranking ps)).Pairwise fun v w => v.placed.ComesFirst w.placed :=
    pairwise_wins hpair
  refine ⟨rfl, ?_, hordered, ?_, ?_, ?_, ?_⟩
  · exact fun w hw => mem_ranking.mp (mem_wins.mp hw).1
  · exact fun w hw => (mem_wins.mp hw).2.2
  · exact fun w hw => fields_sublist_ofScope hpos hw
  · intro f k hk
    rw [get_winners_ofRanked, Option.bind_eq_some_iff] at hk
    obtain ⟨p, hp, hk⟩ := hk
    obtain ⟨v, hv, rfl⟩ := Option.map_eq_some_iff.mp hk
    -- The winner has won this field at least, so there is a win of it.
    have hf : f ∈ fieldsWon b (ranking ps) p.2 := mem_fieldsWon.mpr ⟨p, hp, rfl⟩
    have hmem : (⟨p, fieldsWon b (ranking ps) p.2⟩ : Win) ∈ wins b (ranking ps) :=
      mem_wins.mpr ⟨List.mem_of_find?_eq_some hp, rfl, List.ne_nil_of_mem hf⟩
    refine ⟨⟨p, fieldsWon b (ranking ps) p.2⟩, v, ?_, value_of_offer hv, rfl⟩
    refine filter_eq_singleton (hordered.imp fun hvw he => ?_) hmem fun w hw => ?_
    · exact hvw.ne (congrArg Win.placed he)
    · rw [decide_eq_true_iff, mem_fields_iff_winner hpos hw, hp]
      constructor
      · intro he
        have hplaced : w.placed = p := (Option.some.inj he).symm
        exact Win.ext hplaced (by rw [(mem_wins.mp hw).2.1, hplaced])
      · rintro rfl
        rfl
  · intro f hk w hw hf
    rw [mem_fields_iff_winner hpos hw] at hf
    have hnone : ((ofRanked b (ranking ps)).winners.get f).isNone
        = (winner b (ranking ps) f).isNone :=
      isNone_get_winners_ofRanked
    rw [hk, hf] at hnone
    cases hnone

/-- Resolution of placed rules is explained by its wins. -/
theorem explains_ofEligible {ps : List Placed} (h : Increasing ps) :
    ∃ ws, Explains ps (ofEligible (ps.map Prod.fst)) ws := by
  rw [ofEligible_eq h]
  exact ⟨_, explains_ofRanked h⟩

end Resolved

/-! ### The trace of a snapshot -/

namespace Snapshot

/-- The comparison by which a trace is ordered. -/
def byScope (a b : Applied) : Bool := a.scope.rank ≤ b.scope.rank

/-- The order of the trace is transitive, which the sort asks for. -/
theorem byScope_trans (a b c : Applied) (hab : byScope a b = true) (hbc : byScope b c = true) :
    byScope a c = true := by
  simp only [byScope, decide_eq_true_eq] at hab hbc ⊢
  omega

/-- Of two entries one may stand before the other. -/
theorem byScope_total (a b : Applied) : (byScope a b || byScope b a) = true := by
  simp only [byScope, Bool.or_eq_true, decide_eq_true_eq]
  omega

/-- Without safe mode the trace is the entries sorted by scope. -/
theorem trace_false (applied : List Applied) : trace false applied = applied.mergeSort byScope :=
  rfl

/-- The trace has the same entries, in another order. -/
theorem trace_perm (applied : List Applied) : (trace false applied).Perm applied :=
  List.mergeSort_perm applied _

/-- The trace goes by scope. -/
theorem pairwise_trace (applied : List Applied) :
    (trace false applied).Pairwise fun a b => a.scope.rank ≤ b.scope.rank := by
  rw [trace_false]
  exact (List.pairwise_mergeSort byScope_trans byScope_total applied).imp fun hab =>
    of_decide_eq_true hab

/-- Entries of one scope keep their order: they are a sorted part of the trace,
which a stable sort does not touch. -/
theorem filter_scope_trace (applied : List Applied) (scope : Scope) :
    (trace false applied).filter (·.scope = scope) = applied.filter (·.scope = scope) := by
  have hsorted : (applied.filter (·.scope = scope)).Pairwise fun a b => byScope a b = true := by
    refine List.pairwise_of_forall_mem_list fun a ha b hb => ?_
    have hascope : a.scope = scope := of_decide_eq_true (List.mem_filter.mp ha).2
    have hbscope : b.scope = scope := of_decide_eq_true (List.mem_filter.mp hb).2
    simp [byScope, hascope, hbscope]
  -- A stable sort keeps sorted parts, and no entry of the scope is lost or added.
  have hsub : (applied.filter (·.scope = scope)).Sublist (trace false applied) :=
    List.sublist_mergeSort byScope_trans byScope_total hsorted List.filter_sublist
  have hfilter := hsub.filter (·.scope = scope)
  simp only [List.filter_filter, Bool.and_self] at hfilter
  exact (hfilter.eq_of_length ((trace_perm applied).filter _).length_eq.symm).symm

end Snapshot

/-! ### Compiled snapshots -/

/-- A snapshot that is not forced has the compiled settings. The policy does not
occur in it anywhere. -/
theorem compile_of_not_forced {compiler : Compiler} {rules : List Rule} {c : Context}
    {time : Instant} (h : (compiledSettings rules c).get .safeMode = false) :
    Snapshot.compile compiler rules c time =
      { version := snapshotVersion
        context := c.normalized
        settings := compiledSettings rules c
        applied := Snapshot.trace false (ofEligible (eligible rules c.normalized)).applied
        safeModeForced := false
        configHash := Snapshot.hashOf (compiledSettings rules c)
        compiledAt := time
        ttlSeconds := compiler.ttlSeconds } := by
  -- The compiled settings are unfolded where the compilation looks at safe mode.
  have h' : (ofEligible (eligible rules c.normalized)).settings.get .safeMode = false := h
  simp only [Snapshot.compile, h']
  rfl

/-- A snapshot that is forced has the settings of the policy. Of the rules
nothing is left but the entries of the global scope. -/
theorem compile_of_forced {compiler : Compiler} {rules : List Rule} {c : Context}
    {time : Instant} (h : (compiledSettings rules c).get .safeMode = true) :
    Snapshot.compile compiler rules c time =
      { version := snapshotVersion
        context := c.normalized
        settings := compiler.policy.forced
        applied := Snapshot.trace true (ofEligible (eligible rules c.normalized)).applied
        safeModeForced := true
        configHash := Snapshot.hashOf compiler.policy.forced
        compiledAt := time
        ttlSeconds := compiler.ttlSeconds } := by
  have h' : (ofEligible (eligible rules c.normalized)).settings.get .safeMode = true := h
  simp only [Snapshot.compile, h']
  rfl

/-- A trace names a field of a win, and no other field. Names are as good as
fields for this, since no two fields share one. -/
theorem name_mem_entry {w : Win} {f : Field} : f.name ∈ w.entry.fields ↔ f ∈ w.fields := by
  show f.name ∈ w.fields.map Field.name ↔ f ∈ w.fields
  rw [List.mem_map]
  constructor
  · rintro ⟨g, hg, hgf⟩
    rwa [← Field.name_injective hgf]
  · intro hf
    exact ⟨f, hf, rfl⟩

/-- **The trace explains the settings.** Every resolution is explained by
wins, one for each entry. In a snapshot that safe mode did not force the
trace has the entries of the resolution, by scope and within a scope in
order of precedence. A field that an entry names has the value that the
rule of the entry sets, and any other field its initial setting. -/
theorem trace_explains_settings :
    (∀ input : List Rule, ∃ ws, Explains input.zipIdx (ofEligible input) ws) ∧
    ∀ (compiler : Compiler) (rules : List Rule) (c : Context) (time : Instant),
      let input := eligible rules c.normalized
      let s := Snapshot.compile compiler rules c time
      s.safeModeForced = false →
        s.applied.Perm (ofEligible input).applied ∧
        s.applied.Pairwise (fun a b => a.scope.rank ≤ b.scope.rank) ∧
        (∀ scope : Scope, s.applied.filter (·.scope = scope) =
          (ofEligible input).applied.filter (·.scope = scope)) ∧
        (∃ ws, Explains input.zipIdx (ofEligible input) ws ∧
          ∀ w ∈ ws, ∀ f ∈ w.fields, ∃ v, w.placed.1.content.action.value f = some v ∧
            s.settings.get f = f.kind.settingOf v) ∧
        ∀ f : Field, (∀ a ∈ s.applied, f.name ∉ a.fields) → s.settings.get f = f.kind.initial := by
  have hexplains (input : List Rule) : ∃ ws, Explains input.zipIdx (ofEligible input) ws := by
    have h := explains_ofEligible (increasing_zipIdx input)
    rw [List.zipIdx_map_fst] at h
    exact h
  refine ⟨hexplains, fun compiler rules c time => ?_⟩
  intro input s hforced
  have hsettings : s.settings = (ofEligible input).settings :=
    congrArg Snapshot.settings (compile_of_not_forced hforced)
  have happlied : s.applied = Snapshot.trace false (ofEligible input).applied :=
    congrArg Snapshot.applied (compile_of_not_forced hforced)
  obtain ⟨ws, hws⟩ := hexplains input
  rw [hsettings, happlied]
  refine ⟨Snapshot.trace_perm _, Snapshot.pairwise_trace _, Snapshot.filter_scope_trace _,
    ⟨ws, hws, fun w hw f hf => ?_⟩, fun f hf => ?_⟩
  · obtain ⟨v, hv, hk⟩ := hws.contributed hw hf
    refine ⟨v, hv, ?_⟩
    rw [get_settings, hk]
    rfl
  · cases hk : (ofEligible input).winners.get f with
    | none =>
      rw [get_settings, hk]
    | some k =>
      -- A field with a winner is named by an entry, against the assumption.
      obtain ⟨w, -, hone, -⟩ := hws.named f k hk
      have hw : w ∈ ws.filter (fun w => f ∈ w.fields) := by simp [hone]
      obtain ⟨hmem, hfield⟩ := List.mem_filter.mp hw
      refine absurd (name_mem_entry.mpr (of_decide_eq_true hfield)) (hf w.entry ?_)
      rw [(Snapshot.trace_perm _).mem_iff, hws.applied]
      exact List.mem_map_of_mem hmem

end Overrides
