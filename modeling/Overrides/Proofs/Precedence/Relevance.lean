import Overrides.Proofs.Precedence.InputOrder
import Overrides.Proofs.Precedence.SafeMode
import Overrides.Proofs.Service.Limit

/-!
# `Overrides.Proofs.Precedence.Relevance`: rules without an entry do not matter

A rule may be disabled, or filtered out, or lose every field to a higher
one. It has no entry in the trace then, and the snapshot is the same
without it. When safe mode forced the settings, the one rule that the
trace names would have done alone. `Behind` ties the entries of a trace to
the places of their rules, and deletion is by place, since a list may
hold a rule twice.

* `wins_filter`: rules that win nothing may be left out of the walk.
* `compile_restrict`: rules without an entry may be left out of a snapshot.
* `only_listed_rules_matter`: what this says of snapshots, and of the two
  listings of a store.
-/

set_option autoImplicit false

namespace Overrides

open Placed Resolved

/-- The wins that stand behind the entries of a trace, entry by entry. An entry
has the key of its rule but not its place, so a list in which rules are repeated
needs the wins to tell them apart. -/
structure Behind (rules : List Rule) (s : Snapshot) (ws : List Win) : Prop where
  /-- Every entry stands for one win. -/
  applied : s.applied = ws.map Win.entry
  /-- Wins belong to rules of the list. -/
  placed : ∀ w ∈ ws, w.placed ∈ rules.zipIdx
  /-- No place has two wins. -/
  distinct : (ws.map Win.placed).Nodup

/-- The entry may be the one of this rule: it has the key, the scope, the
priority and the revision of the rule. Several rules of a list can be meant by
one entry. -/
def Applied.IsOf (a : Applied) (r : Rule) : Prop :=
  a.ruleKey = r.key ∧ a.scope = r.scope ∧ a.priority = r.priority ∧ a.revision = r.revision

/-- The list without the rules at some places. The test sees the place as well
as the rule, so of two equal rules one can be left out. -/
def restrict (rules : List Rule) (keep : Placed → Bool) : List Rule :=
  (rules.zipIdx.filter keep).map Prod.fst

/-- Leaving out places by their rules is leaving out rules. -/
theorem restrict_fst (rules : List Rule) (keep : Rule → Bool) :
    restrict rules (fun p => keep p.1) = rules.filter keep := map_fst_filter_zipIdx rules keep

variable {ps : List Placed} {keep : Placed → Bool} {rules : List Rule} {c : Context}

/-! ### The walk -/

/-- Leaving out rules and asking which are eligible can be done in either order.
-/
theorem eligiblePlaced_filter (ps : List Placed) (keep : Placed → Bool) (c : Context) :
    eligiblePlaced (ps.filter keep) c = (eligiblePlaced ps c).filter keep :=
  List.filter_comm ..

namespace Resolved

variable {b : Bool} {ranked : List Placed} {f : Field} {p : Placed}

/-- Who wins a field has a win. -/
theorem mem_wins_of_winner (h : winner b ranked f = some p) :
    (⟨p, fieldsWon b ranked p.2⟩ : Win) ∈ wins b ranked := by
  have hf : f ∈ fieldsWon b ranked p.2 := mem_fieldsWon.mpr ⟨p, h, rfl⟩
  exact mem_wins.mpr ⟨List.mem_of_find?_eq_some h, rfl, List.ne_nil_of_mem hf⟩

/-- A winner that is kept still wins: the rules before it had no offer. -/
theorem winner_filter_of_winner (h : winner b ranked f = some p) (hkeep : keep p = true) :
    winner b (ranked.filter keep) f = some p := by
  obtain ⟨hp, before, behind, rfl, hbefore⟩ := List.find?_eq_some_iff_append.mp h
  rw [winner, List.filter_append, List.filter_cons_of_pos hkeep, List.find?_eq_some_iff_append]
  refine ⟨hp, _, _, rfl, ?_⟩
  intro q hq
  exact hbefore q (List.mem_filter.mp hq).1

/-- Where nobody wins, leaving rules out promotes nobody. -/
theorem winner_filter_of_none (h : winner b ranked f = none) :
    winner b (ranked.filter keep) f = none := by
  rw [winner, List.find?_eq_none] at h ⊢
  intro q hq
  exact h q (List.mem_filter.mp hq).1

/-- Leaving out rules that win nothing leaves every winner. -/
theorem winner_filter (hkeep : ∀ w ∈ wins b ranked, keep w.placed = true) :
    winner b (ranked.filter keep) f = winner b ranked f := by
  cases h : winner b ranked f with
  | none => exact winner_filter_of_none h
  | some p => exact winner_filter_of_winner h (hkeep _ (mem_wins_of_winner h))

/-- No place wins other fields when only places without a win are left out. -/
theorem fieldsWon_filter (hkeep : ∀ w ∈ wins b ranked, keep w.placed = true) :
    fieldsWon b (ranked.filter keep) = fieldsWon b ranked := by
  funext n
  simp only [fieldsWon, winner_filter hkeep]

/-- The win of a place is a win at that place. -/
theorem placed_of_win? {w : Win} (h : win? b ranked p = some w) : w.placed = p := by
  simp only [win?] at h
  split at h
  · cases h
  · cases h
    rfl

/-- A rule that is left out has no win. -/
theorem win?_eq_none (hkeep : ∀ w ∈ wins b ranked, keep w.placed = true) (hp : p ∈ ranked)
    (hout : keep p = false) : win? b ranked p = none := by
  cases hw : win? b ranked p with
  | none => rfl
  | some w =>
    have hkept := hkeep w (List.mem_filterMap.mpr ⟨p, hp, hw⟩)
    rw [placed_of_win? hw, hout] at hkept
    cases hkept

/-- Rules that win nothing may be left out of the walk. What the others offer is
not changed by that, so each field keeps its winner. -/
theorem wins_filter (hkeep : ∀ w ∈ wins b ranked, keep w.placed = true) :
    wins b (ranked.filter keep) = wins b ranked := by
  have hwin : win? b (ranked.filter keep) = win? b ranked := by
    funext p
    rw [win?, fieldsWon_filter hkeep, ← win?]
  rw [wins, hwin, List.filterMap_filter, wins]
  refine List.filterMap_congr ?_
  intro p hp
  cases hk : keep p with
  | true => rfl
  | false =>
    rw [win?_eq_none hkeep hp hk]
    rfl

/-- The resolution depends on the places with a win only: they have the same
winners and the same wins without the other ones. -/
theorem ofRanked_filter (hkeep : ∀ w ∈ wins b ranked, keep w.placed = true) :
    ofRanked b (ranked.filter keep) = ofRanked b ranked := by
  simp only [ofRanked, wins_filter hkeep, winner_filter hkeep]

end Resolved

/-! ### The wins behind a trace -/

/-- The wins of the rules that are eligible for a context. -/
def winsFor (ps : List Placed) (c : Context) : List Win :=
  wins (isRequested (eligiblePlaced ps c)) (ranking (eligiblePlaced ps c))

/-- The wins that a trace shows, in the order in which it shows them: the global
ones if safe mode was forced, and otherwise all of them, by scope. -/
def shown (forced : Bool) (ws : List Win) : List Win :=
  (if forced then ws.filter (·.placed.1.scope = .global) else ws).mergeSort
    fun v w => v.placed.1.scope.rank ≤ w.placed.1.scope.rank

/-- A trace shows the entries of these wins. Wins are filtered and sorted by the
scopes of their rules, which are the scopes of the entries. -/
theorem trace_map_entry (forced : Bool) (ws : List Win) :
    Snapshot.trace forced (ws.map Win.entry) = (shown forced ws).map Win.entry := by
  rw [shown, Snapshot.trace]
  symm
  cases forced with
  | true =>
    rw [if_pos rfl, if_pos rfl, List.filter_map]
    exact List.map_mergeSort fun _ _ _ _ => rfl
  | false => exact List.map_mergeSort fun _ _ _ _ => rfl

/-- What a trace shows are wins, none of them twice. -/
theorem shown_subperm (forced : Bool) (ws : List Win) : (shown forced ws).Subperm ws := by
  refine (List.mergeSort_perm _ _).subperm.trans ?_
  cases forced with
  | true => exact List.filter_sublist.subperm
  | false => exact List.Subperm.refl ws

/-- Without safe mode every win is shown. -/
theorem mem_shown_false {ws : List Win} {w : Win} : w ∈ shown false ws ↔ w ∈ ws :=
  List.mem_mergeSort

/-- With safe mode the wins of global rules are shown. -/
theorem mem_shown_true {ws : List Win} {w : Win} :
    w ∈ shown true ws ↔ w ∈ ws ∧ w.placed.1.scope = .global := by
  rw [shown, if_pos rfl, List.mem_mergeSort, List.mem_filter, decide_eq_true_iff]

/-- Resolution of eligible rules, by their wins. -/
theorem applied_ofEligible (h : Increasing ps) (c : Context) :
    (ofEligible (eligible (ps.map Prod.fst) c)).applied = (winsFor ps c).map Win.entry := by
  rw [← map_fst_eligiblePlaced, ofEligible_eq (increasing_eligiblePlaced h)]
  rfl

/-- The wins that a snapshot shows stand behind its entries. They are some of
the wins that explain the resolution, sorted like the entries. -/
theorem behind_shown (compiler : Compiler) (rules : List Rule) (c : Context) (time : Instant) :
    let s := Snapshot.compile compiler rules c time
    Behind rules s (shown s.safeModeForced (winsFor rules.zipIdx c.normalized)) := by
  intro s
  have hexplains : Explains (eligiblePlaced rules.zipIdx c.normalized) _
      (winsFor rules.zipIdx c.normalized) :=
    explains_ofRanked (increasing_eligiblePlaced (increasing_zipIdx rules))
  have happlied := applied_ofEligible (increasing_zipIdx rules) c.normalized
  rw [List.zipIdx_map_fst] at happlied
  have hsub := shown_subperm s.safeModeForced (winsFor rules.zipIdx c.normalized)
  refine ⟨?_, fun w hw => ?_, ?_⟩
  · show Snapshot.trace s.safeModeForced (ofEligible (eligible rules c.normalized)).applied = _
    rw [happlied, trace_map_entry]
  · exact (mem_eligiblePlaced.mp (hexplains.placed w (hsub.subset hw))).1
  -- Each win comes strictly before the next, so no place has two of them.
  · have hdistinct : ((winsFor rules.zipIdx c.normalized).map Win.placed).Nodup :=
      List.pairwise_map.mpr (hexplains.ordered.imp ComesFirst.ne)
    obtain ⟨l, hperm, hl⟩ := hsub
    exact (hperm.map Win.placed).nodup_iff.mp (hdistinct.sublist (hl.map Win.placed))

/-! ### Leaving rules out -/

/-- A list without some rules makes no new request for safe mode. -/
theorem SafeModeRequested.of_restrict (h : SafeModeRequested (restrict rules keep) c) :
    SafeModeRequested rules c := by
  obtain ⟨r, hr, hrest⟩ := h
  obtain ⟨p, hp, rfl⟩ := List.mem_map.mp hr
  exact ⟨p.1, List.fst_mem_of_mem_zipIdx (List.mem_filter.mp hp).1, hrest⟩

/-- Without safe mode, resolution depends on the rules that win something. The
state of the walk is the same, entries and all, though it went through fewer
rules. -/
theorem ofEligible_restrict (hoff : ¬ SafeModeRequested rules c)
    (hkeep : ∀ w ∈ winsFor rules.zipIdx c, keep w.placed = true) :
    ofEligible (eligible (restrict rules keep) c) = ofEligible (eligible rules c) := by
  have hinc := increasing_zipIdx rules
  have hall : isRequested (eligiblePlaced rules.zipIdx c) = false := by
    rw [← Bool.not_eq_true, isRequested_iff, List.zipIdx_map_fst]
    exact hoff
  -- Fewer rules request safe mode no more than all of them did.
  have hfew : isRequested (eligiblePlaced (rules.zipIdx.filter keep) c) = false := by
    rw [← Bool.not_eq_true, isRequested_iff]
    exact fun h => hoff (SafeModeRequested.of_restrict h)
  rw [winsFor, hall] at hkeep
  calc ofEligible (eligible (restrict rules keep) c)
      = ofRanked false (ranking (eligiblePlaced (rules.zipIdx.filter keep) c)) := by
        rw [restrict, ← map_fst_eligiblePlaced,
          ofEligible_eq (increasing_eligiblePlaced (hinc.filter keep)), hfew]
    _ = ofRanked false ((ranking (eligiblePlaced rules.zipIdx c)).filter keep) := by
        rw [eligiblePlaced_filter, ranking_filter (increasing_eligiblePlaced hinc)]
    _ = ofRanked false (ranking (eligiblePlaced rules.zipIdx c)) := ofRanked_filter hkeep
    _ = ofEligible (eligible rules c) := by
        rw [← hall, ← ofEligible_eq (increasing_eligiblePlaced hinc), map_fst_eligiblePlaced,
          List.zipIdx_map_fst]

/-- With safe mode, the winner of safe mode would have done alone. The request
stays as long as the winner does, and no other rule has an entry in a forced
trace. -/
theorem trace_restrict (hreq : SafeModeRequested rules c)
    (hkeep : ∀ w ∈ shown true (winsFor rules.zipIdx c), keep w.placed = true) :
    SafeModeRequested (restrict rules keep) c ∧
      Snapshot.trace true (ofEligible (eligible (restrict rules keep) c)).applied
        = Snapshot.trace true (ofEligible (eligible rules c)).applied := by
  have hinc := increasing_zipIdx rules
  obtain ⟨p, hwin⟩ := exists_winner_of_requested hreq
  have hleads := leads_of_winner hinc hwin
  rw [List.zipIdx_map_fst] at hleads
  obtain ⟨hmem, ⟨hel, hscope, -, hsafe⟩, -⟩ := hleads
  -- The winner has the one win that is shown, so it is kept.
  have hkept : keep p = true :=
    hkeep _ (mem_shown_true.mpr ⟨mem_wins_of_winner hwin, hscope⟩)
  have hstill : SafeModeRequested (restrict rules keep) c :=
    ⟨p.1, List.mem_map_of_mem (List.mem_filter.mpr ⟨hmem, hkept⟩), hel, hscope, hsafe rfl hreq⟩
  refine ⟨hstill, ?_⟩
  have hfew : isRequested (eligiblePlaced (rules.zipIdx.filter keep) c) = true :=
    isRequested_iff.mpr hstill
  have hall : isRequested (eligiblePlaced rules.zipIdx c) = true := by
    rw [isRequested_iff, List.zipIdx_map_fst]
    exact hreq
  have hwins : winner (isRequested (eligiblePlaced (rules.zipIdx.filter keep) c))
      (ranking (eligiblePlaced (rules.zipIdx.filter keep) c)) .safeMode = some p := by
    rw [hfew, eligiblePlaced_filter, ranking_filter (increasing_eligiblePlaced hinc)]
    rw [hall] at hwin
    exact winner_filter_of_winner hwin hkept
  have htrace := trace_of_winner hinc hwin
  rw [List.zipIdx_map_fst] at htrace
  rw [htrace]
  exact trace_of_winner (hinc.filter keep) hwins

/-- Rules without an entry may be left out of a snapshot. Where safe mode was
forced there is one entry, and the rules that win other fields may be left out
too: their settings are not shown. -/
theorem compile_restrict {compiler : Compiler} {time : Instant}
    (hkeep : ∀ w ∈ shown (Snapshot.compile compiler rules c time).safeModeForced
      (winsFor rules.zipIdx c.normalized), keep w.placed = true) :
    Snapshot.compile compiler (restrict rules keep) c time
      = Snapshot.compile compiler rules c time := by
  change ∀ w ∈ shown ((compiledSettings rules c).get .safeMode) _, _ at hkeep
  cases hforced : (compiledSettings rules c).get .safeMode with
  -- A forced snapshot shows one entry, so the winner of safe mode is all that must stay.
  | true =>
    rw [hforced] at hkeep
    obtain ⟨hstill, htrace⟩ := trace_restrict ((compiled_safeMode_iff rules c).mp hforced) hkeep
    rw [compile_of_forced hforced, compile_of_forced ((compiled_safeMode_iff _ c).mpr hstill),
      htrace]
  | false =>
    rw [hforced] at hkeep
    have hoff : ¬ SafeModeRequested rules c.normalized := by
      rw [← compiled_safeMode_iff, hforced]
      exact Bool.false_ne_true
    refine compile_eq_of_ofEligible (ofEligible_restrict hoff ?_)
    intro w hw
    exact hkeep w (mem_shown_false.mpr hw)

/-! ### Listings -/

/-- Disabled rules are never eligible. -/
theorem eligible_filter_enabled (rules : List Rule) (c : Context) :
    eligible (rules.filter (·.content.enabled)) c = eligible rules c := by
  rw [eligible, List.filter_filter, eligible]
  refine List.filter_congr fun r _ => ?_
  cases r.content.enabled <;> simp

/-- The disabled rules of a list may be left out: none of them is eligible. -/
theorem compile_filter_enabled {compiler : Compiler} {time : Instant} (rules : List Rule) :
    Snapshot.compile compiler (rules.filter (·.content.enabled)) c time
      = Snapshot.compile compiler rules c time := by
  simp only [Snapshot.compile, eligible_filter_enabled]

/-- **Rules without an entry do not matter.** Behind the entries of a trace
stand rules at different places of the list, and the rules at all other
places may be left out, some of them or all, without any change to the
snapshot. So may all rules that no entry may be of. Since disabled rules
have no entry, the enabled rules that a store of either kind lists after
any writes have the same snapshot as all its rules. -/
theorem only_listed_rules_matter :
    (∀ (compiler : Compiler) (rules : List Rule) (c : Context) (time : Instant),
      let s := Snapshot.compile compiler rules c time
      (∃ ws, Behind rules s ws ∧ ∀ keep : Placed → Bool, (∀ w ∈ ws, keep w.placed = true) →
        Snapshot.compile compiler (restrict rules keep) c time = s) ∧
      ∀ keep : Rule → Bool, (∀ r ∈ rules, (∃ a ∈ s.applied, a.IsOf r) → keep r = true) →
        Snapshot.compile compiler (rules.filter keep) c time = s) ∧
    ∀ (start : Backend) (requests : List WriteRequest), start.Fresh →
      (∀ request ∈ requests, request.Proper) →
      ∃ enabled all, RuleStore.list (start.after requests) .enabled = .ok enabled ∧
        RuleStore.list (start.after requests) .all = .ok all ∧
        ∀ (compiler : Compiler) (c : Context) (time : Instant),
          Snapshot.compile compiler enabled c time = Snapshot.compile compiler all c time := by
  constructor
  · intro compiler rules c time s
    have hbehind := behind_shown compiler rules c time
    refine ⟨⟨_, hbehind, fun keep hkeep => compile_restrict hkeep⟩, ?_⟩
    intro keep hkeep
    rw [← restrict_fst]
    refine compile_restrict fun w hw => ?_
    refine hkeep w.placed.1 (List.fst_mem_of_mem_zipIdx (hbehind.placed w hw)) ⟨w.entry, ?_, ?_⟩
    · rw [hbehind.applied]
      exact List.mem_map_of_mem hw
    · exact ⟨rfl, rfl, rfl, rfl⟩
  · intro start requests hfresh hrequests
    obtain ⟨held, hholds⟩ := hfresh.holds.run hrequests
    refine ⟨_, _, hholds.list .enabled, hholds.list .all, fun compiler c time => ?_⟩
    -- The store lists in order of precedence, and the filter commutes with the sort.
    rw [accepts_enabled, filter_accepts_all, sortByPrecedence_filter]
    exact compile_filter_enabled _

end Overrides
