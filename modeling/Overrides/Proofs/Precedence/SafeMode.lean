import Overrides.Proofs.Precedence.Trace

/-!
# `Overrides.Proofs.Precedence.SafeMode`: no rule defeats safe mode

Whether a snapshot is forced depends on one question only: does some
eligible global rule switch safe mode on. Then the policy fixes every
setting, and the trace names the first such rule and nothing else.
Otherwise the policy does not show at all.

* `compiled_safeMode_iff`: the question decides.
* `trace_of_requested`: what a forced trace holds.
* `forced_iff_requested`: all of it in one statement.
-/

set_option autoImplicit false

namespace Overrides

open Placed Resolved

/-- The eligible rules that switch safe mode on. -/
def SafeModeOn (c : Context) (r : Rule) : Prop :=
  r.Eligible c ∧ r.content.action.value .safeMode = some true

variable {ps : List Placed} {rules : List Rule} {c : Context}

/-- While safe mode is requested its candidates are the rules that switch it on.
Those that switch it off are not, whatever their priority. -/
theorem candidate_safeMode_iff (hreq : SafeModeRequested rules c) (r : Rule) :
    Candidate rules c .safeMode r ↔ SafeModeOn c r := by
  constructor
  · rintro ⟨hel, -, -, hsafe⟩
    exact ⟨hel, hsafe rfl hreq⟩
  · rintro ⟨hel, hval⟩
    have hset : (r.content.action.value .safeMode).isSome = true := by rw [hval]; rfl
    exact ⟨hel, Action.scope_of_value hset, hset, fun _ _ => hval⟩

/-- A request for safe mode comes from a candidate. -/
theorem exists_candidate_of_requested (hreq : SafeModeRequested rules c) :
    ∃ p ∈ rules.zipIdx, Candidate rules c .safeMode p.1 := by
  obtain ⟨r, hr, hel, -, hval⟩ := id hreq
  obtain ⟨i, hi⟩ := List.getElem?_of_mem hr
  exact ⟨(r, i), List.mk_mem_zipIdx_iff_getElem?.mpr hi,
    (candidate_safeMode_iff hreq r).mpr ⟨hel, hval⟩⟩

/-- Safe mode is compiled to on when it is requested, and only then. A rule that
switches it off wins nothing while another one requests it, whatever their
ranks. -/
theorem compiled_safeMode_iff (rules : List Rule) (c : Context) :
    (compiledSettings rules c).get .safeMode = true ↔ SafeModeRequested rules c.normalized := by
  have hdecided := decided_compiled (increasing_zipIdx rules) c .safeMode
  rw [List.zipIdx_map_fst] at hdecided
  constructor
  · intro hon
    rcases hdecided with ⟨p, v, hp, hv, hx⟩ | ⟨-, hx⟩
    -- The initial setting is off.
    · rw [hon] at hx
      obtain rfl : true = v := hx
      exact ⟨p.1, List.fst_mem_of_mem_zipIdx hp.1, hp.2.1.1, hp.2.1.2.1, hv⟩
    · rw [hon] at hx
      cases hx
  -- A request makes the leading candidate one that switches safe mode on, and there is one.
  · intro hreq
    rcases hdecided with ⟨p, v, hp, hv, hx⟩ | ⟨hnone, -⟩
    · have hval := hp.2.1.2.2.2 rfl hreq
      rw [hv] at hval
      cases hval
      exact hx
    · obtain ⟨p, hp, hcand⟩ := exists_candidate_of_requested hreq
      exact absurd hcand (hnone p hp)

/-- A win in the global scope is a win of safe mode. -/
theorem Explains.fields_of_global {s : Resolved} {ws : List Win} (h : Explains ps s ws) {w : Win}
    (hw : w ∈ ws) (hscope : w.placed.1.scope = .global) : w.fields = [.safeMode] := by
  have hsub := h.declared w hw
  rw [hscope, Field.ofScope_global] at hsub
  rcases List.sublist_singleton.mp hsub with hnil | hone
  · exact absurd hnil (h.nonempty w hw)
  · exact hone

/-- The win of safe mode is the one win in the global scope. A win in this scope
can name one field only. -/
theorem Explains.filter_global {s : Resolved} {ws : List Win} (h : Explains ps s ws) :
    ws.filter (fun w => w.placed.1.scope = .global)
      = ws.filter (fun w => .safeMode ∈ w.fields) := by
  refine List.filter_congr fun w hw => decide_eq_decide.mpr ⟨fun hscope => ?_, fun hf => ?_⟩
  · rw [h.fields_of_global hw hscope]
    exact List.mem_singleton_self _
  · obtain ⟨v, hv, -⟩ := h.contributed hw hf
    exact Action.scope_of_value (f := .safeMode) (by rw [hv]; rfl)

/-- The entries of the global scope: the winner of safe mode has the only one.
There is one field to win in this scope, and it is won once. -/
theorem filter_global_applied (h : Increasing ps) {b : Bool} {p : Placed}
    (hwin : winner b (ranking ps) .safeMode = some p) :
    (ofRanked b (ranking ps)).applied.filter (·.scope = .global)
      = [Applied.ofRule p.1 [.safeMode]] := by
  have hexplains : Explains ps (ofRanked b (ranking ps)) (wins b (ranking ps)) :=
    explains_ofRanked h
  obtain ⟨k, hk⟩ := exists_contribution_of_winner hwin
  obtain ⟨w, -, hone, -⟩ := hexplains.named .safeMode k (by
    rw [get_winners_ofRanked, hwin, Option.bind_some, hk])
  -- The win that names safe mode is the one of its winner.
  have hw : w ∈ (wins b (ranking ps)).filter fun w => .safeMode ∈ w.fields := by
    rw [hone]
    exact List.mem_singleton_self w
  obtain ⟨hmem, hfield⟩ := List.mem_filter.mp hw
  have hwinner := (mem_fields_iff_winner (nodup_positions_ranking h) hmem).mp
    (of_decide_eq_true hfield)
  have hplaced : p = w.placed := Option.some.inj (hwin.symm.trans hwinner)
  rw [← hexplains.filter_global] at hw hone
  have hfields := hexplains.fields_of_global hmem (of_decide_eq_true (List.mem_filter.mp hw).2)
  have hentry : w.entry = Applied.ofRule p.1 [.safeMode] := by
    rw [Win.entry, hfields, hplaced]
  calc (ofRanked b (ranking ps)).applied.filter (·.scope = .global)
      = ((wins b (ranking ps)).filter fun w => w.placed.1.scope = .global).map Win.entry := by
        rw [hexplains.applied, List.filter_map]
        rfl
    _ = [w.entry] := by rw [hone, List.map_singleton]
    _ = [Applied.ofRule p.1 [.safeMode]] := by rw [hentry]

/-- While safe mode is requested somebody wins it: the rule that requests it has
an offer, so there is a first one. -/
theorem exists_winner_of_requested (hreq : SafeModeRequested rules c) :
    ∃ p, winner (isRequested (eligiblePlaced rules.zipIdx c))
      (ranking (eligiblePlaced rules.zipIdx c)) .safeMode = some p := by
  cases hwin : winner (isRequested (eligiblePlaced rules.zipIdx c))
      (ranking (eligiblePlaced rules.zipIdx c)) .safeMode with
  | some p => exact ⟨p, rfl⟩
  | none =>
    have hnone := no_candidate_of_winner hwin
    rw [List.zipIdx_map_fst] at hnone
    obtain ⟨p, hp, hcand⟩ := exists_candidate_of_requested hreq
    exact absurd hcand (hnone p hp)

/-- A forced trace names the winner of safe mode. -/
theorem trace_of_winner (h : Increasing ps) {p : Placed}
    (hwin : winner (isRequested (eligiblePlaced ps c)) (ranking (eligiblePlaced ps c)) .safeMode
      = some p) :
    Snapshot.trace true (ofEligible (eligible (ps.map Prod.fst) c)).applied
      = [Applied.ofRule p.1 [.safeMode]] := by
  have hel : Increasing (eligiblePlaced ps c) := increasing_eligiblePlaced h
  rw [← map_fst_eligiblePlaced, ofEligible_eq hel, Snapshot.trace, if_pos rfl,
    filter_global_applied hel hwin, List.mergeSort_singleton]

/-- A forced trace names the first rule that switches safe mode on, and no other
rule: entries of other scopes are left out, and in the global scope there is one
field to win. -/
theorem trace_of_requested (hreq : SafeModeRequested rules c) :
    ∃ p, Leads rules.zipIdx (SafeModeOn c) p ∧
      Snapshot.trace true (ofEligible (eligible rules c)).applied
        = [Applied.ofRule p.1 [.safeMode]] := by
  obtain ⟨p, hwin⟩ := exists_winner_of_requested hreq
  have hleads := leads_of_winner (increasing_zipIdx rules) hwin
  rw [List.zipIdx_map_fst, funext fun r => propext (candidate_safeMode_iff hreq r)] at hleads
  have htrace := trace_of_winner (increasing_zipIdx rules) hwin
  rw [List.zipIdx_map_fst] at htrace
  exact ⟨p, hleads, htrace⟩

/-- **No rule defeats safe mode, and nothing else triggers it.** A snapshot
is forced when some eligible global rule switches safe mode on, and only
then. A forced snapshot has the settings of the policy, and its trace is
the first of those rules. A snapshot that is not forced has safe mode off
and is the same under every policy. -/
theorem forced_iff_requested (compiler : Compiler) (rules : List Rule) (c : Context)
    (time : Instant) :
    let s := Snapshot.compile compiler rules c time
    (s.safeModeForced = true ↔ SafeModeRequested rules c.normalized) ∧
    (s.safeModeForced = true →
      s.settings = compiler.policy.forced ∧
      ∃ p, Leads rules.zipIdx (SafeModeOn c.normalized) p ∧
        s.applied = [Applied.ofRule p.1 [.safeMode]]) ∧
    (s.safeModeForced = false →
      s.settings.get .safeMode = false ∧
      ∀ policy : Policy,
        Snapshot.compile { compiler with policy := policy } rules c time = s) := by
  intro s
  refine ⟨compiled_safeMode_iff rules c, fun h => ⟨?_, ?_⟩, fun h => ⟨?_, fun policy => ?_⟩⟩
  · exact congrArg Snapshot.settings (compile_of_forced h)
  · obtain ⟨p, hp, htrace⟩ := trace_of_requested ((compiled_safeMode_iff rules c).mp h)
    refine ⟨p, hp, ?_⟩
    rw [← htrace]
    exact congrArg Snapshot.applied (compile_of_forced h)
  · have hsettings : s.settings = compiledSettings rules c :=
      congrArg Snapshot.settings (compile_of_not_forced h)
    rw [hsettings]
    exact h
  · have hs : s = _ := compile_of_not_forced h
    rw [hs]
    exact compile_of_not_forced h

end Overrides
