import Overrides.Proofs.Precedence.Resolution
import Overrides.Snapshot

/-!
# `Overrides.Proofs.Precedence.Fields`: which rule decides a setting

`Candidate` says which rules may decide a field for a context, and
`Decided` says what a field is set to by the candidate that leads the
others in the order of precedence. Before safe mode replaces them, the
compiled settings are decided in this sense, field by field.

* `decided_compiled`: the leading candidate decides, over any list of
  placed rules.
* `Decided.unique`: it decides for one setting only.
* `setting_decided_by_leading_candidate`: the same for a list of rules.
  Rules that leave the field unset may come and go, and what rules do to
  other fields does not matter.
-/

set_option autoImplicit false

namespace Overrides

open Placed Resolved

/-- The rule counts for a context: it is enabled and its filter accepts
the context. -/
def Rule.Eligible (r : Rule) (c : Context) : Prop :=
  r.content.enabled = true ∧ r.content.filter.accepts c = true

/-- Some eligible global rule switches safe mode on. Its rank does not count,
nor does it count how many rules switch safe mode off. -/
def SafeModeRequested (rules : List Rule) (c : Context) : Prop :=
  ∃ r ∈ rules, r.Eligible c ∧ r.scope = .global ∧ r.content.action.value .safeMode = some true

/-- The rules that may decide a field: eligible rules of its scope that set
it. Once safe mode is requested, only rules that switch it on may decide
about it. -/
def Candidate (rules : List Rule) (c : Context) (f : Field) (r : Rule) : Prop :=
  r.Eligible c ∧ r.scope = f.scope ∧ (r.content.action.value f).isSome = true ∧
    (f = .safeMode → SafeModeRequested rules c → r.content.action.value .safeMode = some true)

/-- The setting is the one of the leading candidate, or the initial one where
there is no candidate. What a candidate is stays open here, so the same notion
serves the field of safe mode and all others. -/
def Decided (ps : List Placed) (cand : Rule → Prop) (f : Field) (x : f.Setting) : Prop :=
  (∃ p v, Leads ps cand p ∧ p.1.content.action.value f = some v ∧ x = f.kind.settingOf v) ∨
    (∀ p ∈ ps, ¬ cand p.1) ∧ x = f.kind.initial

/-- Two rules that are alike as far as a field is concerned. They may differ in
their keys, in what they do to other fields, and in when and by whom they were
written. -/
structure AlikeOn (f : Field) (r s : Rule) : Prop where
  enabled : s.content.enabled = r.content.enabled
  filter : s.content.filter = r.content.filter
  priority : s.priority = r.priority
  revision : s.revision = r.revision
  value : s.content.action.value f = r.content.action.value f

/-- Two lists of rules that are alike on a field, position by position. -/
structure AllAlikeOn (f : Field) (rules others : List Rule) : Prop where
  length : others.length = rules.length
  alike : ∀ (i : Nat) (r s : Rule), rules[i]? = some r → others[i]? = some s → AlikeOn f r s

/-- The settings of rules for a context, before safe mode replaces them. What is
delivered is this or the settings of the policy. -/
def compiledSettings (rules : List Rule) (c : Context) : Settings :=
  (ofEligible (eligible rules c.normalized)).settings

variable {ps : List Placed} {rules : List Rule} {c : Context} {f : Field} {r : Rule}

/-! ### Candidates -/

/-- The eligible rules with their positions in the whole list. -/
def eligiblePlaced (ps : List Placed) (c : Context) : List Placed :=
  ps.filter fun p => p.1.content.enabled && p.1.content.filter.accepts c

/-- The eligible rules among placed ones are the eligible rules of the list, so
a position may be carried along without being seen. -/
theorem map_fst_eligiblePlaced (ps : List Placed) (c : Context) :
    (eligiblePlaced ps c).map Prod.fst = eligible (ps.map Prod.fst) c := by
  rw [eligible, List.filter_map]
  rfl

/-- A placed rule is among the eligible ones if it is placed and its rule is
eligible. -/
theorem mem_eligiblePlaced {p : Placed} :
    p ∈ eligiblePlaced ps c ↔ p ∈ ps ∧ p.1.Eligible c := by
  rw [eligiblePlaced, List.mem_filter, Bool.and_eq_true, Rule.Eligible]

/-- The eligible rules stand at increasing positions, as all of them do. -/
theorem increasing_eligiblePlaced (h : Increasing ps) : Increasing (eligiblePlaced ps c) :=
  h.filter _

/-- The walk sees the request for safe mode that eligible rules make. It asks
all of them before it starts, not those that it has passed. -/
theorem isRequested_iff :
    isRequested (eligiblePlaced ps c) = true ↔ SafeModeRequested (ps.map Prod.fst) c := by
  rw [isRequested, List.any_eq_true]
  constructor
  · rintro ⟨p, hp, hreq⟩
    obtain ⟨hmem, hel⟩ := mem_eligiblePlaced.mp hp
    have hval : p.1.content.action.value .safeMode = some true := by
      simpa [requestsSafeMode] using hreq
    have hscope : p.1.scope = .global := Action.scope_of_value (f := .safeMode) (by rw [hval]; rfl)
    exact ⟨p.1, List.mem_map_of_mem hmem, hel, hscope, hval⟩
  · rintro ⟨r, hr, hel, -, hval⟩
    obtain ⟨p, hmem, rfl⟩ := List.mem_map.mp hr
    exact ⟨p, mem_eligiblePlaced.mpr ⟨hmem, hel⟩, by simp [requestsSafeMode, hval]⟩

/-- Among eligible rules the candidates are those with an offer. The definition
of candidates names the scope; an action sets no field of another one, so an
offer says as much. -/
theorem candidate_iff_offers (hel : r.Eligible c) :
    Candidate (ps.map Prod.fst) c f r ↔
      offers (isRequested (eligiblePlaced ps c)) f r = true := by
  rw [offers_iff, isRequested_iff]
  constructor
  · rintro ⟨-, -, hset, hsafe⟩
    exact ⟨hset, hsafe⟩
  · rintro ⟨hset, hsafe⟩
    exact ⟨hel, Action.scope_of_value hset, hset, hsafe⟩

/-! ### Winners -/

/-- The winner that the walk computes is the leading candidate. It is the first
with an offer in the ranking, and the ranking is the order of precedence. -/
theorem leads_of_winner (h : Increasing ps) {p : Placed}
    (hwin : winner (isRequested (eligiblePlaced ps c)) (ranking (eligiblePlaced ps c)) f = some p) :
    Leads ps (Candidate (ps.map Prod.fst) c f) p := by
  have hoffers := leads_of_find?_ranking (increasing_eligiblePlaced h) hwin
  obtain ⟨hmem, hp, hfirst⟩ := hoffers
  obtain ⟨hmem, hel⟩ := mem_eligiblePlaced.mp hmem
  refine ⟨hmem, (candidate_iff_offers hel).mpr hp, fun q hq hcand hne => ?_⟩
  exact hfirst q (mem_eligiblePlaced.mpr ⟨hq, hcand.1⟩)
    ((candidate_iff_offers hcand.1).mp hcand) hne

/-- Where the walk finds no winner there is no candidate. -/
theorem no_candidate_of_winner
    (hwin : winner (isRequested (eligiblePlaced ps c)) (ranking (eligiblePlaced ps c)) f = none) :
    ∀ p ∈ ps, ¬ Candidate (ps.map Prod.fst) c f p.1 := by
  intro p hp hcand
  have hnone := List.find?_eq_none.mp hwin p
    (mem_ranking.mpr (mem_eligiblePlaced.mpr ⟨hp, hcand.1⟩))
  exact hnone ((candidate_iff_offers hcand.1).mp hcand)

/-! ### Settings -/

/-- The leading candidate decides what is compiled. Candidates are told from the
input alone, without a look at the walk: eligible rules that set the field and
may claim it. -/
theorem decided_compiled (h : Increasing ps) (c : Context) (f : Field) :
    Decided ps (Candidate (ps.map Prod.fst) c.normalized f) f
      ((compiledSettings (ps.map Prod.fst) c).get f) := by
  rw [compiledSettings, ← map_fst_eligiblePlaced,
    ofEligible_eq (increasing_eligiblePlaced h), get_settings, get_winners_ofRanked]
  cases hwin : winner (isRequested (eligiblePlaced ps c.normalized))
      (ranking (eligiblePlaced ps c.normalized)) f with
  -- Without a winner there is no candidate, and the setting is the initial one.
  | none => exact Or.inr ⟨no_candidate_of_winner hwin, rfl⟩
  | some p =>
    obtain ⟨k, hk⟩ := exists_contribution_of_winner hwin
    obtain ⟨v, hv, rfl⟩ := Option.map_eq_some_iff.mp hk
    refine Or.inl ⟨p, v, leads_of_winner h hwin, value_of_offer hv, ?_⟩
    rw [Option.bind_some, hk]
    rfl

/-- There is one setting at most that candidates decide for. So a setting that
was found to be decided is the compiled one. -/
theorem Decided.unique {cand : Rule → Prop} {x y : f.Setting}
    (hx : Decided ps cand f x) (hy : Decided ps cand f y) : x = y := by
  rcases hx with ⟨p, v, hp, hv, rfl⟩ | ⟨hnone, rfl⟩
  · rcases hy with ⟨q, w, hq, hw, rfl⟩ | ⟨hnone, -⟩
    · obtain rfl := hp.unique hq
      rw [hv] at hw
      cases hw
      rfl
    · exact absurd hp.2.1 (hnone p hp.1)
  · rcases hy with ⟨q, w, hq, -, -⟩ | ⟨-, rfl⟩
    · exact absurd hq.2.1 (hnone q hq.1)
    · rfl

/-! ### Rules that do not touch the field -/

/-- Leaving out rules that do not set the field leaves its candidates. A rule
that requests safe mode sets the field in question, if that is safe mode, so the
request stays too. -/
theorem candidate_filter_iff {keep : Rule → Bool}
    (hkeep : ∀ r ∈ rules, keep r = false → r.content.action.value f = none) :
    Candidate (rules.filter keep) c f r ↔ Candidate rules c f r := by
  -- A rule that is left out does not set safe mode, so it made no request.
  have hreq : f = .safeMode →
      (SafeModeRequested (rules.filter keep) c ↔ SafeModeRequested rules c) := by
    rintro rfl
    constructor
    · rintro ⟨s, hs, hrest⟩
      exact ⟨s, (List.mem_filter.mp hs).1, hrest⟩
    · rintro ⟨s, hs, hel, hscope, hval⟩
      refine ⟨s, List.mem_filter.mpr ⟨hs, ?_⟩, hel, hscope, hval⟩
      cases hk : keep s with
      | true => rfl
      | false => simp [hkeep s hs hk] at hval
  constructor
  · rintro ⟨hel, hscope, hset, hsafe⟩
    exact ⟨hel, hscope, hset, fun hf hr => hsafe hf ((hreq hf).mpr hr)⟩
  · rintro ⟨hel, hscope, hset, hsafe⟩
    exact ⟨hel, hscope, hset, fun hf hr => hsafe hf ((hreq hf).mp hr)⟩

/-- Leaving out rules that do not set the field leaves its setting. Positions
change with it, but those that are left keep their order. -/
theorem compiled_filter {keep : Rule → Bool}
    (hkeep : ∀ r ∈ rules, keep r = false → r.content.action.value f = none) :
    (compiledSettings (rules.filter keep) c).get f = (compiledSettings rules c).get f := by
  have hinc : Increasing (rules.zipIdx.filter fun p => keep p.1) :=
    (increasing_zipIdx rules).filter _
  -- The positions are those of the whole list, so both settings are decided
  -- by the same leader.
  have hfew := decided_compiled hinc c f
  have hall := decided_compiled (increasing_zipIdx rules) c f
  rw [map_fst_filter_zipIdx] at hfew
  rw [List.zipIdx_map_fst] at hall
  have hsame : Candidate (rules.filter keep) c.normalized f = Candidate rules c.normalized f :=
    funext fun r => propext (candidate_filter_iff hkeep)
  rw [hsame] at hfew
  have hcand : ∀ p ∈ rules.zipIdx, Candidate rules c.normalized f p.1 → keep p.1 = true := by
    intro p hp hcand
    cases hk : keep p.1 with
    | true => rfl
    | false =>
      have hnone := hkeep p.1 (List.fst_mem_of_mem_zipIdx hp) hk
      have hset := hcand.2.2.1
      rw [hnone] at hset
      cases hset
  refine Decided.unique ?_ hall
  rcases hfew with ⟨p, v, hp, hv⟩ | ⟨hnone, hx⟩
  · exact Or.inl ⟨p, v, (leads_filter_iff hcand p).mp hp, hv⟩
  · exact Or.inr ⟨fun p hp hc => hnone p (List.mem_filter.mpr ⟨hp, hcand p hp hc⟩) hc, hx⟩

/-! ### What rules do to other fields -/

/-- Being alike on a field goes both ways. -/
theorem AlikeOn.symm {s : Rule} (h : AlikeOn f r s) : AlikeOn f s r :=
  ⟨h.enabled.symm, h.filter.symm, h.priority.symm, h.revision.symm, h.value.symm⟩

/-- Rules that are alike on some field are eligible together: they have the same
flag and filter. -/
theorem AlikeOn.eligible_iff {s : Rule} (h : AlikeOn f r s) : s.Eligible c ↔ r.Eligible c := by
  rw [Rule.Eligible, Rule.Eligible, h.enabled, h.filter]

namespace AllAlikeOn

variable {others : List Rule}

/-- Lists that are alike on a field are so in both directions, position by
position. -/
theorem symm (h : AllAlikeOn f rules others) : AllAlikeOn f others rules :=
  ⟨h.length.symm, fun i r s hr hs => (h.alike i s r hs hr).symm⟩

/-- Every rule has its counterpart at the same position. -/
theorem counterpart (h : AllAlikeOn f rules others) {i : Nat} (hr : rules[i]? = some r) :
    ∃ s, others[i]? = some s ∧ AlikeOn f r s := by
  have hi : i < others.length := by
    rw [h.length]
    exact (List.getElem?_eq_some_iff.mp hr).1
  exact ⟨others[i], List.getElem?_eq_getElem hi, h.alike i r _ hr (List.getElem?_eq_getElem hi)⟩

/-- Rules that are alike on safe mode request it alike. This is why safe mode is
not affected either, whatever they do to other fields. -/
theorem safeModeRequested (h : AllAlikeOn .safeMode rules others)
    (hreq : SafeModeRequested rules c) : SafeModeRequested others c := by
  obtain ⟨r, hr, hel, -, hval⟩ := hreq
  obtain ⟨i, hi⟩ := List.getElem?_of_mem hr
  obtain ⟨s, hs, hrs⟩ := h.counterpart hi
  rw [← hrs.value] at hval
  exact ⟨s, List.mem_of_getElem? hs, hrs.eligible_iff.mpr hel,
    Action.scope_of_value (f := .safeMode) (by rw [hval]; rfl), hval⟩

/-- Counterparts are alike as candidates. -/
theorem candidate (h : AllAlikeOn f rules others) {s : Rule} (hrs : AlikeOn f r s)
    (hc : Candidate rules c f r) : Candidate others c f s := by
  obtain ⟨hel, -, hset, hsafe⟩ := hc
  rw [← hrs.value] at hset
  refine ⟨hrs.eligible_iff.mpr hel, Action.scope_of_value hset, hset, ?_⟩
  rintro rfl hreq
  rw [hrs.value]
  exact hsafe rfl (h.symm.safeModeRequested hreq)

/-- The leading candidates of two alike lists stand at the same position. Alike
rules have the same rank, so whoever leads in one list has a counterpart that
leads in the other. -/
theorem leads (h : AllAlikeOn f rules others) {p : Placed}
    (hp : Leads rules.zipIdx (Candidate rules c f) p) :
    ∃ s, AlikeOn f p.1 s ∧ Leads others.zipIdx (Candidate others c f) (s, p.2) := by
  obtain ⟨hmem, hcand, hfirst⟩ := hp
  obtain ⟨s, hs, hrs⟩ := h.counterpart (List.mem_zipIdx_iff_getElem?.mp hmem)
  refine ⟨s, hrs, List.mk_mem_zipIdx_iff_getElem?.mpr hs, h.candidate hrs hcand, ?_⟩
  intro q hq hcandq hne
  have hq' := List.mem_zipIdx_iff_getElem?.mp hq
  obtain ⟨t, ht, hqt⟩ := h.symm.counterpart hq'
  -- Only one rule of `others` stands at the position of `p`.
  have hpos : q.2 ≠ p.2 := by
    intro he
    rw [he, hs] at hq'
    exact hne (Prod.ext (Option.some.inj hq').symm he)
  have hcomes := hfirst (t, q.2) (List.mk_mem_zipIdx_iff_getElem?.mpr ht)
    (h.symm.candidate hqt hcandq) (fun he => hpos (by rw [← he]))
  rw [ComesFirst, hqt.priority, hqt.revision, ← hrs.priority, ← hrs.revision] at hcomes
  exact hcomes

/-- What rules do to other fields does not matter for the setting of this one.
The leading candidates correspond and set the same value. -/
theorem compiled (h : AllAlikeOn f rules others) :
    (compiledSettings others c).get f = (compiledSettings rules c).get f := by
  have hrules := decided_compiled (increasing_zipIdx rules) c f
  have hothers := decided_compiled (increasing_zipIdx others) c f
  rw [List.zipIdx_map_fst] at hrules hothers
  refine hothers.unique ?_
  rcases hrules with ⟨p, v, hp, hv, hx⟩ | ⟨hnone, hx⟩
  · obtain ⟨s, hs, hlead⟩ := h.leads hp
    exact Or.inl ⟨(s, p.2), v, hlead, hs.value.trans hv, hx⟩
  · refine Or.inr ⟨fun q hq hcand => ?_, hx⟩
    obtain ⟨t, ht, hqt⟩ := h.symm.counterpart (List.mem_zipIdx_iff_getElem?.mp hq)
    exact hnone (t, q.2) (List.mk_mem_zipIdx_iff_getElem?.mpr ht) (h.symm.candidate hqt hcand)

end AllAlikeOn

/-- **Which rule decides a setting.** Before safe mode replaces them, the
compiled setting of every field is the one of the first candidate by
priority, revision and position, or the initial one where there is no
candidate. Leaving out rules that leave the field unset changes nothing.
Neither does what rules do to other fields: the same position leads. -/
theorem setting_decided_by_leading_candidate (rules : List Rule) (c : Context) (f : Field) :
    Decided rules.zipIdx (Candidate rules c.normalized f) f ((compiledSettings rules c).get f) ∧
    (∀ keep : Rule → Bool,
      (∀ r ∈ rules, keep r = false → r.content.action.value f = none) →
        (compiledSettings (rules.filter keep) c).get f = (compiledSettings rules c).get f) ∧
    ∀ others : List Rule, AllAlikeOn f rules others →
      (compiledSettings others c).get f = (compiledSettings rules c).get f ∧
      ∀ p, Leads rules.zipIdx (Candidate rules c.normalized f) p →
        ∃ s, Leads others.zipIdx (Candidate others c.normalized f) (s, p.2) := by
  refine ⟨?_, fun keep hkeep => compiled_filter hkeep, fun others h => ⟨h.compiled, ?_⟩⟩
  · have hdecided := decided_compiled (increasing_zipIdx rules) c f
    rw [List.zipIdx_map_fst] at hdecided
    exact hdecided
  · intro p hp
    obtain ⟨s, -, hs⟩ := h.leads hp
    exact ⟨s, hs⟩

end Overrides
