import Mathlib.Data.List.Induction
import Overrides.Proofs.Precedence.Claims
import Overrides.Proofs.Precedence.Order

/-!
# `Overrides.Proofs.Precedence.Resolution`: what the walk over the rules computes

`Resolved.ofEligible` goes through the rules once and keeps a table of
winners and a list of entries. Here both are given at once, as functions
of the ranked rules: `winner` is the first rule with an offer for a
field, and `wins` lists the rules with the fields of which they are the
winner.

* `claim_ofRanked`: one step of the walk appends one rule.
* `ofEligible_eq`: the walk as a whole computes `ofRanked`.
-/

set_option autoImplicit false

namespace Overrides

open Placed

/-- A placed rule and the fields that it won. An entry of the trace has less: it
does not say where the rule stood. -/
@[ext]
structure Win where
  placed : Placed
  fields : List Field

/-- The entry of the trace for a win. -/
def Win.entry (w : Win) : Applied := Applied.ofRule w.placed.1 w.fields

namespace Resolved

/-- The rule has an offer for the field. For all fields but safe mode this means
that its action sets the field. -/
def offers (safeModeRequested : Bool) (f : Field) (r : Rule) : Bool :=
  (offer safeModeRequested r.content.action f).isSome

/-- What the rule contributes to the field if it wins. -/
def contribution (safeModeRequested : Bool) (f : Field) (r : Rule) :
    Option (Contribution f.Value) :=
  (offer safeModeRequested r.content.action f).map (Contribution.ofRule r)

/-- The winner of a field: the first ranked rule with an offer for it. Fields
are looked at one by one, where the walk goes through the rules and claims all
fields of one at a time. -/
def winner (safeModeRequested : Bool) (ranked : List Placed) (f : Field) : Option Placed :=
  ranked.find? fun p => offers safeModeRequested f p.1

/-- The fields of which the rule at a position is the winner. -/
def fieldsWon (safeModeRequested : Bool) (ranked : List Placed) (position : Nat) : List Field :=
  Field.all.filter fun f => (winner safeModeRequested ranked f).map Prod.snd == some position

/-- The win of a placed rule, if it wins any field. -/
def win? (safeModeRequested : Bool) (ranked : List Placed) (p : Placed) : Option Win :=
  let fields := fieldsWon safeModeRequested ranked p.2
  if fields.isEmpty then none else some ⟨p, fields⟩

/-- The wins in order of precedence. A rule that wins no field has none, as it
has no entry. -/
def wins (safeModeRequested : Bool) (ranked : List Placed) : List Win :=
  ranked.filterMap (win? safeModeRequested ranked)

/-- The outcome of the walk over ranked rules, told from the winners alone. The
walk itself keeps a state; this says what the state is after any number of
rules. -/
def ofRanked (safeModeRequested : Bool) (ranked : List Placed) : Resolved where
  winners := Table.ofFn fun f =>
    (winner safeModeRequested ranked f).bind fun p => contribution safeModeRequested f p.1
  applied := (wins safeModeRequested ranked).map Win.entry

variable {b : Bool} {ranked seen : List Placed} {p q : Placed} {f : Field} {r : Rule}

/-! ### Offers -/

/-- An action has an offer for what it sets, except that switching safe
mode off is no offer while safe mode is requested. -/
theorem offers_iff :
    offers b f r = true ↔ (r.content.action.value f).isSome = true ∧
      (f = .safeMode → b = true → r.content.action.value .safeMode = some true) := by
  by_cases hf : f = .safeMode
  · subst hf
    cases b
    · simp [offers, offer]
    · cases h : r.content.action.value .safeMode with
      | none => simp [offers, offer, h]
      | some v => cases v <;> simp [offers, offer, h, Option.filter]
  · simp [offers, offer_of_ne hf, hf]

/-- A rule contributes to a field when it offers it. -/
theorem isSome_contribution : (contribution b f r).isSome = offers b f r := by
  simp [contribution, offers]

/-! ### Winners -/

/-- A winner contributes. -/
theorem exists_contribution_of_winner (h : winner b ranked f = some p) :
    ∃ c, contribution b f p.1 = some c := by
  rw [winner] at h
  rw [← Option.isSome_iff_exists, isSome_contribution]
  simpa using List.find?_some h

/-- The slot of a field holds what its winner contributes. -/
theorem get_winners_ofRanked :
    (ofRanked b ranked).winners.get f = (winner b ranked f).bind fun p => contribution b f p.1 := by
  rw [ofRanked, Table.get_ofFn]

/-- A field has been won when it has a winner. The slot is empty exactly where
no rule had an offer. -/
theorem isNone_get_winners_ofRanked :
    ((ofRanked b ranked).winners.get f).isNone = (winner b ranked f).isNone := by
  rw [get_winners_ofRanked]
  cases h : winner b ranked f with
  | none => rfl
  | some p =>
    obtain ⟨c, hc⟩ := exists_contribution_of_winner h
    rw [Option.bind_some, hc]
    rfl

/-- One more rule wins what has no winner yet and it has an offer for. -/
theorem winner_append :
    winner b (seen ++ [p]) f = (winner b seen f).or (if offers b f p.1 then some p else none) := by
  rw [winner, List.find?_append]
  cases h : offers b f p.1 <;> simp [winner, h]

/-- The position of a winner is one of the positions seen. -/
theorem snd_mem_of_winner (h : winner b seen f = some q) : q.2 ∈ seen.map Prod.snd :=
  List.mem_map_of_mem (List.mem_of_find?_eq_some h)

/-! ### One step -/

/-- What the next rule wins: the fields that it offers and that have no winner
among the rules before it. They are those of which it is the winner from then
on. -/
theorem won_ofRanked (hp : p.2 ∉ seen.map Prod.snd) :
    won b (ofRanked b seen) p.1 = fieldsWon b (seen ++ [p]) p.2 := by
  refine List.filter_congr fun f _ => ?_
  rw [isNone_get_winners_ofRanked, winner_append, ← offers]
  cases h : winner b seen f with
  | none => cases offers b f p.1 <;> simp
  | some q =>
    have hne : q.2 ≠ p.2 := fun he => hp (he ▸ snd_mem_of_winner h)
    simp [hne]

/-- What the rules before have won stays theirs. -/
theorem fieldsWon_append {n : Nat} (hn : n ≠ p.2) :
    fieldsWon b (seen ++ [p]) n = fieldsWon b seen n := by
  refine List.filter_congr fun f _ => ?_
  rw [winner_append]
  cases h : winner b seen f with
  | none => cases offers b f p.1 <;> simp [Ne.symm hn]
  | some q => rfl

/-- The wins after one more rule: those from before, and the one of the new rule
if it wins anything. No earlier win gains or loses a field. -/
theorem wins_append (hp : p.2 ∉ seen.map Prod.snd) :
    wins b (seen ++ [p]) = wins b seen ++ (win? b (seen ++ [p]) p).toList := by
  -- The new rule takes no field from the rules before it.
  have hseen : seen.filterMap (win? b (seen ++ [p])) = wins b seen := by
    refine List.filterMap_congr fun q hq => ?_
    have hne : q.2 ≠ p.2 := fun he => hp (he ▸ List.mem_map_of_mem hq)
    rw [win?, fieldsWon_append hne, ← win?]
  rw [wins, List.filterMap_append, hseen]
  cases h : win? b (seen ++ [p]) p <;> simp [h]

/-- One step of the walk appends one rule at a new position. The position has to
be new because it tells what a rule has won; were it used before, two rules
would be taken for one. -/
theorem claim_ofRanked (hp : p.2 ∉ seen.map Prod.snd) :
    claim b (ofRanked b seen) p.1 = ofRanked b (seen ++ [p]) := by
  have hwinners : (claim b (ofRanked b seen) p.1).winners = (ofRanked b (seen ++ [p])).winners := by
    refine Table.ext_get fun f => ?_
    rw [get_winners_claim, get_winners_ofRanked, get_winners_ofRanked, winner_append]
    cases h : winner b seen f with
    | none =>
      cases ho : offers b f p.1
      · rw [← isSome_contribution, Option.isSome_eq_false_iff, Option.isNone_iff_eq_none] at ho
        exact ho
      · rfl
    -- A field with a winner keeps it, since the winner also comes first in the
    -- longer list.
    | some q =>
      obtain ⟨c, hc⟩ := exists_contribution_of_winner h
      simp [hc]
  have happlied : (claim b (ofRanked b seen) p.1).applied = (ofRanked b (seen ++ [p])).applied := by
    show _ = (wins b (seen ++ [p])).map Win.entry
    rw [applied_claim, entry, won_ofRanked hp, wins_append hp, List.map_append, win?]
    split <;> rfl
  calc claim b (ofRanked b seen) p.1
      = ⟨(claim b (ofRanked b seen) p.1).winners, (claim b (ofRanked b seen) p.1).applied⟩ := rfl
    _ = ofRanked b (seen ++ [p]) := by rw [hwinners, happlied]

/-! ### The whole walk -/

/-- The walk over ranked rules, each at a position of its own. The
induction is on the part of the list that has been seen. -/
theorem foldl_claim_eq_ofRanked (h : (ranked.map Prod.snd).Nodup) :
    (ranked.map Prod.fst).foldl (claim b) start = ofRanked b ranked := by
  induction ranked using List.reverseRecOn with
  | nil => rfl
  | append_singleton seen p ih =>
    rw [List.map_append, List.nodup_append] at h
    have hp : p.2 ∉ seen.map Prod.snd := fun hmem => h.2.2 p.2 hmem p.2 (by simp) rfl
    rw [List.map_append, List.foldl_append, ih h.1]
    exact claim_ofRanked hp

/-- Safe mode is requested by one of the rules. -/
def isRequested (ps : List Placed) : Bool := ps.any fun p => requestsSafeMode p.1

/-- Resolution of placed rules, the positions forgotten. The walk over the
sorted rules ends in the state that the winners determine. -/
theorem ofEligible_eq {ps : List Placed} (h : Increasing ps) :
    ofEligible (ps.map Prod.fst) = ofRanked (isRequested ps) (ranking ps) := by
  have hany : (ps.map Prod.fst).any requestsSafeMode = isRequested ps := by
    rw [List.any_map]
    rfl
  rw [ofEligible, ← map_fst_ranking, hany]
  exact foldl_claim_eq_ofRanked (nodup_positions_ranking h)

end Resolved

end Overrides
