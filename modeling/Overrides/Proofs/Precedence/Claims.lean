import Overrides.Proofs.Rule.FieldLists
import Overrides.Snapshot.Precedence

/-!
# `Overrides.Proofs.Precedence.Claims`: what a rule claims, and what comes of it

`Claims.claimAll` spells out the claims of every scope: a slot, a value and a
name for each. `Resolved.settings` spells out what every slot brings about.
Both agree with `Field.ofScope`, so a claim never fills the slot of one field
under the name or with the value of another one.

A rule claims the fields of its scope one after the other, and no field
twice. So no claim of the rule stands in the way of another, and all can be
judged by what had been won before: `won` lists the fields that the rule
takes.

* `Claims.claimAll_eq`: the spelled claims are those of the fields of the scope.
* `get_winners_claim`, `applied_claim`: the winners and the entries after the
  claims of a rule.
* `get_settings`: what the winner of a field brings about.
-/

set_option autoImplicit false

namespace Overrides

/-- The entry of a rule that won fields. It names them as they stand, so their
order is that of the list. -/
def Applied.ofRule (r : Rule) (won : List Field) : Applied :=
  ⟨r.key, r.scope, r.priority, r.revision, won.map Field.name⟩

namespace Resolved

/-- What an action offers for a field. When safe mode is requested, only
switching it on is an offer for it. -/
def offer (safeModeRequested : Bool) (a : Action) : (f : Field) → Option f.Value
  | .safeMode =>
    if safeModeRequested then (a.value .safeMode).filter id else a.value .safeMode
  | f => a.value f

/-- The fields that the rule wins: those that it offers and that no rule before
it has won. They stand in the order in which the fields are declared. -/
def won (safeModeRequested : Bool) (s : Resolved) (r : Rule) : List Field :=
  Field.all.filter fun f =>
    (s.winners.get f).isNone && (offer safeModeRequested r.content.action f).isSome

variable {b : Bool} {f : Field} {r : Rule}

/-! ### Offers -/

/-- Any field but safe mode is offered as the action sets it. -/
theorem offer_of_ne (h : f ≠ .safeMode) (a : Action) : offer b a f = a.value f := by
  cases f <;> first | rfl | exact absurd rfl h

/-- An offer is a value that the action sets. Safe mode may be set and not
offered, but nothing is offered that is not set. -/
theorem value_of_offer {a : Action} {v : f.Value} (h : offer b a f = some v) :
    a.value f = some v := by
  by_cases hf : f = .safeMode
  · subst hf
    cases b
    · exact h
    · exact (Option.filter_eq_some_iff.mp h).1
  · rw [← offer_of_ne hf a]
    exact h

/-- A rule has no offer for the fields of another scope. -/
theorem offer_eq_none (h : f.scope ≠ r.scope) : offer b r.content.action f = none := by
  cases ho : offer b r.content.action f with
  | none => rfl
  | some v =>
    have hscope := Action.scope_of_value (Option.isSome_of_eq_some (value_of_offer ho))
    exact absurd hscope.symm h

end Resolved

open Resolved

/-! ### The claims of a rule -/

namespace Claims

variable {b : Bool} {r : Rule} {f g : Field} {fields : List Field}

/-- The rule claims the slot of a field with its offer and the name of the field. -/
def claimOffer (b : Bool) (r : Rule) (c : Claims) (f : Field) : Claims :=
  c.claim r f (offer b r.content.action f) f.name

/-- The claims that are spelled out for a scope are those of its fields, each
with the slot, the offer and the name of the field, in declaration order. -/
theorem claimAll_eq (b : Bool) (c : Claims) (r : Rule) :
    claimAll b c r = (Field.ofScope r.scope).foldl (claimOffer b r) c := by
  rw [Rule.scope, Content.scope, claimAll]
  cases h : r.content.action.scope <;> rfl

/-- A claim does nothing, or it fills the slot, which was empty, with the offer
and puts the name down. -/
theorem claimOffer_cases (b : Bool) (r : Rule) (c : Claims) (f : Field) :
    (((c.winners.get f).isNone && (offer b r.content.action f).isSome) = false ∧
      claimOffer b r c f = c) ∨
    ∃ v, c.winners.get f = none ∧ offer b r.content.action f = some v ∧
      claimOffer b r c f
        = ⟨c.winners.set f (some (Contribution.ofRule r v)), c.won ++ [f.name]⟩ := by
  cases hc : c.winners.get f with
  | some k => exact Or.inl ⟨rfl, by simp only [claimOffer, claim, hc]⟩
  | none =>
    cases ho : offer b r.content.action f with
    | none => exact Or.inl ⟨rfl, by simp only [claimOffer, claim, hc, ho]⟩
    | some v => exact Or.inr ⟨v, rfl, rfl, by simp only [claimOffer, claim, hc, ho]⟩

/-- After the claim the slot has the winner that it had, or else the offer. A
rule that does not offer the field leaves an empty slot empty. -/
theorem get_winners_claimOffer_self (c : Claims) :
    (claimOffer b r c f).winners.get f
      = (c.winners.get f).or ((offer b r.content.action f).map (Contribution.ofRule r)) := by
  rcases claimOffer_cases b r c f with ⟨hidle, hc⟩ | ⟨v, hnone, ho, hc⟩
  -- Nothing was claimed: the slot is taken, or else the rule does not offer the field.
  · rw [hc]
    cases hk : c.winners.get f with
    | some k => rfl
    | none =>
      rw [hk, Option.isNone_none, Bool.true_and, Option.isSome_eq_false_iff,
        Option.isNone_iff_eq_none] at hidle
      rw [hidle]
      rfl
  · rw [hc, hnone, ho, Table.get_set_self]
    rfl

/-- A claim leaves the slots of other fields. -/
theorem get_winners_claimOffer_of_ne (h : f ≠ g) (c : Claims) :
    (claimOffer b r c f).winners.get g = c.winners.get g := by
  rcases claimOffer_cases b r c f with ⟨-, hc⟩ | ⟨v, -, -, hc⟩
  · rw [hc]
  · rw [hc, Table.get_set, dif_neg h]

/-- The name is put down when the slot was empty and there is an offer. -/
theorem won_claimOffer (c : Claims) :
    (claimOffer b r c f).won = c.won ++
      if (c.winners.get f).isNone && (offer b r.content.action f).isSome then [f.name] else [] := by
  rcases claimOffer_cases b r c f with ⟨hidle, hc⟩ | ⟨v, hnone, ho, hc⟩
  · rw [hc, if_neg (Bool.eq_false_iff.mp hidle), List.append_nil]
  · rw [hc, hnone, ho]
    rfl

/-- The winners after the claims of some fields. A slot is claimed once, so
what the other claims did to their slots is of no account. -/
theorem get_winners_foldl (hfields : fields.Nodup) (c : Claims) :
    (fields.foldl (claimOffer b r) c).winners.get g
      = if g ∈ fields then
          (c.winners.get g).or ((offer b r.content.action g).map (Contribution.ofRule r))
        else c.winners.get g := by
  induction fields generalizing c with
  | nil => rfl
  | cons f fields ih =>
    obtain ⟨hf, hfields⟩ := List.nodup_cons.mp hfields
    rw [List.foldl_cons, ih hfields]
    -- The claim of the field itself comes first, and the later ones are for other fields.
    by_cases hg : f = g
    · subst hg
      rw [if_neg hf, if_pos (List.mem_cons_self ..), get_winners_claimOffer_self]
    · rw [get_winners_claimOffer_of_ne hg]
      simp only [List.mem_cons, Ne.symm hg, false_or]

/-- The names that are put down in the claims of some fields can be told from
the slots that were empty before the first of them. -/
theorem won_foldl (hfields : fields.Nodup) (c : Claims) :
    (fields.foldl (claimOffer b r) c).won = c.won ++ (fields.filter fun f =>
      (c.winners.get f).isNone && (offer b r.content.action f).isSome).map Field.name := by
  induction fields generalizing c with
  | nil => exact (List.append_nil _).symm
  | cons f fields ih =>
    obtain ⟨hf, hfields⟩ := List.nodup_cons.mp hfields
    -- The claim of `f` does not empty or fill the slots of the others.
    have hrest : (fields.filter fun g => ((claimOffer b r c f).winners.get g).isNone
          && (offer b r.content.action g).isSome)
        = fields.filter fun g =>
            (c.winners.get g).isNone && (offer b r.content.action g).isSome := by
      refine List.filter_congr fun g hg => ?_
      have hne : f ≠ g := fun h => hf (h ▸ hg)
      rw [get_winners_claimOffer_of_ne hne]
    rw [List.foldl_cons, ih hfields, hrest, won_claimOffer, List.append_assoc, List.filter_cons]
    split <;> rfl

end Claims

/-! ### One step of the walk -/

namespace Resolved

variable {b : Bool} {f : Field} {r : Rule}

/-- After the claims of a rule a field has the winner that it had, or else what
the rule offers. So a winner is never replaced, and the claims of one rule do
not get in each other's way. -/
theorem get_winners_claim (s : Resolved) :
    (claim b s r).winners.get f = match s.winners.get f with
      | some c => some c
      | none => (offer b r.content.action f).map (Contribution.ofRule r) := by
  have hor : (claim b s r).winners.get f
      = (s.winners.get f).or ((offer b r.content.action f).map (Contribution.ofRule r)) := by
    show (Claims.claimAll b ⟨s.winners, []⟩ r).winners.get f = _
    rw [Claims.claimAll_eq, Claims.get_winners_foldl (Field.nodup_ofScope _)]
    split
    · rfl
    · rename_i hf
      -- The rule claims nothing outside its scope, and offers nothing there either.
      rw [offer_eq_none fun h => hf (Field.mem_ofScope.mpr h), Option.map_none, Option.or_none]
  rw [hor]
  cases s.winners.get f <;> rfl

/-- All fields that a rule wins are of its scope. So they can be looked for
among the fields of the scope, which are those that are claimed. -/
theorem won_eq (b : Bool) (s : Resolved) (r : Rule) :
    won b s r = (Field.ofScope r.scope).filter fun f =>
      (s.winners.get f).isNone && (offer b r.content.action f).isSome := by
  refine Field.filter_all_eq fun f h => ?_
  obtain ⟨-, ho⟩ := Bool.and_eq_true_iff.mp h
  refine Decidable.byContradiction fun hne => ?_
  rw [offer_eq_none hne] at ho
  cases ho

/-- The names that the claims of a rule put down are those of the fields that
it wins. -/
theorem won_claimAll (b : Bool) (s : Resolved) (r : Rule) :
    (Claims.claimAll b ⟨s.winners, []⟩ r).won = (won b s r).map Field.name := by
  rw [Claims.claimAll_eq, Claims.won_foldl (Field.nodup_ofScope _), won_eq]
  rfl

/-- The entry of a rule, if it wins anything. It is a list of one or none, so
that a walk over rules appends it as it is. -/
def entry (b : Bool) (s : Resolved) (r : Rule) : List Applied :=
  if (won b s r).isEmpty then [] else [Applied.ofRule r (won b s r)]

/-- The claims of a rule add its entry to the trace and change no other. A rule
that wins nothing has no entry. -/
theorem applied_claim (s : Resolved) : (claim b s r).applied = s.applied ++ entry b s r := by
  rw [claim, won_claimAll, entry, List.isEmpty_map]
  cases (won b s r).isEmpty with
  | true => exact (List.append_nil _).symm
  | false => rfl

end Resolved

/-! ### What the winners bring about -/

/-- The value of a slot, or none where nobody won it, by cases on the slot. -/
theorem valueOrNull_eq {α : Type} (slot : Option (Contribution α)) :
    valueOrNull slot = (slot.map fun c => some c.value).getD none := by
  cases slot <;> rfl

namespace Resolved

/-- The setting of a field is the one that its own winner brings about, or the
initial one. The default of a type is the initial setting of its fields. The
settings are spelled out field by field, so that none of them takes the winner
of another is to be shown. -/
theorem get_settings (s : Resolved) (f : Field) :
    s.settings.get f = match s.winners.get f with
      | some c => f.kind.settingOf c.value
      | none => f.kind.initial := by
  have hspelled : s.settings.get f
      = ((s.winners.get f).map fun c => f.kind.settingOf c.value).getD f.kind.initial := by
    cases f <;> first | rfl | exact valueOrNull_eq _
  rw [hspelled]
  cases s.winners.get f <;> rfl

end Resolved

end Overrides
