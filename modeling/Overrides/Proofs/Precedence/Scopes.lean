import Overrides.Proofs.Precedence.Trace

/-!
# `Overrides.Proofs.Precedence.Scopes`: scopes do not interfere

The rules of all scopes are walked in one order, with one table of
winners and one list of entries. Yet a rule has offers for the fields of
its own scope only, so the walk as far as one scope is concerned is the
walk over the rules of that scope. `AgreeOn` relates two walks that are
the same as far as a scope is concerned.

Whether safe mode is requested is seen by every step, but it matters for
the offers of global rules only, and global rules make the request. Forced
settings and the cut of the trace depend on the global scope, so no other
scope can bring them about.

* `AgreeOn.claim`, `agreeOn_claim_of_ne`: one step, of any rule on both
  sides, and of a rule of another scope on one side.
* `agreeOn_ofEligible`: the whole walk.
* `eq_of_classes`: a list that is sorted by class is determined by its
  classes.
* `scopes_do_not_interfere`: what this says of snapshots.
-/

set_option autoImplicit false

namespace Overrides

open Placed Resolved

/-! ### Lists that are sorted by class -/

/-- Lists that are sorted by class and have the same items of every class
are the same. The induction is on the lists: the first items belong to
the lowest class that occurs. -/
theorem eq_of_classes {α κ : Type} [DecidableEq κ] (kind : α → κ) (le : κ → κ → Prop)
    (antisymm : ∀ a b, le a b → le b a → a = b) {items others : List α}
    (hitems : items.Pairwise fun a b => le (kind a) (kind b))
    (hothers : others.Pairwise fun a b => le (kind a) (kind b))
    (h : ∀ k, items.filter (kind · = k) = others.filter (kind · = k)) : items = others := by
  induction items generalizing others with
  | nil =>
    refine (List.eq_nil_iff_forall_not_mem.mpr fun b hb => ?_).symm
    have hmem : b ∈ others.filter (kind · = kind b) := List.mem_filter.mpr ⟨hb, by simp⟩
    rw [← h] at hmem
    exact nomatch hmem
  | cons a items ih =>
    have hmem_iff : ∀ x, x ∈ a :: items ↔ x ∈ others := by
      intro x
      have hx := congrArg (x ∈ ·) (h (kind x))
      simpa only [List.mem_filter, decide_true, and_true, eq_iff_iff] using hx
    cases others with
    | nil => exact absurd ((hmem_iff a).mp (List.mem_cons_self ..)) List.not_mem_nil
    | cons b rest =>
      obtain ⟨ha, hitems⟩ := List.pairwise_cons.mp hitems
      obtain ⟨hb, hrest⟩ := List.pairwise_cons.mp hothers
      -- Each first item occurs in the other list, where nothing is of a lower class.
      have hkind : kind a = kind b := by
        rcases List.mem_cons.mp ((hmem_iff a).mp (List.mem_cons_self ..)) with rfl | hab
        · rfl
        rcases List.mem_cons.mp ((hmem_iff b).mpr (List.mem_cons_self ..)) with rfl | hba
        · rfl
        exact antisymm _ _ (ha b hba) (hb a hab)
      have hfirst := h (kind a)
      rw [List.filter_cons_of_pos (by simp), List.filter_cons_of_pos (by simp [hkind])] at hfirst
      obtain ⟨rfl, -⟩ := List.cons.inj hfirst
      refine congrArg (a :: ·) (ih hitems hrest fun k => ?_)
      have hk := h k
      -- Without their first items the lists still agree in every class.
      by_cases ha : kind a = k
      · rw [List.filter_cons_of_pos (by simpa using ha),
          List.filter_cons_of_pos (by simpa using ha)] at hk
        exact (List.cons.inj hk).2
      · rwa [List.filter_cons_of_neg (by simpa using ha),
          List.filter_cons_of_neg (by simpa using ha)] at hk

/-! ### The walk as far as a scope is concerned -/

namespace Resolved

/-- Two states of the walk are the same as far as a scope is concerned: the
winners of its fields are, and so are its entries in the trace, in their order.
-/
structure AgreeOn (s : Scope) (a b : Resolved) : Prop where
  winners : ∀ f : Field, f.scope = s → a.winners.get f = b.winners.get f
  applied : a.applied.filter (·.scope = s) = b.applied.filter (·.scope = s)

variable {s : Scope} {a b : Resolved} {p q : Bool} {r : Rule} {f : Field}

/-- A resolution agrees with itself on any scope. -/
theorem AgreeOn.refl (a : Resolved) : AgreeOn s a a := ⟨fun _ _ => rfl, rfl⟩

/-- Agreement on a scope goes both ways. -/
theorem AgreeOn.symm (h : AgreeOn s a b) : AgreeOn s b a :=
  ⟨fun f hf => (h.winners f hf).symm, h.applied.symm⟩

/-- Agreement on a scope can be chained. -/
theorem AgreeOn.trans {c : Resolved} (h : AgreeOn s a b) (h' : AgreeOn s b c) : AgreeOn s a c :=
  ⟨fun f hf => (h.winners f hf).trans (h'.winners f hf), h.applied.trans h'.applied⟩

/-- The request for safe mode matters for safe mode only. -/
theorem offer_congr (hpq : f.scope = .global → p = q) (a : Action) : offer p a f = offer q a f := by
  by_cases hf : f = .safeMode
  · rw [hpq (congrArg Field.scope hf)]
  · rw [offer_of_ne hf, offer_of_ne hf]

/-- The entry of a rule of another scope does not show. -/
theorem filter_entry_of_ne (h : r.scope ≠ s) : (entry p a r).filter (·.scope = s) = [] := by
  rw [entry]
  split
  · rfl
  · exact List.filter_cons_of_neg (by simp [Applied.ofRule, h])

/-- A rule wins the same in two states that agree on its scope. -/
theorem won_congr (h : AgreeOn r.scope a b) (hpq : r.scope = .global → p = q) :
    won p a r = won q b r := by
  refine List.filter_congr fun f _ => ?_
  by_cases hf : f.scope = r.scope
  · rw [h.winners f hf, offer_congr (fun hg => hpq (hf.symm.trans hg))]
  · rw [offer_eq_none hf, offer_eq_none hf, Option.isSome_none, Bool.and_false, Bool.and_false]

/-- One step with the same rule on both sides. Whether safe mode is requested
may differ between the sides, unless the scope is the global one, whose offers
depend on it. -/
theorem AgreeOn.claim (h : AgreeOn s a b) (hpq : s = .global → p = q) (r : Rule) :
    AgreeOn s (claim p a r) (claim q b r) where
  winners f hf := by
    rw [get_winners_claim, get_winners_claim, h.winners f hf,
      offer_congr (fun hg => hpq (hf.symm.trans hg))]
  applied := by
    rw [applied_claim, applied_claim, List.filter_append, List.filter_append, h.applied]
    by_cases hr : r.scope = s
    · subst hr
      rw [entry, entry, won_congr h hpq]
    · rw [filter_entry_of_ne hr, filter_entry_of_ne hr]

/-- A step with a rule of another scope changes nothing here. The rule claims no
field of this scope, and its entry is one of its own. -/
theorem agreeOn_claim_of_ne (hr : r.scope ≠ s) (a : Resolved) : AgreeOn s (claim p a r) a where
  winners f hf := by
    rw [get_winners_claim, offer_eq_none (fun h => hr (h.symm.trans hf))]
    cases a.winners.get f <;> rfl
  applied := by
    rw [applied_claim, List.filter_append, filter_entry_of_ne hr, List.append_nil]

/-- A walk over rules, and one over those of a scope among them. The induction
is on the rules; those of other scopes are steps on one side only. -/
theorem AgreeOn.foldl (h : AgreeOn s a b) (hpq : s = .global → p = q) (rules : List Rule) :
    AgreeOn s (rules.foldl (Resolved.claim p) a)
      ((rules.filter (·.scope = s)).foldl (Resolved.claim q) b) := by
  induction rules generalizing a b with
  | nil => exact h
  | cons r rules ih =>
    rw [List.foldl_cons]
    by_cases hr : r.scope = s
    · rw [List.filter_cons_of_pos (by simpa using hr), List.foldl_cons]
      exact ih (h.claim hpq r)
    · rw [List.filter_cons_of_neg (by simpa using hr)]
      exact ih ((agreeOn_claim_of_ne hr a).trans h)

/-- A rule that switches safe mode on is a global one. -/
theorem scope_of_requestsSafeMode (h : requestsSafeMode r = true) : r.scope = .global := by
  have hval : r.content.action.value .safeMode = some true := by simpa [requestsSafeMode] using h
  exact Action.scope_of_value (f := .safeMode) (Option.isSome_of_eq_some hval)

/-- Only global rules request safe mode, so the others may be left out when one
asks for a request. -/
theorem any_filter_global (rules : List Rule) :
    (rules.filter (·.scope = .global)).any requestsSafeMode = rules.any requestsSafeMode := by
  rw [List.any_filter]
  congr 1
  funext r
  cases hreq : requestsSafeMode r with
  | false => rw [Bool.and_false]
  | true => rw [Bool.and_true, decide_eq_true (scope_of_requestsSafeMode hreq)]

/-- As far as a scope is concerned, only its own rules count. They are sorted
among themselves as they are among all, and the steps in between do nothing
here. -/
theorem agreeOn_ofEligible (s : Scope) (rules : List Rule) :
    AgreeOn s (ofEligible rules) (ofEligible (rules.filter (·.scope = s))) := by
  rw [ofEligible, ofEligible, sortByPrecedence_filter]
  refine (AgreeOn.refl start).foldl (fun hs => ?_) _
  rw [hs, any_filter_global]

/-- Lists with the same rules of a scope in the same order agree on that scope.
-/
theorem agreeOn_of_filter_eq {rules others : List Rule}
    (h : rules.filter (·.scope = s) = others.filter (·.scope = s)) :
    AgreeOn s (ofEligible rules) (ofEligible others) := by
  have hothers := agreeOn_ofEligible s others
  rw [← h] at hothers
  exact (agreeOn_ofEligible s rules).trans hothers.symm

/-- States that agree on a scope have the same settings there. -/
theorem AgreeOn.settings (h : AgreeOn s a b) (hf : f.scope = s) :
    a.settings.get f = b.settings.get f := by
  rw [get_settings, get_settings, h.winners f hf]

end Resolved

/-! ### Snapshots as far as a scope is concerned -/

/-- Only the eligible rules of a scope count for its settings. -/
theorem filter_scope_eligible (rules : List Rule) (c : Context) (s : Scope) :
    (eligible rules c).filter (·.scope = s) = eligible (rules.filter (·.scope = s)) c :=
  List.filter_comm ..

/-- No two scopes stand at the same position. -/
theorem Scope.rank_injective {s t : Scope} (h : s.rank = t.rank) : s = t := by
  cases s <;> cases t <;> first | rfl | exact absurd h (by decide)

namespace Snapshot

variable {s : Scope} {applied others : List Applied}

/-- The trace goes by scope, forced or not. -/
theorem pairwise_scope_trace (forced : Bool) (applied : List Applied) :
    (trace forced applied).Pairwise fun a b => a.scope.rank ≤ b.scope.rank := by
  cases forced with
  | false => exact pairwise_trace applied
  | true => exact pairwise_trace (applied.filter (·.scope = .global))

/-- What a trace shows of a scope depends on the entries of the scope. The sort
by scope does not mix them with others. -/
theorem filter_scope_trace_congr (forced : Bool)
    (h : applied.filter (·.scope = s) = others.filter (·.scope = s)) :
    (trace forced applied).filter (·.scope = s) = (trace forced others).filter (·.scope = s) := by
  cases forced with
  | false => rw [filter_scope_trace, filter_scope_trace, h]
  | true =>
    show (trace false (applied.filter (·.scope = .global))).filter _
      = (trace false (others.filter (·.scope = .global))).filter _
    rw [filter_scope_trace, filter_scope_trace, List.filter_comm, h, List.filter_comm]

/-- Entries that go by scope are the same where those of every scope are. -/
theorem eq_of_scopes (happlied : applied.Pairwise fun a b => a.scope.rank ≤ b.scope.rank)
    (hothers : others.Pairwise fun a b => a.scope.rank ≤ b.scope.rank)
    (h : ∀ s, applied.filter (·.scope = s) = others.filter (·.scope = s)) : applied = others :=
  eq_of_classes Applied.scope (fun s t => s.rank ≤ t.rank)
    (fun _ _ hst hts => Scope.rank_injective (Nat.le_antisymm hst hts)) happlied hothers h

/-- A trace depends on the entries of every scope, not on how they are mixed. -/
theorem trace_congr (forced : Bool)
    (h : ∀ s, applied.filter (·.scope = s) = others.filter (·.scope = s)) :
    trace forced applied = trace forced others :=
  eq_of_scopes (pairwise_scope_trace ..) (pairwise_scope_trace ..) fun s =>
    filter_scope_trace_congr forced (h s)

/-- Outside a scope it has no entries, and the other scopes have theirs. With
this, traces that are the same outside of a scope are compared one scope at a
time. -/
theorem filter_scope_outside (x : Scope) (applied : List Applied) (s : Scope) :
    (applied.filter (·.scope ≠ x)).filter (·.scope = s)
      = if s = x then [] else applied.filter (·.scope = s) := by
  rw [List.filter_filter]
  split
  · rename_i hs
    refine List.filter_eq_nil_iff.mpr fun a _ => ?_
    simp [hs]
  · rename_i hs
    refine List.filter_congr fun a _ => ?_
    by_cases ha : a.scope = s <;> simp [ha, hs]

/-- Two snapshots are the same outside a scope: in the settings of other scopes,
in the entries of other scopes, which stand in the same order, and in whether
safe mode was forced. -/
structure SameOutside (x : Scope) (a b : Snapshot) : Prop where
  settings : ∀ f : Field, f.scope ≠ x → a.settings.get f = b.settings.get f
  safeModeForced : a.safeModeForced = b.safeModeForced
  applied : a.applied.filter (·.scope ≠ x) = b.applied.filter (·.scope ≠ x)

end Snapshot

/-- Rules that are the same in every other scope have the same snapshot
outside a scope that is not the global one. -/
theorem sameOutside_compile {x : Scope} (hx : x ≠ .global) {rules others : List Rule}
    (h : ∀ s, s ≠ x → rules.filter (·.scope = s) = others.filter (·.scope = s))
    (compiler : Compiler) (c : Context) (time : Instant) :
    Snapshot.SameOutside x (Snapshot.compile compiler rules c time)
      (Snapshot.compile compiler others c time) := by
  have hagree : ∀ s, s ≠ x → AgreeOn s (ofEligible (eligible rules c.normalized))
      (ofEligible (eligible others c.normalized)) := by
    intro s hs
    refine agreeOn_of_filter_eq ?_
    rw [filter_scope_eligible, filter_scope_eligible, h s hs]
  have hforced : (compiledSettings rules c).get .safeMode
      = (compiledSettings others c).get .safeMode := (hagree .global hx.symm).settings rfl
  refine ⟨fun f hf => ?_, hforced, ?_⟩
  · show (if (compiledSettings rules c).get .safeMode then compiler.policy.forced
        else compiledSettings rules c).get f
      = (if (compiledSettings others c).get .safeMode then compiler.policy.forced
        else compiledSettings others c).get f
    rw [hforced]
    split
    · rfl
    · exact (hagree f.scope hf).settings rfl
  · show (Snapshot.trace ((compiledSettings rules c).get .safeMode) _).filter _
      = (Snapshot.trace ((compiledSettings others c).get .safeMode) _).filter _
    rw [hforced]
    -- Both traces go by scope, so one scope after the other will do.
    refine Snapshot.eq_of_scopes ((Snapshot.pairwise_scope_trace ..).filter _)
      ((Snapshot.pairwise_scope_trace ..).filter _) fun s => ?_
    rw [Snapshot.filter_scope_outside, Snapshot.filter_scope_outside]
    split
    · rfl
    · rename_i hs
      exact Snapshot.filter_scope_trace_congr _ (hagree s hs).applied

/-- **Scopes do not interfere.** Take two lists with the same rules in the
same order in every scope but one, which is not the global scope. However
the rules of that scope are ranked, and wherever they stand, the two
snapshots have the same settings in the other scopes and the same entries
of them, and safe mode forced both or neither. So a single rule that is
not global reaches nothing outside its scope. -/
theorem scopes_do_not_interfere (x : Scope) (hx : x ≠ .global) :
    (∀ rules others : List Rule,
      (∀ s, s ≠ x → rules.filter (·.scope = s) = others.filter (·.scope = s)) →
      ∀ (compiler : Compiler) (c : Context) (time : Instant),
        Snapshot.SameOutside x (Snapshot.compile compiler rules c time)
          (Snapshot.compile compiler others c time)) ∧
    ∀ (before behind : List Rule) (r : Rule), r.scope = x →
      ∀ (compiler : Compiler) (c : Context) (time : Instant),
        Snapshot.SameOutside x (Snapshot.compile compiler (before ++ r :: behind) c time)
          (Snapshot.compile compiler (before ++ behind) c time) := by
  refine ⟨fun rules others h => sameOutside_compile hx h, fun before behind r hr => ?_⟩
  refine sameOutside_compile hx fun s hs => ?_
  -- The rule is of the one scope, so it is in none of the lists that are compared.
  have hne : r.scope ≠ s := fun h => hs (h.symm.trans hr)
  rw [List.filter_append, List.filter_append, List.filter_cons_of_neg (by simpa using hne)]

/-- A rule that no other one outranks. -/
def lowQualityRule : Rule where
  content := ⟨⟨"low-quality"⟩, true, 4294967295, .any, .ofFn .media fun
    | .forceImageQuality => some .low
    | _ => none⟩
  revision := 2
  createdAt := ⟨0, 0⟩
  updatedAt := ⟨0, 0⟩
  createdBy := none
  updatedBy := none

/-- A rule of another scope that sets what it can. -/
def noAiRule : Rule where
  content := ⟨⟨"no-ai"⟩, true, 0, .any, .ofFn .ai fun
    | .disableAi => some true
    | _ => none⟩
  revision := 1
  createdAt := ⟨0, 0⟩
  updatedAt := ⟨0, 0⟩
  createdBy := none
  updatedBy := none

/-- With the one rule in front or without it, the other one does the same. The
first has the highest priority there is, and still decides nothing outside of
its scope. -/
theorem lowQualityRule_stays_in_media :
    Scope.media ≠ .global ∧
    (∀ s, s ≠ Scope.media →
      [lowQualityRule, noAiRule].filter (·.scope = s) = [noAiRule].filter (·.scope = s)) ∧
    ∀ (compiler : Compiler) (c : Context) (time : Instant),
      Snapshot.SameOutside .media
        (Snapshot.compile compiler [lowQualityRule, noAiRule] c time)
        (Snapshot.compile compiler [noAiRule] c time) := by
  have hx : Scope.media ≠ .global := by decide
  have hothers : ∀ s, s ≠ Scope.media →
      [lowQualityRule, noAiRule].filter (·.scope = s) = [noAiRule].filter (·.scope = s) := by
    intro s hs
    exact List.filter_cons_of_neg fun h => hs (of_decide_eq_true h).symm
  exact ⟨hx, hothers, (scopes_do_not_interfere .media hx).1 _ _ hothers⟩

end Overrides
