import Mathlib.Data.List.Forall2

/-!
# `Overrides.Proofs.Outcome`: computations that succeed

What is known of the parts of a computation from its success, and what
a fold of steps that may fail keeps. `Yields` says what a computation
with a state gives, whatever the state, when it succeeds.
-/

set_option autoImplicit false

namespace Overrides

variable {ε ε' α β σ : Type}

/-- What follows a success goes on with its value. As a `simp` lemma it runs a computation
up to the first part that is not known. -/
@[simp] theorem ok_bind (a : α) (f : α → Except ε β) : (Except.ok a >>= f) = f a := rfl

/-- A function of the value leaves a success one. -/
@[simp] theorem map_ok (a : α) (f : α → β) : (f <$> (Except.ok a : Except ε α)) = .ok (f a) := rfl

/-- A sequence succeeds when both parts do. Most inversions of a reader or of a check
start with it: from left to right it hands out the value of the first part. -/
theorem bind_eq_ok_iff {x : Except ε α} {f : α → Except ε β} {b : β} :
    x >>= f = .ok b ↔ ∃ a, x = .ok a ∧ f a = .ok b := by
  cases x with
  | error e =>
    constructor
    · intro h
      exact nomatch h
    · rintro ⟨a, h, -⟩
      exact nomatch h
  | ok a =>
    constructor
    · exact fun h => ⟨a, rfl, h⟩
    · rintro ⟨_, h, hf⟩
      rw [Except.ok.inj h]
      exact hf

/-- A fault is no success. -/
theorem not_exists_ok {e : ε} : ¬ ∃ a : α, (Except.error e : Except ε α) = .ok a := by
  rintro ⟨_, ⟨⟩⟩

/-- Rewording a fault does not make a computation succeed, and does not change what it
gives if it does. -/
theorem mapError_eq_ok_iff {x : Except ε α} {f : ε → ε'} {a : α} :
    x.mapError f = .ok a ↔ x = .ok a := by
  cases x with
  | error e =>
    constructor
    all_goals
      intro h
      exact nomatch h
  | ok b =>
    constructor
    · intro h
      rw [Except.ok.inj h]
    · intro h
      rw [Except.ok.inj h]
      rfl

/-- What comes after a reason to fail succeeds where the reason is not given. -/
theorem ite_error_eq_ok_iff {c : Prop} [Decidable c] {e : ε} {x : Except ε α} {a : α} :
    (if c then .error e else x) = .ok a ↔ ¬ c ∧ x = .ok a := by
  split
  · rename_i hc
    exact iff_of_false (fun h => nomatch h) fun h => h.1 hc
  · rename_i hc
    exact (and_iff_right hc).symm

/-- A check lets pass what it has no reason to refuse. -/
theorem refuse_eq_ok_iff {c : Prop} [Decidable c] {e : ε} {next : Unit → Except ε α} {a : α} :
    (if c then (.error e : Except ε Unit) >>= next else next ()) = .ok a ↔
      ¬ c ∧ next () = .ok a := ite_error_eq_ok_iff

/-- All items pass a check when each of them does. A loop that only checks gives
no value, so this is all there is to it. -/
theorem forM_eq_ok_iff {f : α → Except ε Unit} {items : List α} :
    items.forM f = .ok () ↔ ∀ a ∈ items, f a = .ok () := by
  induction items with
  | nil => exact iff_of_true rfl fun _ h => nomatch h
  | cons a items ih =>
    show (f a >>= fun _ => items.forM f) = .ok () ↔ _
    rw [bind_eq_ok_iff, List.forall_mem_cons, ← ih]
    exact ⟨fun ⟨_, ha, hrest⟩ => ⟨ha, hrest⟩, fun ⟨ha, hrest⟩ => ⟨_, ha, hrest⟩⟩

/-- What every step of a fold keeps holds at its end. The steps may fail, and then nothing
is said; the items are known to be those of the list. -/
theorem foldlM_invariant {p : σ → Prop} {step : σ → α → Except ε σ} {items : List α}
    (hstep : ∀ s a s', a ∈ items → p s → step s a = .ok s' → p s') {s s' : σ} (hs : p s)
    (h : items.foldlM step s = .ok s') : p s' := by
  induction items generalizing s with
  | nil =>
    rw [← Except.ok.inj h]
    exact hs
  | cons a items ih =>
    rw [List.foldlM_cons] at h
    obtain ⟨t, ht, hrest⟩ := bind_eq_ok_iff.mp h
    exact ih (fun s b s' hb => hstep s b s' (List.mem_cons_of_mem _ hb))
      (hstep s a t (List.mem_cons_self ..) hs ht) hrest

/-- Steps that leave a value as it is leave it so one after the other. -/
theorem foldlM_eq_self {step : σ → α → Except ε σ} {items : List α} {s : σ}
    (h : ∀ a ∈ items, step s a = .ok s) : items.foldlM step s = .ok s := by
  induction items with
  | nil => rfl
  | cons a items ih =>
    rw [List.foldlM_cons, h a (List.mem_cons_self ..), ok_bind]
    exact ih fun b hb => h b (List.mem_cons_of_mem _ hb)

/-- Where it depends on the item alone whether a step succeeds, a fold succeeds
when the steps of all items do. -/
theorem exists_foldlM_eq_ok_iff {p : α → Prop} {step : σ → α → Except ε σ}
    (hstep : ∀ s a, (∃ s', step s a = .ok s') ↔ p a) {items : List α} {s : σ} :
    (∃ s', items.foldlM step s = .ok s') ↔ ∀ a ∈ items, p a := by
  -- The state is general: the first step may have changed it.
  induction items generalizing s with
  | nil => exact iff_of_true ⟨s, rfl⟩ fun _ h => nomatch h
  | cons a items ih =>
    rw [List.forall_mem_cons, ← hstep s a]
    simp only [List.foldlM_cons, bind_eq_ok_iff]
    constructor
    · rintro ⟨s', t, ht, hrest⟩
      exact ⟨⟨t, ht⟩, ih.mp ⟨s', hrest⟩⟩
    · rintro ⟨⟨t, ht⟩, hrest⟩
      obtain ⟨s', hs'⟩ := ih.mpr hrest
      exact ⟨s', t, ht, hs'⟩

/-- Rewording the fault of every step rewords the fault of the fold. The state
of the fold is the same in both, since only faults are touched. -/
theorem foldlM_mapError {step : σ → α → Except ε σ} {g : ε → ε'} (items : List α) (s : σ) :
    items.foldlM (fun s a => (step s a).mapError g) s = (items.foldlM step s).mapError g := by
  induction items generalizing s with
  | nil => rfl
  | cons a items ih =>
    rw [List.foldlM_cons, List.foldlM_cons]
    cases step s a with
    | error e => rfl
    | ok s' => exact ih s'

/-- A list whose items are all computed is computed. -/
theorem mapM_eq_ok {f : α → Except ε β} {g : α → β} {items : List α}
    (h : ∀ a ∈ items, f a = .ok (g a)) : items.mapM f = .ok (items.map g) := by
  induction items with
  | nil => rfl
  | cons a items ih =>
    rw [List.mapM_cons, h a (List.mem_cons_self ..),
      ih fun b hb => h b (List.mem_cons_of_mem _ hb)]
    rfl

/-- A list is computed item by item: there is a result for each item, in the order of the
items. -/
theorem mapM_eq_ok_iff {f : α → Except ε β} {items : List α} {results : List β} :
    items.mapM f = .ok results ↔ List.Forall₂ (fun a b => f a = .ok b) items results := by
  induction items generalizing results with
  | nil =>
    show Except.ok [] = Except.ok results ↔ _
    rw [List.forall₂_nil_left_iff, Except.ok.injEq, eq_comm]
  | cons a items ih =>
    rw [List.mapM_cons, bind_eq_ok_iff, List.forall₂_cons_left_iff]
    constructor
    · rintro ⟨b, hb, hrest⟩
      obtain ⟨bs, hbs, hresults⟩ := bind_eq_ok_iff.mp hrest
      exact ⟨b, bs, hb, ih.mp hbs, (Except.ok.inj hresults).symm⟩
    · rintro ⟨b, bs, hb, hbs, rfl⟩
      refine ⟨b, hb, ?_⟩
      rw [ih.mpr hbs]
      rfl

/-- A list is computed when every item is; no item is passed over. Which values
come out is not said here, only that there are some. -/
theorem exists_mapM_eq_ok_iff {f : α → Except ε β} {items : List α} :
    (∃ results, items.mapM f = .ok results) ↔ ∀ a ∈ items, ∃ b, f a = .ok b := by
  constructor
  · rintro ⟨results, h⟩ a ha
    obtain ⟨i, hi, rfl⟩ := List.getElem_of_mem ha
    have hitems := mapM_eq_ok_iff.mp h
    exact ⟨_, hitems.get hi (hitems.length_eq ▸ hi)⟩
  -- From the other side the results are collected one by one.
  · intro h
    induction items with
    | nil => exact ⟨[], rfl⟩
    | cons a items ih =>
      obtain ⟨b, hb⟩ := h a (List.mem_cons_self ..)
      obtain ⟨bs, hbs⟩ := ih fun a' ha' => h a' (List.mem_cons_of_mem _ ha')
      refine ⟨b :: bs, ?_⟩
      rw [List.mapM_cons, hb, hbs]
      rfl

/-- A list that is not computed has an item that is not, for the same reason. So
a fault of a listing can be traced to one of the rows. -/
theorem exists_of_mapM_eq_error {f : α → Except ε β} {items : List α} {e : ε}
    (h : items.mapM f = .error e) : ∃ a ∈ items, f a = .error e := by
  induction items with
  | nil => exact nomatch h
  | cons a items ih =>
    rw [List.mapM_cons] at h
    -- The first item fails, or one of those behind it.
    cases ha : f a with
    | error e' =>
      rw [ha] at h
      obtain rfl := Except.error.inj h
      exact ⟨a, List.mem_cons_self .., ha⟩
    | ok b =>
      rw [ha, ok_bind] at h
      cases hrest : items.mapM f with
      | error e' =>
        rw [hrest] at h
        obtain rfl := Except.error.inj h
        obtain ⟨a', ha', hfails⟩ := ih hrest
        exact ⟨a', List.mem_cons_of_mem _ ha', hfails⟩
      | ok bs =>
        rw [hrest] at h
        exact nomatch h

/-! ### Faults -/

/-- The fault of the computation, if there is one, has the property. It says nothing of a
computation that succeeds, so it is the counterpart of `Yields` below. -/
def FailsWith (p : ε → Prop) (x : Except ε α) : Prop := ∀ e, x = .error e → p e

namespace FailsWith

variable {p : ε → Prop}

/-- A success has no fault. -/
theorem ok (a : α) : FailsWith p (.ok a : Except ε α) := fun _ h => nomatch h

/-- A computation that stops with a fault fails with what is known of that fault. -/
theorem error {e : ε} (h : p e) : FailsWith p (.error e : Except ε α) := by
  intro e' he
  rw [← Except.error.inj he]
  exact h

/-- The fault of a sequence is that of the part where it stops. Of the second part it has
to be known for every value that the first may give. -/
theorem bind {x : Except ε α} {f : α → Except ε β} (hx : FailsWith p x)
    (hf : ∀ a, FailsWith p (f a)) : FailsWith p (x >>= f) := by
  cases x with
  | error e => exact .error (hx e rfl)
  | ok a => exact hf a

/-- A function of the value does not touch the fault. -/
theorem map {x : Except ε α} (hx : FailsWith p x) (f : α → β) : FailsWith p (f <$> x) := by
  cases x with
  | error e => exact .error (hx e rfl)
  | ok a => exact .ok (f a)

/-- What is known of the fault may be weakened. -/
theorem imp {q : ε → Prop} {x : Except ε α} (hx : FailsWith p x) (h : ∀ e, p e → q e) :
    FailsWith q x := fun e he => h e (hx e he)

/-- A fault that was reworded is one of the rewording, whatever it was before. -/
theorem mapError {q : ε' → Prop} {g : ε → ε'} (h : ∀ e, q (g e)) (x : Except ε α) :
    FailsWith q (x.mapError g) := by
  cases x with
  | error e => exact .error (h e)
  | ok a => exact .ok a

end FailsWith

/-! ### Computations with a state -/

/-- Whatever the computation gives has the property, whatever the state is that it starts
from. The state itself is not spoken of. -/
def Yields (p : StateT σ (Except ε) α) (q : α → Prop) : Prop :=
  ∀ s a s', p s = .ok (a, s') → q a

namespace Yields

variable {p : StateT σ (Except ε) α} {q : α → Prop} {r : β → Prop}

/-- Nothing is said of what a computation gives. -/
theorem any (p : StateT σ (Except ε) α) : Yields p fun _ => True := fun _ _ _ _ => trivial

/-- A value that has the property may be given back. -/
theorem pure {a : α} (h : q a) : Yields (Pure.pure a : StateT σ (Except ε) α) q := by
  intro s b s' hb
  obtain ⟨rfl, -⟩ := Prod.mk.inj (Except.ok.inj hb)
  exact h

/-- A computation that stops gives nothing. -/
theorem throw (e : ε) : Yields (MonadExcept.throw e : StateT σ (Except ε) α) q :=
  fun _ _ _ h => nomatch h

/-- What the first part gives is known to the second one. -/
theorem bind {f : α → StateT σ (Except ε) β} (hp : Yields p q) (hf : ∀ a, q a → Yields (f a) r) :
    Yields (p >>= f) r := by
  intro s b s' hb
  obtain ⟨⟨a, t⟩, ha, hb⟩ := bind_eq_ok_iff.mp hb
  exact hf a (hp s a t ha) t b s' hb

/-- What is given by the computation as a whole, without the state at its end.
Texts are read as a whole, so this is the form in which the property of a parser
comes to its users. -/
theorem of_run' {s : σ} {a : α} (hp : Yields p q) (h : p.run' s = .ok a) : q a := by
  have hmap : Prod.fst <$> p s = .ok a := h
  cases hrun : p s with
  | error e =>
    rw [hrun] at hmap
    exact nomatch hmap
  | ok b =>
    rw [hrun, map_ok] at hmap
    rw [← Except.ok.inj hmap]
    exact hp s b.1 b.2 hrun

/-- What comes after a check knows that the check was passed. -/
theorem check {c : Prop} [Decidable c] {e : ε} {next : Unit → StateT σ (Except ε) α}
    (h : c → Yields (next ()) q) :
    Yields (if c then next () else (MonadExcept.throw e : StateT σ (Except ε) Unit) >>= next) q := by
  split
  · rename_i hc
    exact h hc
  -- Past a check that fails there is nothing to show.
  · exact (throw e : Yields _ fun _ => False).bind fun _ hfalse => hfalse.elim

/-- What comes after a refusal knows that there was no reason for it. -/
theorem refuse {c : Prop} [Decidable c] {e : ε} {next : Unit → StateT σ (Except ε) α}
    (h : ¬ c → Yields (next ()) q) :
    Yields (if c then (MonadExcept.throw e : StateT σ (Except ε) Unit) >>= next else next ()) q := by
  split
  · exact (throw e : Yields _ fun _ => False).bind fun _ hfalse => hfalse.elim
  · rename_i hc
    exact h hc

end Yields

end Overrides
