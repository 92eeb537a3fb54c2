import Mathlib.Data.List.Nodup
import Mathlib.Data.List.Perm.Basic
import Overrides.Store.Ledger

/-!
# `Overrides.Proofs.Store.Ledger`: one write to the ledger

What a write changes: it puts its rule in the place of the key, adds
its record in front of the trail, and counts one revision more.

* `PutsByKey`: what putting an item in the place of its key is, for rules here
  and for rows in a database.
* `perm_putRule`: what is left are the rules of the other keys.
* `write_eq`, `write_of_exhausted`: what a write does with a revision left,
  and without one.
-/

set_option autoImplicit false

namespace Overrides

/-! ### The rule of a request -/

namespace WriteRequest

variable (request : WriteRequest) (before : Option Rule) (revision : UInt64)

/-- The rule of a request has the revision that the store gives it. -/
@[simp] theorem revision_rule : (request.rule before revision).revision = revision := by
  cases before <;> rfl

/-- The rule of a request was updated at the time of the request. -/
@[simp] theorem updatedAt_rule : (request.rule before revision).updatedAt = request.time := by
  cases before <;> rfl

/-- The rule of a request was updated by its actor. -/
@[simp] theorem updatedBy_rule : (request.rule before revision).updatedBy = request.actor := by
  cases before <;> rfl

/-- The rule of a request has its content, whatever was there before. -/
@[simp] theorem content_rule : (request.rule before revision).content = request.content := by
  cases before <;> rfl

/-- The rule of a request has its key. -/
@[simp] theorem key_rule : (request.rule before revision).key = request.key :=
  congrArg Content.ruleKey (content_rule ..)

end WriteRequest

/-! ### Putting an item in the place of its key -/

/-- The function puts the new item in the place of the first one with its key, or
behind all items where no one has it. A ledger does this with rules, a database
with rows. -/
structure PutsByKey {α κ : Type} [DecidableEq κ] (key : α → κ) (new : α)
    (put : List α → List α) : Prop where
  nil : put [] = [new]
  cons : ∀ a rest, put (a :: rest) = if key a = key new then new :: rest else a :: put rest

namespace PutsByKey

variable {α κ : Type} [DecidableEq κ] {key : α → κ} {new : α} {put : List α → List α}

/-- Every item afterwards is the new one or was there. So what holds of all
items and of the new one holds after. -/
theorem mem (h : PutsByKey key new put) {items : List α} {a : α} (ha : a ∈ put items) :
    a = new ∨ a ∈ items := by
  induction items with
  | nil =>
    rw [h.nil] at ha
    exact .inl (List.mem_singleton.mp ha)
  | cons first rest ih =>
    rw [h.cons] at ha
    split at ha
    · exact (List.mem_cons.mp ha).imp_right (List.mem_cons_of_mem _)
    · obtain rfl | hrest := List.mem_cons.mp ha
      · exact .inr (List.mem_cons_self ..)
      · exact (ih hrest).imp_right (List.mem_cons_of_mem _)

/-- The new item is there. -/
theorem self_mem (h : PutsByKey key new put) (items : List α) : new ∈ put items := by
  induction items with
  | nil =>
    rw [h.nil]
    exact List.mem_singleton_self _
  | cons first rest ih =>
    rw [h.cons]
    split
    · exact List.mem_cons_self ..
    · exact List.mem_cons_of_mem _ ih

/-- What was put in the place of its key is found under it, and under the
other keys is found what was. -/
theorem find? (h : PutsByKey key new put) (items : List α) (k : κ) :
    (put items).find? (fun a => key a = k)
      = if key new = k then some new else items.find? (fun a => key a = k) := by
  induction items with
  | nil =>
    rw [h.nil, List.find?_singleton]
    simp only [decide_eq_true_eq, List.find?_nil]
  | cons first rest ih =>
    rw [h.cons]
    by_cases hfirst : key first = key new
    -- The first item is replaced, and both items have the same key.
    · rw [if_pos hfirst, List.find?_cons, List.find?_cons, hfirst]
      by_cases hkey : key new = k
      · rw [if_pos hkey, decide_eq_true hkey]
      · rw [if_neg hkey, decide_eq_false hkey]
    · rw [if_neg hfirst, List.find?_cons, List.find?_cons, ih]
      by_cases hkey : key first = k
      · -- An item of another key is found, so it is not the one that was put.
        have hne : ¬ key new = k := fun hnew => hfirst (hkey.trans hnew.symm)
        rw [decide_eq_true hkey, if_neg hne, if_neg hne]
      · rw [decide_eq_false hkey]

end PutsByKey

/-! ### Putting a rule in its place -/

namespace Ledger

/-- A ledger puts a rule in the place of its key. -/
theorem putsByKey_putRule (r : Rule) : PutsByKey Rule.key r (putRule r) :=
  ⟨rfl, fun _ _ => rfl⟩

/-- Where keys are distinct, putting a rule leaves the rules of the other keys
beside it. The order is lost in this form, which is enough wherever the rules
are sorted anyway. -/
theorem perm_putRule (r : Rule) {rules : List Rule} (h : (rules.map Rule.key).Nodup) :
    (putRule r rules).Perm (r :: rules.filter (·.key ≠ r.key)) := by
  induction rules with
  | nil => exact .refl _
  | cons first rest ih =>
    rw [List.map_cons, List.nodup_cons] at h
    obtain ⟨hnew, hrest⟩ := h
    rw [putRule]
    by_cases hfirst : first.key = r.key
    -- The key occurs once, so no other rule is lost.
    · have hothers : rest.filter (·.key ≠ r.key) = rest := by
        rw [List.filter_eq_self]
        intro s hs
        rw [decide_eq_true_eq, ← hfirst]
        exact fun heq => hnew (heq ▸ List.mem_map_of_mem hs)
      rw [if_pos hfirst, List.filter_cons_of_neg (by simpa using hfirst), hothers]
    · rw [if_neg hfirst, List.filter_cons_of_pos (by simpa using hfirst)]
      exact ((ih hrest).cons first).trans (.swap ..)

/-- Keys stay distinct. -/
theorem nodup_keys_putRule {r : Rule} {rules : List Rule} (h : (rules.map Rule.key).Nodup) :
    ((putRule r rules).map Rule.key).Nodup := by
  rw [((perm_putRule r h).map Rule.key).nodup_iff, List.map_cons, List.nodup_cons]
  refine ⟨fun hmem => ?_, h.sublist (List.filter_sublist.map _)⟩
  obtain ⟨s, hs, hkey⟩ := List.mem_map.mp hmem
  exact of_decide_eq_true (List.mem_filter.mp hs).2 hkey

/-- Where keys are distinct, what is found under a key is what has the key.
Without that the first of several would be found. -/
theorem find?_key_eq_some_iff {α κ : Type} [DecidableEq κ] {key : α → κ} {items : List α}
    (h : (items.map key).Nodup) {k : κ} {a : α} :
    items.find? (fun b => key b = k) = some a ↔ a ∈ items ∧ key a = k := by
  constructor
  · intro hfind
    exact ⟨List.mem_of_find?_eq_some hfind, by simpa using List.find?_some hfind⟩
  · rintro ⟨ha, hkey⟩
    cases hfind : items.find? (fun b => key b = k) with
    | none => exact absurd (decide_eq_true hkey) (List.find?_eq_none.mp hfind a ha)
    | some b =>
      have hb : key b = k := by simpa using List.find?_some hfind
      rw [List.inj_on_of_nodup_map h (List.mem_of_find?_eq_some hfind) ha (hb.trans hkey.symm)]

/-- Where keys are distinct, a rule is there when it is found under its key. -/
theorem mem_iff_find?_key {rules : List Rule} (h : (rules.map Rule.key).Nodup) {r : Rule} :
    r ∈ rules ↔ rules.find? (·.key = r.key) = some r := by
  rw [find?_key_eq_some_iff h, and_iff_left rfl]

/-! ### The next ledger -/

/-- A revision with a successor is counted up. -/
theorem toNat_succ {n : UInt64} (h : n.toNat + 1 < UInt64.size) : (n + 1).toNat = n.toNat + 1 := by
  have hone : (1 : UInt64).toNat = 1 := rfl
  rw [UInt64.size] at h
  rw [UInt64.toNat_add]
  omega

/-- The rule that a write brings about. -/
def nextRule (l : Ledger) (request : WriteRequest) : Rule :=
  request.rule (l.get? request.key) (l.lastRevision + 1)

/-- The record that a write leaves. -/
def nextRecord (l : Ledger) (request : WriteRequest) : AuditRecord :=
  .ofWrite (UInt64.ofNat (l.records.length + 1)) (l.get? request.key) (l.nextRule request)

/-- The ledger after a write. -/
def next (l : Ledger) (request : WriteRequest) : Ledger :=
  ⟨putRule (l.nextRule request) l.rules, l.nextRecord request :: l.records, l.lastRevision + 1⟩

/-- The rule that a ledger writes next has the key of the request. -/
@[simp] theorem key_nextRule (l : Ledger) (request : WriteRequest) :
    (l.nextRule request).key = request.key := WriteRequest.key_rule ..

/-- While a revision is left, every write succeeds: a ledger has no other reason
to stop, and it does not look at the content. -/
theorem write_eq {l : Ledger} (h : l.lastRevision.toNat + 1 < UInt64.size)
    (request : WriteRequest) :
    l.write request = (.ok ⟨l.nextRule request, .ofBefore (l.get? request.key)⟩,
      l.next request) := by
  rw [write, if_pos h]
  rfl

/-- Without a revision every write fails and changes nothing, since the revision
is asked for first. -/
theorem write_of_exhausted {l : Ledger} (h : ¬ l.lastRevision.toNat + 1 < UInt64.size)
    (request : WriteRequest) : l.write request = (.error .revisionsExhausted, l) := if_neg h

end Ledger

end Overrides
