import Overrides.Proofs.Store.Tables
import Overrides.Store.Backend

/-!
# `Overrides.Proofs.Store.Holding`: the rules that a store holds

`Backend.Holds s rules` says that a store of either kind holds these
rules: in memory as they are, on disk in rows of which every one can be
read. What is said about such a store needs no look at its kind.

* `Backend.Holds.list`: what it lists.
* `Backend.Holds.write`: a write fails and changes nothing, or puts its
  rule in the place of the key.
* `Backend.Holds.of_write`: what the store holds after one that succeeds.
* `Backend.Holds.run`: a run of writes leaves a store that holds rules.
-/

set_option autoImplicit false

namespace Overrides

/-- A request as callers make it: the content passed validation. -/
def WriteRequest.Proper (request : WriteRequest) : Prop :=
  ∃ draft : Draft, draft.validate = .ok request.content

/-- A proper request brings about a rule with valid content. -/
theorem WriteRequest.Proper.valid_rule {request : WriteRequest} (h : request.Proper)
    (before : Option Rule) (revision : UInt64) :
    (request.rule before revision).content.Valid := by
  obtain ⟨draft, hdraft⟩ := h
  rw [WriteRequest.content_rule]
  exact Content.valid_of_validate hdraft

namespace Backend

/-- The store holds these rules, one for each key. On disk this means that there
is a row for each of them, written from the rule, so that nothing has been
altered. -/
inductive Holds : Backend → List Rule → Prop where
  | memory {l : Ledger} : (l.rules.map Rule.key).Nodup → Holds (.memory l) l.rules
  | disk {d : Database} {rules : List Rule} : d.rules = rules.map Rule.row →
      (∀ r ∈ rules, r.Storable) → (rules.map Rule.key).Nodup → Holds (.disk d) rules

/-- A store that nothing was written to. -/
inductive Fresh : Backend → Prop where
  | memory : Fresh (.memory .empty)
  | disk : Fresh (.disk .empty)

/-- A new store holds no rules. -/
theorem Fresh.holds {s : Backend} (h : s.Fresh) : s.Holds [] := by
  cases h with
  | memory => exact .memory List.nodup_nil
  | disk => exact .disk rfl (fun _ h => nomatch h) List.nodup_nil

variable {s : Backend} {rules : List Rule}

/-- The rules that a store holds have different keys. -/
theorem Holds.distinct (h : s.Holds rules) : (rules.map Rule.key).Nodup := by
  cases h with
  | memory hdistinct => exact hdistinct
  | disk _ _ hdistinct => exact hdistinct

/-- The store lists the rules that it holds. -/
theorem Holds.list (h : s.Holds rules) (q : Query) :
    RuleStore.list s q = .ok (Rule.sortByPrecedence (rules.filter q.accepts)) := by
  cases h with
  | memory => rfl
  | disk hrows hstorable _ => exact Database.list_of_rows hrows hstorable q

/-- The store finds the rule of a key among those that it holds. -/
theorem Holds.get?_eq (h : s.Holds rules) (key : RuleKey) :
    RuleStore.get? s key = .ok (rules.find? (·.key = key)) := by
  cases h with
  | memory => rfl
  | disk hrows hstorable _ => exact Database.get?_of_rows hrows hstorable key

/-- A write fails and changes nothing, or it puts a rule with the content of
the request in the place of its key. -/
theorem Holds.write (h : s.Holds rules) {request : WriteRequest} (hrequest : request.Proper) :
    (∃ e, RuleStore.write s request = (.error e, s)) ∨
    ∃ w next, RuleStore.write s request = (.ok w, next) ∧ w.rule.content = request.content ∧
      next.Holds (Ledger.putRule w.rule rules) := by
  cases h with
  | @memory l hdistinct =>
    show (∃ e, ((l.write request).1, Backend.memory (l.write request).2) = _) ∨
      ∃ w next, ((l.write request).1, Backend.memory (l.write request).2) = _ ∧ _
    by_cases hroom : l.lastRevision.toNat + 1 < UInt64.size
    · rw [Ledger.write_eq hroom]
      exact .inr ⟨_, _, rfl, WriteRequest.content_rule ..,
        .memory (Ledger.nodup_keys_putRule hdistinct)⟩
    · rw [Ledger.write_of_exhausted hroom]
      exact .inl ⟨_, rfl⟩
  | @disk d _ hrows hstorable hdistinct =>
    show (∃ e, ((settle d (d.transaction request)).1,
        Backend.disk (settle d (d.transaction request)).2) = _) ∨
      ∃ w next, ((settle d (d.transaction request)).1,
        Backend.disk (settle d (d.transaction request)).2) = _ ∧ _
    cases htransaction : d.transaction request with
    | error e => exact .inl ⟨e, rfl⟩
    | ok p =>
      obtain ⟨before, revision, text, old, id, -, -, htext, -, -, -, hw, hd⟩ :=
        Database.transaction_eq_ok_iff.mp htransaction
      have hnew := Rule.storable_of_encodeRule (hrequest.valid_rule before revision) htext
      refine .inr ⟨p.1, .disk p.2, rfl, ?_, ?_⟩
      · rw [hw]
        exact WriteRequest.content_rule ..
      · -- The row stands where the rule would stand in memory.
        rw [hd, hw]
        refine .disk ?_ (fun r hr => ?_) (Ledger.nodup_keys_putRule hdistinct)
        · show Database.putRow (.ofRule (request.rule before revision) text) d.rules = _
          rw [Rule.ofRule_of_encodeRule htext, hrows, Database.putRow_map]
        · obtain rfl | hr := (Ledger.putsByKey_putRule _).mem hr
          · exact hnew
          · exact hstorable r hr

/-- A write that succeeds has put that rule there. The rules of the other keys
are those that were held before. -/
theorem Holds.of_write (h : s.Holds rules) {request : WriteRequest} (hrequest : request.Proper)
    {w : Written} {next : Backend} (hwrites : RuleStore.write s request = (.ok w, next)) :
    w.rule.content = request.content ∧ next.Holds (Ledger.putRule w.rule rules) := by
  obtain ⟨e, hfails⟩ | ⟨w', next', hwrites', hcontent, hnext⟩ := h.write hrequest
  · rw [hfails] at hwrites
    cases (Prod.mk.inj hwrites).1
  · rw [hwrites] at hwrites'
    obtain ⟨hw, rfl⟩ := Prod.mk.inj hwrites'
    obtain rfl := Except.ok.inj hw
    exact ⟨hcontent, hnext⟩

/-- The store after requests one after the other, those that fail too. -/
def after (s : Backend) (requests : List WriteRequest) : Backend :=
  requests.foldl (fun s request => (RuleStore.write s request).2) s

/-- A run of writes leaves a store that holds rules. Each request is valid, so
each rule that is put can be stored and read again. -/
theorem Holds.run (h : s.Holds rules) {requests : List WriteRequest}
    (hrequests : ∀ request ∈ requests, request.Proper) :
    ∃ rules', (s.after requests).Holds rules' := by
  induction requests generalizing s rules with
  | nil => exact ⟨rules, h⟩
  | cons request rest ih =>
    have hrest : ∀ request ∈ rest, request.Proper := fun r hr =>
      hrequests r (List.mem_cons_of_mem _ hr)
    rw [after, List.foldl_cons, ← after]
    obtain ⟨e, hfails⟩ | ⟨w, next, hwrites, -, hnext⟩ :=
      h.write (hrequests request (List.mem_cons_self ..))
    -- A write that fails leaves the store to the next one as it was.
    · rw [hfails]
      exact ih h hrest
    · rw [hwrites]
      exact ih hnext hrest

end Backend

end Overrides
