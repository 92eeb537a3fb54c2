import Mathlib.Data.List.Basic
import Overrides.Proofs.Precedence.Order
import Overrides.Proofs.Store.Ledger

/-!
# `Overrides.Proofs.Store.Trail`: the trail accounts for the rules

A ledger keeps its rules beside the trail of changes. After any run of
requests the two say the same: the trail has one record for each
request that succeeded, and the rules are what the records left.

`Ledger.Reached done l` says that `l` is reached from the empty ledger
when the requests `done` succeed one after the other. The invariant of
such ledgers is `Ledger.Accounts`; `Ledger.Accounts.next` is its step.
What a record says of its request and of the records before it is
`AuditRecord.Follows`, which looks at no later record and so stays true
while the trail grows.
-/

set_option autoImplicit false

namespace Overrides

/-! ### Runs -/

namespace Ledger

/-- The ledger after requests one after the other, those that fail too. -/
def after (l : Ledger) (requests : List WriteRequest) : Ledger :=
  requests.foldl (fun l request => (l.write request).2) l

/-- The requests of a run that succeed, in their order. A request that fails
leaves no record, so the trail knows nothing of it. -/
def accepted (l : Ledger) : List WriteRequest → List WriteRequest
  | [] => []
  | request :: rest =>
    if (l.write request).1.isOk then request :: accepted (l.write request).2 rest
    else accepted (l.write request).2 rest

/-- The ledger is reached from the empty one when these requests succeed in
this order. -/
inductive Reached : List WriteRequest → Ledger → Prop where
  | empty : Reached [] .empty
  | next {done : List WriteRequest} {l : Ledger} (request : WriteRequest) :
      Reached done l → l.lastRevision.toNat + 1 < UInt64.size →
      Reached (done ++ [request]) (l.next request)

/-- A run goes on from a reached ledger to a reached ledger. The requests that
were accepted are put behind those from before. -/
theorem Reached.after {done : List WriteRequest} {l : Ledger} (h : Reached done l)
    (requests : List WriteRequest) :
    Reached (done ++ l.accepted requests) (l.after requests) := by
  induction requests generalizing done l with
  | nil =>
    rw [accepted, List.append_nil]
    exact h
  | cons request rest ih =>
    rw [accepted, Ledger.after, List.foldl_cons, ← Ledger.after]
    by_cases hroom : l.lastRevision.toNat + 1 < UInt64.size
    · have hnext := ih (h.next request hroom)
      rw [List.append_assoc] at hnext
      rw [write_eq hroom]
      exact hnext
    · -- Without a revision the request fails and the ledger stays.
      rw [write_of_exhausted hroom]
      exact ih h

end Ledger

/-! ### What one record says -/

/-- The record is the one that the request leaves after the earlier ones, given
oldest first. All its fields are determined: by the request, by the number of
earlier records, or by the latest and the first of them with the same key. -/
structure AuditRecord.Follows (a : AuditRecord) (request : WriteRequest)
    (earlier : List AuditRecord) : Prop where
  /-- Records are numbered from one. -/
  id : a.id.toNat = earlier.length + 1
  revision : a.after.revision.toNat = earlier.length + 1
  key : a.ruleKey = request.key
  content : a.after.content = request.content
  actor : a.actor = request.actor ∧ a.after.updatedBy = request.actor
  time : a.time = request.time ∧ a.after.updatedAt = request.time
  /-- The rule before is the rule after the latest earlier record of the key. -/
  before : a.before = (earlier.reverse.find? (·.ruleKey = a.ruleKey)).map (·.after)
  action : a.action = .create ↔ ∀ b ∈ earlier, b.ruleKey ≠ a.ruleKey
  /-- What is known of the creation is what the first record of the key says. -/
  creation : ∃ first, (earlier ++ [a]).find? (·.ruleKey = a.ruleKey) = some first ∧
    a.after.createdAt = first.time ∧ a.after.createdBy = first.actor

/-- The trail of a ledger, oldest record first. -/
def Ledger.history (l : Ledger) : List AuditRecord := l.records.reverse

/-- The trail has a record for each of the requests, and the rules are what the
records left. This is the invariant that a write keeps; the rules could be
thrown away and found again from it. -/
structure Ledger.Accounts (l : Ledger) (done : List WriteRequest) : Prop where
  count : l.lastRevision.toNat = l.records.length
  length : l.history.length = done.length
  follows : ∀ (i : Nat) (a : AuditRecord), l.history[i]? = some a →
    ∃ request, done[i]? = some request ∧ a.Follows request (l.history.take i)
  current : ∀ key, l.get? key = (l.records.find? (·.ruleKey = key)).map (·.after)
  distinct : (l.rules.map Rule.key).Nodup

namespace Ledger

/-- The empty ledger accounts for no requests. -/
theorem accounts_empty : Ledger.empty.Accounts [] where
  count := rfl
  length := rfl
  follows := fun _ _ h => nomatch h
  current := fun _ => rfl
  distinct := List.nodup_nil

/-! ### The next record -/

variable {l : Ledger} {done : List WriteRequest}

/-- A write puts its record at the end of the history. -/
theorem history_next (l : Ledger) (request : WriteRequest) :
    (l.next request).history = l.history ++ [l.nextRecord request] :=
  List.reverse_cons

/-- The latest record of a key is the first one that the newest-first trail
has for it. -/
theorem Accounts.get?_eq_history (h : l.Accounts done) (key : RuleKey) :
    l.get? key = (l.history.reverse.find? (·.ruleKey = key)).map (·.after) := by
  rw [history, List.reverse_reverse]
  exact h.current key

/-- There is no rule of a key exactly when the trail has no record of it. -/
theorem Accounts.get?_eq_none_iff (h : l.Accounts done) (key : RuleKey) :
    l.get? key = none ↔ ∀ b ∈ l.history, b.ruleKey ≠ key := by
  rw [h.get?_eq_history, Option.map_eq_none_iff, List.find?_eq_none]
  simp only [List.mem_reverse, decide_eq_true_eq, ne_eq]

/-- The current rule of a key has the creation that the first record of the
key tells of. -/
theorem Accounts.creation_of_get? (h : l.Accounts done) {key : RuleKey} {old : Rule}
    (hold : l.get? key = some old) :
    ∃ first, l.history.find? (·.ruleKey = key) = some first ∧
      old.createdAt = first.time ∧ old.createdBy = first.actor := by
  rw [h.get?_eq_history] at hold
  obtain ⟨b, hb, rfl⟩ := Option.map_eq_some_iff.mp hold
  have hkey : b.ruleKey = key := by simpa using List.find?_some hb
  obtain ⟨i, hi⟩ := List.getElem?_of_mem (List.mem_reverse.mp (List.mem_of_find?_eq_some hb))
  obtain ⟨_, -, hfollows⟩ := h.follows i b hi
  obtain ⟨first, hfirst, htime, hactor⟩ := hfollows.creation
  refine ⟨first, ?_, htime, hactor⟩
  -- The records up to `b` come first in the trail, so the first one among them
  -- is the first one of all.
  have hsplit : l.history = (l.history.take i ++ [b]) ++ l.history.drop (i + 1) := by
    have htake : l.history.take (i + 1) = l.history.take i ++ [b] := by
      rw [List.take_add_one, hi]
      rfl
    rw [← htake, List.take_append_drop]
  rw [hsplit, List.find?_append, ← hkey, hfirst]
  rfl

/-- The record that a write leaves follows the records before it. Its number and
its revision are the count of records, and what it says of the past is found in
the trail. -/
theorem Accounts.follows_nextRecord (h : l.Accounts done)
    (hroom : l.lastRevision.toNat + 1 < UInt64.size) (request : WriteRequest) :
    (l.nextRecord request).Follows request l.history := by
  have hlength : l.history.length = l.records.length := List.length_reverse
  have hkey : (l.nextRecord request).ruleKey = request.key := key_nextRule l request
  refine ⟨?id, ?revision, hkey, ?content, ?actor, ?time, ?before, ?action, ?creation⟩
  case id =>
    rw [hlength]
    exact UInt64.toNat_ofNat_of_lt' (by rw [← h.count]; exact hroom)
  case revision =>
    show (l.nextRule request).revision.toNat = _
    rw [nextRule, WriteRequest.revision_rule, toNat_succ hroom, h.count, hlength]
  case content => exact WriteRequest.content_rule ..
  case actor => exact ⟨WriteRequest.updatedBy_rule .., WriteRequest.updatedBy_rule ..⟩
  case time => exact ⟨WriteRequest.updatedAt_rule .., WriteRequest.updatedAt_rule ..⟩
  case before =>
    rw [hkey]
    exact h.get?_eq_history request.key
  case action =>
    rw [hkey, ← h.get?_eq_none_iff]
    show AuditAction.ofBefore (l.get? request.key) = .create ↔ _
    cases l.get? request.key with
    | none => exact iff_of_true rfl rfl
    | some old => exact iff_of_false (fun h => nomatch h) (fun h => nomatch h)
  case creation =>
    rw [hkey, List.find?_append]
    show ∃ first, _ ∧ (request.rule (l.get? request.key) _).createdAt = _ ∧
      (request.rule (l.get? request.key) _).createdBy = _
    cases hold : l.get? request.key with
    | none =>
      -- No record of the key is earlier, so this one is the first.
      have hnone : l.history.find? (·.ruleKey = request.key) = none := by
        rw [List.find?_eq_none]
        intro b hb
        rw [decide_eq_true_eq]
        exact (h.get?_eq_none_iff _).mp hold b hb
      refine ⟨l.nextRecord request, ?_, ?_, ?_⟩
      · rw [hnone, List.find?_singleton, decide_eq_true hkey]
        rfl
      · exact (WriteRequest.updatedAt_rule ..).symm
      · exact (WriteRequest.updatedBy_rule ..).symm
    | some old =>
      obtain ⟨first, hfirst, hcreation⟩ := h.creation_of_get? hold
      refine ⟨first, ?_, hcreation⟩
      rw [hfirst]
      rfl

/-! ### The invariant -/

/-- A write keeps the account. Earlier records stay as they are, and the new one
is the newest of its key. -/
theorem Accounts.next (h : l.Accounts done) (hroom : l.lastRevision.toNat + 1 < UInt64.size)
    (request : WriteRequest) : (l.next request).Accounts (done ++ [request]) where
  count := by
    show (l.lastRevision + 1).toNat = (_ :: l.records).length
    rw [toNat_succ hroom, h.count, List.length_cons]
  length := by
    rw [history_next, List.length_append, List.length_append, h.length]
    rfl
  follows := by
    intro i a hi
    have hlength := h.length
    rw [history_next] at hi ⊢
    by_cases hlt : i < l.history.length
    · -- An earlier record does not see the new one.
      rw [List.getElem?_append_left hlt] at hi
      obtain ⟨earlier, hearlier, hfollows⟩ := h.follows i a hi
      rw [List.take_append_of_le_length (Nat.le_of_lt hlt)]
      exact ⟨earlier, by rw [List.getElem?_append_left (by omega), hearlier], hfollows⟩
    · obtain ⟨hbound, hget⟩ := List.getElem?_eq_some_iff.mp hi
      rw [List.length_append, List.length_singleton] at hbound
      obtain rfl : i = l.history.length := by omega
      rw [List.getElem?_concat_length] at hi
      rw [← Option.some.inj hi, List.take_left]
      refine ⟨request, ?_, h.follows_nextRecord hroom request⟩
      rw [hlength, List.getElem?_concat_length]
  current := by
    intro key
    have hkey : (l.nextRecord request).ruleKey = request.key := key_nextRule l request
    show (putRule (l.nextRule request) l.rules).find? (·.key = key)
      = (List.find? (·.ruleKey = key) (l.nextRecord request :: l.records)).map (·.after)
    rw [(putsByKey_putRule _).find?, key_nextRule, List.find?_cons, hkey]
    -- The newest record of the key of the request is the new one.
    by_cases hsame : request.key = key
    · rw [if_pos hsame, decide_eq_true hsame]
      rfl
    · rw [if_neg hsame, decide_eq_false hsame]
      exact h.current key
  distinct := nodup_keys_putRule h.distinct

/-- Every ledger that is reached accounts for the requests that were accepted on
the way. -/
theorem Reached.accounts (h : Reached done l) : l.Accounts done := by
  induction h with
  | empty => exact accounts_empty
  | next request _ hroom ih => exact ih.next hroom request

/-! ### Listings -/

/-- A current rule is the rule after the record of its revision. Revisions
number the records, so the record can be pointed at. -/
theorem Accounts.exists_record (h : l.Accounts done) {r : Rule} (hr : r ∈ l.rules) :
    ∃ a, l.history[r.revision.toNat - 1]? = some a ∧ a.after = r := by
  have hget : l.get? r.key = some r := (mem_iff_find?_key h.distinct).mp hr
  rw [h.get?_eq_history] at hget
  obtain ⟨a, ha, rfl⟩ := Option.map_eq_some_iff.mp hget
  obtain ⟨i, hi⟩ := List.getElem?_of_mem (List.mem_reverse.mp (List.mem_of_find?_eq_some ha))
  obtain ⟨_, -, hfollows⟩ := h.follows i a hi
  have hbound := (List.getElem?_eq_some_iff.mp hi).1
  have hrevision := hfollows.revision
  rw [List.length_take_of_le (Nat.le_of_lt hbound)] at hrevision
  rw [hrevision, Nat.add_sub_cancel]
  exact ⟨a, hi, rfl⟩

/-- No two current rules have one revision. -/
theorem Accounts.eq_of_revision (h : l.Accounts done) {r s : Rule} (hr : r ∈ l.rules)
    (hs : s ∈ l.rules) (hrevision : r.revision = s.revision) : r = s := by
  obtain ⟨a, ha, rfl⟩ := h.exists_record hr
  obtain ⟨b, hb, rfl⟩ := h.exists_record hs
  rw [hrevision, hb] at ha
  rw [Option.some.inj ha]

/-- A listing has the current rules that the query accepts. A rule is current
when it is found under its key. -/
theorem Accounts.mem_list_iff (h : l.Accounts done) (q : Query) (r : Rule) :
    r ∈ l.list q ↔ (∃ key, l.get? key = some r) ∧ q.accepts r = true := by
  rw [list, Rule.sortByPrecedence, List.mem_mergeSort, List.mem_filter,
    mem_iff_find?_key h.distinct]
  refine and_congr_left fun _ => ⟨fun hget => ⟨r.key, hget⟩, ?_⟩
  rintro ⟨key, hget⟩
  have hkey : r.key = key := by simpa using List.find?_some hget
  rw [hkey]
  exact hget

/-- A listing stands in order of precedence, and no rule stands in it twice. Two
rules never share a revision, so the order is strict. -/
theorem Accounts.pairwise_list (h : l.Accounts done) (q : Query) :
    (l.list q).Pairwise fun a b =>
      b.priority < a.priority ∨ a.priority = b.priority ∧ b.revision < a.revision := by
  have hmem : ∀ r ∈ l.list q, r ∈ l.rules := fun r hr =>
    (List.mem_filter.mp (List.mem_mergeSort.mp hr)).1
  have hnodup : (l.list q).Nodup :=
    (List.mergeSort_perm ..).nodup_iff.mpr ((List.Nodup.of_map _ h.distinct).filter _)
  have hsorted : (l.list q).Pairwise fun a b => a.precedes b = true :=
    List.pairwise_mergeSort Rule.precedes_trans Rule.precedes_total _
  -- Equal priorities leave the order to the revisions, and these are different.
  refine (hsorted.and hnodup).imp_of_mem fun {a b} ha hb hab => ?_
  obtain ⟨hprecedes, hne⟩ := hab
  have hrevision : a.revision.toNat ≠ b.revision.toNat := fun heq =>
    hne (h.eq_of_revision (hmem a ha) (hmem b hb) (UInt64.toNat_inj.mp heq))
  rw [Rule.precedes_iff] at hprecedes
  rw [UInt32.lt_iff_toNat_lt, UInt64.lt_iff_toNat_lt, ← UInt32.toNat_inj]
  omega

end Ledger

/-- **The trail determines the rules.** A run of requests on the empty ledger
leaves one record for each request that succeeds, and each record follows
its request and the records before it. The rule of a key is the rule after
its newest record. A listing has the current rules that the query accepts,
each once, by priority and then by revision; the trail of a key starts with
its newest record. A write to one key leaves the rules of the others. -/
theorem trail_determines_rules (requests : List WriteRequest) :
    let l := Ledger.empty.after requests
    let done := Ledger.empty.accepted requests
    l.history.length = done.length ∧
    (∀ (i : Nat) (request : WriteRequest), done[i]? = some request →
      ∃ a, l.history[i]? = some a ∧ a.Follows request (l.history.take i)) ∧
    (∀ key, l.get? key = (l.history.reverse.find? (·.ruleKey = key)).map (·.after)) ∧
    (∀ (q : Query) (r : Rule), r ∈ l.list q ↔ (∃ key, l.get? key = some r) ∧ q.accepts r = true) ∧
    (∀ q : Query, (l.list q).Pairwise fun a b =>
      b.priority < a.priority ∨ a.priority = b.priority ∧ b.revision < a.revision) ∧
    (∀ (key : Option RuleKey) (limit : Nat), l.trail key limit
      = (l.history.reverse.filter fun a => key.all (a.ruleKey = ·)).take limit) ∧
    ∀ (request : WriteRequest) (key : RuleKey), key ≠ request.key →
      (l.write request).2.get? key = l.get? key := by
  intro l done
  have hreached : Ledger.Reached done l := Ledger.Reached.empty.after requests
  have h : l.Accounts done := hreached.accounts
  refine ⟨h.length, fun i request hi => ?_, h.get?_eq_history, h.mem_list_iff, h.pairwise_list,
    fun key limit => ?_, fun request key hkey => ?_⟩
  · have hbound : i < l.history.length := by
      rw [h.length]
      exact (List.getElem?_eq_some_iff.mp hi).1
    obtain ⟨other, hother, hfollows⟩ := h.follows i _ (List.getElem?_eq_getElem hbound)
    rw [hi] at hother
    rw [Option.some.inj hother]
    exact ⟨_, List.getElem?_eq_getElem hbound, hfollows⟩
  · rw [Ledger.trail, Ledger.history, List.reverse_reverse]
  -- A request that fails leaves all rules, its own included.
  · by_cases hroom : l.lastRevision.toNat + 1 < UInt64.size
    · rw [Ledger.write_eq hroom]
      show (Ledger.putRule (l.nextRule request) l.rules).find? (·.key = key) = _
      rw [(Ledger.putsByKey_putRule _).find?, Ledger.key_nextRule, if_neg hkey.symm]
      rfl
    · rw [Ledger.write_of_exhausted hroom]

end Overrides
